/-
# Escape — a written string reads back

`escape` writes every character alone, so the round trip is a fact about one
character, `unescape_append`, and an induction over the text.

`WrittenAs` collects the two shapes in which a character is written.  It is
what reading a string literal rests on as well: a character that stands for
itself is none of those at which a literal could end, and an escape has such a
character only right after its backslash.
-/
import Wordcode.Proofs.Text.Characters

namespace Wordcode.Text

/-! ## Code points -/

variable {c : Char} {cs digits rest : List Char}

theorem ofCodePoint?_eq_some_iff : ofCodePoint? digits = some c ↔
    digits ≠ [] ∧ (∀ d ∈ digits, d.isHexDigit) ∧ ofDigits 16 digits = c.toNat := by
  have hvalue : (ofDigits 16 digits).isValidChar ∧ Char.ofNat (ofDigits 16 digits) = c ↔
      ofDigits 16 digits = c.toNat := by
    constructor
    · rintro ⟨hvalid, rfl⟩
      rw [Char.ofNat, dif_pos hvalid]
      rfl
    · intro h
      rw [h, Char.ofNat_toNat]
      exact ⟨c.valid, rfl⟩
  rw [ofCodePoint?, Option.ite_none_right_eq_some, Option.some.injEq, Bool.and_eq_true,
    Bool.and_eq_true, decide_eq_true_eq, and_assoc, and_assoc, hvalue, List.all_eq_true]
  simp

/-- A code point is read as far as the brace, and one sign before it is passed over. -/
theorem readCodePoint_eq_some_iff : readCodePoint cs = some (c, rest) ↔
    ∃ sign digits, (sign = [] ∨ sign = ['+']) ∧ cs = sign ++ (digits ++ '}' :: rest)
      ∧ ofCodePoint? digits = some c := by
  have hbrace : ∀ d ∈ ('}' :: rest).head?, decide (d ≠ '}') = false := by
    rintro d ⟨⟩
    rfl
  unfold readCodePoint
  constructor
  · intro h
    split at h
    · cases h
    · next d rest' hdrop =>
      obtain ⟨_, hdigits, hpair⟩ := Option.map_eq_some_iff.mp h
      obtain ⟨rfl, rfl⟩ := Prod.mk.inj hpair
      have hd : d = '}' := by
        have hhead := List.head?_dropWhile_not (p := (· ≠ '}')) cs
        rw [hdrop] at hhead
        simpa using hhead
      have hsplit := List.takeWhile_append_dropWhile (p := (· ≠ '}')) (l := cs)
      rw [hdrop, hd] at hsplit
      split at hdigits
      · next digits htake =>
        rw [htake] at hsplit
        exact ⟨['+'], digits, .inr rfl, hsplit.symm, hdigits⟩
      · exact ⟨[], _, .inl rfl, hsplit.symm, hdigits⟩
  · rintro ⟨sign, digits, hsign, rfl, hdigits⟩
    obtain ⟨_, hhex, _⟩ := ofCodePoint?_eq_some_iff.mp hdigits
    have hrun : ∀ d ∈ sign ++ digits, decide (d ≠ '}') = true := by
      intro d hd
      refine decide_eq_true ?_
      rintro rfl
      rcases List.mem_append.mp hd with hd | hd
      · rcases hsign with rfl | rfl
        · cases hd
        · exact absurd (List.mem_singleton.mp hd) (by decide)
      · exact absurd (hhex _ hd) (by decide)
    rw [← List.append_assoc, takeWhile_append_eq hrun hbrace, dropWhile_append_eq hrun hbrace]
    rcases hsign with rfl | rfl
    · -- digits have no sign that could be passed over
      cases digits with
      | nil => simp [hdigits]
      | cons d ds =>
          have hsign : d ≠ '+' := by
            rintro rfl
            exact absurd (hhex '+' (List.mem_cons_self ..)) (by decide)
          simp [hsign, hdigits]
    · simp [hdigits]

/-- A code point between braces reads back. -/
theorem readCodePoint_toDigits (c : Char) (rest : List Char) :
    readCodePoint (Nat.toDigits 16 c.toNat ++ '}' :: rest) = some (c, rest) := by
  refine readCodePoint_eq_some_iff.mpr ⟨[], _, .inl rfl, rfl, ofCodePoint?_eq_some_iff.mpr ?_⟩
  exact ⟨Nat.toDigits_ne_nil, fun _ => isHexDigit_of_mem_toDigits,
    ofDigits_toDigits (by decide) (by decide) _⟩

/-! ## Shapes -/

/-- A character that means something inside a string literal. -/
def Special (c : Char) : Prop := c = '"' ∨ c = '\\' ∨ c = '\n'

instance (c : Char) : Decidable (Special c) := inferInstanceAs (Decidable (_ ∨ _))

/-- The shapes in which a character is written. -/
inductive WrittenAs (c : Char) : List Char → Prop where
  | plain : ¬ Special c → WrittenAs c [c]
  | escaped {d : Char} {tail : List Char} : d ≠ '\n' → (∀ e ∈ tail, ¬ Special e) →
      (∀ rest, readEscape (d :: (tail ++ rest)) = some (c, rest)) →
      WrittenAs c ('\\' :: d :: tail)

theorem writtenAs_escapeChar (c : Char) : WrittenAs c (escapeChar c) := by
  unfold escapeChar
  split
  · next hc => exact hc ▸ .escaped (by decide) nofun fun _ => rfl
  split
  · next hc => exact hc ▸ .escaped (by decide) nofun fun _ => rfl
  split
  · next hc => exact hc ▸ .escaped (by decide) nofun fun _ => rfl
  next hnewline =>
  split
  · next hc =>
      simp only [Bool.or_eq_true, decide_eq_true_eq] at hc
      rcases hc with (rfl | rfl) | rfl
      all_goals exact .escaped (by decide) nofun fun _ => rfl
  next hquote =>
  simp only [Bool.or_eq_true, decide_eq_true_eq, not_or] at hquote
  split
  · exact .plain fun hspecial => by
      rcases hspecial with h | h | h
      · exact hquote.1.2 h
      · exact hquote.2 h
      · exact hnewline h
  · refine .escaped (by decide) (fun e he => ?_) fun rest => ?_
    · rcases List.mem_cons.mp he with rfl | he
      · decide
      rcases List.mem_append.mp he with he | he
      · rintro (rfl | rfl | rfl)
        all_goals exact absurd (isHexDigit_of_mem_toDigits he) (by decide)
      · rw [List.mem_singleton.mp he]
        decide
    · have hread := readCodePoint_toDigits c rest
      simpa [readEscape] using hread

/-! ## Reading back -/

theorem unescape_cons (hc : c ≠ '\\') (rest : List Char) :
    unescape (c :: rest) = (unescape rest).map (c :: ·) := by
  rw [unescape, if_neg hc]

theorem unescape_escaped (h : readEscape cs = some (c, rest)) :
    unescape ('\\' :: cs) = (unescape rest).map (c :: ·) := by
  rw [unescape, if_pos rfl]
  split
  · next hnone => rw [h] at hnone; cases hnone
  · next hsome => rw [h] at hsome; cases hsome; rfl

theorem unescape_of_readEscape_eq_none (h : readEscape cs = none) :
    unescape ('\\' :: cs) = none := by
  rw [unescape, if_pos rfl]
  split
  · rfl
  · next hsome => rw [h] at hsome; cases hsome

theorem unescape_append {c : Char} {written : List Char} (h : WrittenAs c written)
    (rest : List Char) : unescape (written ++ rest) = (unescape rest).map (c :: ·) := by
  cases h with
  | plain hc => exact unescape_cons (fun h => hc (.inr (.inl h))) rest
  | escaped _ _ hread => exact unescape_escaped (hread rest)

/-- What is written between the quotes of a literal reads back. -/
theorem unescape_escape (cs : List Char) : unescape (escape cs) = some cs := by
  induction cs with
  | nil => rw [escape, List.flatMap_nil, unescape]
  | cons c cs ih =>
      rw [escape, List.flatMap_cons, unescape_append (writtenAs_escapeChar c), ← escape, ih,
        Option.map_some]

theorem toList_literal (s : String) : (literal s).toList = '"' :: (escape s.toList ++ ['"']) := by
  rw [literal, String.toList_append, String.toList_append,
    String.toList_ofList (l := escape s.toList), List.append_assoc]
  rfl

end Wordcode.Text
