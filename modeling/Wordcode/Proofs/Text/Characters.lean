/-
# Characters — what written text consists of

Two facts that every reader of written text rests on.  A run of characters of
one sort ends where a character of another sort follows (`takeWhile_append_eq`).
And everything that is written, apart from the ends of lines, is `Visible`: an
ASCII character from the blank to the tilde, so nothing of it can end a line.
-/
import Wordcode.Text.Escape
import Wordcode.Text.Layout

namespace Wordcode.Text

/-! ## Runs -/

section Runs
variable {α : Type} {p : α → Bool} {run rest : List α}

theorem takeWhile_append_eq (hrun : ∀ a ∈ run, p a) (hrest : ∀ a ∈ rest.head?, p a = false) :
    (run ++ rest).takeWhile p = run := by
  rw [List.takeWhile_append_of_pos hrun]
  cases rest with
  | nil => rw [List.takeWhile_nil, List.append_nil]
  | cons a rest =>
      rw [List.takeWhile_cons_of_neg (Bool.eq_false_iff.mp (hrest a rfl)), List.append_nil]

theorem dropWhile_append_eq (hrun : ∀ a ∈ run, p a) (hrest : ∀ a ∈ rest.head?, p a = false) :
    (run ++ rest).dropWhile p = rest := by
  rw [List.dropWhile_append_of_pos hrun]
  cases rest with
  | nil => rfl
  | cons a rest => exact List.dropWhile_cons_of_neg (Bool.eq_false_iff.mp (hrest a rfl))

theorem takeWhile_append_of_length (h : ((run ++ rest).takeWhile p).length = run.length) :
    (run ++ rest).takeWhile p = run := by
  have hprefix := List.prefix_of_prefix_length_le (List.takeWhile_prefix (l := run ++ rest) p)
    (List.prefix_append run rest) (Nat.le_of_eq h)
  exact hprefix.eq_of_length h

theorem forall_of_takeWhile (hrun : (run ++ rest).takeWhile p = run) : ∀ a ∈ run, p a := by
  have hall : run.all p := hrun ▸ List.all_takeWhile
  exact List.all_eq_true.mp hall

/-- No other run at the front of a text is longer. -/
theorem length_le_of_run {other : List α} (hrun : (run ++ rest).takeWhile p = run)
    (hother : ∀ a ∈ other, p a) (hfront : other <+: run ++ rest) :
    other.length ≤ run.length := by
  obtain ⟨more, hmore⟩ := hfront
  rw [← hrun, ← hmore, List.takeWhile_append_of_pos hother, List.length_append]
  exact Nat.le_add_right _ _

theorem isEmpty_takeWhile : (rest.takeWhile p).isEmpty = !rest.head?.any p := by
  cases rest with
  | nil => rfl
  | cons a rest => cases ha : p a <;> simp [ha]

theorem head?_any_eq_false_of_length (h : ((run ++ rest).takeWhile p).length = run.length) :
    rest.head?.any p = false := by
  have hrun := takeWhile_append_of_length h
  rw [List.takeWhile_append_of_pos (forall_of_takeWhile hrun)] at hrun
  have hempty : (rest.takeWhile p).isEmpty := by simpa using hrun
  rwa [isEmpty_takeWhile, Bool.not_eq_true'] at hempty

/-- A run that ends where a text begins ends there before any other text that goes
on with it only if the first one does. -/
theorem takeWhile_append_congr {rest' : List α}
    (h : ((run ++ rest).takeWhile p).length = run.length)
    (hrest' : rest'.head?.any p → rest.head?.any p) :
    (run ++ rest').takeWhile p = (run ++ rest).takeWhile p := by
  have hrun := takeWhile_append_of_length h
  have hend : ¬ rest'.head?.any p :=
    mt hrest' (Bool.eq_false_iff.mp (head?_any_eq_false_of_length h))
  rw [takeWhile_append_eq (forall_of_takeWhile hrun), hrun]
  intro a ha
  rw [ha] at hend
  exact Bool.eq_false_iff.mpr hend

end Runs

/-! ## Letters -/

/-- What is the same for a capital letter and the small one does not change when
characters are made small. -/
theorem apply_toLower {α : Type} {p : Char → α}
    (h : ∀ k : Fin 26, p (Char.ofNat (65 + k)).toLower = p (Char.ofNat (65 + k))) (c : Char) :
    p c.toLower = p c := by
  by_cases hc : c.val ≥ 'A'.val ∧ c.val ≤ 'Z'.val
  · obtain ⟨hlo, hhi⟩ : 65 ≤ c.toNat ∧ c.toNat ≤ 90 := by
      rwa [ge_iff_le, UInt32.le_iff_toNat_le, UInt32.le_iff_toNat_le] at hc
    have hk := h ⟨c.toNat - 65, by omega⟩
    rwa [show 65 + (c.toNat - 65) = c.toNat by omega, Char.ofNat_toNat] at hk
  · have hsame : c.toLower = c := dif_neg hc
    rw [hsame]

theorem apply_eq_of_toLower_eq {α : Type} {p : Char → α}
    (h : ∀ k : Fin 26, p (Char.ofNat (65 + k)).toLower = p (Char.ofNat (65 + k))) {c d : Char}
    (hcase : c.toLower = d.toLower) : p c = p d := by
  rw [← apply_toLower h c, hcase, apply_toLower h]

/-! ## Digits -/

theorem exists_digitChar_of_mem {base n : Nat} {c : Char} (hbase : 1 < base)
    (h : c ∈ Nat.toDigits base n) : ∃ d < base, c = Nat.digitChar d := by
  induction n using Nat.strongRecOn with
  | ind n ih =>
      rw [Nat.toDigits_eq_if hbase] at h
      split at h
      · next hn => exact ⟨n, hn, List.mem_singleton.mp h⟩
      · rcases List.mem_append.mp h with h | h
        · exact ih (n / base) (Nat.div_lt_self (by omega) hbase) h
        · exact ⟨n % base, Nat.mod_lt n (by omega), List.mem_singleton.mp h⟩

theorem isHexDigit_of_mem_toDigits {n : Nat} {c : Char} (h : c ∈ Nat.toDigits 16 n) :
    c.isHexDigit := by
  obtain ⟨d, hd, rfl⟩ := exists_digitChar_of_mem (by decide) h
  have hall : ∀ d : Fin 16, (Nat.digitChar d.val).isHexDigit := by decide
  exact hall ⟨d, hd⟩

theorem isDigit_of_mem_toDigits {n : Nat} {c : Char} (h : c ∈ Nat.toDigits 10 n) : c.isDigit :=
  Nat.isDigit_of_mem_toDigits (by decide) (by decide) h

/-- What a number is written as, split at its first digit. -/
theorem exists_toDigits_eq_cons (base n : Nat) : ∃ c cs, Nat.toDigits base n = c :: cs :=
  List.exists_cons_of_ne_nil Nat.toDigits_ne_nil

/-! ## Visible characters -/

/-- A character from the blank to the tilde. -/
def Visible (c : Char) : Prop := ' ' ≤ c ∧ c ≤ '~'

instance (c : Char) : Decidable (Visible c) :=
  inferInstanceAs (Decidable (' ' ≤ c ∧ c ≤ '~'))

/-- A text of visible characters. -/
def AllVisible (s : String) : Prop := ∀ c ∈ s.toList, Visible c

-- The instance goes through the characters of the text: `Char` is finite, and what is
-- found for a bounded quantifier may go through all of them.
instance (s : String) : Decidable (AllVisible s) := List.decidableBAll Visible s.toList

theorem Visible.ne_newline {c : Char} (h : Visible c) : c ≠ '\n' := by
  rintro rfl
  exact absurd h (by decide)

theorem Visible.ne_return {c : Char} (h : Visible c) : c ≠ '\r' := by
  rintro rfl
  exact absurd h (by decide)

theorem visible_of_mem {cs : List Char} {c : Char} (h : c ∈ cs) (hcs : cs.all Visible = true) :
    Visible c :=
  of_decide_eq_true (List.all_eq_true.mp hcs c h)

theorem visible_of_mem_toDigits {base n : Nat} {c : Char} (hlo : 1 < base) (hhi : base ≤ 16)
    (h : c ∈ Nat.toDigits base n) : Visible c := by
  obtain ⟨d, hd, rfl⟩ := exists_digitChar_of_mem hlo h
  have hall : ∀ d : Fin 16, Visible (Nat.digitChar d.val) := by decide
  exact hall ⟨d, by omega⟩

theorem visible_of_mem_codePointEscape {c d : Char} (h : d ∈ codePointEscape c) : Visible d := by
  rw [codePointEscape, List.mem_append, List.mem_append, List.mem_singleton] at h
  rcases h with (h | h) | rfl
  · exact visible_of_mem h rfl
  · exact visible_of_mem_toDigits (by decide) (by decide) h
  · decide

theorem visible_of_mem_escapeChar {c d : Char} (h : d ∈ escapeChar c) : Visible d := by
  unfold escapeChar at h
  split at h
  · exact visible_of_mem h rfl
  split at h
  · exact visible_of_mem h rfl
  split at h
  · exact visible_of_mem h rfl
  split at h
  · next hc =>
      simp only [Bool.or_eq_true, decide_eq_true_eq] at hc
      rcases hc with (rfl | rfl) | rfl
      · exact visible_of_mem h rfl
      · exact visible_of_mem h rfl
      · exact visible_of_mem h rfl
  split at h
  · next hc => exact List.mem_singleton.mp h ▸ hc
  · exact visible_of_mem_codePointEscape h

namespace AllVisible

variable {s t : String}

theorem append (hs : AllVisible s) (ht : AllVisible t) : AllVisible (s ++ t) := by
  intro c hc
  rw [String.toList_append, List.mem_append] at hc
  exact hc.elim (hs c) (ht c)

theorem ofList {cs : List Char} (h : ∀ c ∈ cs, Visible c) : AllVisible (String.ofList cs) := by
  rwa [AllVisible, String.toList_ofList]

theorem repr (n : Nat) : AllVisible (toString n) := by
  rw [Nat.toString_eq_ofList_toDigits]
  exact ofList fun c => visible_of_mem_toDigits (by decide) (by decide)

theorem signed (n : Int) : AllVisible (String.ofList (Text.signed n)) := by
  refine ofList fun c hc => ?_
  unfold Text.signed at hc
  split at hc
  · rcases List.mem_cons.mp hc with rfl | hc
    · decide
    · exact visible_of_mem_toDigits (by decide) (by decide) hc
  · exact visible_of_mem_toDigits (by decide) (by decide) hc

theorem decimal (width n : Nat) : AllVisible (Text.decimal width n) := by
  refine ofList fun c hc => ?_
  rcases List.mem_append.mp hc with hc | hc
  · rw [List.eq_of_mem_replicate hc]
    decide
  · exact visible_of_mem_toDigits (by decide) (by decide) hc

theorem hexCapital (width n : Nat) : AllVisible (Text.hexCapital width n) := by
  refine ofList fun c hc => ?_
  obtain ⟨d, hd, rfl⟩ := List.mem_map.mp hc
  rcases List.mem_append.mp hd with hd | hd
  · rw [List.eq_of_mem_replicate hd]
    decide
  · obtain ⟨k, hk, rfl⟩ := exists_digitChar_of_mem (by decide) hd
    have hall : ∀ k : Fin 16, Visible (Nat.digitChar k.val).toUpper := by decide
    exact hall ⟨k, hk⟩

theorem padRight (hs : AllVisible s) (width : Nat) : AllVisible (Text.padRight width s) := by
  refine ofList fun c hc => ?_
  rcases List.mem_append.mp hc with hc | hc
  · exact hs c hc
  · rw [List.eq_of_mem_replicate hc]
    decide

theorem intercalate (hs : AllVisible s) {ts : List String} (hts : ∀ t ∈ ts, AllVisible t) :
    AllVisible (s.intercalate ts) := by
  induction ts with
  | nil => nofun
  | cons t ts ih =>
      rw [List.forall_mem_cons] at hts
      cases ts with
      | nil => rw [String.intercalate_singleton]; exact hts.1
      | cons u ts =>
          rw [String.intercalate_cons_cons]
          exact append (append hts.1 hs) (ih hts.2)

theorem literal (s : String) : AllVisible (Text.literal s) := by
  refine append (append (by decide) (ofList fun c hc => ?_)) (by decide)
  obtain ⟨d, _, hd⟩ := List.mem_flatMap.mp hc
  exact visible_of_mem_escapeChar hd

end AllVisible

end Wordcode.Text
