/-
# Coverage — nothing of a text is lost

A text that is cut by longest matches is covered (`Covers`): every byte belongs to
one lexeme, or to a run of blanks or a comment between lexemes.  Nothing in a lexeme
is looked at again, so a comment can begin only where no string is open.

Whatever cuts by longest matches covers its text (`Munches.covers`), even if it
takes less of a string that does not end than the scanner does.
-/
import Wordcode.Proofs.Listing.Pattern

namespace Wordcode

open Text

namespace Lexeme

/-- What may be passed over before `after`: blanks, or a comment with all of its
line. -/
inductive IsGap : List Char → List Char → Prop where
  | blanks {gap after : List Char} (h : ∀ c ∈ gap, isBlank c) : IsGap gap after
  | comment {mark : Char} {comment after : List Char} (hmark : startsComment mark)
      (hline : '\n' ∉ comment) (hend : ∀ c ∈ after.head?, c = '\n') : IsGap (mark :: comment) after

/-- A byte of a text that has `start` bytes before it lies in a gap, and all of this
gap is outside of the lexemes. -/
def InGap (start : Nat) (text : List Char) (ls : List Lexeme) (pos : Nat) : Prop :=
  ∃ before gap after : List Char, text = before ++ (gap ++ after) ∧ IsGap gap after
    ∧ start + byteLength before ≤ pos ∧ pos < start + byteLength (before ++ gap)
    ∧ ∀ l ∈ ls, l.stop ≤ start + byteLength before ∨ start + byteLength (before ++ gap) ≤ l.start

/-- Lexemes cover a text that has `start` bytes before it. -/
structure Covers (start : Nat) (text : List Char) (ls : List Lexeme) : Prop where
  /-- Every lexeme has a byte. -/
  nonempty : ∀ l ∈ ls, l.start < l.stop
  /-- Every lexeme begins and ends between characters, and is what stands there. -/
  boundary : ∀ l ∈ ls, ∃ before after, text = before ++ (l.text ++ after)
    ∧ l.start = start + byteLength before ∧ l.stop = start + byteLength (before ++ l.text)
  /-- Lexemes come one after another and have nothing in common. -/
  ordered : ls.Pairwise fun l l' => l.start < l'.start ∧ l.stop ≤ l'.start
  /-- Every byte lies in a lexeme or in a gap. -/
  covered : ∀ pos, start ≤ pos → pos < start + byteLength text →
    (∃ l ∈ ls, l.start ≤ pos ∧ pos < l.stop) ∨ InGap start text ls pos
  /-- There are no more lexemes than bytes. -/
  length_le : ls.length ≤ byteLength text

variable {start pos : Nat} {front text rest gap : List Char} {ls : List Lexeme} {p : Pattern}
  {token? : Option Token}

/-- What stands further on in a text stays in its gap when something is put before. -/
theorem InGap.prepend {others : List Lexeme} (h : InGap (start + byteLength front) rest ls pos)
    (hothers : ∀ l ∈ others, l.stop ≤ start + byteLength front) :
    InGap start (front ++ rest) (others ++ ls) pos := by
  obtain ⟨before, gap, after, rfl, hgap, hlo, hhi, hout⟩ := h
  have hshift : ∀ cs,
      start + byteLength (front ++ cs) = start + byteLength front + byteLength cs := by
    intro cs
    rw [byteLength_append, Nat.add_assoc]
  refine ⟨front ++ before, gap, after, (List.append_assoc ..).symm, hgap, ?_, ?_, ?_⟩
  · rwa [hshift]
  · rwa [List.append_assoc, hshift]
  · intro l hl
    rw [List.append_assoc, hshift, hshift]
    rcases List.mem_append.mp hl with hl | hl
    · exact .inl (Nat.le_trans (hothers l hl) (Nat.le_add_right _ _))
    · exact hout l hl

namespace Covers

theorem start_le (h : Covers start text ls) : ∀ l ∈ ls, start ≤ l.start := by
  intro l hl
  obtain ⟨before, _, _, hstart, _⟩ := h.boundary l hl
  rw [hstart]
  exact Nat.le_add_right _ _

theorem boundary_append (h : Covers (start + byteLength front) rest ls) :
    ∀ l ∈ ls, ∃ before after, front ++ rest = before ++ (l.text ++ after)
      ∧ l.start = start + byteLength before ∧ l.stop = start + byteLength (before ++ l.text) := by
  intro l hl
  obtain ⟨before, after, rfl, hstart, hstop⟩ := h.boundary l hl
  refine ⟨front ++ before, after, (List.append_assoc ..).symm, ?_, ?_⟩
  · rw [hstart, byteLength_append, Nat.add_assoc]
  · rw [hstop, List.append_assoc, byteLength_append front, Nat.add_assoc]

theorem nil : Covers start [] [] where
  nonempty := List.forall_mem_nil _
  boundary := List.forall_mem_nil _
  ordered := .nil
  covered _ hlo hhi := absurd hhi (Nat.not_lt_of_le hlo)
  length_le := Nat.le_refl _

/-- A gap may be put before a text. -/
theorem skip (hgap : IsGap gap rest) (h : Covers (start + byteLength gap) rest ls) :
    Covers start (gap ++ rest) ls where
  nonempty := h.nonempty
  boundary := h.boundary_append
  ordered := h.ordered
  covered pos hlo hhi := by
    rw [byteLength_append, ← Nat.add_assoc] at hhi
    by_cases hpos : pos < start + byteLength gap
    · exact .inr ⟨[], gap, rest, rfl, hgap, hlo, hpos, fun l hl => .inr (h.start_le l hl)⟩
    · exact (h.covered pos (Nat.le_of_not_lt hpos) hhi).imp_right fun hin =>
        hin.prepend (List.forall_mem_nil _)
  length_le := by
    rw [byteLength_append]
    exact Nat.le_trans h.length_le (Nat.le_add_left _ _)

/-- A lexeme may be put before a text. -/
theorem lexeme (htext : text ≠ []) (h : Covers (start + byteLength text) rest ls) :
    Covers start (text ++ rest) (⟨start, text, token?⟩ :: ls) where
  nonempty := List.forall_mem_cons.mpr
    ⟨Nat.lt_add_of_pos_right (byteLength_pos htext), h.nonempty⟩
  boundary := List.forall_mem_cons.mpr ⟨⟨[], rest, rfl, rfl, rfl⟩, h.boundary_append⟩
  ordered := by
    refine .cons (fun l hl => ?_) h.ordered
    have hstart : start + byteLength text ≤ l.start := h.start_le l hl
    exact ⟨Nat.lt_of_lt_of_le (Nat.lt_add_of_pos_right (byteLength_pos htext)) hstart, hstart⟩
  covered pos hlo hhi := by
    rw [byteLength_append, ← Nat.add_assoc] at hhi
    by_cases hpos : pos < start + byteLength text
    · exact .inl ⟨_, List.mem_cons_self .., hlo, hpos⟩
    · rcases h.covered pos (Nat.le_of_not_lt hpos) hhi with ⟨l, hl, hin⟩ | hin
      · exact .inl ⟨l, List.mem_cons_of_mem _ hl, hin⟩
      · have hprepend : InGap start (text ++ rest) ([⟨start, text, token?⟩] ++ ls) pos :=
          hin.prepend (List.forall_mem_singleton.mpr (Nat.le_refl _))
        exact .inr hprepend
  length_le := by
    have hpos := byteLength_pos htext
    have hle := h.length_le
    rw [byteLength_append, List.length_cons]
    omega

end Covers

/-! ## Longest matches -/

theorem Takes.ne_nil (h : Takes text rest token?) : text ≠ [] := by
  cases h with
  | longest _ h => exact h.hit.ne_nil
  | stray htext _ | unterminated htext _ _ =>
      rw [htext]
      exact List.cons_ne_nil _ _

/-- What is passed over is a gap: a comment that is as long as it can be goes on to
the end of its line. -/
theorem Pattern.Longest.isGap (hskip : p.isSkipped) (h : p.Longest text rest) :
    IsGap text rest := by
  obtain ⟨hit, hle⟩ := h
  cases hit with
  | blanks hc hcs => exact .blanks (List.forall_mem_cons.mpr ⟨hc, hcs⟩)
  | @comment mark comment hmark hline =>
      refine .comment hmark hline fun d hd => ?_
      by_contra hne
      obtain ⟨rest, rfl⟩ := List.head?_eq_some_iff.mp hd
      have hlonger : Pattern.Matches .comment (mark :: (comment ++ [d])) := by
        refine .comment hmark fun hmem => ?_
        rcases List.mem_append.mp hmem with hmem | hmem
        · exact hline hmem
        · exact hne (List.mem_singleton.mp hmem).symm
      have hfront : mark :: (comment ++ [d]) <+: mark :: comment ++ d :: rest := by
        rw [List.cons_append, List.cons_prefix_cons]
        exact ⟨rfl, rest, by rw [List.append_assoc, List.singleton_append]⟩
      have hlength := hle _ _ hfront hlonger
      rw [List.length_cons, List.length_cons, List.length_append, List.length_singleton] at hlength
      omega
  | identifier | labelRef | directive | number | negative | hex | str | comma | colon =>
      cases hskip

theorem Munches.covers (h : Munches start text ls) : Covers start text ls := by
  induction h with
  | nil => exact .nil
  | skip hskip hlongest _ ih => exact .skip (hlongest.isGap hskip) ih
  | lexeme htakes _ ih => exact .lexeme htakes.ne_nil ih

/-! ## The scanner -/

/-- The scanner cuts by longest matches; and what cuts a text by longest matches, and
takes one character or an unterminated string where nothing matches, covers the
text. -/
theorem scan_covers (start : Nat) (text : List Char) :
    Munches start text (scan start text)
      ∧ ∀ ls : List Lexeme, Munches start text ls → Covers start text ls := by
  refine ⟨munches_scan start text, ?_⟩
  intro ls hls
  exact hls.covers

/-- A string with both marks of comments and a quote in it, two characters that begin
nothing, a comment, and a string that does not end. -/
theorem scan_covers_open_string :
    let text := "l:\t\"a;\\\"#é\" -@ # c\n\"b;".toList
    let ls : List Lexeme := [⟨0, ['l'], some (.identifier "l")⟩, ⟨1, [':'], some .colon⟩,
      ⟨3, ['"', 'a', ';', '\\', '"', '#', 'é', '"'], some (.str "a;\"#é")⟩, ⟨13, ['-'], none⟩,
      ⟨14, ['@'], none⟩, ⟨19, ['\n'], none⟩, ⟨20, ['"', 'b', ';'], none⟩]
    Munches 0 text ls ∧ Covers 0 text ls := by
  intro text ls
  obtain ⟨hscan, hcovers⟩ := scan_covers 0 text
  have hls : scan 0 text = ls := by decide +kernel
  rw [hls] at hscan
  exact ⟨hscan, hcovers ls hscan⟩

end Lexeme

end Wordcode
