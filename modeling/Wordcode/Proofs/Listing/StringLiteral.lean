/-
# String literals — what stands between the quotes

`StandsFor` says what a piece of the body of a string literal denotes: a character
for itself, or an escape for another one.  It is the whole grammar of bodies, and
reading accepts exactly what it derives, with the value that it gives
(`unescape_eq_some_iff`).

Writing uses a part of this grammar.  `literal_exact` adds that what is written
reads back, and that a written literal is one lexeme wherever it stands: its own
closing quote ends it, whatever it holds and whatever follows.
-/
import Wordcode.Proofs.Listing.Literal

namespace Wordcode

namespace Text

/-! ## The grammar of bodies -/

/-- What a piece of the body of a string literal denotes.  The digits of a code
point are hexadecimal, the first counting most, with a plus sign before them or
without. -/
inductive StandsFor : List Char → Char → Prop where
  | plain {c : Char} (hc : c ≠ '\\') : StandsFor [c] c
  | newline : StandsFor ['\\', 'n'] '\n'
  | tab : StandsFor ['\\', 't'] '\t'
  | carriageReturn : StandsFor ['\\', 'r'] '\r'
  | null : StandsFor ['\\', '0'] '\x00'
  | backslash : StandsFor ['\\', '\\'] '\\'
  | doubleQuote : StandsFor ['\\', '"'] '"'
  | singleQuote : StandsFor ['\\', '\''] '\''
  | codePoint {sign digits : List Char} {ds : List Nat} {c : Char}
      (hsign : sign = [] ∨ sign = ['+']) (hne : digits ≠ [])
      (hdigits : List.Forall₂ (IsDigit 16) digits ds)
      (hvalue : c.toNat = Nat.ofDigits 16 ds.reverse) :
      StandsFor ('\\' :: 'u' :: '{' :: (sign ++ (digits ++ ['}']))) c

variable {c : Char} {body cs piece rest digits : List Char} {pieces : List (List Char)}

theorem isDigit_digitValue (hc : c.isHexDigit) : IsDigit 16 c (digitValue c) := by
  have hall : ∀ n : Fin 128, (Char.ofNat n).isHexDigit →
      digitValue (Char.ofNat n) < 16
        ∧ (Char.ofNat n).toLower = Nat.digitChar (digitValue (Char.ofNat n)) := by decide
  have hascii : c.toNat < 128 := by
    simp only [Char.isHexDigit, Char.isDigit, Bool.or_eq_true, Bool.and_eq_true,
      decide_eq_true_eq, UInt32.le_iff_toNat_le] at hc
    rcases hc with (⟨_, hle⟩ | ⟨_, hle⟩) | ⟨_, hle⟩
    all_goals exact Nat.lt_of_le_of_lt hle (by decide)
  have hdigit := hall ⟨c.toNat, hascii⟩
  rw [Char.ofNat_toNat] at hdigit
  exact hdigit hc

/-- Digits denote a code point exactly if their number is that of a character. -/
theorem ofCodePoint?_eq_some_iff_isDigit : ofCodePoint? digits = some c ↔
    digits ≠ [] ∧ ∃ ds, List.Forall₂ (IsDigit 16) digits ds
      ∧ c.toNat = Nat.ofDigits 16 ds.reverse := by
  rw [ofCodePoint?_eq_some_iff]
  refine and_congr_right fun _ => ?_
  constructor
  · rintro ⟨hhex, hvalue⟩
    refine ⟨digits.map digitValue, ?_, ?_⟩
    · rw [List.forall₂_map_right_iff, List.forall₂_same]
      exact fun d hd => isDigit_digitValue (hhex d hd)
    · rw [← hvalue, ofDigits_eq_ofDigits_reverse]
  · rintro ⟨ds, hdigits, hvalue⟩
    exact ⟨forall_of_forall₂ hdigits fun _ _ => IsDigit.isHexDigit,
      (ofDigits_of_forall₂ hdigits (by decide)).trans hvalue.symm⟩

/-! ## Reading -/

theorem exists_standsFor_of_readEscape (h : readEscape cs = some (c, rest)) :
    ∃ piece, '\\' :: cs = piece ++ rest ∧ StandsFor piece c := by
  unfold readEscape at h
  split at h
  case h_8 =>
    obtain ⟨sign, digits, hsign, rfl, hdigits⟩ := readCodePoint_eq_some_iff.mp h
    obtain ⟨hne, ds, hds, hvalue⟩ := ofCodePoint?_eq_some_iff_isDigit.mp hdigits
    exact ⟨_, by simp, .codePoint hsign hne hds hvalue⟩
  case h_9 => cases h
  all_goals
    obtain ⟨rfl, rfl⟩ := Prod.mk.inj (Option.some.inj h)
    exact ⟨['\\', _], rfl, by constructor⟩

theorem unescape_append_of_standsFor (h : StandsFor piece c) (rest : List Char) :
    unescape (piece ++ rest) = (unescape rest).map (c :: ·) := by
  cases h with
  | plain hc => exact unescape_cons hc rest
  | newline | tab | carriageReturn | null | backslash | doubleQuote | singleQuote =>
      exact unescape_escaped rfl
  | @codePoint sign digits ds _ hsign hne hdigits hvalue =>
      have hread : readCodePoint (sign ++ (digits ++ '}' :: rest)) = some (c, rest) :=
        readCodePoint_eq_some_iff.mpr ⟨sign, digits, hsign, rfl,
          ofCodePoint?_eq_some_iff_isDigit.mpr ⟨hne, ds, hdigits, hvalue⟩⟩
      refine unescape_escaped ?_
      simpa [readEscape] using hread

/-- Exactly the bodies that fall into pieces are read, each piece as what it denotes. -/
theorem unescape_eq_some_iff : unescape body = some cs ↔
    ∃ pieces : List (List Char), body = pieces.flatten ∧ List.Forall₂ StandsFor pieces cs := by
  constructor
  · intro h
    induction body using unescape.induct generalizing cs with
    | case1 =>
        rw [unescape] at h
        cases h
        exact ⟨[], rfl, .nil⟩
    | case2 rest hnone =>
        rw [unescape_of_readEscape_eq_none hnone] at h
        cases h
    | case3 rest d rest' hread _ ih =>
        rw [unescape_escaped hread, Option.map_eq_some_iff] at h
        obtain ⟨ds, hds, rfl⟩ := h
        obtain ⟨piece, hpiece, hstands⟩ := exists_standsFor_of_readEscape hread
        obtain ⟨pieces, rfl, hpieces⟩ := ih hds
        exact ⟨piece :: pieces, hpiece, .cons hstands hpieces⟩
    | case4 c rest hc ih =>
        rw [unescape_cons hc, Option.map_eq_some_iff] at h
        obtain ⟨ds, hds, rfl⟩ := h
        obtain ⟨pieces, rfl, hpieces⟩ := ih hds
        exact ⟨[c] :: pieces, rfl, .cons (.plain hc) hpieces⟩
  · rintro ⟨pieces, rfl, hpieces⟩
    induction hpieces with
    | nil => rw [List.flatten_nil, unescape]
    | cons hpiece _ ih =>
        rw [List.flatten_cons, unescape_append_of_standsFor hpiece, ih, Option.map_some]

end Text

open Text

namespace Lexeme

/-- A written literal is one lexeme, before any text. -/
theorem scan_quoted (start : Nat) (s : String) (rest : List Char) :
    scan start ((literal s).toList ++ rest) = ⟨start, (literal s).toList, some (.str s)⟩
      :: scan (start + byteLength (literal s).toList) rest := by
  have hcut := cut_quote s.toList rest
  have hshift : escape s.toList ++ '"' :: rest = (escape s.toList ++ ['"']) ++ rest := by
    rw [List.append_assoc, List.singleton_append]
  rw [hshift, String.ofList_toList] at hcut
  rw [toList_literal, List.cons_append, scan_cons (by decide) (by decide) (congrArg Cut.more hcut),
    hcut]

end Lexeme

namespace Text

/-- What a string is written as is read back as the string and, between quotes, is
cut off whole as that one token wherever it stands and whatever follows.  A body is
read exactly if it is a sequence of characters other than the backslash and of
escapes, and as what these denote, one after another. -/
theorem literal_exact :
    (∀ cs : List Char, unescape (escape cs) = some cs)
      ∧ (∀ (s : String) (start : Nat) (rest : List Char),
        Lexeme.scan start ((literal s).toList ++ rest)
          = ⟨start, (literal s).toList, some (.str s)⟩
            :: Lexeme.scan (start + byteLength (literal s).toList) rest)
      ∧ ∀ body cs : List Char, unescape body = some cs ↔
        ∃ pieces : List (List Char),
          body = pieces.flatten ∧ List.Forall₂ StandsFor pieces cs := by
  refine ⟨unescape_escape, ?_, ?_⟩
  · intro s start rest
    exact Lexeme.scan_quoted start s rest
  · intro body cs
    exact unescape_eq_some_iff

/-- A code point may have a plus sign and zeros before it.  Surrogates are no characters,
and a minus sign is no digit. -/
example : unescape "\\u\x7b+00e9\x7d;".toList = some ['é', ';']
    ∧ unescape "\\u\x7bd800\x7d".toList = none ∧ unescape "\\u\x7b-0\x7d".toList = none := by
  decide +kernel

end Text

end Wordcode
