/-
# Scan — what a text is cut into

`Yields` relates a text to the tokens it is cut into, wherever the text starts.
Its rules follow the cases of the scanner: blanks and comments yield nothing,
and each sort of token has a rule that puts it before what the rest yields.

A name or a number ends where a separator follows.  A string ends at its own
closing quote, whatever it holds, and so needs no separator.
-/
import Mathlib.Data.List.TakeWhile
import Wordcode.Listing.Lexeme
import Wordcode.Proofs.Text.Escape

namespace Wordcode

open Text

namespace Lexeme

/-- A text is cut into tokens. -/
def Yields (cs : List Char) (ts : List Token) : Prop :=
  ∀ start, (scan start cs).map Lexeme.token? = ts.map some

/-- Nothing follows, or a blank, a comment or a comma: no token goes on into it. -/
def Separated (rest : List Char) : Prop :=
  ∀ c ∈ rest.head?, isBlank c ∨ startsComment c ∨ c = ','

variable {c : Char} {cs rest : List Char} {ts : List Token} {token : Token}

/-- Where a text starts makes no difference to what it is cut into. -/
theorem map_token?_scan (start start' : Nat) (cs : List Char) :
    (scan start cs).map Lexeme.token? = (scan start' cs).map Lexeme.token? := by
  induction start, cs using scan.induct generalizing start' with
  | case1 start => rw [scan, scan]
  | case2 start c rest hblank ih =>
      rw [scan, scan, if_pos hblank, if_pos hblank]
      exact ih _
  | case3 start c rest hblank hcomment ih =>
      rw [scan, scan, if_neg hblank, if_neg hblank, if_pos hcomment, if_pos hcomment]
      exact ih _
  | case4 start c rest hblank hcomment next text ih =>
      rw [scan, scan, if_neg hblank, if_neg hblank, if_neg hcomment, if_neg hcomment]
      simp only [List.map_cons]
      rw [ih]

theorem yields_iff : Yields cs ts ↔ (scan 0 cs).map Lexeme.token? = ts.map some :=
  ⟨fun h => h 0, fun h start => (map_token?_scan start 0 cs).trans h⟩

theorem separated_nil : Separated [] := fun _ h => nomatch h

theorem separated_of_isBlank (hc : isBlank c) : Separated (c :: cs) := by
  rintro d ⟨⟩
  exact .inl hc

theorem separated_blank (cs : List Char) : Separated (' ' :: cs) := separated_of_isBlank rfl

theorem separated_of_startsComment (hc : startsComment c) : Separated (c :: cs) := by
  rintro d ⟨⟩
  exact .inr (.inl hc)

theorem separated_comma (cs : List Char) : Separated (',' :: cs) := by
  rintro c ⟨⟩
  exact .inr (.inr rfl)

-- The six characters are gone through as a list: `Char` is finite, and what decides a
-- bounded quantifier may go through all of them.
theorem Separated.head?_eq_false {p : Char → Bool} (h : Separated rest)
    (hall : [' ', '\t', '\r', ';', '#', ','].all (fun c => !p c) = true) :
    ∀ c ∈ rest.head?, p c = false := by
  intro c hc
  rw [List.all_eq_true] at hall
  have hsort := h c hc
  simp only [isBlank, startsComment, Bool.or_eq_true, beq_iff_eq] at hsort
  refine (Bool.not_eq_true' _).mp (hall c ?_)
  simp only [List.mem_cons, List.not_mem_nil, or_false]
  rcases hsort with ((rfl | rfl) | rfl) | (rfl | rfl) | rfl <;> simp

/-! ## Blanks and comments -/

theorem not_isBlank {p : Char → Bool} (hc : p c) (hspace : p ' ' = false) (htab : p '\t' = false)
    (hreturn : p '\r' = false) : ¬ isBlank c := by
  intro hblank
  simp only [isBlank, Bool.or_eq_true, beq_iff_eq] at hblank
  rcases hblank with (rfl | rfl) | rfl
  · rw [hspace] at hc
    cases hc
  · rw [htab] at hc
    cases hc
  · rw [hreturn] at hc
    cases hc

theorem not_startsComment {p : Char → Bool} (hc : p c) (hsemicolon : p ';' = false)
    (hhash : p '#' = false) : ¬ startsComment c := by
  intro hcomment
  simp only [startsComment, Bool.or_eq_true, beq_iff_eq] at hcomment
  rcases hcomment with rfl | rfl
  · rw [hsemicolon] at hc
    cases hc
  · rw [hhash] at hc
    cases hc

namespace Yields

theorem nil : Yields [] [] := fun _ => by
  rw [scan]
  rfl

theorem blank (hc : isBlank c) (h : Yields cs ts) : Yields (c :: cs) ts := fun start => by
  rw [scan, if_pos hc]
  exact h (start + 1)

theorem blanks (n : Nat) (h : Yields cs ts) : Yields (List.replicate n ' ' ++ cs) ts := by
  induction n with
  | zero => exact h
  | succ n ih => exact blank rfl ih

theorem comment (hc : startsComment c) (hcs : '\n' ∉ cs) : Yields (c :: cs) [] := fun start => by
  have hblank : ¬ isBlank c := not_isBlank hc (by decide) (by decide) (by decide)
  have hend : cs.dropWhile (· ≠ '\n') = [] := by
    rw [List.dropWhile_eq_nil_iff]
    intro d hd
    refine decide_eq_true ?_
    rintro rfl
    exact hcs hd
  rw [scan, if_neg hblank, if_pos hc, hend]
  exact nil _

/-! ## Tokens -/

theorem cons {tail : List Char} (hblank : ¬ isBlank c) (hcomment : ¬ startsComment c)
    (hcut : cut c (tail ++ rest) = ⟨tail.length, some token⟩) (h : Yields rest ts) :
    Yields (c :: (tail ++ rest)) (token :: ts) := fun start => by
  rw [scan, if_neg hblank, if_neg hcomment]
  simp only [hcut, List.map_cons, List.drop_left]
  exact congrArg _ (h _)

theorem comma (h : Yields rest ts) : Yields (',' :: rest) (.comma :: ts) :=
  have hcut : cut ',' ([] ++ rest) = ⟨0, some .comma⟩ := rfl
  cons (by decide) (by decide) hcut h

end Yields

/-! ## Names -/

/-- Whether a text is a name. -/
def isName : List Char → Bool
  | [] => false
  | c :: tail => startsName c && tail.all continuesName

theorem isName_cons_iff {tail : List Char} :
    isName (c :: tail) ↔ startsName c ∧ ∀ d ∈ tail, continuesName d := by
  rw [isName, Bool.and_eq_true, List.all_eq_true]

theorem Separated.continuesName_eq_false (h : Separated rest) :
    ∀ d ∈ rest.head?, continuesName d = false :=
  h.head?_eq_false (by decide)

theorem cutName_append {tail : List Char} (h : isName (c :: tail))
    (hrest : ∀ d ∈ rest.head?, continuesName d = false) (token : String → Token) :
    cutName c (tail ++ rest) token = ⟨tail.length, some (token (String.ofList (c :: tail)))⟩ := by
  rw [cutName, takeWhile_append_eq (isName_cons_iff.mp h).2 hrest]

theorem Yields.name {name : List Char} (hname : isName name)
    (hrest : ∀ d ∈ rest.head?, continuesName d = false) (h : Yields rest ts) :
    Yields (name ++ rest) (.identifier (String.ofList name) :: ts) := by
  cases name with
  | nil => cases hname
  | cons c tail =>
      obtain ⟨hstart, _⟩ := isName_cons_iff.mp hname
      have hblank := not_isBlank hstart (by decide) (by decide) (by decide)
      have hcomment := not_startsComment hstart (by decide) (by decide)
      refine cons hblank hcomment ?_ h
      rw [cut, if_pos hstart]
      exact cutName_append hname hrest _

theorem Yields.identifier {name : List Char} (hname : isName name) (hrest : Separated rest)
    (h : Yields rest ts) :
    Yields (name ++ rest) (.identifier (String.ofList name) :: ts) :=
  .name hname hrest.continuesName_eq_false h

theorem Yields.directive {name : List Char} (hname : isName name) (hrest : Separated rest)
    (h : Yields rest ts) :
    Yields ('.' :: (name ++ rest)) (.directive (String.ofList name) :: ts) := by
  refine cons (by decide) (by decide) ?_ h
  cases name with
  | nil => cases hname
  | cons c tail =>
      show cutMarkedName (c :: (tail ++ rest)) .directive = _
      simp only [cutMarkedName, if_pos (isName_cons_iff.mp hname).1,
        cutName_append hname hrest.continuesName_eq_false, List.length_cons]

/-! ## Numbers -/

theorem cutDecimal_append {tail : List Char} (htail : ∀ d ∈ tail, d.isDigit)
    (hrest : Separated rest) (negative : Bool) :
    cutDecimal negative c (tail ++ rest) = ⟨tail.length, number? negative (c :: tail)⟩ := by
  have hrun := takeWhile_append_eq htail (hrest.head?_eq_false (by decide))
  rw [cutDecimal, hrun]

theorem cutNumber_eq_cutDecimal (h : cs.head? ≠ some 'x') :
    cutNumber c cs = cutDecimal false c cs := by
  unfold cutNumber
  split
  · exact absurd rfl h
  · rfl

theorem startsName_eq_false_of_isDigit (hc : c.isDigit) : startsName c = false := by
  obtain ⟨hlo, hhi⟩ : '0'.val ≤ c.val ∧ c.val ≤ '9'.val := by
    rwa [Char.isDigit, Bool.and_eq_true, decide_eq_true_eq, decide_eq_true_eq] at hc
  rw [UInt32.le_iff_toNat_le] at hlo hhi
  refine Bool.eq_false_iff.mpr fun h => ?_
  rcases (Bool.or_eq_true _ _).mp h with h | h
  · rcases (Bool.or_eq_true _ _).mp h with h | h
    · have hupper : 'A'.val ≤ c.val := (of_decide_eq_true h).1
      rw [UInt32.le_iff_toNat_le] at hupper
      exact absurd (Nat.le_trans hupper hhi) (by decide)
    · have hlower : 'a'.val ≤ c.val := of_decide_eq_true ((Bool.and_eq_true _ _).mp h).1
      rw [UInt32.le_iff_toNat_le] at hlower
      exact absurd (Nat.le_trans hlower hhi) (by decide)
  · rw [eq_of_beq h] at hhi
    exact absurd hhi (by decide)

theorem cut_of_isDigit (hc : c.isDigit) : cut c rest = cutNumber c rest := by
  have hat : c ≠ '@' := by
    rintro rfl
    exact absurd hc (by decide)
  have hdot : c ≠ '.' := by
    rintro rfl
    exact absurd hc (by decide)
  rw [cut, if_neg (by rw [startsName_eq_false_of_isDigit hc]; decide), if_neg hat, if_neg hdot,
    if_pos hc]

/-- Digits are cut as a number, whatever it is. -/
theorem cut_digits {tail : List Char} (hdigits : ∀ d ∈ c :: tail, d.isDigit)
    (hrest : Separated rest) :
    cut c (tail ++ rest) = ⟨tail.length, number? false (c :: tail)⟩ := by
  obtain ⟨hc, htail⟩ := List.forall_mem_cons.mp hdigits
  -- an `x` after the first digit would make the number hexadecimal
  have hx : (tail ++ rest).head? ≠ some 'x' := by
    intro hx
    cases tail with
    | nil => exact absurd (hrest.head?_eq_false (p := (· == 'x')) (by decide) _ hx) (by decide)
    | cons d tail =>
        cases hx
        exact absurd (htail 'x' (List.mem_cons_self ..)) (by decide)
  rw [cut_of_isDigit hc, cutNumber_eq_cutDecimal hx, cutDecimal_append htail hrest]

theorem cut_minus {tail : List Char} (hdigits : ∀ d ∈ c :: tail, d.isDigit)
    (hrest : Separated rest) :
    cut '-' (c :: tail ++ rest) = ⟨(c :: tail).length, number? true (c :: tail)⟩ := by
  obtain ⟨hc, htail⟩ := List.forall_mem_cons.mp hdigits
  show cutNegative (c :: (tail ++ rest)) = _
  simp only [cutNegative, if_pos hc, cutDecimal_append htail hrest, List.length_cons]

theorem Yields.number {n : Nat} (hn : fitsInt64 n) (hrest : Separated rest) (h : Yields rest ts) :
    Yields (Nat.toDigits 10 n ++ rest) (.number n :: ts) := by
  have hdigits : ∀ d ∈ Nat.toDigits 10 n, d.isDigit := fun _ => isDigit_of_mem_toDigits
  have hvalue : number? false (Nat.toDigits 10 n) = some (.number n) := by
    simp [number?, ofDigits_toDigits, hn]
  obtain ⟨c, tail, hcons⟩ := exists_toDigits_eq_cons 10 n
  rw [hcons] at hdigits hvalue ⊢
  have hc := hdigits c (List.mem_cons_self ..)
  have hblank := not_isBlank hc (by decide) (by decide) (by decide)
  have hcomment := not_startsComment hc (by decide) (by decide)
  exact cons hblank hcomment (by rw [cut_digits hdigits hrest, hvalue]) h

theorem Yields.negative {n : Nat} (hn : fitsInt64 (-n)) (hrest : Separated rest)
    (h : Yields rest ts) :
    Yields ('-' :: (Nat.toDigits 10 n ++ rest)) (.number (-n) :: ts) := by
  have hdigits : ∀ d ∈ Nat.toDigits 10 n, d.isDigit := fun _ => isDigit_of_mem_toDigits
  have hvalue : number? true (Nat.toDigits 10 n) = some (.number (-n)) := by
    simp [number?, ofDigits_toDigits, hn]
  obtain ⟨c, tail, hcons⟩ := exists_toDigits_eq_cons 10 n
  rw [hcons] at hdigits hvalue ⊢
  exact cons (by decide) (by decide) (by rw [cut_minus hdigits hrest, hvalue]) h

theorem Yields.signed {n : Int} (hn : fitsInt64 n) (hrest : Separated rest) (h : Yields rest ts) :
    Yields (Text.signed n ++ rest) (.number n :: ts) := by
  unfold Text.signed
  split
  · next hneg =>
      have habs : n = -(n.natAbs : Int) := by omega
      have hy := negative (n := n.natAbs) (by rwa [← habs]) hrest h
      rwa [← habs] at hy
  · next hnonneg =>
      have habs : n = (n.natAbs : Int) := by omega
      have hy := number (n := n.natAbs) (by rwa [← habs]) hrest h
      rwa [← habs] at hy

/-! ## Strings -/

theorem bodyLength_cons_of_not_special (hc : ¬ Special c) (rest : List Char) :
    bodyLength (c :: rest) = bodyLength rest + 1 := by
  simp only [Special, not_or] at hc
  cases rest with
  | nil => simp [bodyLength, hc]
  | cons d rest => simp [bodyLength, hc]

theorem bodyLength_append_of_not_special {tail : List Char} (h : ∀ d ∈ tail, ¬ Special d)
    (rest : List Char) : bodyLength (tail ++ rest) = tail.length + bodyLength rest := by
  induction tail with
  | nil => simp
  | cons d tail ih =>
      rw [List.forall_mem_cons] at h
      rw [List.cons_append, bodyLength_cons_of_not_special h.1, ih h.2, List.length_cons]
      omega

theorem bodyLength_append {written : List Char} (h : WrittenAs c written) (rest : List Char) :
    bodyLength (written ++ rest) = written.length + bodyLength rest := by
  cases h with
  | plain hc => exact bodyLength_append_of_not_special (List.forall_mem_singleton.mpr hc) rest
  | @escaped d tail hd htail _ =>
      rw [List.cons_append, List.cons_append, bodyLength, if_neg hd,
        bodyLength_append_of_not_special htail, List.length_cons, List.length_cons]
      omega

/-- A literal ends at its own closing quote. -/
theorem bodyLength_escape (text rest : List Char) :
    bodyLength (escape text ++ '"' :: rest) = (escape text).length := by
  induction text with
  | nil =>
      show bodyLength ('"' :: rest) = 0
      cases rest with
      | nil => simp [bodyLength]
      | cons c rest => simp [bodyLength]
  | cons c text ih =>
      rw [escape, List.flatMap_cons, ← escape, List.append_assoc,
        bodyLength_append (writtenAs_escapeChar c), ih, List.length_append]

/-- A literal is cut off whole, and is the text that it was written from. -/
theorem cut_quote (text rest : List Char) : cut '"' (escape text ++ '"' :: rest)
    = ⟨(escape text ++ ['"']).length, some (.str (String.ofList text))⟩ := by
  show cutString (escape text ++ '"' :: rest) = _
  simp [cutString, bodyLength_escape, str?, unescape_escape]

theorem Yields.str (h : Yields rest ts) (text : List Char) :
    Yields ('"' :: (escape text ++ '"' :: rest)) (.str (String.ofList text) :: ts) := by
  have hshift : escape text ++ '"' :: rest = (escape text ++ ['"']) ++ rest := by
    rw [List.append_assoc, List.singleton_append]
  rw [hshift]
  refine cons (by decide) (by decide) ?_ h
  rw [← hshift]
  exact cut_quote text rest

end Lexeme

end Wordcode
