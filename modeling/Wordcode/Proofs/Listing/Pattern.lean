/-
# Patterns — the longest match

The sorts of text that a listing is made of are said here one by one, each without
a look at the others (`Pattern.Matches`).  `Munches` is what it means to cut a text
by longest matches: where patterns match, a match is taken that no other is longer
than; where none does, a single character is taken, or a string that does not end.

The scanner looks at the first character and then takes a run, and it never compares
two matches.  `munches_scan` shows that it cuts by longest matches all the same.  The
reason is that the first character tells the pattern (`Matches.first`), with one
exception: a zero may begin a number in either base.
-/
import Wordcode.Proofs.Listing.Splitting

namespace Wordcode

open Text

namespace Lexeme

/-! ## Patterns -/

/-- What can stand between the quotes of a string: any character but a quote, a
backslash and a newline, and any character but a newline after a backslash. -/
inductive IsBody : List Char → Prop where
  | nil : IsBody []
  | plain {c : Char} {cs : List Char} (hc : ¬ Special c) (h : IsBody cs) : IsBody (c :: cs)
  | escaped {c : Char} {cs : List Char} (hc : c ≠ '\n') (h : IsBody cs) : IsBody ('\\' :: c :: cs)

/-- The sorts of text in a listing. -/
inductive Pattern where
  | blanks
  | comment
  | identifier
  | labelRef
  | directive
  | number
  | hex
  | str
  | comma
  | colon

namespace Pattern

/-- Whether what matches is passed over. -/
def isSkipped : Pattern → Bool
  | .blanks | .comment => true
  | .identifier | .labelRef | .directive | .number | .hex | .str | .comma | .colon => false

/-- The texts of each sort. -/
inductive Matches : Pattern → List Char → Prop where
  | blanks {c : Char} {cs : List Char} (hc : isBlank c) (hcs : ∀ d ∈ cs, isBlank d) :
      Matches .blanks (c :: cs)
  | comment {c : Char} {cs : List Char} (hc : startsComment c) (hcs : '\n' ∉ cs) :
      Matches .comment (c :: cs)
  | identifier {name : List Char} (h : isName name) : Matches .identifier name
  | labelRef {name : List Char} (h : isName name) : Matches .labelRef ('@' :: name)
  | directive {name : List Char} (h : isName name) : Matches .directive ('.' :: name)
  | number {c : Char} {cs : List Char} (hcs : ∀ d ∈ c :: cs, d.isDigit) : Matches .number (c :: cs)
  | negative {c : Char} {cs : List Char} (hcs : ∀ d ∈ c :: cs, d.isDigit) :
      Matches .number ('-' :: c :: cs)
  | hex {c : Char} {cs : List Char} (hcs : ∀ d ∈ c :: cs, d.isHexDigit) :
      Matches .hex ('0' :: 'x' :: c :: cs)
  | str {body : List Char} (h : IsBody body) : Matches .str ('"' :: (body ++ ['"']))
  | comma : Matches .comma [',']
  | colon : Matches .colon [':']

/-- The token that a text of a sort is, if it has a value. -/
def token? : Pattern → List Char → Option Token
  | .blanks, _ | .comment, _ => none
  | .identifier, name => some (.identifier (String.ofList name))
  | .labelRef, text => some (.labelRef (String.ofList text.tail))
  | .directive, text => some (.directive (String.ofList text.tail))
  | .number, text =>
    if text.head? = some '-' then number? true text.tail else number? false text
  | .hex, text => hex? (text.drop 2)
  | .str, text => str? text.tail.dropLast
  | .comma, _ => some .comma
  | .colon, _ => some .colon

/-- A match at the front of a text, with `rest` after it, that no other match there
is longer than. -/
structure Longest (p : Pattern) (text rest : List Char) : Prop where
  hit : p.Matches text
  length_le : ∀ (q : Pattern) (other : List Char),
    other <+: text ++ rest → q.Matches other → other.length ≤ text.length

end Pattern

/-- No pattern matches at the front of a text. -/
def Unmatched (cs : List Char) : Prop := ∀ p text, text <+: cs → ¬ Pattern.Matches p text

/-- What is cut off as a lexeme: a longest match with its value, or where there is no
match, one character or a string that does not end. -/
inductive Takes (text rest : List Char) : Option Token → Prop where
  | longest {p : Pattern} (hskip : p.isSkipped = false) (h : p.Longest text rest) :
      Takes text rest (p.token? text)
  | stray {c : Char} (htext : text = [c]) (h : Unmatched (text ++ rest)) : Takes text rest none
  | unterminated {body : List Char} (htext : text = '"' :: body) (hbody : IsBody body)
      (h : Unmatched (text ++ rest)) : Takes text rest none

/-- A text that has `start` bytes before it is cut by longest matches, and blanks and
comments are passed over. -/
inductive Munches : Nat → List Char → List Lexeme → Prop where
  | nil {start : Nat} : Munches start [] []
  | skip {start : Nat} {p : Pattern} {text rest : List Char} {ls : List Lexeme}
      (hskip : p.isSkipped) (hlongest : p.Longest text rest)
      (h : Munches (start + byteLength text) rest ls) : Munches start (text ++ rest) ls
  | lexeme {start : Nat} {text rest : List Char} {token? : Option Token} {ls : List Lexeme}
      (htakes : Takes text rest token?) (h : Munches (start + byteLength text) rest ls) :
      Munches start (text ++ rest) (⟨start, text, token?⟩ :: ls)

/-! ## First characters -/

variable {p q : Pattern} {c d : Char} {cs tail rest text : List Char} {token? : Option Token}

theorem ne_of_isDigit (hc : c.isDigit) (hd : d.isDigit = false) : c ≠ d := by
  rintro rfl
  rw [hd] at hc
  cases hc

namespace Pattern

/-- The pattern that the first character tells.  A zero tells that of decimal numbers. -/
def ofFirst? (c : Char) : Option Pattern :=
  if startsName c then some .identifier
  else if c = '@' then some .labelRef
  else if c = '.' then some .directive
  else if c.isDigit then some .number
  else if c = '-' then some .number
  else if c = '"' then some .str
  else if c = ',' then some .comma
  else if c = ':' then some .colon
  else if isBlank c then some .blanks
  else if startsComment c then some .comment
  else none

theorem Matches.ne_nil (h : p.Matches text) : text ≠ [] := by
  cases h with
  | identifier h =>
      rintro rfl
      cases h
  | blanks | comment | labelRef | directive | number | negative | hex | str | comma | colon =>
      exact List.cons_ne_nil _ _

theorem ofFirst?_of_isDigit (hc : c.isDigit) : ofFirst? c = some .number := by
  have hname := startsName_eq_false_of_isDigit hc
  rw [ofFirst?, if_neg (by rw [hname]; decide), if_neg (ne_of_isDigit hc (by decide)),
    if_neg (ne_of_isDigit hc (by decide)), if_pos hc]

theorem Matches.first (h : p.Matches (c :: cs)) :
    ofFirst? c = some p ∨ p = .hex ∧ c = '0' := by
  cases h with
  | blanks hc _ =>
      simp only [isBlank, Bool.or_eq_true, beq_iff_eq] at hc
      rcases hc with (rfl | rfl) | rfl <;> exact .inl rfl
  | comment hc _ =>
      simp only [startsComment, Bool.or_eq_true, beq_iff_eq] at hc
      rcases hc with rfl | rfl <;> exact .inl rfl
  | identifier h => exact .inl (if_pos (isName_cons_iff.mp h).1)
  | number hcs => exact .inl (ofFirst?_of_isDigit (hcs c (List.mem_cons_self ..)))
  | labelRef | directive | negative | str | comma | colon => exact .inl rfl
  | hex => exact .inr ⟨rfl, rfl⟩

/-- A match at a place begins with the character there, which tells its pattern. -/
theorem Matches.of_front (h : q.Matches text) (hfront : text <+: c :: cs) :
    ∃ tail, text = c :: tail ∧ tail <+: cs ∧ (ofFirst? c = some q ∨ q = .hex ∧ c = '0') := by
  obtain ⟨d, tail, rfl⟩ := List.exists_cons_of_ne_nil h.ne_nil
  obtain ⟨rfl, htail⟩ := List.cons_prefix_cons.mp hfront
  exact ⟨tail, rfl, htail, h.first⟩

/-- Only a zero leaves more than one pattern. -/
theorem Matches.told (h : q.Matches text) (hfront : text <+: c :: cs) (hc : c ≠ '0') :
    ofFirst? c = some q ∧ ∃ tail, text = c :: tail ∧ tail <+: cs := by
  obtain ⟨tail, htext, htail, hfirst⟩ := h.of_front hfront
  exact ⟨hfirst.resolve_right fun hhex => hc hhex.2, tail, htext, htail⟩

theorem Longest.of_first (hfirst : ofFirst? c = some p) (hc : c ≠ '0')
    (hit : p.Matches (c :: tail))
    (hle : ∀ other, other <+: tail ++ rest → p.Matches (c :: other) → other.length ≤ tail.length) :
    p.Longest (c :: tail) rest := by
  refine ⟨hit, fun q other hfront hmatch => ?_⟩
  obtain ⟨hq, tail', rfl, htail'⟩ := hmatch.told hfront hc
  obtain rfl : p = q := Option.some.inj (hfirst.symm.trans hq)
  exact Nat.succ_le_succ (hle tail' htail' hmatch)

end Pattern

theorem Unmatched.of_first (hfirst : Pattern.ofFirst? c = some p) (hc : c ≠ '0')
    (hnone : ∀ other, other <+: cs → ¬ p.Matches (c :: other)) : Unmatched (c :: cs) := by
  intro q text hfront hmatch
  obtain ⟨hq, other, rfl, hother⟩ := hmatch.told hfront hc
  obtain rfl : p = q := Option.some.inj (hfirst.symm.trans hq)
  exact hnone other hother hmatch

theorem Unmatched.of_none (hfirst : Pattern.ofFirst? c = none) : Unmatched (c :: cs) := by
  intro q text hfront hmatch
  have hc : c ≠ '0' := by
    rintro rfl
    cases hfirst
  obtain ⟨hq, _⟩ := hmatch.told hfront hc
  rw [hfirst] at hq
  cases hq

/-! ## Names -/

theorem takes_of_cutName (hc : startsName c)
    (h : cutName c (tail ++ rest) .identifier = ⟨tail.length, token?⟩) :
    Takes (c :: tail) rest token? := by
  have hrun := takeWhile_append_of_length (congrArg Cut.more h)
  have hzero : c ≠ '0' := by
    rintro rfl
    cases hc
  rw [cutName, hrun] at h
  cases h
  refine .longest (p := .identifier) rfl (.of_first (if_pos hc) hzero ?_ ?_)
  · exact .identifier (isName_cons_iff.mpr ⟨hc, forall_of_takeWhile hrun⟩)
  · intro other hfront hmatch
    cases hmatch with
    | identifier hother => exact length_le_of_run hrun (isName_cons_iff.mp hother).2 hfront

/-! ## Signs -/

/-- What is cut off after a sign: a run of characters, or nothing where none begins. -/
inductive Signed (first next : Char → Bool) (token : List Char → Option Token) :
    List Char → List Char → Option Token → Prop where
  | none {rest : List Char} (h : ¬ rest.head?.any first) : Signed first next token [] rest none
  | run {d : Char} {ds rest : List Char} (hd : first d) (hds : (ds ++ rest).takeWhile next = ds) :
      Signed first next token (d :: ds) rest (token (d :: ds))

theorem takes_of_signed {first next : Char → Bool} (hskip : p.isSkipped = false)
    (hfirst : Pattern.ofFirst? c = some p) (hzero : c ≠ '0') (hnone : ¬ p.Matches [c])
    (hmatches : ∀ d ds, p.Matches (c :: d :: ds) ↔ first d ∧ ∀ e ∈ ds, next e)
    (h : Signed first next (fun ds => p.token? (c :: ds)) tail rest token?) :
    Takes (c :: tail) rest token? := by
  cases h with
  | none hrest =>
      refine .stray rfl (.of_first hfirst hzero fun other hfront hmatch => ?_)
      cases other with
      | nil => exact hnone hmatch
      | cons d other =>
          obtain ⟨more, rfl⟩ := hfront
          exact hrest ((hmatches d other).mp hmatch).1
  | @run d ds _ hd hds =>
      refine .longest hskip (.of_first hfirst hzero ?_ ?_)
      · exact (hmatches d ds).mpr ⟨hd, forall_of_takeWhile hds⟩
      · intro other hfront hmatch
        cases other with
        | nil => exact Nat.zero_le _
        | cons e other =>
            obtain ⟨rfl, hother⟩ := List.cons_prefix_cons.mp hfront
            exact Nat.succ_le_succ
              (length_le_of_run hds ((hmatches e other).mp hmatch).2 hother)

/-- A cut that takes a sign, and a run after it if one begins there. -/
theorem signed_of_cut {first next : Char → Bool} {token : List Char → Option Token}
    (sign : List Char → Cut) (hnil : sign [] = .stray)
    (hcons : ∀ d cs, sign (d :: cs) = if first d then
      ⟨(cs.takeWhile next).length + 1, token (d :: cs.takeWhile next)⟩ else .stray)
    (h : sign (tail ++ rest) = ⟨tail.length, token?⟩) :
    Signed first next token tail rest token? := by
  cases tail with
  | nil =>
      have hrest : token? = none ∧ ¬ rest.head?.any first := by
        cases rest with
        | nil =>
            obtain ⟨_, htoken⟩ := (Cut.mk.injEq ..).mp (hnil.symm.trans h)
            exact ⟨htoken.symm, Bool.false_ne_true⟩
        | cons d rest =>
            rw [List.nil_append, hcons] at h
            split at h
            · cases congrArg Cut.more h
            · next hd =>
              obtain ⟨_, htoken⟩ := (Cut.mk.injEq ..).mp h
              exact ⟨htoken.symm, hd⟩
      rw [hrest.1]
      exact .none hrest.2
  | cons d ds =>
      rw [List.cons_append, hcons] at h
      split at h
      · next hd =>
        obtain ⟨hmore, rfl⟩ := (Cut.mk.injEq ..).mp h
        have hds := takeWhile_append_of_length (Nat.succ_inj.mp hmore)
        rw [hds]
        exact .run hd hds
      · cases congrArg Cut.more h

theorem takes_of_cutMarkedName {mk : String → Token} (hskip : p.isSkipped = false)
    (hfirst : Pattern.ofFirst? c = some p) (hzero : c ≠ '0')
    (hmatches : ∀ name, p.Matches (c :: name) ↔ isName name)
    (htoken : ∀ name, p.token? (c :: name) = some (mk (String.ofList name)))
    (h : cutMarkedName (tail ++ rest) mk = ⟨tail.length, token?⟩) :
    Takes (c :: tail) rest token? := by
  have hsigned : Signed startsName continuesName (fun name => p.token? (c :: name)) tail rest
      token? := by
    simp only [htoken]
    exact signed_of_cut (cutMarkedName · mk) rfl (fun _ _ => rfl) h
  refine takes_of_signed hskip hfirst hzero ?_ (fun d ds => ?_) hsigned
  · rw [hmatches]
    exact Bool.false_ne_true
  · rw [hmatches, isName_cons_iff]

/-! ## Numbers -/

theorem Pattern.token?_number (hc : c.isDigit) :
    Pattern.token? .number (c :: cs) = number? false (c :: cs) := by
  have hsign : c ≠ '-' := ne_of_isDigit hc (by decide)
  have hhead : ¬ (c :: cs).head? = some '-' := fun h => hsign (Option.some.inj h)
  simp only [Pattern.token?, if_neg hhead]

theorem Pattern.token?_negative (cs : List Char) :
    Pattern.token? .number ('-' :: cs) = number? true cs := by
  simp only [Pattern.token?, List.head?_cons, if_true, List.tail_cons]

theorem takes_of_cutDecimal (hc : c.isDigit) (hhex : ¬ (c = '0' ∧ startsHex (tail ++ rest)))
    (h : cutDecimal false c (tail ++ rest) = ⟨tail.length, token?⟩) :
    Takes (c :: tail) rest token? := by
  have hrun := takeWhile_append_of_length (congrArg Cut.more h)
  rw [cutDecimal, hrun, ← Pattern.token?_number hc] at h
  obtain ⟨_, rfl⟩ := (Cut.mk.injEq ..).mp h
  refine .longest (p := .number) rfl ⟨?_, ?_⟩
  · exact .number (List.forall_mem_cons.mpr ⟨hc, forall_of_takeWhile hrun⟩)
  · intro q other hfront hmatch
    obtain ⟨other, rfl, hother, hfirst⟩ := hmatch.of_front hfront
    rcases hfirst with hfirst | ⟨rfl, rfl⟩
    · rw [Pattern.ofFirst?_of_isDigit hc] at hfirst
      cases hfirst
      cases hmatch with
      | number hcs =>
          exact Nat.succ_le_succ
            (length_le_of_run hrun (List.forall_mem_cons.mp hcs).2 hother)
      | negative => cases hc
    · -- the digits after the `x` would have made it a number in base sixteen
      cases hmatch with
      | @hex d ds hcs =>
          obtain ⟨more, hmore⟩ := hother
          have hstarts : startsHex ('x' :: d :: ds ++ more) := hcs d (List.mem_cons_self ..)
          rw [hmore] at hstarts
          exact (hhex ⟨rfl, hstarts⟩).elim

theorem takes_hex (hrun : (tail ++ rest).takeWhile Char.isHexDigit = tail)
    (hdigit : (tail ++ rest).head?.any Char.isHexDigit) :
    Takes ('0' :: 'x' :: tail) rest (hex? tail) := by
  have hdigits := forall_of_takeWhile hrun
  cases tail with
  | nil =>
      have hempty : (rest.takeWhile Char.isHexDigit).isEmpty = false := by
        rw [isEmpty_takeWhile, ← List.nil_append rest, hdigit]
        rfl
      rw [← List.nil_append rest, hrun] at hempty
      cases hempty
  | cons d tail =>
      refine .longest (p := .hex) rfl ⟨.hex hdigits, fun q other hfront hmatch => ?_⟩
      obtain ⟨other, rfl, hother, hfirst⟩ := hmatch.of_front hfront
      rcases hfirst with hfirst | ⟨rfl, _⟩
      · cases hfirst
        cases hmatch with
        | number hcs =>
            -- a number in base ten ends before the `x`
            cases other with
            | nil => exact Nat.succ_le_succ (Nat.zero_le _)
            | cons e other =>
                obtain ⟨rfl, _⟩ := List.cons_prefix_cons.mp hother
                exact absurd (hcs 'x' (by simp)) (by decide)
      · cases hmatch with
        | hex hcs =>
            obtain ⟨_, hother'⟩ := List.cons_prefix_cons.mp hother
            have hle := length_le_of_run hrun hcs hother'
            simp only [List.length_cons] at hle ⊢
            omega

theorem takes_of_cutNumber (hc : c.isDigit)
    (h : cutNumber c (tail ++ rest) = ⟨tail.length, token?⟩) : Takes (c :: tail) rest token? := by
  by_cases hhex : c = '0' ∧ startsHex (tail ++ rest)
  · obtain ⟨rfl, hhex⟩ := hhex
    obtain ⟨ds, hds, hdigit⟩ := exists_eq_cons_of_startsHex hhex
    rw [hds, cutNumber_of_startsHex hdigit] at h
    have hmore := congrArg Cut.more h
    cases tail with
    | nil => cases hmore
    | cons x tail =>
        obtain ⟨rfl, htail⟩ := List.cons.inj hds
        rw [← htail, List.append_eq] at h hmore hdigit
        have hrun := takeWhile_append_of_length (Nat.succ_inj.mp hmore)
        rw [hrun] at h
        obtain ⟨_, rfl⟩ := (Cut.mk.injEq ..).mp h
        exact takes_hex hrun hdigit
  · rw [cutNumber_of_not_startsHex hhex] at h
    exact takes_of_cutDecimal hc hhex h

theorem takes_of_cutNegative (h : cutNegative (tail ++ rest) = ⟨tail.length, token?⟩) :
    Takes ('-' :: tail) rest token? := by
  have hsigned : Signed Char.isDigit Char.isDigit (fun ds => Pattern.token? .number ('-' :: ds))
      tail rest token? := by
    simp only [Pattern.token?_negative]
    exact signed_of_cut cutNegative rfl (fun _ _ => rfl) h
  have hsign : ¬ '-'.isDigit := by decide
  refine takes_of_signed (p := .number) rfl rfl (by decide) ?_ (fun d ds => ?_) hsigned
  · intro hmatch
    cases hmatch with
    | number hcs => exact hsign (hcs '-' (List.mem_cons_self ..))
  · constructor
    · intro hmatch
      cases hmatch with
      | number hcs => exact absurd (hcs '-' (List.mem_cons_self ..)) hsign
      | negative hcs => exact List.forall_mem_cons.mp hcs
    · intro hds
      exact .negative (List.forall_mem_cons.mpr hds)

/-! ## Strings -/

theorem bodyLength_of_isBody {body : List Char} (h : IsBody body) (rest : List Char) :
    bodyLength (body ++ '"' :: rest) = body.length := by
  induction h with
  | nil => exact bodyLength_quote rest
  | plain hc _ ih =>
      rw [List.cons_append, bodyLength_cons_of_not_special hc, ih, List.length_cons]
  | escaped hc _ ih =>
      rw [List.cons_append, List.cons_append, bodyLength, if_neg hc, ih, List.length_cons,
        List.length_cons]

theorem isBody_take (cs : List Char) : IsBody (cs.take (bodyLength cs)) := by
  induction cs using bodyLength.induct with
  | case1 rest => simpa [bodyLength] using IsBody.nil
  | case2 c rest hc ih =>
      rw [bodyLength, if_neg hc]
      exact .escaped hc ih
  | case3 c rest hlone hspecial =>
      rw [bodyLength.eq_2 _ _ hlone, if_pos hspecial]
      exact .nil
  | case4 c rest hlone hplain ih =>
      rw [bodyLength.eq_2 _ _ hlone, if_neg hplain]
      exact .plain (by simpa [Special, or_assoc] using hplain) ih
  | case5 => exact .nil

theorem takes_of_cutString (h : cutString (tail ++ rest) = ⟨tail.length, token?⟩) :
    Takes ('"' :: tail) rest token? := by
  -- wherever a string ends, its body is all that there is before the quote
  have hlength : ∀ other, other <+: tail ++ rest → Pattern.Matches .str ('"' :: other) →
      ∃ body more, other = body ++ ['"'] ∧ tail ++ rest = body ++ '"' :: more
        ∧ bodyLength (tail ++ rest) = body.length := by
    intro other hfront hmatch
    cases hmatch with
    | @str body hbody =>
        obtain ⟨more, hmore⟩ := hfront
        rw [List.append_assoc, List.singleton_append] at hmore
        exact ⟨body, more, rfl, hmore.symm, hmore ▸ bodyLength_of_isBody hbody more⟩
  rcases cutString_cases h with ⟨body, rfl, hbody, rfl⟩ | ⟨hrun, hquote, rfl⟩
  · have htoken : Pattern.token? .str ('"' :: (body ++ ['"'])) = str? body := by
      simp only [Pattern.token?, List.tail_cons, List.dropLast_concat]
    have hisBody := isBody_take (body ++ '"' :: rest)
    rw [hbody, List.take_left] at hisBody
    rw [← htoken]
    refine .longest (p := .str) rfl (.of_first rfl (by decide) (.str hisBody) ?_)
    intro other hfront hmatch
    obtain ⟨body', _, rfl, _, hbody'⟩ := hlength other hfront hmatch
    rw [List.append_assoc, List.singleton_append, hbody] at hbody'
    rw [List.length_append, List.length_append, hbody']
  · have hisBody := isBody_take (tail ++ rest)
    rw [hrun, List.take_left] at hisBody
    refine .unterminated rfl hisBody (.of_first (p := .str) rfl (by decide) ?_)
    intro other hfront hmatch
    obtain ⟨body, more, _, hsplit, hbody⟩ := hlength other hfront hmatch
    obtain ⟨rfl, rfl⟩ := List.append_inj hsplit (hrun.symm.trans hbody)
    exact hquote rfl

/-! ## All lexemes -/

theorem eq_of_single {single? : Option Token}
    (h : (⟨0, single?⟩ : Cut) = ⟨tail.length, token?⟩) : tail = [] ∧ token? = single? := by
  obtain ⟨hlength, htoken⟩ := (Cut.mk.injEq ..).mp h
  exact ⟨List.eq_nil_of_length_eq_zero hlength.symm, htoken.symm⟩

/-- A pattern that is made of one character. -/
theorem takes_of_single (hskip : p.isSkipped = false) (hfirst : Pattern.ofFirst? c = some p)
    (hzero : c ≠ '0') (hmatches : ∀ other, p.Matches (c :: other) ↔ other = [])
    (h : (⟨0, p.token? [c]⟩ : Cut) = ⟨tail.length, token?⟩) : Takes (c :: tail) rest token? := by
  obtain ⟨rfl, rfl⟩ := eq_of_single h
  refine .longest hskip (.of_first hfirst hzero ((hmatches []).mpr rfl) ?_)
  intro other _ hmatch
  rw [(hmatches other).mp hmatch]

/-- What is cut off is a longest match, or what has to be taken where there is none. -/
theorem takes_of_cut (hblank : ¬ isBlank c) (hcomment : ¬ startsComment c)
    (h : cut c (tail ++ rest) = ⟨tail.length, token?⟩) : Takes (c :: tail) rest token? := by
  unfold cut at h
  split at h
  · next hc => exact takes_of_cutName hc h
  next hname =>
  split at h
  · next hc =>
    subst hc
    refine takes_of_cutMarkedName (p := .labelRef) rfl rfl (by decide) (fun name => ?_)
      (fun name => rfl) h
    exact ⟨fun hmatch => by cases hmatch; assumption, .labelRef⟩
  next hat =>
  split at h
  · next hc =>
    subst hc
    refine takes_of_cutMarkedName (p := .directive) rfl rfl (by decide) (fun name => ?_)
      (fun name => rfl) h
    exact ⟨fun hmatch => by cases hmatch; assumption, .directive⟩
  next hdot =>
  split at h
  · next hc => exact takes_of_cutNumber hc h
  next hdigit =>
  split at h
  · next hc =>
    subst hc
    exact takes_of_cutNegative h
  next hminus =>
  split at h
  · next hc =>
    subst hc
    exact takes_of_cutString h
  next hquote =>
  split at h
  · next hc =>
    subst hc
    refine takes_of_single (p := .comma) rfl rfl (by decide) (fun other => ?_) h
    exact ⟨fun hmatch => by cases hmatch; rfl, fun hother => hother ▸ .comma⟩
  next hcomma =>
  split at h
  · next hc =>
    subst hc
    refine takes_of_single (p := .colon) rfl rfl (by decide) (fun other => ?_) h
    exact ⟨fun hmatch => by cases hmatch; rfl, fun hother => hother ▸ .colon⟩
  next hcolon =>
  obtain ⟨rfl, rfl⟩ := eq_of_single h
  have hfirst : Pattern.ofFirst? c = none := by
    simp only [Pattern.ofFirst?, hname, hat, hdot, hdigit, hminus, hquote, hcomma, hcolon, hblank,
      hcomment, if_false, Bool.false_eq_true]
  exact .stray rfl (.of_none hfirst)

/-! ## Blanks and comments -/

theorem longest_blanks (hc : isBlank c) (cs : List Char) :
    Pattern.Longest .blanks (c :: cs.takeWhile isBlank) (cs.dropWhile isBlank) := by
  have hmatch : Pattern.Matches .blanks (c :: cs.takeWhile isBlank) :=
    .blanks hc fun _ hd => List.mem_takeWhile_imp hd
  have hzero : c ≠ '0' := by
    rintro rfl
    cases hc
  refine .of_first (hmatch.first.resolve_right fun hhex => hzero hhex.2) hzero hmatch ?_
  intro other hfront hother
  cases hother with
  | blanks _ hother =>
      refine length_le_of_run ?_ hother hfront
      rw [List.takeWhile_append_dropWhile]

theorem longest_comment (hc : startsComment c) (cs : List Char) :
    Pattern.Longest .comment (c :: cs.takeWhile (· ≠ '\n')) (cs.dropWhile (· ≠ '\n')) := by
  have hmatch : Pattern.Matches .comment (c :: cs.takeWhile (· ≠ '\n')) :=
    .comment hc fun hd => absurd (List.mem_takeWhile_imp hd) (by decide)
  have hzero : c ≠ '0' := by
    rintro rfl
    cases hc
  refine .of_first (hmatch.first.resolve_right fun hhex => hzero hhex.2) hzero hmatch ?_
  intro other hfront hother
  cases hother with
  | comment _ hother =>
      have hline : ∀ d ∈ other, decide (d ≠ '\n') := by
        intro d hd
        refine decide_eq_true ?_
        rintro rfl
        exact hother hd
      refine length_le_of_run ?_ hline hfront
      rw [List.takeWhile_append_dropWhile]

theorem scan_blanks {blanks : List Char} (hblanks : ∀ c ∈ blanks, isBlank c) (start : Nat) :
    scan start (blanks ++ rest) = scan (start + byteLength blanks) rest := by
  induction blanks generalizing start with
  | nil => rfl
  | cons c blanks ih =>
      obtain ⟨hc, hblanks⟩ := List.forall_mem_cons.mp hblanks
      rw [List.cons_append, scan, if_pos hc, ih hblanks, byteLength_cons, utf8Size_of_isBlank hc,
        Nat.add_assoc]

/-! ## The scanner -/

/-- The scanner cuts by longest matches. -/
theorem munches_scan (start : Nat) (cs : List Char) : Munches start cs (scan start cs) := by
  -- over the length: a step takes any number of characters
  induction hn : cs.length using Nat.strongRecOn generalizing start cs with
  | ind n ih =>
  cases cs with
  | nil =>
      rw [scan]
      exact .nil
  | cons c cs =>
      by_cases hblank : isBlank c
      · have hlt : (cs.dropWhile isBlank).length < n :=
          hn ▸ Nat.lt_succ_of_le (List.dropWhile_sublist _).length_le
        have hblanks : ∀ d ∈ c :: cs.takeWhile isBlank, isBlank d :=
          List.forall_mem_cons.mpr ⟨hblank, fun _ hd => List.mem_takeWhile_imp hd⟩
        have hmunches : Munches start ((c :: cs.takeWhile isBlank) ++ cs.dropWhile isBlank) _ :=
          .skip rfl (longest_blanks hblank cs) (ih _ hlt _ _ rfl)
        rwa [← scan_blanks hblanks, List.cons_append, List.takeWhile_append_dropWhile] at hmunches
      by_cases hcomment : startsComment c
      · have hlt : (cs.dropWhile (· ≠ '\n')).length < n :=
          hn ▸ Nat.lt_succ_of_le (List.dropWhile_sublist _).length_le
        have hmunches : Munches start
            ((c :: cs.takeWhile (· ≠ '\n')) ++ cs.dropWhile (· ≠ '\n')) _ :=
          .skip rfl (longest_comment hcomment cs) (ih _ hlt _ _ rfl)
        rw [List.cons_append, List.takeWhile_append_dropWhile, byteLength_cons,
          utf8Size_of_startsComment hcomment, ← Nat.add_assoc] at hmunches
        rwa [scan, if_neg hblank, if_pos hcomment]
      have hlt : (cs.drop (cut c cs).more).length < n := by
        rw [← hn, List.length_drop, List.length_cons]
        omega
      have hcut : cut c (cs.take (cut c cs).more ++ cs.drop (cut c cs).more)
          = ⟨(cs.take (cut c cs).more).length, (cut c cs).token?⟩ := by
        rw [List.take_append_drop, List.length_take_of_le (more_cut_le c cs)]
      have hmunches : Munches start
          ((c :: cs.take (cut c cs).more) ++ cs.drop (cut c cs).more) (_ :: _) :=
        .lexeme (takes_of_cut hblank hcomment hcut) (ih _ hlt _ _ rfl)
      rw [List.cons_append, List.take_append_drop] at hmunches
      rwa [scan, if_neg hblank, if_neg hcomment]

end Lexeme

end Wordcode
