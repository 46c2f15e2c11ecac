/-
# Boundaries — where a token ends

How far a token reaches is decided by what follows it: a name goes on while
letters follow, a string until its closing quote.  `NoLonger` says what of a text
is looked at for that, and `cut_congr` that a token which ends somewhere ends
there before any other text that is no longer in this sense; before a blank or a
comment, for one.  So the tokens of a text can be cut out of it one by one and put
into another.  `exists_yields_take` does so for the first tokens of a text.
-/
import Wordcode.Proofs.Listing.Scan

namespace Wordcode

open Text

namespace Lexeme

/-- Whether a zero before the text begins a number in base sixteen. -/
def startsHex : List Char → Bool
  | 'x' :: cs => cs.head?.any Char.isHexDigit
  | _ => false

/-- Before `rest'` no token is longer than before `rest`: it goes on into the one
only if it goes on into the other. -/
structure NoLonger (rest rest' : List Char) : Prop where
  name : rest'.head?.any continuesName → rest.head?.any continuesName
  digit : rest'.head?.any Char.isDigit → rest.head?.any Char.isDigit
  hexDigit : rest'.head?.any Char.isHexDigit → rest.head?.any Char.isHexDigit
  hex : startsHex rest' → startsHex rest

theorem NoLonger.refl (rest : List Char) : NoLonger rest rest := ⟨id, id, id, id⟩

variable {c : Char} {tail rest rest' cs more : List Char} {token : Token} {ts us : List Token}

theorem Separated.head?_any_eq_false {p : Char → Bool} (h : Separated rest)
    (hall : [' ', '\t', '\r', ';', '#', ','].all (fun c => !p c) = true) :
    rest.head?.any p = false := by
  cases rest with
  | nil => rfl
  | cons c rest => exact h.head?_eq_false hall c rfl

theorem Separated.noLonger (h : Separated rest') (rest : List Char) : NoLonger rest rest' where
  name hname := by rw [h.head?_any_eq_false (by decide)] at hname; cases hname
  digit hdigit := by rw [h.head?_any_eq_false (by decide)] at hdigit; cases hdigit
  hexDigit hdigit := by rw [h.head?_any_eq_false (by decide)] at hdigit; cases hdigit
  hex hhex := by
    have hx := h.head?_any_eq_false (p := (· == 'x')) (by decide)
    unfold startsHex at hhex
    split at hhex
    · cases hx
    · cases hhex

theorem startsHex_cons (c : Char) (cs : List Char) :
    startsHex (c :: cs) = (c == 'x' && cs.head?.any Char.isHexDigit) := by
  by_cases hc : c = 'x'
  · subst hc
    rfl
  · rw [beq_eq_false_iff_ne.mpr hc, Bool.false_and]
    unfold startsHex
    split
    · next hx => exact absurd (List.cons.inj hx).1 hc
    · rfl

/-- What is put before both texts is what tokens may go on into. -/
theorem NoLonger.append (h : NoLonger rest rest') (cs : List Char) :
    NoLonger (cs ++ rest) (cs ++ rest') := by
  cases cs with
  | nil => exact h
  | cons c cs =>
      refine ⟨id, id, id, fun hhex => ?_⟩
      rw [List.cons_append, startsHex_cons, Bool.and_eq_true] at hhex ⊢
      refine ⟨hhex.1, ?_⟩
      cases cs with
      | nil => exact h.hexDigit hhex.2
      | cons d cs => exact hhex.2

/-! ## Names and numbers -/

theorem cutName_congr {mk : String → Token}
    (h : cutName c (tail ++ rest) mk = ⟨tail.length, some token⟩) (hrest' : NoLonger rest rest') :
    cutName c (tail ++ rest') mk = ⟨tail.length, some token⟩ := by
  have hlength : ((tail ++ rest).takeWhile continuesName).length = tail.length :=
    congrArg Cut.more h
  rw [cutName, takeWhile_append_congr hlength hrest'.name]
  exact h

theorem cutDecimal_congr {negative : Bool}
    (h : cutDecimal negative c (tail ++ rest) = ⟨tail.length, some token⟩)
    (hrest' : NoLonger rest rest') :
    cutDecimal negative c (tail ++ rest') = ⟨tail.length, some token⟩ := by
  have hlength : ((tail ++ rest).takeWhile Char.isDigit).length = tail.length :=
    congrArg Cut.more h
  rw [cutDecimal, takeWhile_append_congr hlength hrest'.digit]
  exact h

/-- What is cut after a sign has the sign besides. -/
theorem eq_of_signed {name : Cut} {n : Nat} {token? : Option Token}
    (h : (⟨name.more + 1, name.token?⟩ : Cut) = ⟨n + 1, token?⟩) : name = ⟨n, token?⟩ := by
  obtain ⟨more, token?⟩ := name
  obtain ⟨hmore, htoken⟩ := (Cut.mk.injEq ..).mp h
  cases hmore
  cases htoken
  rfl

theorem cutMarkedName_congr {mk : String → Token}
    (h : cutMarkedName (tail ++ rest) mk = ⟨tail.length, some token⟩)
    (hrest' : NoLonger rest rest') :
    cutMarkedName (tail ++ rest') mk = ⟨tail.length, some token⟩ := by
  cases tail with
  | nil =>
      -- the sign alone is no token
      cases rest with
      | nil => cases h
      | cons d rest =>
        simp only [List.nil_append, cutMarkedName] at h
        split at h <;> cases h
  | cons d tail =>
      simp only [List.cons_append, cutMarkedName, List.length_cons] at h ⊢
      split at h
      · next hd => rw [if_pos hd, cutName_congr (eq_of_signed h) hrest']
      · cases h

theorem cutNegative_congr (h : cutNegative (tail ++ rest) = ⟨tail.length, some token⟩)
    (hrest' : NoLonger rest rest') : cutNegative (tail ++ rest') = ⟨tail.length, some token⟩ := by
  cases tail with
  | nil =>
      cases rest with
      | nil => cases h
      | cons d rest =>
        simp only [List.nil_append, cutNegative] at h
        split at h <;> cases h
  | cons d tail =>
      simp only [List.cons_append, cutNegative, List.length_cons] at h ⊢
      split at h
      · next hd => rw [if_pos hd, cutDecimal_congr (eq_of_signed h) hrest']
      · cases h

theorem exists_eq_cons_of_startsHex (h : startsHex cs) :
    ∃ ds, cs = 'x' :: ds ∧ ds.head?.any Char.isHexDigit := by
  unfold startsHex at h
  split at h
  · exact ⟨_, rfl, h⟩
  · cases h

theorem cutNumber_of_startsHex (h : cs.head?.any Char.isHexDigit) :
    cutNumber '0' ('x' :: cs)
      = ⟨(cs.takeWhile Char.isHexDigit).length + 1, hex? (cs.takeWhile Char.isHexDigit)⟩ := by
  simp [cutNumber, isEmpty_takeWhile, h]

theorem cutNumber_of_not_startsHex (h : ¬ (c = '0' ∧ startsHex cs)) :
    cutNumber c cs = cutDecimal false c cs := by
  unfold cutNumber
  split
  · rw [startsHex_cons] at h
    exact if_neg (by simpa [isEmpty_takeWhile] using h)
  · rfl

theorem cutNumber_congr (h : cutNumber c (tail ++ rest) = ⟨tail.length, some token⟩)
    (hrest' : NoLonger rest rest') : cutNumber c (tail ++ rest') = ⟨tail.length, some token⟩ := by
  by_cases hhex : c = '0' ∧ startsHex (tail ++ rest)
  · obtain ⟨rfl, hhex⟩ := hhex
    obtain ⟨ds, hds, hdigit⟩ := exists_eq_cons_of_startsHex hhex
    rw [hds, cutNumber_of_startsHex hdigit] at h
    have hmore := congrArg Cut.more h
    -- the `x` and at least one digit belong to the number
    rcases tail with _ | ⟨d, _ | ⟨e, tail⟩⟩
    · cases hmore
    · have hempty : (ds.takeWhile Char.isHexDigit).isEmpty = false := by
        rw [isEmpty_takeWhile, hdigit]
        rfl
      rw [List.length_eq_zero_iff.mp (Nat.succ_inj.mp hmore)] at hempty
      cases hempty
    · cases hds
      have hdigit' : (e :: tail ++ rest').head?.any Char.isHexDigit := hdigit
      have hlength : ((e :: tail ++ rest).takeWhile Char.isHexDigit).length = (e :: tail).length :=
        Nat.succ_inj.mp hmore
      show cutNumber '0' ('x' :: (e :: tail ++ rest')) = _
      rw [cutNumber_of_startsHex hdigit', takeWhile_append_congr hlength hrest'.hexDigit]
      exact h
  · have hhex' : ¬ (c = '0' ∧ startsHex (tail ++ rest')) :=
      fun h' => hhex ⟨h'.1, (hrest'.append tail).hex h'.2⟩
    rw [cutNumber_of_not_startsHex hhex] at h
    rw [cutNumber_of_not_startsHex hhex']
    exact cutDecimal_congr h hrest'

/-! ## Strings -/

theorem bodyLength_quote (rest : List Char) : bodyLength ('"' :: rest) = 0 := by
  cases rest with
  | nil => simp [bodyLength]
  | cons c rest => simp [bodyLength]

/-- The quote that ends a string ends it whatever follows. -/
theorem bodyLength_append_quote {body : List Char}
    (h : bodyLength (body ++ '"' :: rest) = body.length) (rest' : List Char) :
    bodyLength (body ++ '"' :: rest') = body.length := by
  induction body using bodyLength.induct with
  | case1 body => cases h
  | case2 c body hc ih =>
      simp only [List.cons_append, bodyLength, if_neg hc, List.length_cons] at h ⊢
      rw [ih (Nat.add_right_cancel h)]
  | case3 c body hlone hspecial =>
      by_cases hc : c = '\\'
      · subst hc
        -- a backslash at the end would take the quote with it
        cases body with
        | nil => simp [bodyLength] at h
        | cons d body => exact (hlone d body rfl rfl).elim
      · rw [List.cons_append, bodyLength.eq_2 _ _ (fun _ _ hc' _ => hc hc'), if_pos hspecial] at h
        cases h
  | case4 c body hlone hplain ih =>
      have hnot : ¬ Special c := by simpa [Special, or_assoc] using hplain
      rw [List.cons_append, bodyLength_cons_of_not_special hnot] at h ⊢
      rw [ih (Nat.add_right_cancel h), List.length_cons]
  | case5 => exact bodyLength_quote rest'

/-- A string is cut off with its closing quote, or as far as it goes on without one. -/
theorem cutString_cases {token? : Option Token}
    (h : cutString (tail ++ rest) = ⟨tail.length, token?⟩) :
    (∃ body, tail = body ++ ['"'] ∧ bodyLength (body ++ '"' :: rest) = body.length
        ∧ token? = str? body)
      ∨ bodyLength (tail ++ rest) = tail.length ∧ rest.head? ≠ some '"' ∧ token? = none := by
  simp only [cutString] at h
  split at h
  · next hquote =>
    obtain ⟨hlength, rfl⟩ := (Cut.mk.injEq ..).mp h
    -- the last of the characters cut is the closing quote
    obtain ⟨body, rfl⟩ : ∃ body, tail = body ++ ['"'] := by
      rw [List.head?_drop, List.getElem?_append_left (by omega)] at hquote
      rw [← List.getLast?_eq_some_iff, List.getLast?_eq_getElem?, ← hlength]
      exact hquote
    simp only [List.append_assoc, List.singleton_append, List.length_append,
      List.length_singleton] at hlength ⊢
    refine .inl ⟨body, rfl, Nat.add_right_cancel hlength, ?_⟩
    rw [Nat.add_right_cancel hlength, List.take_left]
  · next hquote =>
    obtain ⟨hlength, rfl⟩ := (Cut.mk.injEq ..).mp h
    rw [hlength, List.drop_left] at hquote
    exact .inr ⟨hlength, hquote, rfl⟩

theorem cutString_congr (h : cutString (tail ++ rest) = ⟨tail.length, some token⟩)
    (rest' : List Char) : cutString (tail ++ rest') = ⟨tail.length, some token⟩ := by
  rcases cutString_cases h with ⟨body, rfl, hbody, htoken⟩ | ⟨_, _, htoken⟩
  · have hbody' := bodyLength_append_quote hbody rest'
    simp [cutString, hbody', htoken]
  · cases htoken

/-! ## All tokens -/

/-- The first character decides how a lexeme is cut. -/
theorem cut_cases (c : Char) :
    (∀ rest, cut c rest = cutName c rest .identifier)
      ∨ (∃ mk, ∀ rest, cut c rest = cutMarkedName rest mk)
      ∨ (∀ rest, cut c rest = cutNumber c rest)
      ∨ (∀ rest, cut c rest = cutNegative rest)
      ∨ (∀ rest, cut c rest = cutString rest)
      ∨ ∃ token?, ∀ rest, cut c rest = ⟨0, token?⟩ := by
  by_cases hname : startsName c
  · exact .inl fun rest => by rw [cut, if_pos hname]
  by_cases hat : c = '@'
  · exact .inr (.inl ⟨.labelRef, fun rest => by rw [cut, if_neg hname, if_pos hat]⟩)
  by_cases hdot : c = '.'
  · exact .inr (.inl ⟨.directive, fun rest => by
      rw [cut, if_neg hname, if_neg hat, if_pos hdot]⟩)
  by_cases hdigit : c.isDigit
  · exact .inr (.inr (.inl fun rest => by
      rw [cut, if_neg hname, if_neg hat, if_neg hdot, if_pos hdigit]))
  have hsign : ∀ rest, cut c rest = if c = '-' then cutNegative rest
      else if c = '"' then cutString rest
      else if c = ',' then ⟨0, some .comma⟩
      else if c = ':' then ⟨0, some .colon⟩
      else .stray := fun rest => by
    rw [cut, if_neg hname, if_neg hat, if_neg hdot, if_neg hdigit]
  by_cases hminus : c = '-'
  · exact .inr (.inr (.inr (.inl fun rest => by rw [hsign, if_pos hminus])))
  by_cases hquote : c = '"'
  · exact .inr (.inr (.inr (.inr (.inl fun rest => by
      rw [hsign, if_neg hminus, if_pos hquote]))))
  -- a comma, a colon and any other character stand alone
  refine .inr (.inr (.inr (.inr (.inr ⟨(cut c []).token?, fun rest => ?_⟩))))
  rw [hsign, hsign, if_neg hminus, if_neg hminus, if_neg hquote, if_neg hquote]
  split
  · rfl
  split
  · rfl
  · rfl

/-- A token that ends somewhere ends there before a blank or a comment as well. -/
theorem cut_congr (h : cut c (tail ++ rest) = ⟨tail.length, some token⟩)
    (hrest' : NoLonger rest rest') : cut c (tail ++ rest') = ⟨tail.length, some token⟩ := by
  rcases cut_cases c with hc | ⟨mk, hc⟩ | hc | hc | hc | ⟨token?, hc⟩
  · rw [hc] at h ⊢
    exact cutName_congr h hrest'
  · rw [hc] at h ⊢
    exact cutMarkedName_congr h hrest'
  · rw [hc] at h ⊢
    exact cutNumber_congr h hrest'
  · rw [hc] at h ⊢
    exact cutNegative_congr h hrest'
  · rw [hc] at h ⊢
    exact cutString_congr h rest'
  · rw [hc] at h ⊢
    exact h

/-! ## First characters -/

/-- The character that a token starts with. -/
def StartsToken (c : Char) : Token → Prop
  | .identifier _ => startsName c
  | .labelRef _ => c = '@'
  | .directive _ => c = '.'
  | .number _ | .hex _ => c.isDigit ∨ c = '-'
  | .str _ => c = '"'
  | .comma => c = ','
  | .colon => c = ':'

theorem exists_of_cutMarkedName {mk : String → Token}
    (h : (cutMarkedName rest mk).token? = some token) : ∃ name, token = mk name := by
  unfold cutMarkedName at h
  split at h
  · cases h
  · split at h
    · cases h
      exact ⟨_, rfl⟩
    · cases h

theorem exists_of_number? {negative : Bool} (h : number? negative tail = some token) :
    ∃ value, token = .number value := by
  simp only [number?, Option.ite_none_right_eq_some, Option.some.injEq] at h
  exact ⟨_, h.2.symm⟩

theorem exists_of_hex? (h : hex? tail = some token) : ∃ value, token = .hex value := by
  simp only [hex?, Option.ite_none_right_eq_some, Option.some.injEq] at h
  exact ⟨_, h.2.symm⟩

theorem exists_of_cutDecimal {negative : Bool}
    (h : (cutDecimal negative c rest).token? = some token) : ∃ value, token = .number value := by
  rw [cutDecimal] at h
  exact exists_of_number? h

/-- The sort of a token is told by its first character. -/
theorem startsToken_of_cut (h : (cut c rest).token? = some token) : StartsToken c token := by
  unfold cut at h
  split at h
  · next hname =>
    cases h
    exact hname
  split at h
  · next hat =>
    obtain ⟨name, rfl⟩ := exists_of_cutMarkedName h
    exact hat
  split at h
  · next hdot =>
    obtain ⟨name, rfl⟩ := exists_of_cutMarkedName h
    exact hdot
  split at h
  · next hdigit =>
    by_cases hhex : c = '0' ∧ startsHex rest
    · obtain ⟨rfl, hhex⟩ := hhex
      obtain ⟨ds, rfl, hds⟩ := exists_eq_cons_of_startsHex hhex
      rw [cutNumber_of_startsHex hds] at h
      dsimp only at h
      obtain ⟨value, rfl⟩ := exists_of_hex? h
      exact .inl hdigit
    · rw [cutNumber_of_not_startsHex hhex] at h
      obtain ⟨value, rfl⟩ := exists_of_cutDecimal h
      exact .inl hdigit
  split at h
  · next hminus =>
    unfold cutNegative at h
    split at h
    · cases h
    · split at h
      · obtain ⟨value, rfl⟩ := exists_of_cutDecimal h
        exact .inr hminus
      · cases h
  split at h
  · next hquote =>
    unfold cutString at h
    dsimp only at h
    split at h
    · obtain ⟨_, _, rfl⟩ := Option.map_eq_some_iff.mp h
      exact hquote
    · cases h
  split at h
  · next hcomma =>
    cases h
    exact hcomma
  split at h
  · next hcolon =>
    cases h
    exact hcolon
  · cases h

/-! ## Prefixes -/

theorem bodyLength_le (cs : List Char) : bodyLength cs ≤ cs.length := by
  induction cs using bodyLength.induct with
  | case1 rest => simp [bodyLength]
  | case2 c rest hc ih =>
      rw [bodyLength, if_neg hc, List.length_cons, List.length_cons]
      omega
  | case3 c rest hlone hspecial =>
      rw [bodyLength.eq_2 _ _ hlone, if_pos hspecial]
      exact Nat.zero_le _
  | case4 c rest hlone hplain ih =>
      rw [bodyLength.eq_2 _ _ hlone, if_neg hplain, List.length_cons]
      omega
  | case5 => exact Nat.zero_le _

theorem more_cutName_le (c : Char) (rest : List Char) (mk : String → Token) :
    (cutName c rest mk).more ≤ rest.length :=
  (List.takeWhile_sublist _).length_le

theorem more_cutDecimal_le (negative : Bool) (c : Char) (rest : List Char) :
    (cutDecimal negative c rest).more ≤ rest.length :=
  (List.takeWhile_sublist _).length_le

theorem more_cutMarkedName_le (rest : List Char) (mk : String → Token) :
    (cutMarkedName rest mk).more ≤ rest.length := by
  cases rest with
  | nil => exact Nat.zero_le _
  | cons c rest =>
      rw [cutMarkedName]
      split
      · exact Nat.succ_le_succ (more_cutName_le c rest mk)
      · exact Nat.zero_le _

theorem more_cutNegative_le (rest : List Char) : (cutNegative rest).more ≤ rest.length := by
  cases rest with
  | nil => exact Nat.zero_le _
  | cons c rest =>
      rw [cutNegative]
      split
      · exact Nat.succ_le_succ (more_cutDecimal_le true c rest)
      · exact Nat.zero_le _

theorem more_cutNumber_le (c : Char) (rest : List Char) :
    (cutNumber c rest).more ≤ rest.length := by
  unfold cutNumber
  split
  · dsimp only
    split
    · exact Nat.succ_le_succ (List.takeWhile_sublist _).length_le
    · exact more_cutDecimal_le false c _
  · exact more_cutDecimal_le false c rest

theorem more_cutString_le (rest : List Char) : (cutString rest).more ≤ rest.length := by
  rw [cutString]
  split
  · next hquote =>
    rw [List.head?_drop] at hquote
    exact (List.getElem?_eq_some_iff.mp hquote).1
  · exact bodyLength_le rest

theorem more_cut_le (c : Char) (rest : List Char) : (cut c rest).more ≤ rest.length := by
  rcases cut_cases c with hc | ⟨mk, hc⟩ | hc | hc | hc | ⟨token?, hc⟩
  · rw [hc]
    exact more_cutName_le c rest _
  · rw [hc]
    exact more_cutMarkedName_le rest mk
  · rw [hc]
    exact more_cutNumber_le c rest
  · rw [hc]
    exact more_cutNegative_le rest
  · rw [hc]
    exact more_cutString_le rest
  · rw [hc]
    exact Nat.zero_le _

/-- The first tokens that a text is cut into, with whatever else can be cut after
them, are what some text is cut into. -/
theorem exists_yields_take {start : Nat} (h : (scan start cs).map Lexeme.token? = ts.map some)
    (hmore : Yields more us) (k : Nat) : ∃ text, Yields text (ts.take k ++ us) := by
  induction start, cs using scan.induct generalizing ts k with
  | case1 start =>
      rw [scan, List.map_nil, eq_comm, List.map_eq_nil_iff] at h
      rw [h, List.take_nil]
      exact ⟨more, hmore⟩
  | case2 start c rest hblank ih =>
      rw [scan, if_pos hblank] at h
      exact ih h k
  | case3 start c rest hblank hcomment ih =>
      rw [scan, if_neg hblank, if_pos hcomment] at h
      exact ih h k
  | case4 start c rest hblank hcomment next text =>
      rename_i ih
      rw [scan, if_neg hblank, if_neg hcomment, List.map_cons, eq_comm, List.map_eq_cons_iff] at h
      obtain ⟨token, ts, rfl, htoken, hrest⟩ := h
      cases k with
      | zero => exact ⟨more, hmore⟩
      | succ k =>
          obtain ⟨text', htext'⟩ := ih hrest.symm k
          have hlength : (rest.take next.more).length = next.more :=
            List.length_take_of_le (more_cut_le c rest)
          have hcut : cut c (rest.take next.more ++ rest.drop next.more)
              = ⟨(rest.take next.more).length, some token⟩ := by
            rw [List.take_append_drop, hlength, htoken]
          have hcut' := cut_congr hcut ((separated_blank text').noLonger _)
          exact ⟨_, .cons hblank hcomment hcut' (.blank rfl htext')⟩

end Lexeme

end Wordcode

