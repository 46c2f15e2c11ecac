/-
# Misplaced — where a line goes wrong

A line that the grammar does not derive may be refused for what its words mean:
a mnemonic that no opcode has, a directive with a wrong argument.  Or something
stands where it cannot stand, and then the parser points at it.  This module
says what it points at.

`StopsAt` is the place where tokens stop being the beginning of accepted ones.
It is found for an operand list by going along the list (`parseList_stopsAt`),
and what is put before the list moves with it (`StopsAt.prepend`), so the place
is the same for statements and for lines.  `Line.parse_exact` puts this together
with the grammar and says it of texts.

A beginning has to be the beginning of a *text* that is accepted, not only of
tokens that the grammar derives.  Such a text is cut out of the refused one, and
at most one operand is written after it.
-/
import Wordcode.Proofs.Listing.Boundary
import Wordcode.Proofs.Listing.Grammar

namespace Wordcode

open Lexeme

variable {placed : List PlacedToken} {token : Token} {ts more : List Token} {column : Nat}

/-! ## The place -/

/-- The token at `column` is the first with which the tokens stop being the
beginning of accepted ones; or all of them are such a beginning and the last of
them, at `column`, is a comma.  One operand at most makes a beginning whole. -/
inductive StopsAt (accepted : List Token → Prop) (placed : List PlacedToken) (column : Nat) :
    Prop where
  | token (before : List PlacedToken) {after : List PlacedToken} {token : Token}
      {more : List Token} (hplaced : placed = before ++ (token, column) :: after)
      (hmore : more = [] ∨ more = [.number 0]) (hbegins : accepted (before.map Prod.fst ++ more))
      (hstops : ∀ more, ¬ accepted (before.map Prod.fst ++ token :: more))
  | comma (before : List PlacedToken) (hplaced : placed = before ++ [(.comma, column)])
      (hbegins : accepted (placed.map Prod.fst ++ [.number 0]))

/-- What is put before tokens, and changes nothing about which are accepted, does
not change where they stop. -/
theorem StopsAt.prepend {accepted accepted' : List Token → Prop} (first : List PlacedToken)
    (haccepted : ∀ ts, accepted ts → accepted' (first.map Prod.fst ++ ts))
    (hrefused : ∀ token ts, (placed.map Prod.fst).head? = some token →
      accepted' (first.map Prod.fst ++ token :: ts) → accepted (token :: ts))
    (h : StopsAt accepted placed column) : StopsAt accepted' (first ++ placed) column := by
  cases h with
  | @token before after t more hplaced hmore hbegins hstops =>
      subst hplaced
      refine .token (first ++ before) (List.append_assoc ..).symm hmore ?_ ?_
      · rw [List.map_append, List.append_assoc]
        exact haccepted _ hbegins
      · intro more h
        rw [List.map_append, List.append_assoc] at h
        cases before with
        | nil => exact hstops more (hrefused t more rfl h)
        | cons p before => exact hstops more (hrefused p.1 _ rfl h)
  | @comma before hplaced hbegins =>
      subst hplaced
      refine .comma (first ++ before) (List.append_assoc ..).symm ?_
      rw [List.map_append, List.append_assoc]
      exact haccepted _ hbegins

/-! ## Operands -/

namespace OperandExpr

/-- The tokens write operands, and one at least. -/
def Operands (ts : List Token) : Prop := ts ≠ [] ∧ ∃ es, ListSpelled ts es

theorem operands_singleton {e : OperandExpr} (h : Spelled token e) : Operands [token] :=
  ⟨List.cons_ne_nil _ _, [e], listSpelled_singleton_iff.mpr ⟨e, h, rfl⟩⟩

theorem operands_number : Operands [.number 0] := operands_singleton (.number (.number 0))

theorem operands_comma_iff {e : OperandExpr} (h : Spelled token e) :
    Operands (token :: .comma :: ts) ↔ Operands ts := by
  constructor
  · rintro ⟨_, es, hes⟩
    obtain ⟨_, hts, _, es', _, hes', _⟩ := listSpelled_cons_cons_iff.mp hes
    exact ⟨hts, es', hes'⟩
  · rintro ⟨hts, es, hes⟩
    exact ⟨List.cons_ne_nil _ _, e :: es,
      listSpelled_cons_cons_iff.mpr ⟨rfl, hts, e, es, h, hes, rfl⟩⟩

/-- The parser points at the place where operands go wrong. -/
theorem parseList_stopsAt {fault : Misplaced}
    (h : parseList placed = .error (.malformed column fault)) :
    StopsAt Operands placed column := by
  induction placed using parseList.induct with
  | case1 => cases h
  | case2 token c rest hnone =>
      rw [parseList_of_ofToken?_eq_none hnone] at h
      cases h
      refine .token [] rfl (.inr rfl) operands_number ?_
      rintro more ⟨_, es, hes⟩
      obtain ⟨e, he⟩ := hes.exists_spelled
      rw [← ofToken?_eq_some_iff, hnone] at he
      cases he
  | case3 token c operand hoperand =>
      rw [parseList_singleton hoperand] at h
      cases h
  | case4 token c operand hoperand commaColumn rest hempty =>
      rw [List.isEmpty_iff.mp hempty, parseList_trailingComma hoperand] at h
      cases h
      rw [List.isEmpty_iff.mp hempty]
      refine .comma [(token, c)] rfl ?_
      exact (operands_comma_iff (ofToken?_eq_some_iff.mp hoperand)).mpr operands_number
  | case5 token c operand hoperand commaColumn rest hne ih =>
      rw [Bool.not_eq_true] at hne
      rw [parseList_comma hoperand hne, except_map_eq_error_iff] at h
      have hiff : ∀ ts, Operands (token :: .comma :: ts) ↔ Operands ts :=
        fun ts => operands_comma_iff (ofToken?_eq_some_iff.mp hoperand)
      exact (ih h).prepend [(token, c), (.comma, commaColumn)] (fun ts => (hiff ts).mpr)
        (fun t ts _ => (hiff (t :: ts)).mp)
  | case6 token c operand hoperand token' c' rest hcomma =>
      rw [parseList_of_ne_comma hoperand hcomma] at h
      cases h
      refine .token [(token, c)] rfl (.inl rfl)
        (operands_singleton (ofToken?_eq_some_iff.mp hoperand)) ?_
      rintro more ⟨_, es, hes⟩
      exact hcomma (listSpelled_cons_cons_iff.mp hes).1

end OperandExpr

/-! ## Statements -/

namespace Statement

/-- The token starts a statement. -/
def Starts (token : Token) : Prop :=
  (∃ name, token = .identifier name) ∨ ∃ name, token = .directive name

theorem Spelled.starts {statement : Option Statement} (h : Spelled (token :: ts) statement) :
    Starts token := by
  cases h with
  | directive => exact .inr ⟨_, rfl⟩
  | instruction => exact .inl ⟨_, rfl⟩

/-- A statement in which something is misplaced: its first token, or something in
the operands of an instruction. -/
theorem parse_eq_malformed {fault : Misplaced}
    (h : Statement.parse placed = .error (.malformed column fault)) :
    (∃ token rest, placed = (token, column) :: rest ∧ ¬ Starts token)
      ∨ ∃ name c op operands, placed = (.identifier name, c) :: operands
        ∧ name.map Char.toLower = Opcode.mnemonic op
        ∧ StopsAt OperandExpr.Operands operands column := by
  unfold Statement.parse at h
  split at h
  · cases h
  · split at h <;> cases h
  · next mnemonic c operands =>
    split at h
    · cases h
    · next op hop =>
      rw [except_map_eq_error_iff] at h
      exact .inr ⟨mnemonic, c, op, operands, rfl, Opcode.ofMnemonic?_eq_some_iff.mp hop,
        OperandExpr.parseList_stopsAt h⟩
  · next token c rest hdirective hidentifier =>
    cases h
    refine .inl ⟨token, rest, rfl, ?_⟩
    rintro (⟨name, rfl⟩ | ⟨name, rfl⟩)
    · exact hidentifier name rfl
    · exact hdirective name rfl

end Statement

/-! ## Lines -/

namespace Line

/-- Some line is written with the tokens. -/
def Accepted (ts : List Token) : Prop := ∃ line, Spelled ts line

theorem accepted_label_iff {name : String} :
    Accepted (.identifier name :: .colon :: ts) ↔ ∃ statement, Statement.Spelled ts statement := by
  constructor
  · rintro ⟨line, hline⟩
    obtain ⟨statement, hstatement, _⟩ := spelled_label_iff.mp hline
    exact ⟨statement, hstatement⟩
  · rintro ⟨statement, hstatement⟩
    exact ⟨_, .labelled name hstatement⟩

theorem accepted_instruction {name : String} {op : Opcode}
    (hname : name.map Char.toLower = op.mnemonic) (h : OperandExpr.Operands ts) :
    ∃ statement, Statement.Spelled (.identifier name :: ts) statement := by
  obtain ⟨_, es, hes⟩ := h
  exact ⟨_, .instruction hname hes⟩

theorem operands_of_spelled {name : String} {statement : Option Statement}
    (h : Statement.Spelled (.identifier name :: token :: ts) statement) :
    OperandExpr.Operands (token :: ts) := by
  cases h with
  | instruction _ hoperands => exact ⟨List.cons_ne_nil _ _, _, hoperands⟩

theorem stopsAt_of_labelled {name : String} {c colonColumn : Nat} {fault : Misplaced}
    (h : Statement.parse placed = .error (.malformed column fault)) :
    StopsAt Accepted ((.identifier name, c) :: (.colon, colonColumn) :: placed) column := by
  rcases Statement.parse_eq_malformed h with ⟨token, rest, rfl, hstart⟩
    | ⟨mnemonic, c', op, operands, rfl, hname, hstops⟩
  · refine .token [(.identifier name, c), (.colon, colonColumn)] rfl (.inl rfl)
      (accepted_label_iff.mpr ⟨none, .nothing⟩) ?_
    intro more hmore
    obtain ⟨statement, hstatement⟩ := accepted_label_iff.mp hmore
    exact hstart hstatement.starts
  · refine hstops.prepend [(.identifier name, c), (.colon, colonColumn),
      (.identifier mnemonic, c')] ?_ ?_
    · intro ts hts
      exact accepted_label_iff.mpr (accepted_instruction hname hts)
    · intro t ts _ hts
      obtain ⟨statement, hstatement⟩ := accepted_label_iff.mp hts
      exact operands_of_spelled hstatement

theorem stopsAt_of_not_labelled {fault : Misplaced} (hlabel : ¬ Labelled (placed.map Prod.fst))
    (h : Statement.parse placed = .error (.malformed column fault)) :
    StopsAt Accepted placed column := by
  rcases Statement.parse_eq_malformed h with ⟨token, rest, rfl, hstart⟩
    | ⟨mnemonic, c, op, operands, rfl, hname, hstops⟩
  · refine .token [] rfl (.inl rfl) ⟨_, .unlabelled .nothing⟩ ?_
    rintro more ⟨line, hline⟩
    cases hline with
    | unlabelled hstatement => exact hstart hstatement.starts
    | labelled name => exact hstart (.inl ⟨name, rfl⟩)
  · refine hstops.prepend [(.identifier mnemonic, c)] ?_ ?_
    · intro ts hts
      obtain ⟨statement, hstatement⟩ := accepted_instruction hname hts
      exact ⟨_, .unlabelled hstatement⟩
    · rintro t ts hhead ⟨line, hline⟩
      cases hline with
      | unlabelled hstatement => exact operands_of_spelled hstatement
      | labelled =>
          obtain ⟨rest, hrest⟩ := List.head?_eq_some_iff.mp hhead
          exact (hlabel ⟨mnemonic, rest, by rw [List.map_cons, hrest]⟩).elim

/-- The parser points at the place where a line goes wrong. -/
theorem ofTokens_stopsAt {fault : Misplaced}
    (h : ofTokens placed = .error (.malformed column fault)) : StopsAt Accepted placed column := by
  by_cases hlabel : Labelled (placed.map Prod.fst)
  · obtain ⟨name, ts, hts⟩ := hlabel
    obtain ⟨⟨_, c⟩, tail, rfl, rfl, htail⟩ := List.map_eq_cons_iff.mp hts
    obtain ⟨⟨_, colonColumn⟩, rest, rfl, rfl, rfl⟩ := List.map_eq_cons_iff.mp htail
    rw [ofTokens, except_map_eq_error_iff] at h
    exact stopsAt_of_labelled h
  · rw [ofTokens_of_not_labelled hlabel, except_map_eq_error_iff] at h
    exact stopsAt_of_not_labelled hlabel h

/-! ## Texts -/

variable {text : List Char}

/-- Some text that is accepted begins with the tokens. -/
def Begins (ts : List Token) : Prop :=
  ∃ text line, parse text = .ok line
    ∧ ∃ more, (Lexeme.scan 0 text).map Lexeme.token? = (ts ++ more).map some

theorem not_begins (h : ∀ more, ¬ Accepted (ts ++ more)) : ¬ Begins ts := by
  rintro ⟨text, line, hparse, more, hscan⟩
  exact h more ⟨line, (parse_eq_ok_iff (yields_iff.mpr hscan)).mp hparse⟩

/-- The first tokens of a text are the beginning of an accepted text if they are
accepted, or with one operand after them. -/
theorem begins_take (htext : Yields text ts) {k : Nat} (hmore : more = [] ∨ more = [.number 0])
    (h : Accepted (ts.take k ++ more)) : Begins (ts.take k) := by
  have hwritten : ∃ written, Yields written more := by
    rcases hmore with rfl | rfl
    · exact ⟨[], .nil⟩
    · exact ⟨_, .number (n := 0) (by decide) separated_nil .nil⟩
  obtain ⟨written, hwritten⟩ := hwritten
  obtain ⟨text', htext'⟩ := exists_yields_take (htext 0) hwritten k
  obtain ⟨line, hline⟩ := h
  exact ⟨text', line, (parse_eq_ok_iff htext').mpr hline, more, htext' 0⟩

theorem Begins.of_append (h : Begins (ts ++ more)) : Begins ts := by
  obtain ⟨text, line, hparse, rest, hscan⟩ := h
  exact ⟨text, line, hparse, more ++ rest, by rw [← List.append_assoc, hscan]⟩

theorem Begins.take (h : Begins ts) (k : Nat) : Begins (ts.take k) := by
  rw [← List.take_append_drop k ts] at h
  exact h.of_append

/-- The tokens of a line are its lexemes, each where it starts. -/
theorem exists_lexeme (h : tokens text = .ok placed) {k : Nat}
    (hk : placed[k]? = some (token, column)) :
    ∃ l, (Lexeme.scan 0 text)[k]? = some l ∧ l.token? = some token ∧ column = l.start + 1 := by
  have hrel := forall₂_iff_getElem?.mp (mapM_eq_ok_iff.mp h) k
  rw [hk] at hrel
  cases hl : (Lexeme.scan 0 text)[k]? with
  | none =>
      rw [hl] at hrel
      cases hrel
  | some l =>
      rw [hl] at hrel
      cases hrel with
      | some hplaced => exact ⟨l, rfl, placed_eq_ok_iff.mp hplaced⟩

theorem placed_eq_error {l : Lexeme} (hl : l.token? = none) : Line.placed l
    = .error (.malformed (l.start + 1) (.unexpectedInput (String.ofList l.text))) := by
  rw [Line.placed, hl]
  rfl

theorem mapM_placed_eq_error {before : List Lexeme} {l : Lexeme}
    (hbefore : ∀ l' ∈ before, l'.token? ≠ none) (hl : l.token? = none) (after : List Lexeme) :
    (before ++ l :: after).mapM Line.placed
      = .error (.malformed (l.start + 1) (.unexpectedInput (String.ofList l.text))) := by
  have hplaced : List.Forall₂ (fun l' p => Line.placed l' = .ok p) before
      (before.map fun l' => (l'.token?.getD .comma, l'.start + 1)) := by
    rw [List.forall₂_map_right_iff, List.forall₂_same]
    intro l' hl'
    obtain ⟨token, htoken⟩ := Option.ne_none_iff_exists'.mp (hbefore l' hl')
    exact placed_eq_ok_iff.mpr ⟨by rw [htoken]; rfl, rfl⟩
  exact mapM_eq_error_iff.mpr ⟨before, l, after, _, rfl, hplaced, placed_eq_error hl⟩

/-- Something misplaced is a token after which no accepted text goes on, or the
comma at the end of a line that could go on. -/
theorem misplaced_at {fault : Misplaced}
    (hscan : (Lexeme.scan 0 text).map Lexeme.token? = ts.map some)
    (h : parse text = .error (.malformed column fault)) :
    (∃ k l, (Lexeme.scan 0 text)[k]? = some l ∧ column = l.start + 1
      ∧ (∀ j ≤ k, Begins (ts.take j)) ∧ ¬ Begins (ts.take (k + 1)))
    ∨ Begins ts ∧ ∃ l, (Lexeme.scan 0 text).getLast? = some l ∧ l.token? = some .comma
      ∧ column = l.start + 1 := by
  have htext : Yields text ts := yields_iff.mpr hscan
  obtain ⟨placed, hplaced, rfl⟩ := exists_tokens_eq htext
  rw [parse, hplaced] at h
  cases ofTokens_stopsAt h with
  | @token before after token more hsplit hmore hbegins hstops =>
      have hplace : placed[before.length]? = some (token, column) := by simp [hsplit]
      obtain ⟨l, hl, _, hcolumn⟩ := exists_lexeme hplaced hplace
      have hbefore : (placed.map Prod.fst).take before.length = before.map Prod.fst := by
        simp [hsplit]
      have hstop : (placed.map Prod.fst).take (before.length + 1)
          = before.map Prod.fst ++ [token] := by
        simp [hsplit, List.take_append, List.take_of_length_le]
      refine .inl ⟨before.length, l, hl, hcolumn, ?_, ?_⟩
      · intro j hj
        have htake : Begins ((placed.map Prod.fst).take before.length) :=
          begins_take htext hmore (by rwa [hbefore])
        rw [← Nat.min_eq_left hj, ← List.take_take]
        exact htake.take j
      · rw [hstop]
        refine not_begins fun more => ?_
        rw [List.append_assoc]
        exact hstops more
  | @comma before hsplit hbegins =>
      have hplace : placed[before.length]? = some (.comma, column) := by simp [hsplit]
      obtain ⟨l, hl, hcomma, hcolumn⟩ := exists_lexeme hplaced hplace
      have hall : (placed.map Prod.fst).take placed.length = placed.map Prod.fst :=
        List.take_of_length_le (by rw [List.length_map])
      have hlength : (Lexeme.scan 0 text).length = before.length + 1 := by
        rw [(mapM_eq_ok_iff.mp hplaced).length_eq, hsplit, List.length_append,
          List.length_singleton]
      refine .inr ⟨?_, l, ?_, hcomma, hcolumn⟩
      · rw [← hall]
        exact begins_take htext (.inr rfl) (by rwa [hall])
      · rw [List.getLast?_eq_getElem?, hlength]
        exact hl

/-- A line is read exactly as the grammar derives it from its tokens.  A piece that
is no token is reported before anything else; then the first token with which no
accepted line goes on, or the comma that a line ends in. -/
theorem parse_exact (text : List Char) :
    (∀ before l after, Lexeme.scan 0 text = before ++ l :: after →
        (∀ l' ∈ before, l'.token? ≠ none) → l.token? = none →
        parse text = .error (.malformed (l.start + 1) (.unexpectedInput (String.ofList l.text))))
    ∧ ∀ ts, (Lexeme.scan 0 text).map Lexeme.token? = ts.map some →
        (∀ line, parse text = .ok line ↔ Spelled ts line)
        ∧ ∀ column fault, parse text = .error (.malformed column fault) →
          (∃ k l, (Lexeme.scan 0 text)[k]? = some l ∧ column = l.start + 1
            ∧ (∀ j ≤ k, Begins (ts.take j)) ∧ ¬ Begins (ts.take (k + 1)))
          ∨ Begins ts ∧ ∃ l, (Lexeme.scan 0 text).getLast? = some l ∧ l.token? = some .comma
            ∧ column = l.start + 1 := by
  constructor
  · intro before l after hscan hbefore hl
    have htokens := mapM_placed_eq_error hbefore hl after
    rw [← hscan] at htokens
    exact bind_eq_error_iff.mpr (.inl htokens)
  · intro ts hscan
    exact ⟨fun line => parse_eq_ok_iff (yields_iff.mpr hscan),
      fun column fault => misplaced_at hscan⟩

theorem parse_exact_lines :
    parse "add $ ,,".toList = .error (.malformed 5 (.unexpectedInput "$"))
      ∧ parse "top: JT 0x3, @done".toList
        = .ok ⟨some "top", some (.instruction ⟨.jt, [.number 3, .label "done"]⟩)⟩
      ∧ Begins [.identifier "add", .number 1]
      ∧ ¬ Begins [.identifier "add", .number 1, .number 2] := by
  refine ⟨?_, ?_, ?_⟩
  · exact (parse_exact "add $ ,,".toList).1 [⟨0, ['a', 'd', 'd'], some (.identifier "add")⟩]
      ⟨4, ['$'], none⟩ [⟨6, [','], some .comma⟩, ⟨7, [','], some .comma⟩] (by decide +kernel)
      (by simp) rfl
  · refine (((parse_exact "top: JT 0x3, @done".toList).2 [.identifier "top", .colon,
      .identifier "JT", .hex 3, .comma, .labelRef "done"] (by decide +kernel)).1 _).mpr ?_
    refine .labelled "top" (.instruction (by decide +kernel) ?_)
    exact ⟨[.hex 3, .labelRef "done"], rfl, .cons (.number (.hex 3)) (.cons (.label "done") .nil)⟩
  · have hscan : Lexeme.scan 0 "add 1 2".toList = [⟨0, ['a', 'd', 'd'], some (.identifier "add")⟩,
        ⟨4, ['1'], some (.number 1)⟩, ⟨6, ['2'], some (.number 2)⟩] := by decide +kernel
    rcases ((parse_exact "add 1 2".toList).2 [.identifier "add", .number 1, .number 2]
      (by rw [hscan]; rfl)).2 7 (.expectedComma (.number 2)) (by decide +kernel)
      with ⟨k, l, hl, hcolumn, hbegins, hstops⟩ | ⟨_, l, hl, hcomma, _⟩
    · rw [hscan] at hl
      rcases k with _ | _ | _ | k
      · cases hl
        cases hcolumn
      · cases hl
        cases hcolumn
      · exact ⟨hbegins 2 (Nat.le_refl 2), hstops⟩
      · cases hl
    · rw [hscan] at hl
      cases hl
      cases hcomma

end Line

end Wordcode
