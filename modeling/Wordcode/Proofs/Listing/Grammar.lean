/-
# Grammar — which lines a listing consists of

The grammar of a line, as relations between tokens and what they spell:
`Line.Spelled` for a whole line, with a relation for each of its parts.  None of
them mentions the parser.  The parser is then shown to read exactly what the
grammar derives, part by part, up to `Line.parse_eq_ok_iff`: what a line of
tokens is read as depends on the tokens alone, not on where they stand.

An operand list is read by a loop that goes from operand to operand, while the
grammar says how a whole list is written; `listSpelled_cons_cons_iff` is the
step from one to the other.
-/
import Wordcode.Listing.Line
import Wordcode.Proofs.Listing.Scan
import Wordcode.Proofs.Traversal

namespace Wordcode

open Lexeme

/-! ## The grammar -/

/-- The token writes the number, in either base. -/
inductive Token.IsNumeral : Token → Int → Prop where
  | number (value : Int) : IsNumeral (.number value) value
  | hex (value : Int) : IsNumeral (.hex value) value

/-- The token writes the operand. -/
inductive OperandExpr.Spelled : Token → OperandExpr → Prop where
  | number {token : Token} {value : Int} (h : token.IsNumeral value) :
      Spelled token (.number value)
  | label (name : String) : Spelled (.labelRef name) (.label name)

/-- The tokens write the operands, with a comma between each two and nowhere
else. -/
def OperandExpr.ListSpelled (ts : List Token) (es : List OperandExpr) : Prop :=
  ∃ written, ts = written.intersperse .comma ∧ List.Forall₂ Spelled written es

/-- The name and the arguments write the directive. -/
inductive Directive.Spelled : String → List Token → Directive → Prop where
  | args {token : Token} {count : UInt16} (h : token.IsNumeral count.toNat) :
      Spelled "args" [token] (.args count)
  | upvalues {token : Token} {count : UInt16} (h : token.IsNumeral count.toNat) :
      Spelled "upvalues" [token] (.upvalues count)
  | int {token : Token} {value : Int32} (h : token.IsNumeral value.toInt) :
      Spelled "int" [token] (.int value)
  | str (value : String) : Spelled "str" [.str value] (.str value)

/-- The tokens write the statement, or there are none and there is no statement. -/
inductive Statement.Spelled : List Token → Option Statement → Prop where
  | nothing : Spelled [] none
  | directive {name : String} {arguments : List Token} {d : Directive}
      (h : d.Spelled name arguments) :
      Spelled (.directive name :: arguments) (some (.directive d))
  | instruction {name : String} {op : Opcode} {ts : List Token} {es : List OperandExpr}
      (hname : name.map Char.toLower = op.mnemonic) (hoperands : OperandExpr.ListSpelled ts es) :
      Spelled (.identifier name :: ts) (some (.instruction ⟨op, es⟩))

/-- The tokens write the line. -/
inductive Line.Spelled : List Token → Line → Prop where
  | unlabelled {ts : List Token} {statement : Option Statement}
      (h : Statement.Spelled ts statement) :
      Spelled ts ⟨none, statement⟩
  | labelled (name : String) {ts : List Token} {statement : Option Statement}
      (h : Statement.Spelled ts statement) :
      Spelled (.identifier name :: .colon :: ts) ⟨some name, statement⟩

variable {token token' : Token} {ts : List Token} {placed : List PlacedToken}

theorem Token.numeral?_eq_some_iff {value : Int} :
    token.numeral? = some value ↔ token.IsNumeral value := by
  constructor
  · intro h
    cases token with
    | number v =>
        cases h
        exact .number value
    | hex v =>
        cases h
        exact .hex value
    | _ => cases h
  · intro h
    cases h with
    | number => rfl
    | hex => rfl

/-! ## Operands -/

namespace OperandExpr

variable {e : OperandExpr} {es : List OperandExpr}

theorem ofToken?_eq_some_iff : ofToken? token = some e ↔ Spelled token e := by
  constructor
  · intro h
    cases token with
    | number v =>
        cases h
        exact .number (.number v)
    | hex v =>
        cases h
        exact .number (.hex v)
    | labelRef name =>
        cases h
        exact .label name
    | _ => cases h
  · intro h
    cases h with
    | number h =>
        cases h with
        | number => rfl
        | hex => rfl
    | label => rfl

theorem listSpelled_nil_iff : ListSpelled [] es ↔ es = [] := by
  constructor
  · rintro ⟨written, hwritten, hes⟩
    rcases written with _ | ⟨t, _ | ⟨u, written⟩⟩
    · exact List.forall₂_nil_left_iff.mp hes
    · cases hwritten
    · cases hwritten
  · rintro rfl
    exact ⟨[], rfl, .nil⟩

theorem listSpelled_singleton_iff : ListSpelled [token] es ↔ ∃ e, Spelled token e ∧ es = [e] := by
  constructor
  · rintro ⟨written, hwritten, hes⟩
    rcases written with _ | ⟨t, _ | ⟨u, written⟩⟩
    · cases hwritten
    · cases hwritten
      obtain ⟨e, es, he, hnil, rfl⟩ := List.forall₂_cons_left_iff.mp hes
      rw [List.forall₂_nil_left_iff.mp hnil]
      exact ⟨e, he, rfl⟩
    · cases hwritten
  · rintro ⟨e, he, rfl⟩
    exact ⟨[token], rfl, .cons he .nil⟩

theorem intersperse_ne_nil {α : Type} {sep a : α} {as : List α} :
    (a :: as).intersperse sep ≠ [] := by
  cases as with
  | nil => exact List.cons_ne_nil _ _
  | cons b as => exact List.cons_ne_nil _ _

/-- After an operand comes a comma, and after the comma more operands. -/
theorem listSpelled_cons_cons_iff :
    ListSpelled (token :: token' :: ts) es ↔ token' = .comma ∧ ts ≠ []
      ∧ ∃ e es', Spelled token e ∧ ListSpelled ts es' ∧ es = e :: es' := by
  constructor
  · rintro ⟨written, hwritten, hes⟩
    rcases written with _ | ⟨t, _ | ⟨u, written⟩⟩
    · cases hwritten
    · cases hwritten
    · rw [List.intersperse_cons_cons] at hwritten
      cases hwritten
      obtain ⟨e, es', he, hes', rfl⟩ := List.forall₂_cons_left_iff.mp hes
      exact ⟨rfl, intersperse_ne_nil, e, es', he, ⟨_, rfl, hes'⟩, rfl⟩
  · rintro ⟨rfl, hts, e, es', he, ⟨written, rfl, hes'⟩, rfl⟩
    cases written with
    | nil => exact (hts rfl).elim
    | cons u written => exact ⟨token :: u :: written, rfl, .cons he hes'⟩

theorem ListSpelled.exists_spelled (h : ListSpelled (token :: ts) es) : ∃ e, Spelled token e := by
  cases ts with
  | nil =>
      obtain ⟨e, he, _⟩ := listSpelled_singleton_iff.mp h
      exact ⟨e, he⟩
  | cons token' ts =>
      obtain ⟨_, _, e, _, he, _⟩ := listSpelled_cons_cons_iff.mp h
      exact ⟨e, he⟩

/-! The parser has an equation for each way a list can go on. -/

section Equations
variable {column column' : Nat} {rest : List PlacedToken}

theorem parseList_of_ofToken?_eq_none (h : ofToken? token = none) :
    parseList ((token, column) :: rest) = .error (.malformed column (.expectedOperand token)) := by
  rw [parseList]
  simp only [h]

theorem parseList_singleton (h : ofToken? token = some e) :
    parseList [(token, column)] = .ok [e] := by
  rw [parseList]
  simp only [h]

theorem parseList_trailingComma (h : ofToken? token = some e) :
    parseList [(token, column), (.comma, column')]
      = .error (.malformed column' .trailingComma) := by
  rw [parseList]
  simp only [h]
  rfl

theorem parseList_comma (h : ofToken? token = some e) (hrest : rest.isEmpty = false) :
    parseList ((token, column) :: (.comma, column') :: rest) = (parseList rest).map (e :: ·) := by
  rw [parseList]
  simp only [h, hrest, Bool.false_eq_true, if_false]

theorem parseList_of_ne_comma (h : ofToken? token = some e) (hne : token' ≠ .comma) :
    parseList ((token, column) :: (token', column') :: rest)
      = .error (.malformed column' (.expectedComma token')) := by
  rw [parseList]
  simp only [h]

end Equations

/-- The parser reads the operand lists that the grammar derives. -/
theorem parseList_eq_ok_iff : parseList placed = .ok es ↔ ListSpelled (placed.map Prod.fst) es := by
  induction placed using parseList.induct generalizing es with
  | case1 =>
      rw [parseList, List.map_nil, listSpelled_nil_iff, Except.ok.injEq, eq_comm]
  | case2 token column rest hnone =>
      rw [parseList_of_ofToken?_eq_none hnone]
      constructor
      · intro h
        cases h
      · intro h
        obtain ⟨e, he⟩ := h.exists_spelled
        rw [← ofToken?_eq_some_iff, hnone] at he
        cases he
  | case3 token column operand hoperand =>
      rw [parseList_singleton hoperand, List.map_singleton, listSpelled_singleton_iff]
      simp only [← ofToken?_eq_some_iff, hoperand, Option.some.injEq, Except.ok.injEq,
        exists_eq_left']
      exact eq_comm
  | case4 token column operand hoperand commaColumn rest hempty =>
      rw [List.isEmpty_iff.mp hempty, parseList_trailingComma hoperand, List.map_cons,
        List.map_cons, listSpelled_cons_cons_iff]
      simp
  | case5 token column operand hoperand commaColumn rest hne ih =>
      rw [Bool.not_eq_true] at hne
      rw [parseList_comma hoperand hne, except_map_eq_ok_iff, List.map_cons, List.map_cons,
        listSpelled_cons_cons_iff]
      rw [List.isEmpty_eq_false_iff] at hne
      constructor
      · rintro ⟨es', hes', rfl⟩
        exact ⟨rfl, mt List.map_eq_nil_iff.mp hne, operand, es', ofToken?_eq_some_iff.mp hoperand,
          ih.mp hes', rfl⟩
      · rintro ⟨_, _, e, es', he, hes', rfl⟩
        have hsame := ofToken?_eq_some_iff.mpr he
        rw [hoperand] at hsame
        cases hsame
        exact ⟨es', ih.mpr hes', rfl⟩
  | case6 token column operand hoperand token' column' rest hcomma =>
      rw [parseList_of_ne_comma hoperand hcomma, List.map_cons, List.map_cons,
        listSpelled_cons_cons_iff]
      constructor
      · intro h
        cases h
      · rintro ⟨hcomma', _⟩
        exact (hcomma hcomma').elim

end OperandExpr

/-! ## Directives -/

namespace Directive

variable {name : String} {column : Nat} {arguments : List Token}

theorem numericArgument_eq_ok_iff {value : Int} :
    numericArgument name column arguments = .ok value
      ↔ ∃ token, arguments = [token] ∧ token.IsNumeral value := by
  constructor
  · intro h
    unfold numericArgument at h
    split at h
    · next token =>
      split at h
      · next v hv =>
        cases h
        exact ⟨token, rfl, Token.numeral?_eq_some_iff.mp hv⟩
      · cases h
    · cases h
  · rintro ⟨token, rfl, hvalue⟩
    rw [numericArgument]
    simp only [Token.numeral?_eq_some_iff.mpr hvalue]

theorem countArgument_eq_ok_iff {count : UInt16} :
    countArgument name column arguments = .ok count
      ↔ ∃ token, arguments = [token] ∧ token.IsNumeral count.toNat := by
  rw [countArgument, bind_eq_ok_iff]
  constructor
  · rintro ⟨value, hvalue, hcount⟩
    split at hcount
    · next v hv =>
      cases hcount
      rw [Text.uint16?_eq_some_iff.mp hv] at hvalue
      exact numericArgument_eq_ok_iff.mp hvalue
    · cases hcount
  · intro h
    have hcount : Text.uint16? count.toNat = some count := Text.uint16?_eq_some_iff.mpr rfl
    refine ⟨count.toNat, numericArgument_eq_ok_iff.mpr h, ?_⟩
    rw [hcount]
    rfl

/-- The parser reads the directives that the grammar derives. -/
theorem parse_eq_ok_iff {d : Directive} :
    parse name column arguments = .ok d ↔ d.Spelled name arguments := by
  constructor
  · intro h
    unfold parse at h
    split at h
    · next hname =>
      obtain ⟨count, hcount, rfl⟩ := except_map_eq_ok_iff.mp h
      obtain ⟨token, rfl, htoken⟩ := countArgument_eq_ok_iff.mp hcount
      exact hname ▸ .args htoken
    split at h
    · next hname =>
      obtain ⟨count, hcount, rfl⟩ := except_map_eq_ok_iff.mp h
      obtain ⟨token, rfl, htoken⟩ := countArgument_eq_ok_iff.mp hcount
      exact hname ▸ .upvalues htoken
    split at h
    · next hname =>
      obtain ⟨value, hvalue, hconstant⟩ := bind_eq_ok_iff.mp h
      obtain ⟨token, rfl, htoken⟩ := numericArgument_eq_ok_iff.mp hvalue
      split at hconstant
      · next v hv =>
        cases hconstant
        rw [Text.int32?_eq_some_iff.mp hv] at htoken
        exact hname ▸ .int htoken
      · cases hconstant
    split at h
    · next hname =>
      split at h
      · next value =>
        cases h
        exact hname ▸ .str value
      · cases h
    · cases h
  · intro h
    cases h with
    | @args token count htoken =>
        have hcount : countArgument "args" column [token] = .ok count :=
          countArgument_eq_ok_iff.mpr ⟨token, rfl, htoken⟩
        unfold parse
        rw [if_pos rfl, hcount]
        rfl
    | @upvalues token count htoken =>
        have hcount : countArgument "upvalues" column [token] = .ok count :=
          countArgument_eq_ok_iff.mpr ⟨token, rfl, htoken⟩
        unfold parse
        rw [if_neg (by decide), if_pos rfl, hcount]
        rfl
    | @int token value htoken =>
        have hvalue : Text.int32? value.toInt = some value := Text.int32?_eq_some_iff.mpr rfl
        unfold parse
        rw [if_neg (by decide), if_neg (by decide), if_pos rfl, bind_eq_ok_iff]
        refine ⟨value.toInt, numericArgument_eq_ok_iff.mpr ⟨token, rfl, htoken⟩, ?_⟩
        rw [hvalue]
        rfl
    | str value => rfl

end Directive

/-! ## Statements and lines -/

variable {statement : Option Statement}

/-- The parser reads the statements that the grammar derives. -/
theorem Statement.parse_eq_ok_iff :
    Statement.parse placed = .ok statement ↔ Statement.Spelled (placed.map Prod.fst) statement := by
  constructor
  · intro h
    unfold Statement.parse at h
    split at h
    · cases h
      exact .nothing
    · next name column arguments =>
      split at h
      · next d hd =>
        cases h
        exact .directive (Directive.parse_eq_ok_iff.mp hd)
      · cases h
    · next mnemonic column operands =>
      split at h
      · cases h
      · next op hop =>
        obtain ⟨es, hes, rfl⟩ := except_map_eq_ok_iff.mp h
        exact .instruction (Opcode.ofMnemonic?_eq_some_iff.mp hop)
          (OperandExpr.parseList_eq_ok_iff.mp hes)
    · cases h
  · intro h
    rcases placed with _ | ⟨⟨token, column⟩, rest⟩
    · cases h
      rfl
    · rw [List.map_cons] at h
      cases h with
      | directive hd =>
          rw [Statement.parse]
          simp only [Directive.parse_eq_ok_iff.mpr hd]
      | instruction hname hoperands =>
          rw [Statement.parse]
          simp only [Opcode.ofMnemonic?_eq_some_iff.mpr hname,
            OperandExpr.parseList_eq_ok_iff.mpr hoperands]
          rfl

/-- A label definition is no statement: no operand list starts with a colon. -/
theorem Statement.not_spelled_label {name : String} :
    ¬ Statement.Spelled (.identifier name :: .colon :: ts) statement := by
  intro h
  cases h with
  | instruction _ hoperands =>
      obtain ⟨e, he⟩ := hoperands.exists_spelled
      cases he with
      | number hcolon => cases hcolon

namespace Line

/-- The tokens start with a label definition. -/
def Labelled (ts : List Token) : Prop := ∃ name rest, ts = .identifier name :: .colon :: rest

theorem ofTokens_of_not_labelled (h : ¬ Labelled (placed.map Prod.fst)) :
    ofTokens placed = (Statement.parse placed).map fun statement => ⟨none, statement⟩ := by
  unfold ofTokens
  split
  · next name _ _ rest => exact (h ⟨name, rest.map Prod.fst, rfl⟩).elim
  · rfl

theorem spelled_iff_of_not_labelled {line : Line} (h : ¬ Labelled ts) :
    Spelled ts line ↔ ∃ statement, Statement.Spelled ts statement ∧ ⟨none, statement⟩ = line := by
  constructor
  · intro hline
    cases hline with
    | unlabelled hstatement => exact ⟨_, hstatement, rfl⟩
    | labelled name hstatement => exact (h ⟨name, _, rfl⟩).elim
  · rintro ⟨statement, hstatement, rfl⟩
    exact .unlabelled hstatement

theorem spelled_label_iff {name : String} {line : Line} :
    Spelled (.identifier name :: .colon :: ts) line
      ↔ ∃ statement, Statement.Spelled ts statement ∧ ⟨some name, statement⟩ = line := by
  constructor
  · intro hline
    cases hline with
    | unlabelled hstatement => exact (Statement.not_spelled_label hstatement).elim
    | labelled _ hstatement => exact ⟨_, hstatement, rfl⟩
  · rintro ⟨statement, hstatement, rfl⟩
    exact .labelled name hstatement

/-- The parser reads the lines that the grammar derives. -/
theorem ofTokens_eq_ok_iff {line : Line} :
    ofTokens placed = .ok line ↔ Spelled (placed.map Prod.fst) line := by
  by_cases hlabel : Labelled (placed.map Prod.fst)
  · obtain ⟨name, ts, hts⟩ := hlabel
    obtain ⟨⟨_, column⟩, tail, rfl, rfl, htail⟩ := List.map_eq_cons_iff.mp hts
    obtain ⟨⟨_, colonColumn⟩, rest, rfl, rfl, rfl⟩ := List.map_eq_cons_iff.mp htail
    rw [ofTokens, except_map_eq_ok_iff, hts, spelled_label_iff]
    simp only [Statement.parse_eq_ok_iff]
  · rw [ofTokens_of_not_labelled hlabel, except_map_eq_ok_iff, spelled_iff_of_not_labelled hlabel]
    simp only [Statement.parse_eq_ok_iff]

/-! ## Texts -/

variable {text : List Char}

theorem placed_eq_ok_iff {l : Lexeme} {p : PlacedToken} :
    Line.placed l = .ok p ↔ l.token? = some p.1 ∧ p.2 = l.start + 1 := by
  obtain ⟨token, column⟩ := p
  unfold Line.placed
  split
  · next t ht => simp [ht, Lexeme.column, eq_comm]
  · next hnone => simp [hnone]

theorem exists_mapM_placed {lexemes : List Lexeme} (h : lexemes.map Lexeme.token? = ts.map some) :
    ∃ tokens, lexemes.mapM Line.placed = .ok tokens ∧ tokens.map Prod.fst = ts := by
  induction lexemes generalizing ts with
  | nil =>
      rw [List.map_nil, eq_comm, List.map_eq_nil_iff] at h
      exact ⟨[], rfl, h.symm⟩
  | cons l lexemes ih =>
      rw [List.map_cons, eq_comm, List.map_eq_cons_iff] at h
      obtain ⟨t, ts, rfl, hl, hrest⟩ := h
      obtain ⟨tokens, htokens, rfl⟩ := ih hrest.symm
      refine ⟨(t, l.column) :: tokens, ?_, rfl⟩
      have hplaced : Line.placed l = .ok (t, l.column) := by rw [Line.placed, ← hl]
      rw [List.mapM_cons, hplaced, htokens]
      rfl

/-- A text that is cut into tokens and nothing else has these tokens. -/
theorem exists_tokens_eq (h : Yields text ts) :
    ∃ placed, tokens text = .ok placed ∧ placed.map Prod.fst = ts :=
  exists_mapM_placed (h 0)

/-- A text that is cut into tokens is parsed as the grammar derives from them. -/
theorem parse_eq_ok_iff {line : Line} (h : Yields text ts) :
    parse text = .ok line ↔ Spelled ts line := by
  obtain ⟨placed, hplaced, rfl⟩ := exists_tokens_eq h
  rw [parse, hplaced]
  exact ofTokens_eq_ok_iff

/-- A text is parsed exactly if it is cut into tokens that the grammar derives the
line from. -/
theorem parse_eq_ok_iff_exists {line : Line} :
    parse text = .ok line ↔ ∃ ts, Yields text ts ∧ Spelled ts line := by
  constructor
  · intro h
    obtain ⟨placed, hplaced, hline⟩ := bind_eq_ok_iff.mp h
    refine ⟨placed.map Prod.fst, yields_iff.mpr ?_, ofTokens_eq_ok_iff.mp hline⟩
    rw [List.map_map]
    exact map_eq_map_of_forall₂ (mapM_eq_ok_iff.mp hplaced) fun l p hp => (placed_eq_ok_iff.mp hp).1
  · rintro ⟨ts, hts, hspelled⟩
    exact (parse_eq_ok_iff hts).mpr hspelled

end Line

end Wordcode
