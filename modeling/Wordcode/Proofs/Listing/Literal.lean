/-
# Literals — numbers of any length

`Writes` says which number a literal denotes, digit by digit and without a bound;
it does not mention the scanner.  A literal is cut off whole, as long as it is,
and is a token exactly if its number fits 64 bits (`cut_literal`).

Where a line that is accepted holds a number it has a `Hole`: the argument of a
directive or an operand.  `Hole.fill` is what the line says with another number in
its place.  `Line.parse_literal` shows that this is what is read when a literal
stands there, however long, or that the literal is refused.
-/
import Mathlib.Data.List.Induction
import Mathlib.Data.Nat.Digits.Defs
import Wordcode.Assembly
import Wordcode.Proofs.Listing.Misplaced
import Wordcode.Proofs.Listing.Splitting

namespace Wordcode

open Lexeme

/-! ## What a literal denotes -/

namespace Text

/-- The character is the digit of this value in the base, in either case. -/
def IsDigit (base : Nat) (c : Char) (d : Nat) : Prop := d < base ∧ c.toLower = Nat.digitChar d

/-- The literal writes the number: decimal digits, with a minus sign before them
or without, or hexadecimal digits after `0x`.  The first digit counts most. -/
inductive Writes : List Char → Int → Prop where
  | decimal {cs : List Char} {ds : List Nat} (hne : cs ≠ [])
      (hdigits : List.Forall₂ (IsDigit 10) cs ds) :
      Writes cs (Nat.ofDigits 10 ds.reverse : Nat)
  | negative {cs : List Char} {ds : List Nat} (hne : cs ≠ [])
      (hdigits : List.Forall₂ (IsDigit 10) cs ds) :
      Writes ('-' :: cs) (-(Nat.ofDigits 10 ds.reverse : Nat))
  | hex {cs : List Char} {ds : List Nat} (hne : cs ≠ [])
      (hdigits : List.Forall₂ (IsDigit 16) cs ds) :
      Writes ('0' :: 'x' :: cs) (Nat.ofDigits 16 ds.reverse : Nat)

variable {base d : Nat} {c : Char} {cs : List Char} {ds : List Nat}

theorem IsDigit.digitValue_eq (h : IsDigit base c d) (hbase : base ≤ 16) : digitValue c = d := by
  rw [← apply_toLower (p := digitValue) (by decide), h.2,
    digitValue_digitChar (Nat.lt_of_lt_of_le h.1 hbase)]

theorem IsDigit.isDigit (h : IsDigit 10 c d) : c.isDigit := by
  have hall : ∀ d : Fin 10, (Nat.digitChar d.val).isDigit := by decide
  rw [← apply_toLower (p := Char.isDigit) (by decide), h.2]
  exact hall ⟨d, h.1⟩

theorem IsDigit.isHexDigit (h : IsDigit 16 c d) : c.isHexDigit := by
  have hall : ∀ d : Fin 16, (Nat.digitChar d.val).isHexDigit := by decide
  rw [← apply_toLower (p := Char.isHexDigit) (by decide), h.2]
  exact hall ⟨d, h.1⟩

theorem ofDigits_eq_ofDigits_reverse (base : Nat) (cs : List Char) :
    ofDigits base cs = Nat.ofDigits base (cs.map digitValue).reverse := by
  induction cs using List.reverseRecOn with
  | nil => rfl
  | append_singleton cs c ih =>
      rw [ofDigits_append_singleton, ih, List.map_append, List.map_singleton, List.reverse_append,
        List.reverse_singleton, List.singleton_append, Nat.ofDigits_cons, Nat.add_comm]

theorem ofDigits_of_forall₂ (h : List.Forall₂ (IsDigit base) cs ds) (hbase : base ≤ 16) :
    ofDigits base cs = Nat.ofDigits base ds.reverse := by
  have hvalues : cs.map digitValue = ds.map id :=
    map_eq_map_of_forall₂ h fun c d hd => hd.digitValue_eq hbase
  rw [ofDigits_eq_ofDigits_reverse, hvalues, List.map_id]

theorem forall_of_forall₂ {p : Char → Bool} (h : List.Forall₂ (IsDigit base) cs ds)
    (hp : ∀ c d, IsDigit base c d → p c) : ∀ c ∈ cs, p c := by
  induction h with
  | nil => exact List.forall_mem_nil _
  | cons hd _ ih => exact List.forall_mem_cons.mpr ⟨hp _ _ hd, ih⟩

end Text

open Text

/-! ## How a literal is cut -/

namespace Lexeme

variable {lit rest after tail₀ : List Char} {c₀ : Char} {v : Int}

/-- Numbers start with a digit or a minus sign. -/
def startsNumber (c : Char) : Bool := c.isDigit || c == '-'

/-- A literal is cut off whole, whatever its length, and is a token exactly if its
number fits 64 bits. -/
theorem cut_literal (h : Writes lit v) (hrest : Separated rest) :
    ∃ c tail token, lit = c :: tail ∧ startsNumber c ∧ token.IsNumeral v
      ∧ cut c (tail ++ rest) = ⟨tail.length, if fitsInt64 v then some token else none⟩ := by
  cases h with
  | @decimal cs ds hne hdigits =>
      obtain ⟨c, tail, rfl⟩ := List.exists_cons_of_ne_nil hne
      have hall := forall_of_forall₂ (p := Char.isDigit) hdigits fun _ _ => IsDigit.isDigit
      have hc : startsNumber c := (Bool.or_eq_true ..).mpr (.inl (hall c (List.mem_cons_self ..)))
      refine ⟨c, tail, .number _, rfl, hc, .number _, ?_⟩
      rw [cut_digits hall hrest, number?, ofDigits_of_forall₂ hdigits (by decide)]
      rfl
  | @negative cs ds hne hdigits =>
      obtain ⟨c, tail, rfl⟩ := List.exists_cons_of_ne_nil hne
      have hall := forall_of_forall₂ (p := Char.isDigit) hdigits fun _ _ => IsDigit.isDigit
      refine ⟨'-', c :: tail, .number _, rfl, rfl, .number _, ?_⟩
      rw [cut_minus hall hrest, number?, ofDigits_of_forall₂ hdigits (by decide)]
      rfl
  | @hex cs ds hne hdigits =>
      have hall := forall_of_forall₂ (p := Char.isHexDigit) hdigits fun _ _ => IsDigit.isHexDigit
      have hhex : (cs ++ rest).head?.any Char.isHexDigit := by
        obtain ⟨c, tail, rfl⟩ := List.exists_cons_of_ne_nil hne
        exact hall c (List.mem_cons_self ..)
      refine ⟨'0', 'x' :: cs, .hex _, rfl, rfl, .hex _, ?_⟩
      rw [cut_of_isDigit rfl, List.cons_append, cutNumber_of_startsHex hhex,
        takeWhile_append_eq hall (hrest.head?_eq_false (by decide)), hex?,
        ofDigits_of_forall₂ hdigits (by decide)]
      rfl

/-- Where a number stands, any literal can stand, except that one without a sign
cannot take the place of a sign. -/
theorem noLonger_literal (hc₀ : startsNumber c₀) (h : Writes lit v) (hafter : Separated after)
    (hsign : c₀ = '-' → lit.head? = some '-') :
    NoLonger (c₀ :: (tail₀ ++ after)) (lit ++ after) := by
  obtain ⟨c, tail, _, rfl, hc, _⟩ := cut_literal h hafter
  have hgoesOn : ∀ p : Char → Bool, p '-' = false → (∀ d, d.isDigit → p d) → p c → p c₀ := by
    intro p hminus hdigits hp
    rw [startsNumber, Bool.or_eq_true, beq_iff_eq] at hc₀
    refine hdigits c₀ (hc₀.resolve_right fun heq => ?_)
    rw [Option.some.inj (hsign heq), hminus] at hp
    cases hp
  refine ⟨hgoesOn continuesName (by decide) fun d hd => ?_,
    hgoesOn Char.isDigit (by decide) fun _ => id,
    hgoesOn Char.isHexDigit (by decide) fun d hd => ?_, fun hhex => ?_⟩
  · rw [continuesName, Char.isAlphanum, hd, Bool.or_true, Bool.true_or]
  · rw [Char.isHexDigit, hd, Bool.true_or, Bool.true_or]
  · rw [List.cons_append, startsHex_cons, Bool.and_eq_true, beq_iff_eq] at hhex
    rw [hhex.1] at hc
    exact absurd hc (by decide)

theorem scan_literal (h : Writes lit v) (hrest : Separated rest) (start : Nat) :
    ∃ token : Token, token.IsNumeral v
      ∧ scan start (lit ++ rest) = ⟨start, lit, if fitsInt64 v then some token else none⟩
        :: scan (start + byteLength lit) rest := by
  obtain ⟨c, tail, token, rfl, hc, htoken, hcut⟩ := cut_literal h hrest
  have hblank := not_isBlank hc (by decide) (by decide) (by decide)
  have hcomment := not_startsComment hc (by decide) (by decide)
  refine ⟨token, htoken, ?_⟩
  rw [List.cons_append, scan_cons hblank hcomment (congrArg Cut.more hcut), hcut]

theorem Yields.literal {ts : List Token} (h : Writes lit v) (hfits : fitsInt64 v)
    (hrest : Separated rest) (hyields : Yields rest ts) :
    ∃ token : Token, token.IsNumeral v ∧ Yields (lit ++ rest) (token :: ts) := by
  obtain ⟨token, htoken, hscan⟩ := scan_literal h hrest 0
  refine ⟨token, htoken, yields_iff.mpr ?_⟩
  rw [hscan, if_pos hfits, List.map_cons, hyields, List.map_cons]

end Lexeme

/-! ## Numbers in a line -/

/-- What a number in a line is there for. -/
inductive Hole where
  /-- The number of positional arguments. -/
  | args
  /-- The number of captured values. -/
  | upvalues
  /-- An integer constant. -/
  | int
  /-- An operand, between others. -/
  | operand (op : Opcode) (left right : List OperandExpr)

namespace Hole

/-- The statement with the number in it, if it can hold the number. -/
def fill (v : Int) : Hole → Option Statement
  | .args => (uint16? v).map fun count => .directive (.args count)
  | .upvalues => (uint16? v).map fun count => .directive (.upvalues count)
  | .int => (int32? v).map fun value => .directive (.int value)
  | .operand op left right => some (.instruction ⟨op, left ++ .number v :: right⟩)

/-- The numbers that can stand there. -/
def Admits (v : Int) : Hole → Prop
  | .int => -2147483648 ≤ v ∧ v ≤ 2147483647
  | .args | .upvalues | .operand _ _ _ => 0 ≤ v ∧ v ≤ 65535

/-- What is wrong with a line with a number out of range. -/
def fault (v : Int) : Hole → AssemblyFault
  | .args => .line (.invalidDirective (.countOutOfRange "args" v))
  | .upvalues => .line (.invalidDirective (.countOutOfRange "upvalues" v))
  | .int => .line (.invalidDirective (.intOutOfRange v))
  | .operand op left _ => .invalidOperand op left.length (.outOfRange v)

/-- The tokens that come before the number.  Each comma among them is after an
operand. -/
inductive After : List Token → Hole → Prop where
  | args : After [.directive "args"] .args
  | upvalues : After [.directive "upvalues"] .upvalues
  | int : After [.directive "int"] .int
  | operand {name : String} {op : Opcode} {us : List Token} {left : List OperandExpr}
      (right : List OperandExpr) (hname : name.map Char.toLower = op.mnemonic)
      (hslot : left.length = us.count .comma) :
      After (.identifier name :: us) (.operand op left right)
  | label (name : String) {us : List Token} {hole : Hole} (h : After us hole) :
      After (.identifier name :: .colon :: us) hole

variable {hole : Hole} {v : Int}

theorem exists_fill (h : hole.Admits v) : ∃ statement, hole.fill v = some statement := by
  cases hole with
  | args | upvalues =>
      have hcount : uint16? v = some _ := if_pos (by rw [Admits] at h; omega)
      rw [fill, hcount]
      exact ⟨_, rfl⟩
  | int =>
      have hvalue : int32? v = some _ := if_pos (by rw [Admits] at h; omega)
      rw [fill, hvalue]
      exact ⟨_, rfl⟩
  | operand op left right => exact ⟨_, rfl⟩

/-- A directive refuses what it cannot hold; an instruction is refused later. -/
theorem fill_eq_none_or (h : ¬ hole.Admits v) :
    hole.fill v = none ∨ ∃ op left right, hole = .operand op left right := by
  cases hole with
  | args | upvalues =>
      have hcount : uint16? v = none := uint16?_eq_none_iff.mpr h
      exact .inl (Option.map_eq_none_iff.mpr hcount)
  | int =>
      have hvalue : int32? v = none := if_neg (by rw [Admits] at h; omega)
      exact .inl (Option.map_eq_none_iff.mpr hvalue)
  | operand op left right => exact .inr ⟨op, left, right, rfl⟩

theorem fitsInt64_of_admits (h : hole.Admits v) : fitsInt64 v := by
  rw [fitsInt64, Bool.and_eq_true, decide_eq_true_eq, decide_eq_true_eq]
  cases hole with
  | args | upvalues | int | operand =>
      rw [Admits] at h
      omega

end Hole

variable {us vs : List Token} {token₀ : Token} {v₀ : Int}

theorem Token.IsNumeral.unique {v v' : Int} (h : token₀.IsNumeral v) (h' : token₀.IsNumeral v') :
    v = v' := by
  cases h with
  | number | hex =>
      cases h'
      rfl

/-- An operand that is a number can be any number. -/
theorem OperandExpr.ListSpelled.exists_hole {es : List OperandExpr} (h₀ : token₀.IsNumeral v₀)
    (h : ListSpelled (us ++ token₀ :: vs) es) :
    ∃ left right, es = left ++ .number v₀ :: right ∧ left.length = us.count .comma
      ∧ (∀ t ∈ vs.head?, t = .comma) ∧ ∀ (token : Token) (v : Int), token.IsNumeral v →
        ListSpelled (us ++ token :: vs) (left ++ .number v :: right) := by
  have hnumber : ∀ e, Spelled token₀ e → e = .number v₀ := by
    intro e he
    cases he with
    | number hv => rw [hv.unique h₀]
    | label => cases h₀
  induction us using List.twoStepInduction generalizing es with
  | nil =>
      cases vs with
      | nil =>
          obtain ⟨e, he, rfl⟩ := listSpelled_singleton_iff.mp h
          obtain rfl := hnumber e he
          exact ⟨[], [], rfl, rfl, nofun, fun token v ht =>
            listSpelled_singleton_iff.mpr ⟨_, .number ht, rfl⟩⟩
      | cons t vs =>
          obtain ⟨rfl, hvs, e, es', he, hes', rfl⟩ := listSpelled_cons_cons_iff.mp h
          obtain rfl := hnumber e he
          refine ⟨[], es', rfl, rfl, ?_, fun token v ht =>
            listSpelled_cons_cons_iff.mpr ⟨rfl, hvs, _, es', .number ht, hes', rfl⟩⟩
          rintro t ⟨⟩
          rfl
  | singleton u =>
      obtain ⟨rfl, _⟩ := listSpelled_cons_cons_iff.mp h
      cases h₀
  | cons_cons u u' us ih =>
      obtain ⟨rfl, _, e, es', he, hes', rfl⟩ := listSpelled_cons_cons_iff.mp h
      obtain ⟨left, right, rfl, hcount, hvs, hany⟩ := ih hes'
      have hu : u ≠ .comma := by
        rintro rfl
        cases he with
        | number hvalue => cases hvalue
      refine ⟨e :: left, right, rfl, ?_, hvs, fun token v ht => ?_⟩
      · rw [List.length_cons, hcount, List.count_cons_of_ne hu, List.count_cons_self]
      · exact listSpelled_cons_cons_iff.mpr
          ⟨rfl, List.append_ne_nil_of_right_ne_nil _ (List.cons_ne_nil _ _), e, _, he,
            hany token v ht, rfl⟩

/-- Tokens with a number between them are read with any other number in its place as
the hole says, or the number is refused. -/
structure Hole.ReadBy {α : Type} (hole : Hole) (us vs : List Token)
    (read : List PlacedToken → Except LineError α) (result : Statement → α) : Prop where
  after : hole.After us
  comma : ∀ t ∈ vs.head?, t = .comma
  ok : ∀ (placed : List PlacedToken) (token : Token) (v : Int) (statement : Statement),
    token.IsNumeral v → placed.map Prod.fst = us ++ token :: vs →
    hole.fill v = some statement → read placed = .ok (result statement)
  error : ∀ (placed : List PlacedToken) (token : Token) (v : Int), token.IsNumeral v →
    placed.map Prod.fst = us ++ token :: vs → hole.fill v = none →
    ∃ e, hole.fault v = .line e ∧ read placed = .error e

section Directives
variable {name : String} {column : Nat} {token : Token} {v : Int}

theorem Directive.countArgument_eq_error (ht : token.IsNumeral v) (hv : uint16? v = none) :
    countArgument name column [token] = .error (.countOutOfRange name v) := by
  rw [countArgument, bind_eq_error_iff]
  refine .inr ⟨v, numericArgument_eq_ok_iff.mpr ⟨token, rfl, ht⟩, ?_⟩
  rw [hv]
  rfl

theorem Directive.parse_int_eq_error (ht : token.IsNumeral v) (hv : int32? v = none) :
    Directive.parse "int" column [token] = .error (.intOutOfRange v) := by
  unfold Directive.parse
  rw [if_neg (by decide), if_neg (by decide), if_pos rfl, bind_eq_error_iff]
  refine .inr ⟨v, numericArgument_eq_ok_iff.mpr ⟨token, rfl, ht⟩, ?_⟩
  rw [hv]
  rfl

/-- A directive whose argument is a number. -/
theorem Hole.readBy_directive {hole : Hole} {error : Int → DirectiveError}
    (hafter : hole.After [.directive name])
    (hfault : ∀ v, hole.fault v = .line (.invalidDirective (error v)))
    (hok : ∀ token v statement, token.IsNumeral v → hole.fill v = some statement →
      Statement.Spelled [.directive name, token] (some statement))
    (herror : ∀ token v column, token.IsNumeral v → hole.fill v = none →
      Directive.parse name column [token] = .error (error v)) :
    hole.ReadBy [.directive name] [] Statement.parse some where
  after := hafter
  comma := nofun
  ok placed token v statement ht hplaced hfill := by
    rw [Statement.parse_eq_ok_iff, hplaced]
    exact hok token v statement ht hfill
  error placed token v ht hplaced hfill := by
    obtain ⟨⟨_, column⟩, rest, rfl, rfl, hrest⟩ := List.map_eq_cons_iff.mp hplaced
    have hargument : rest.map Prod.fst = [token] := hrest
    refine ⟨_, hfault v, ?_⟩
    simp only [Statement.parse, hargument, herror token v column ht hfill]

theorem Hole.readBy_args : args.ReadBy [.directive "args"] [] Statement.parse some := by
  refine readBy_directive .args (fun _ => rfl) (fun token v statement ht hfill => ?_)
    (fun token v column ht hfill => ?_)
  · obtain ⟨count, hcount, rfl⟩ := Option.map_eq_some_iff.mp hfill
    exact .directive (.args (uint16?_eq_some_iff.mp hcount ▸ ht))
  · unfold Directive.parse
    rw [if_pos rfl, except_map_eq_error_iff]
    exact Directive.countArgument_eq_error ht (Option.map_eq_none_iff.mp hfill)

theorem Hole.readBy_upvalues :
    upvalues.ReadBy [.directive "upvalues"] [] Statement.parse some := by
  refine readBy_directive .upvalues (fun _ => rfl) (fun token v statement ht hfill => ?_)
    (fun token v column ht hfill => ?_)
  · obtain ⟨count, hcount, rfl⟩ := Option.map_eq_some_iff.mp hfill
    exact .directive (.upvalues (uint16?_eq_some_iff.mp hcount ▸ ht))
  · unfold Directive.parse
    rw [if_neg (by decide), if_pos rfl, except_map_eq_error_iff]
    exact Directive.countArgument_eq_error ht (Option.map_eq_none_iff.mp hfill)

theorem Hole.readBy_int : int.ReadBy [.directive "int"] [] Statement.parse some := by
  refine readBy_directive .int (fun _ => rfl) (fun token v statement ht hfill => ?_)
    (fun token v column ht hfill => ?_)
  · obtain ⟨constant, hconstant, rfl⟩ := Option.map_eq_some_iff.mp hfill
    exact .directive (.int (int32?_eq_some_iff.mp hconstant ▸ ht))
  · exact Directive.parse_int_eq_error ht (Option.map_eq_none_iff.mp hfill)

end Directives

/-- A directive with a number for its argument is one of three. -/
theorem Directive.Spelled.exists_hole {name : String} {d : Directive} (h₀ : token₀.IsNumeral v₀)
    (h : d.Spelled name (us ++ token₀ :: vs)) :
    us = [] ∧ vs = [] ∧ ∃ hole : Hole, hole.fill v₀ = some (.directive d)
      ∧ hole.ReadBy [.directive name] [] Statement.parse some := by
  generalize hts : us ++ token₀ :: vs = ts at h
  have hsingle : ∀ t, us ++ token₀ :: vs = [t] → us = [] ∧ token₀ = t ∧ vs = [] := by
    intro t ht
    rcases List.append_eq_singleton_iff.mp ht with ⟨hus, hrest⟩ | ⟨_, hrest⟩
    · exact ⟨hus, (List.cons.injEq ..).mp hrest⟩
    · cases hrest
  cases h with
  | @args _ count ht =>
      obtain ⟨hus, rfl, hvs⟩ := hsingle _ hts
      refine ⟨hus, hvs, .args, ?_, Hole.readBy_args⟩
      rw [Hole.fill, uint16?_eq_some_iff.mpr (h₀.unique ht), Option.map_some]
  | @upvalues _ count ht =>
      obtain ⟨hus, rfl, hvs⟩ := hsingle _ hts
      refine ⟨hus, hvs, .upvalues, ?_, Hole.readBy_upvalues⟩
      rw [Hole.fill, uint16?_eq_some_iff.mpr (h₀.unique ht), Option.map_some]
  | @int _ constant ht =>
      obtain ⟨hus, rfl, hvs⟩ := hsingle _ hts
      refine ⟨hus, hvs, .int, ?_, Hole.readBy_int⟩
      rw [Hole.fill, int32?_eq_some_iff.mpr (h₀.unique ht), Option.map_some]
  | str text =>
      obtain ⟨_, rfl, _⟩ := hsingle _ hts
      cases h₀

/-- A number in a statement fills a hole of it. -/
theorem Statement.Spelled.exists_hole {statement : Option Statement} (h₀ : token₀.IsNumeral v₀)
    (h : Statement.Spelled (us ++ token₀ :: vs) statement) :
    ∃ (hole : Hole) (statement₀ : Statement), statement = some statement₀
      ∧ hole.fill v₀ = some statement₀ ∧ hole.ReadBy us vs Statement.parse some := by
  rcases us with _ | ⟨u, us⟩
  · cases h with
    | directive | instruction => cases h₀
  cases h with
  | directive hd =>
      obtain ⟨rfl, rfl, hole, hfill, hread⟩ := hd.exists_hole h₀
      exact ⟨hole, _, rfl, hfill, hread⟩
  | @instruction name op _ es hname hoperands =>
      obtain ⟨left, right, rfl, hcount, hvs, hany⟩ := hoperands.exists_hole h₀
      refine ⟨.operand op left right, _, rfl, rfl, .operand right hname hcount, hvs, ?_, ?_⟩
      · intro placed token v statement ht hplaced hfill
        cases hfill
        rw [Statement.parse_eq_ok_iff, hplaced]
        exact .instruction hname (hany token v ht)
      · intro placed token v ht hplaced hfill
        cases hfill

/-- A number in a line fills a hole of its statement. -/
theorem Line.Spelled.exists_hole {line : Line} (h₀ : token₀.IsNumeral v₀)
    (h : Line.Spelled (us ++ token₀ :: vs) line) :
    ∃ (label : Option String) (hole : Hole) (statement₀ : Statement),
      line = ⟨label, some statement₀⟩ ∧ hole.fill v₀ = some statement₀
      ∧ hole.ReadBy us vs Line.ofTokens fun statement => ⟨label, some statement⟩ := by
  generalize hts : us ++ token₀ :: vs = ts at h
  cases h with
  | unlabelled hstatement =>
      subst hts
      obtain ⟨hole, statement₀, rfl, hfill₀, hread⟩ := hstatement.exists_hole h₀
      have hlabel : ∀ token v, token.IsNumeral v → ¬ Line.Labelled (us ++ token :: vs) := by
        rintro token v ht ⟨name, rest, hrest⟩
        rcases us with _ | ⟨_, _ | ⟨_, us⟩⟩
        · cases hrest
          cases ht
        · cases hrest
          cases ht
        · cases hrest
          exact Statement.not_spelled_label hstatement
      refine ⟨none, hole, statement₀, rfl, hfill₀, hread.after, hread.comma, ?_, ?_⟩
      · intro placed token v statement ht hplaced hfill
        rw [Line.ofTokens_of_not_labelled (by rw [hplaced]; exact hlabel token v ht),
          hread.ok placed token v statement ht hplaced hfill]
        rfl
      · intro placed token v ht hplaced hfill
        obtain ⟨e, hfault, he⟩ := hread.error placed token v ht hplaced hfill
        refine ⟨e, hfault, ?_⟩
        rw [Line.ofTokens_of_not_labelled (by rw [hplaced]; exact hlabel token v ht), he]
        rfl
  | labelled name hstatement =>
      rcases us with _ | ⟨_, _ | ⟨_, us⟩⟩
      · cases hts
        cases h₀
      · cases hts
        cases h₀
      cases hts
      obtain ⟨hole, statement₀, rfl, hfill₀, hread⟩ := hstatement.exists_hole h₀
      have hafter := hread.after.label name
      refine ⟨some name, hole, statement₀, rfl, hfill₀, hafter, hread.comma, ?_, ?_⟩
      · intro placed token v statement ht hplaced hfill
        obtain ⟨⟨_, _⟩, tail, rfl, rfl, htail⟩ := List.map_eq_cons_iff.mp hplaced
        obtain ⟨⟨_, _⟩, rest, rfl, rfl, hrest⟩ := List.map_eq_cons_iff.mp htail
        rw [Line.ofTokens, hread.ok rest token v statement ht hrest hfill]
        rfl
      · intro placed token v ht hplaced hfill
        obtain ⟨⟨_, _⟩, tail, rfl, rfl, htail⟩ := List.map_eq_cons_iff.mp hplaced
        obtain ⟨⟨_, _⟩, rest, rfl, rfl, hrest⟩ := List.map_eq_cons_iff.mp htail
        obtain ⟨e, hfault, he⟩ := hread.error rest token v ht hrest hfill
        refine ⟨e, hfault, ?_⟩
        rw [Line.ofTokens, he]
        rfl

/-! ## Texts -/

/-- What is cut into nothing or a comma first is no part of a number. -/
theorem Lexeme.separated_of_yields {after : List Char} (h : Yields after vs)
    (hvs : ∀ t ∈ vs.head?, t = .comma) : Separated after := by
  cases after with
  | nil => exact separated_nil
  | cons c rest =>
      by_cases hblank : isBlank c
      · exact separated_of_isBlank hblank
      by_cases hcomment : startsComment c
      · exact separated_of_startsComment hcomment
      have htokens := h 0
      rw [scan, if_neg hblank, if_neg hcomment, List.map_cons, eq_comm, List.map_eq_cons_iff]
        at htokens
      obtain ⟨t, vs, rfl, ht, _⟩ := htokens
      obtain rfl : c = ',' := startsToken_of_cut (ht.symm.trans (congrArg some (hvs t rfl)))
      exact separated_comma rest

namespace Line

variable {before after lit₀ : List Char} {l₀ : Line} {token₀ : Token} {v₀ : Int}

/-- If a line is accepted with a number in it, then with any literal in its place it
is read as the hole says, or the literal is refused: for its size where it stands,
or for what it is asked to be. -/
theorem parse_literal (hline : parse (before ++ (lit₀ ++ after)) = .ok l₀)
    (hmem : ⟨byteLength before, lit₀, some token₀⟩ ∈ scan 0 (before ++ (lit₀ ++ after)))
    (h₀ : token₀.IsNumeral v₀) :
    ∃ (label : Option String) (hole : Hole) (statement₀ : Statement) (us : List Token),
      l₀ = ⟨label, some statement₀⟩ ∧ hole.fill v₀ = some statement₀
      ∧ Yields before us ∧ hole.After us ∧ ∀ lit v, Writes lit v →
        (lit₀.head? = some '-' → lit.head? = some '-') →
        (¬ fitsInt64 v → parse (before ++ (lit ++ after))
          = .error (.malformed (byteLength before + 1) (.unexpectedInput (String.ofList lit))))
        ∧ (fitsInt64 v →
          (∀ statement, hole.fill v = some statement →
            parse (before ++ (lit ++ after)) = .ok ⟨label, some statement⟩)
          ∧ (hole.fill v = none →
            ∃ e, hole.fault v = .line e ∧ parse (before ++ (lit ++ after)) = .error e)) := by
  obtain ⟨ts, hts, hspelled⟩ := parse_eq_ok_iff_exists.mp hline
  obtain ⟨hsplits, c₀, tail₀, us, _, vs, rfl, hcut, htoken, rfl, hbefore, hafter⟩ :=
    hts.exists_of_mem hmem rfl
  cases htoken
  obtain ⟨label, hole, statement₀, rfl, hfill₀, hread⟩ := hspelled.exists_hole h₀
  have hseparated := separated_of_yields hafter hread.comma
  have hc₀ : startsNumber c₀ := by
    have hstarts := startsToken_of_cut (congrArg Cut.token? hcut)
    rw [startsNumber, Bool.or_eq_true, beq_iff_eq]
    cases h₀ with
    | number | hex => exact hstarts
  refine ⟨label, hole, statement₀, us, rfl, hfill₀, hbefore, hread.after, ?_⟩
  intro lit v hlit hsign
  have hrest : NoLonger (c₀ :: (tail₀ ++ after)) (lit ++ after) :=
    noLonger_literal hc₀ hlit hseparated fun heq => hsign (congrArg some heq)
  refine ⟨fun hlarge => ?_, fun hfits => ?_⟩
  · obtain ⟨token, _, hscan⟩ := scan_literal hlit hseparated (byteLength before)
    rw [if_neg hlarge] at hscan
    have herror : tokens (before ++ (lit ++ after)) = .error (.malformed (byteLength before + 1)
        (.unexpectedInput (String.ofList lit))) := by
      rw [tokens, hsplits _ hrest, Nat.zero_add, hscan]
      exact mapM_placed_eq_error hbefore.token?_ne_none rfl _
    exact bind_eq_error_iff.mpr (.inl herror)
  · obtain ⟨token, hnumeral, hyields⟩ := Yields.literal hlit hfits hseparated hafter
    have hnew : Yields (before ++ (lit ++ after)) (us ++ token :: vs) :=
      hbefore.append hsplits hrest hyields
    obtain ⟨placed, hplaced, htokens⟩ := exists_tokens_eq hnew
    rw [parse, hplaced]
    exact ⟨fun statement => hread.ok placed token v statement hnumeral htokens,
      hread.error placed token v hnumeral htokens⟩

end Line

end Wordcode
