/-
# Literals in a listing — no number is cut or wrapped

A literal stands on one line of a text, and the lines before it can be read.  What
becomes of it is decided in three places: the scanner refuses a literal beyond 64
bits, the parser one that a directive cannot hold, and the builder of instructions
one that is no operand.  `assemble_literal` puts the three together and says which
error is whose, and that a number which passes all three is stored as it is.

That a line is otherwise acceptable is said with another number in the same place.
The two lines differ in nothing that the rest of the listing depends on
(`Line.CanStandFor`), so one can stand for the other.
-/
import Wordcode.Proofs.Assembly.Errors
import Wordcode.Proofs.Listing.Literal

namespace Wordcode

open Text Lexeme

/-! ## Lines that can stand for each other -/

/-- The line defines and adds what the other one does, and keeps every rule that the
other one keeps. -/
structure Line.CanStandFor (l l₀ : Line) : Prop where
  label : l.label = l₀.label
  table? : l.table? = l₀.table?
  wellShaped : ∀ raw, l.instruction? = some raw →
    (∀ raw₀, l₀.instruction? = some raw₀ → raw₀.WellShaped) → raw.WellShaped
  refersTo : ∀ name, l.RefersTo name → l₀.RefersTo name

namespace Listing

variable {A B : Listing} {l l₀ : Line}

theorem labels_replace (h : l.CanStandFor l₀) : labels (A ++ l :: B) = labels (A ++ l₀ :: B) := by
  rw [List.append_cons, List.append_cons A l₀, labels_append, labels_append, labels_append,
    labels_append, labels_singleton, labels_singleton, h.label]

theorem tableSize_replace (h : l.CanStandFor l₀) (t : Table) :
    tableSize (A ++ l :: B) t = tableSize (A ++ l₀ :: B) t := by
  rw [List.append_cons, List.append_cons A l₀, tableSize_append, tableSize_append,
    tableSize_append, tableSize_append, tableSize_singleton, tableSize_singleton, h.table?]

theorem labelIndex?_replace (h : l.CanStandFor l₀) (name : String) :
    labelIndex? (A ++ l :: B) name = labelIndex? (A ++ l₀ :: B) name := by
  have hsize : tableSize (A ++ [l]) .code = tableSize (A ++ [l₀]) .code := tableSize_replace h _
  have hlength : (instructions (A ++ [l])).length = (instructions (A ++ [l₀])).length := hsize
  rw [List.append_cons, List.append_cons A l₀, labelIndex?_append, labelIndex?_append (A ++ [l₀]),
    labelIndex?_append_singleton, labelIndex?_append_singleton, h.label, hlength]

theorem mem_instructions_replace {raw : RawInstruction} : raw ∈ instructions (A ++ l :: B) ↔
    raw ∈ A.instructions ∨ l.instruction? = some raw ∨ raw ∈ B.instructions := by
  rw [List.append_cons, instructions_append, instructions_append, instructions_singleton,
    List.append_assoc, List.mem_append, List.mem_append, Option.mem_toList]

theorem Readable.replace (h : Readable (A ++ l₀ :: B)) (hl : l.CanStandFor l₀) :
    Readable (A ++ l :: B) := by
  refine ⟨?_, fun raw hraw => ?_, fun t => ?_, fun name k hk => ?_⟩
  · rw [labels_replace hl]
    exact h.nodup_labels
  · rcases mem_instructions_replace.mp hraw with hA | hraw | hB
    · exact h.wellShaped raw (mem_instructions_replace.mpr (.inl hA))
    · exact hl.wellShaped raw hraw fun raw₀ hraw₀ =>
        h.wellShaped raw₀ (mem_instructions_replace.mpr (.inr (.inl hraw₀)))
    · exact h.wellShaped raw (mem_instructions_replace.mpr (.inr (.inr hB)))
  · rw [tableSize_replace hl]
    exact h.tableSize_le t
  · rw [labelIndex?_replace hl] at hk
    exact h.labelIndex_lt name k hk

theorem WellFormed.replace (h : WellFormed (A ++ l₀ :: B)) (hl : l.CanStandFor l₀) :
    WellFormed (A ++ l :: B) := by
  refine ⟨h.toReadable.replace hl, fun raw hraw name hname => ?_⟩
  rw [labels_replace hl]
  rcases mem_instructions_replace.mp hraw with hA | hraw | hB
  · exact h.labels_defined raw (mem_instructions_replace.mpr (.inl hA)) name hname
  · obtain ⟨raw₀, hraw₀, hname₀⟩ := hl.refersTo name ⟨raw, hraw, hname⟩
    exact h.labels_defined raw₀ (mem_instructions_replace.mpr (.inr (.inl hraw₀))) name hname₀
  · exact h.labels_defined raw (mem_instructions_replace.mpr (.inr (.inr hB))) name hname

/-- A count that is not declared again stays. -/
theorem args_append (h : B.directives.filterMap Directive.args? = []) :
    args (A ++ B) = A.args := by
  rw [args, directives_append, List.filterMap_append, h, List.append_nil]
  rfl

theorem upvalues_append (h : B.directives.filterMap Directive.upvalues? = []) :
    upvalues (A ++ B) = A.upvalues := by
  rw [upvalues, directives_append, List.filterMap_append, h, List.append_nil]
  rfl

end Listing

/-! ## Another number in the same place -/

/-- A number that fits can take the place of another one. -/
theorem RawInstruction.WellShaped.replace {op : Opcode} {left right : List OperandExpr} {v₀ v : Int}
    (h : WellShaped ⟨op, left ++ .number v₀ :: right⟩) (hv : 0 ≤ v ∧ v ≤ 65535) :
    WellShaped ⟨op, left ++ .number v :: right⟩ := by
  refine ⟨fun value hvalue => ?_, fun slot name hslot => h.labels_at_targets slot name ?_, ?_⟩
  · rcases List.mem_append.mp hvalue with hleft | hright
    · exact h.numbers_fit value (List.mem_append_left _ hleft)
    · rcases List.mem_cons.mp hright with heq | hright
      · cases heq
        exact hv
      · exact h.numbers_fit value (List.mem_append_right _ (List.mem_cons_of_mem _ hright))
  · dsimp only at hslot ⊢
    by_cases hlt : slot < left.length
    · rwa [List.getElem?_append_left hlt] at hslot ⊢
    · rw [List.getElem?_append_right (Nat.le_of_not_lt hlt)] at hslot ⊢
      cases hoffset : slot - left.length with
      | zero =>
          rw [hoffset] at hslot
          cases hslot
      | succ k => rwa [hoffset] at hslot
  · have hlength := h.length_operands
    rw [List.length_append, List.length_cons] at hlength ⊢
    exact hlength

namespace Hole

variable {hole : Hole} {v₀ v : Int} {statement₀ statement : Statement} {label : Option String}
  {A B : Listing} {f : Function}

theorem canStandFor (h₀ : hole.fill v₀ = some statement₀) (h : hole.fill v = some statement)
    (hv : hole.Admits v) :
    Line.CanStandFor ⟨label, some statement⟩ ⟨label, some statement₀⟩ := by
  cases hole with
  | args | upvalues | int =>
      obtain ⟨_, _, rfl⟩ := Option.map_eq_some_iff.mp h₀
      obtain ⟨_, _, rfl⟩ := Option.map_eq_some_iff.mp h
      refine ⟨rfl, rfl, ?_, ?_⟩
      · intro raw hraw
        cases hraw
      · rintro name ⟨raw, hraw, _⟩
        cases hraw
  | operand op left right =>
      cases h₀
      cases h
      refine ⟨rfl, rfl, ?_, ?_⟩
      · rintro raw ⟨⟩ hshape
        exact (hshape _ rfl).replace hv
      · rintro name ⟨raw, ⟨⟩, hname⟩
        refine ⟨_, rfl, ?_⟩
        simpa using hname

/-- The function holds the number where the hole says, after the lines `A` and before
the lines `B`.  A count that is declared again later is not held. -/
def Stored (v : Int) (f : Function) (A B : Listing) : Hole → Prop
  | .args => B.directives.filterMap Directive.args? = [] → (f.args.toNat : Int) = v
  | .upvalues => B.directives.filterMap Directive.upvalues? = [] → (f.upvalues.toNat : Int) = v
  | .int => ∃ value, f.ints[A.ints.length]? = some value ∧ value.toInt = v
  | .operand op left _ => ∃ i, f.code[A.instructions.length]? = some i ∧ i.opcode = op
      ∧ ∃ a, i.operand? left.length = some a ∧ (a.toNat : Int) = v

theorem stored (h : hole.fill v = some statement)
    (hf : Listing.Denotes (A ++ ⟨label, some statement⟩ :: B) f) : hole.Stored v f A B := by
  cases hole with
  | args =>
      intro hlast
      obtain ⟨count, hcount, rfl⟩ := Option.map_eq_some_iff.mp h
      rw [hf.args, List.append_cons, Listing.args_append hlast, Listing.args_append_singleton]
      exact (uint16?_eq_some_iff.mp hcount).symm
  | upvalues =>
      intro hlast
      obtain ⟨count, hcount, rfl⟩ := Option.map_eq_some_iff.mp h
      rw [hf.upvalues, List.append_cons, Listing.upvalues_append hlast,
        Listing.upvalues_append_singleton]
      exact (uint16?_eq_some_iff.mp hcount).symm
  | int =>
      obtain ⟨value, hvalue, rfl⟩ := Option.map_eq_some_iff.mp h
      refine ⟨value, ?_, (int32?_eq_some_iff.mp hvalue).symm⟩
      rw [← Array.getElem?_toList, hf.ints, List.append_cons, Listing.ints_append,
        Listing.ints_append, Listing.ints_singleton, List.append_assoc,
        List.getElem?_append_right (Nat.le_refl _), Nat.sub_self]
      rfl
  | operand op left right =>
      cases h
      have hcode := forall₂_iff_getElem?.mp hf.code A.instructions.length
      rw [Listing.instructions_append, List.getElem?_append_right (Nat.le_refl _), Nat.sub_self]
        at hcode
      generalize hi : f.code.toList[A.instructions.length]? = i? at hcode
      obtain @⟨_, i, hdenotes⟩ := hcode
      have hslot := forall₂_iff_getElem?.mp hdenotes.operands left.length
      rw [List.getElem?_append_right (Nat.le_refl _), Nat.sub_self] at hslot
      generalize ha : i.operands[left.length]? = a? at hslot
      obtain @⟨_, a, rfl⟩ := hslot
      exact ⟨i, Array.getElem?_toList.symm.trans hi, hdenotes.opcode.symm, a, ha, rfl⟩

end Hole

namespace Assembly

variable {op : Opcode} {left right : List OperandExpr} {v₀ v : Int} {label : Option String}
  {s : State} {A : Listing} {texts rest : List (List Char)} {text : List Char} {source : String}
  {e : AssemblyError}

/-! ## Operands out of range -/

/-- A number out of range is what an instruction is refused for, if another number in
its place would do. -/
theorem placeholder_eq_error (h₀ : RawInstruction.WellShaped ⟨op, left ++ .number v₀ :: right⟩)
    (hv : ¬ (0 ≤ v ∧ v ≤ 65535)) : placeholder ⟨op, left ++ .number v :: right⟩
      = .error (.invalidOperand op left.length (.outOfRange v)) := by
  obtain ⟨i, hi⟩ := exists_denotes_unresolved h₀
  have hall := mapM_eq_ok_iff.mp
    (mapM_operandValue_eq_ok_iff.mpr ⟨h₀.labels_at_targets, hi.operands⟩)
  rw [List.zipIdx_append, List.zipIdx_cons] at hall
  obtain ⟨values, _, _, _, hleft, _⟩ := forall₂_append_cons_left_iff.mp hall
  have hoperand : operandValue op left.length (.number v)
      = .error (.invalidOperand op left.length (.outOfRange v)) := by
    rw [operandValue, uint16?_eq_none_iff.mpr hv]
  refine bind_eq_error_iff.mpr (.inl (mapM_eq_error_iff.mpr
    ⟨left.zipIdx, (.number v, left.length), right.zipIdx (left.length + 1), values, ?_, hleft,
      hoperand⟩))
  rw [List.zipIdx_append, List.zipIdx_cons, Nat.zero_add]

theorem State.Reflects.obey_eq_error (h : s.Reflects A)
    (hfits : Line.FitsAfter A ⟨label, some (.instruction ⟨op, left ++ .number v₀ :: right⟩)⟩)
    (hv : ¬ (0 ≤ v ∧ v ≤ 65535)) (line : Nat) :
    s.obey line ⟨label, some (.instruction ⟨op, left ++ .number v :: right⟩)⟩
      = .error (.invalidOperand op left.length (.outOfRange v)) := by
  obtain ⟨s₁, hs₁⟩ := (State.exists_obeyLabel_iff h).mpr hfits.label
  have hroom : s₁.builder.HasRoom .code := by
    rw [(h.obeyLabel hs₁).hasRoom_iff, Listing.tableSize_append, Listing.tableSize_singleton]
    exact hfits.room .code rfl
  rw [State.obey_eq, bind_eq_error_iff]
  refine .inr ⟨s₁, hs₁, ?_⟩
  rw [State.obeyStatement, State.emit, dif_pos hroom]
  exact bind_eq_error_iff.mpr (.inl (placeholder_eq_error (hfits.wellShaped _ rfl) hv))

/-! ## The line with the literal -/

/-- If lines can be read, those before the last one can, and the last one fits after
them. -/
theorem exists_of_readLines_append_singleton {s₀ : State}
    (h : readLines 1 (texts ++ [text]) {} = .ok s₀) : ∃ A l s, Listing.Parses texts A
      ∧ Line.parse text = .ok l ∧ Listing.Readable (A ++ [l])
      ∧ readLines 1 texts {} = .ok s ∧ s.Reflects A := by
  obtain ⟨ls, hls, hreadable, _⟩ := exists_reflects_of_readLines h
  obtain ⟨A, l, _, rfl, hA, hl, hnil⟩ := forall₂_append_cons_left_iff.mp hls
  obtain rfl := List.forall₂_nil_left_iff.mp hnil
  obtain ⟨s, hs⟩ := (exists_readLines_iff State.Reflects.nil .nil texts).mpr
    ⟨A, hA, hreadable.of_append⟩
  exact ⟨A, l, s, hA, hl, hreadable, hs, State.Reflects.nil.readLines hA hs⟩

/-- The lines of a text are those before a line, its own, and those after it. -/
theorem reads_iff {ls : Listing} {l : Line}
    (hlines : Text.lines source.toList = texts ++ text :: rest) (hl : Line.parse text = .ok l) :
    Listing.Reads source ls
      ↔ ∃ A B, ls = A ++ l :: B ∧ Listing.Parses texts A ∧ Listing.Parses rest B := by
  rw [Listing.Reads, hlines]
  constructor
  · intro h
    obtain ⟨A, l', B, rfl, hA, hl', hB⟩ := forall₂_append_cons_left_iff.mp h
    obtain rfl : l = l' := Except.ok.inj (hl.symm.trans hl')
    exact ⟨A, B, rfl, hA, hB⟩
  · rintro ⟨A, B, rfl, hA, hB⟩
    exact List.rel_append hA (.cons hl hB)

/-- Texts that differ in lines that can stand for each other are both accepted. -/
theorem exists_assemble_replace {source₀ : String} {text₀ : List Char} {l₀ l : Line}
    (hlines₀ : Text.lines source₀.toList = texts ++ text₀ :: rest)
    (hlines : Text.lines source.toList = texts ++ text :: rest)
    (hl₀ : Line.parse text₀ = .ok l₀) (hl : Line.parse text = .ok l) (hstands : l.CanStandFor l₀)
    (h : ∃ f, assemble source₀ = .ok f) : ∃ f, assemble source = .ok f := by
  obtain ⟨ls₀, hls₀, hwellFormed⟩ := exists_assemble_iff.mp h
  obtain ⟨A, B, rfl, hA, hB⟩ := (reads_iff hlines₀ hl₀).mp hls₀
  exact exists_assemble_iff.mpr ⟨A ++ l :: B, (reads_iff hlines hl).mpr ⟨A, B, rfl, hA, hB⟩,
    hwellFormed.replace hstands⟩

/-- Lines are refused for the first one that is, whatever comes after it. -/
theorem readLines_eq_error_of_readLine (hs : readLines 1 texts {} = .ok s)
    (he : s.readLine (texts.length + 1) text = .error e) (rest : List (List Char)) :
    readLines 1 (texts ++ text :: rest) {} = .error e := by
  rw [Nat.add_comm] at he
  exact readLines_eq_error_iff.mpr ⟨texts, text, rest, s, rfl, hs, he⟩

theorem fitsInt64_iff : fitsInt64 v ↔ -9223372036854775808 ≤ v ∧ v ≤ 9223372036854775807 := by
  rw [fitsInt64, Bool.and_eq_true, decide_eq_true_eq, decide_eq_true_eq]
  omega

section Line
variable {before lit lit₀ after : List Char} {token₀ : Token}

/-- What becomes of a literal on a line, if the line fits with a number in its place:
it is no token, or refused for what it is there for, or read as what it is. -/
theorem State.Reflects.readLine_literal {l₀ : Line} (h : s.Reflects A)
    (hl₀ : Line.parse (before ++ (lit₀ ++ after)) = .ok l₀) (hfits : l₀.FitsAfter A)
    (hplace : ⟨byteLength before, lit₀, some token₀⟩ ∈ scan 0 (before ++ (lit₀ ++ after)))
    (hnumber : token₀.IsNumeral v₀) (hlit : Writes lit v)
    (hsign : lit₀.head? = some '-' → lit.head? = some '-') :
    ∃ (label : Option String) (hole : Hole) (statement₀ : Statement) (us : List Token),
      l₀ = ⟨label, some statement₀⟩ ∧ hole.fill v₀ = some statement₀
      ∧ Yields before us ∧ hole.After us
      ∧ (¬ (-9223372036854775808 ≤ v ∧ v ≤ 9223372036854775807) → ∀ line,
          s.readLine line (before ++ (lit ++ after)) = .error ⟨line,
            .line (.malformed (byteLength before + 1) (.unexpectedInput (String.ofList lit)))⟩)
      ∧ (-9223372036854775808 ≤ v ∧ v ≤ 9223372036854775807 → ¬ hole.Admits v → ∀ line,
          s.readLine line (before ++ (lit ++ after)) = .error ⟨line, hole.fault v⟩)
      ∧ (hole.Admits v → ∃ statement, hole.fill v = some statement
          ∧ Line.parse (before ++ (lit ++ after)) = .ok ⟨label, some statement⟩) := by
  obtain ⟨label, hole, statement₀, us, rfl, hfill₀, hus, hafter, hread⟩ :=
    Line.parse_literal hl₀ hplace hnumber
  obtain ⟨hlarge, hsmall⟩ := hread lit v hlit hsign
  rw [fitsInt64_iff] at hlarge hsmall
  refine ⟨label, hole, statement₀, us, rfl, hfill₀, hus, hafter, fun hbeyond line => ?_,
    fun hwithin hout line => ?_, fun hadmits => ?_⟩
  · exact readLine_eq_error_iff.mpr (.inl ⟨_, hlarge hbeyond, rfl⟩)
  · obtain ⟨hok, hrefused⟩ := hsmall hwithin
    refine readLine_eq_error_iff.mpr ?_
    rcases Hole.fill_eq_none_or hout with hnone | ⟨op, left, right, rfl⟩
    · obtain ⟨refusal, hfault, hparse⟩ := hrefused hnone
      exact .inl ⟨refusal, hparse, by rw [hfault]⟩
    · cases hfill₀
      exact .inr ⟨_, _, hok _ rfl, h.obey_eq_error hfits hout line, rfl⟩
  · obtain ⟨statement, hfill⟩ := Hole.exists_fill hadmits
    have hwithin := fitsInt64_iff.mp (Hole.fitsInt64_of_admits hadmits)
    exact ⟨statement, hfill, (hsmall hwithin).1 statement hfill⟩

/-- Numbers are never cut or wrapped.  Take a line that is accepted after the lines
before it, with some number in it, and let a literal stand in its place: it may have
any number of digits, but a sign only gives way to a sign.

The line is accepted exactly if the literal is in the range of what it is there for.
A literal beyond 64 bits is no token; another one out of range is refused for what it
is there for.  The rest of the listing cannot tell one accepted number from another,
and what is assembled holds the number that the literal writes. -/
theorem assemble_literal {s₀ : State}
    (hlines : Text.lines source.toList = texts ++ (before ++ (lit ++ after)) :: rest)
    (hlit : Writes lit v)
    (haccepted : readLines 1 (texts ++ [before ++ (lit₀ ++ after)]) {} = .ok s₀)
    (hplace : ⟨byteLength before, lit₀, some token₀⟩ ∈ scan 0 (before ++ (lit₀ ++ after)))
    (hnumber : token₀.IsNumeral v₀) (hsign : lit₀.head? = some '-' → lit.head? = some '-') :
    ∃ (label : Option String) (hole : Hole) (statement₀ : Statement) (us : List Token),
      Line.parse (before ++ (lit₀ ++ after)) = .ok ⟨label, some statement₀⟩
      ∧ hole.fill v₀ = some statement₀ ∧ Yields before us ∧ hole.After us
      ∧ ((∃ s, readLines 1 (texts ++ [before ++ (lit ++ after)]) {} = .ok s) ↔ hole.Admits v)
      ∧ (¬ (-9223372036854775808 ≤ v ∧ v ≤ 9223372036854775807) →
          assemble source = .error ⟨texts.length + 1,
            .line (.malformed (byteLength before + 1) (.unexpectedInput (String.ofList lit)))⟩)
      ∧ (-9223372036854775808 ≤ v ∧ v ≤ 9223372036854775807 → ¬ hole.Admits v →
          assemble source = .error ⟨texts.length + 1, hole.fault v⟩)
      ∧ (hole.Admits v → ∀ source₀ : String,
          Text.lines source₀.toList = texts ++ (before ++ (lit₀ ++ after)) :: rest →
          (∃ f, assemble source₀ = .ok f) → ∃ f, assemble source = .ok f)
      ∧ ∀ f, assemble source = .ok f → ∃ A B, Listing.Parses texts A ∧ Listing.Parses rest B
          ∧ hole.Stored v f A B := by
  obtain ⟨A, l₀, s, hA, hl₀, hreadable, hs, hreflects⟩ :=
    exists_of_readLines_append_singleton haccepted
  obtain ⟨label, hole, statement₀, us, rfl, hfill₀, hus, hafter, hbeyond, hout, hin⟩ :=
    hreflects.readLine_literal hl₀ hreadable.fitsAfter hplace hnumber hlit hsign
  have hrefused : ¬ hole.Admits v → ∀ rest,
      ∃ e, readLines 1 (texts ++ (before ++ (lit ++ after)) :: rest) {} = .error e := by
    intro hnot rest
    by_cases hwithin : -9223372036854775808 ≤ v ∧ v ≤ 9223372036854775807
    · exact ⟨_, readLines_eq_error_of_readLine hs (hout hwithin hnot _) rest⟩
    · exact ⟨_, readLines_eq_error_of_readLine hs (hbeyond hwithin _) rest⟩
  have haccepts : (∃ s, readLines 1 (texts ++ [before ++ (lit ++ after)]) {} = .ok s)
      ↔ hole.Admits v := by
    constructor
    · rintro ⟨s', hs'⟩
      by_contra hnot
      obtain ⟨e, he⟩ := hrefused hnot []
      cases hs'.symm.trans he
    · intro hadmits
      obtain ⟨statement, hfill, hl⟩ := hin hadmits
      exact (exists_readLines_iff State.Reflects.nil .nil _).mpr
        ⟨A ++ [⟨label, some statement⟩], List.rel_append hA (.cons hl .nil),
          hreadable.replace (Hole.canStandFor hfill₀ hfill hadmits)⟩
  refine ⟨label, hole, statement₀, us, hl₀, hfill₀, hus, hafter, haccepts, fun hlarge => ?_,
    fun hwithin hnot => ?_, fun hadmits source₀ hlines₀ h₀ => ?_, fun f hf => ?_⟩
  · rw [assemble, hlines, readLines_eq_error_of_readLine hs (hbeyond hlarge _)]
    rfl
  · rw [assemble, hlines, readLines_eq_error_of_readLine hs (hout hwithin hnot _)]
    rfl
  · obtain ⟨statement, hfill, hl⟩ := hin hadmits
    exact exists_assemble_replace hlines₀ hlines hl₀ hl (Hole.canStandFor hfill₀ hfill hadmits) h₀
  · have hadmits : hole.Admits v := by
      by_contra hnot
      obtain ⟨e, he⟩ := hrefused hnot rest
      rw [assemble, hlines, he] at hf
      cases hf
    obtain ⟨statement, hfill, hl⟩ := hin hadmits
    obtain ⟨ls, hls, _⟩ := exists_assemble_iff.mp ⟨f, hf⟩
    obtain ⟨A, B, rfl, hA, hB⟩ := (reads_iff hlines hl).mp hls
    exact ⟨A, B, hA, hB, Hole.stored hfill (denotes_of_assemble hls hf).2⟩

/-- A number beyond 32 bits, where one within them would do. -/
theorem assemble_literal_beyond_int :
    Text.lines ".int 0x080000000".toList
        = [] ++ (".int ".toList ++ ("0x080000000".toList ++ [])) :: []
      ∧ Writes "0x080000000".toList 2147483648
      ∧ (∃ s, readLines 1 ([] ++ [".int ".toList ++ ("7".toList ++ [])]) {} = .ok s)
      ∧ assemble ".int 0x080000000"
        = .error ⟨1, .line (.invalidDirective (.intOutOfRange 2147483648))⟩ := by
  have hlines : Text.lines ".int 0x080000000".toList
      = [] ++ (".int ".toList ++ ("0x080000000".toList ++ [])) :: [] := by
    decide +kernel
  have hdigits : List.Forall₂ (IsDigit 16) "080000000".toList [0, 8, 0, 0, 0, 0, 0, 0, 0] := by
    simp [IsDigit]
  have hlit : Writes "0x080000000".toList 2147483648 := .hex (by decide) hdigits
  have hread : readLines 1 ([] ++ [".int ".toList ++ ("7".toList ++ [])]) {}
      = .ok ⟨⟨{ ints := #[7] }, .building⟩, ∅, #[]⟩ := by
    with_unfolding_all rfl
  have hplace : ⟨byteLength ".int ".toList, "7".toList, some (.number 7)⟩
      ∈ scan 0 (".int ".toList ++ ("7".toList ++ [])) := by
    decide +kernel
  have hparse : Line.parse (".int ".toList ++ ("7".toList ++ []))
      = .ok ⟨none, some (.directive (.int 7))⟩ := by
    decide +kernel
  obtain ⟨label, hole, statement₀, us, hline, hfill, _, _, _, _, hout, _⟩ :=
    assemble_literal hlines hlit hread hplace (.number 7) (by decide)
  cases hparse.symm.trans hline
  have hfault : ¬ hole.Admits 2147483648 ∧ hole.fault 2147483648
      = .line (.invalidDirective (.intOutOfRange 2147483648)) := by
    cases hole with
    | args | upvalues | operand => cases hfill
    | int => exact ⟨by rw [Hole.Admits]; decide, rfl⟩
  refine ⟨hlines, hlit, ⟨_, hread⟩, ?_⟩
  rw [← hfault.2]
  exact hout (by decide) hfault.1

end Line

end Assembly

end Wordcode
