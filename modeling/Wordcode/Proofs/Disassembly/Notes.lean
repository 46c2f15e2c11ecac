/-
# Notes — what a listing says that an operand refers to

A note shows the constant or the opcode that an operand refers to, or says that
there is none.  The verifier decides on its own whether there is one.  Here the
two are compared, table by table: `Table.kind` says how an operand is read that
refers to an entry of a table.

A note is only a text, and a string constant may hold any text.  So a note is
taken back to what it was made from, `Referent`; the text of a missing entry is
the text of no other referent (`Referent.text_eq_missing_iff`), because a number
has no blank in it, a string stands between quotes, and a mnemonic is a name.
No instruction has two notes, so what is said of an operand is all that is said
of its instruction.
-/
import Wordcode.Proofs.Disassembly.RoundTrip
import Wordcode.Proofs.Verify.Rules

namespace Wordcode

open Text Lexeme

/-! ## Referents -/

/-- What an operand refers to. -/
inductive Referent where
  /-- An integer constant. -/
  | int (value : Int32)
  /-- A string constant. -/
  | str (value : String)
  /-- An instruction with this opcode. -/
  | instruction (op : Opcode)
  /-- An entry that a table does not have. -/
  | missing (t : Table) (index : Operand)

/-- The note on a referent. -/
def Referent.text : Referent → String
  | .int value => String.ofList (Text.signed value.toInt)
  | .str value => Text.literal value
  | .instruction op => s!"-> {op.mnemonic}"
  | .missing .ints index => s!"int #{index.toNat} out of range"
  | .missing .strs index => s!"str #{index.toNat} out of range"
  | .missing .code index => s!"-> #{index.toNat} out of range"

/-- How an operand is read that refers to an entry of the table. -/
def Table.kind : Table → OperandKind
  | .ints => .intConst
  | .strs => .strConst
  | .code => .target

/-- The table that an operand refers to. -/
def OperandKind.table? : OperandKind → Option Table
  | .intConst => some .ints
  | .strConst => some .strs
  | .target => some .code
  | .value | .typeConst | .literal => none

theorem OperandKind.table?_eq_some_iff {kind : OperandKind} {t : Table} :
    kind.table? = some t ↔ kind = t.kind := by
  cases kind <;> cases t <;> decide

namespace Function

/-- The entry of a table that an index names. -/
def entryAt? (f : Function) : Table → Operand → Option Referent
  | .ints, index => f.ints[index.toNat]?.map .int
  | .strs, index => f.strs[index.toNat]?.map .str
  | .code, index => f.code[index.toNat]?.map fun i => .instruction i.opcode

/-- What an operand refers to, if it refers to anything. -/
def referent? (f : Function) (operand : OperandKind × Operand) : Option Referent :=
  operand.1.table?.map fun t => (f.entryAt? t operand.2).getD (.missing t operand.2)

variable {f : Function} {t : Table} {index : Operand}

/-- A note is the text of what the operand refers to. -/
theorem note?_eq (operand : OperandKind × Operand) :
    f.note? operand = (f.referent? operand).map Referent.text := by
  obtain ⟨kind, index⟩ := operand
  cases kind with
  | intConst =>
      cases h : f.ints[index.toNat]? <;>
        simp [note?, referent?, OperandKind.table?, entryAt?, h, Referent.text]
  | strConst =>
      cases h : f.strs[index.toNat]? <;>
        simp [note?, referent?, OperandKind.table?, entryAt?, h, Referent.text]
  | target =>
      cases h : f.code[index.toNat]? <;>
        simp [note?, referent?, OperandKind.table?, entryAt?, h, Referent.text]
  | value | typeConst | literal => rfl

theorem entryAt?_eq_none_iff : f.entryAt? t index = none ↔ f.tableSize t ≤ index.toNat := by
  cases t with
  | ints | strs | code => exact Option.map_eq_none_iff.trans Array.getElem?_eq_none_iff

theorem entryAt?_ne_missing {t' : Table} {index' : Operand} :
    f.entryAt? t index ≠ some (.missing t' index') := by
  cases t with
  | ints | strs | code => simp [entryAt?]

/-- An operand refers to nothing exactly if it names an entry past the end of a
table. -/
theorem referent?_eq_missing_iff {operand : OperandKind × Operand} :
    f.referent? operand = some (.missing t index)
      ↔ operand = (t.kind, index) ∧ f.tableSize t ≤ index.toNat := by
  obtain ⟨kind, a⟩ := operand
  rw [← entryAt?_eq_none_iff, Prod.mk.injEq, ← OperandKind.table?_eq_some_iff]
  constructor
  · intro h
    obtain ⟨t', ht', hreferent⟩ := Option.map_eq_some_iff.mp h
    cases hentry : f.entryAt? t' a with
    | some r =>
        rw [hentry, Option.getD_some] at hreferent
        exact (entryAt?_ne_missing (hreferent ▸ hentry)).elim
    | none =>
        rw [hentry, Option.getD_none] at hreferent
        cases hreferent
        exact ⟨⟨ht', rfl⟩, hentry⟩
  · rintro ⟨⟨hkind, rfl⟩, hentry⟩
    rw [referent?, hkind, Option.map_some, hentry, Option.getD_none]

/-- An operand that names an entry refers to it. -/
theorem referent?_of_lt (h : index.toNat < f.tableSize t) :
    f.referent? (t.kind, index) = f.entryAt? t index := by
  obtain ⟨r, hr⟩ := Option.ne_none_iff_exists'.mp
    (mt entryAt?_eq_none_iff.mp (Nat.not_le.mpr h))
  rw [referent?, OperandKind.table?_eq_some_iff.mpr rfl, Option.map_some, hr, Option.getD_some]

end Function

/-! ## The text of a missing entry -/

/-- What stands before the index. -/
def Table.sign : Table → List Char
  | .ints => ['i', 'n', 't', ' ']
  | .strs => ['s', 't', 'r', ' ']
  | .code => ['-', '>', ' ']

namespace Referent

variable {t : Table} {index : Operand}

theorem toList_text_missing (t : Table) (index : Operand) : (text (.missing t index)).toList
    = t.sign ++ '#' :: (Nat.toDigits 10 index.toNat ++ " out of range".toList) := by
  cases t with
  | ints | strs | code =>
    simp only [text, String.toList_append, Nat.toString_eq_ofList_toDigits, String.toList_ofList]
    rfl

theorem text_missing_injective {t' : Table} {index' : Operand}
    (h : text (.missing t index) = text (.missing t' index')) :
    t = t' ∧ index = index' := by
  rw [← String.toList_inj, toList_text_missing, toList_text_missing] at h
  obtain rfl : t = t' := by
    cases t <;> cases t' <;> first | rfl | cases h
  have hdigits := List.append_cancel_right (List.cons.inj (List.append_cancel_left h)).2
  have hindex := congrArg (ofDigits 10) hdigits
  rw [ofDigits_toDigits (by decide) (by decide), ofDigits_toDigits (by decide) (by decide)] at hindex
  exact ⟨rfl, UInt16.toNat_inj.mp hindex⟩

/-- A number has no blank in it. -/
theorem blank_not_mem_signed (n : Int) : ' ' ∉ Text.signed n := by
  have hdigits : ' ' ∉ Nat.toDigits 10 n.natAbs := fun h =>
    absurd (isDigit_of_mem_toDigits h) (by decide)
  unfold Text.signed
  split
  · rw [List.mem_cons, not_or]
    exact ⟨by decide, hdigits⟩
  · exact hdigits

/-- The text of a missing entry is the text of no other referent. -/
theorem text_eq_missing_iff {r : Referent} :
    r.text = text (.missing t index) ↔ r = .missing t index := by
  refine ⟨fun h => ?_, fun h => h ▸ rfl⟩
  have hlist := congrArg String.toList h
  rw [toList_text_missing] at hlist
  cases r with
  | int value =>
      have hblank : ' ' ∈ t.sign := by cases t <;> decide
      rw [text, String.toList_ofList] at hlist
      exact absurd (hlist ▸ List.mem_append_left _ hblank) (blank_not_mem_signed _)
  | str value =>
      rw [text, toList_literal] at hlist
      cases t <;> cases hlist
  | instruction op =>
      have hname := op.isName_mnemonic
      rw [text, String.toList_append] at hlist
      cases t with
      | ints | strs => cases hlist
      | code =>
          have hmnemonic : op.mnemonic.toList = '#' :: _ := List.append_cancel_left hlist
          rw [hmnemonic] at hname
          exact absurd (isName_cons_iff.mp hname).1 (by decide)
  | missing t' index' =>
      obtain ⟨rfl, rfl⟩ := text_missing_injective h
      rfl

end Referent

/-! ## The note of an instruction -/

/-- No opcode has two operands that refer to entries of tables. -/
theorem Opcode.countP_table?_le_one (op : Opcode) :
    op.operandKinds.countP (fun kind => kind.table?.isSome) ≤ 1 := by
  cases op <;> decide

namespace Function

variable {f : Function} {p : Policy} {pos : Nat} {i : Instruction} {t : Table} {index : Operand}
  {note : String}

theorem length_notes_le_one : (i.typedOperands.filterMap f.note?).length ≤ 1 := by
  have hkinds : i.typedOperands.map Prod.fst = i.opcode.operandKinds :=
    List.map_fst_zip (Nat.le_of_eq i.length_operands.symm)
  refine Nat.le_trans (Nat.le_of_eq ?_) i.opcode.countP_table?_le_one
  rw [List.length_filterMap_eq_countP, ← hkinds, List.countP_map]
  refine congrArg (List.countP · _) (funext fun operand => ?_)
  rw [note?_eq, Option.isSome_map, referent?, Option.isSome_map]
  rfl

/-- What is noted of an operand is all that is noted of its instruction. -/
theorem annotate_eq_some_iff :
    f.annotate i = some note ↔ ∃ operand ∈ i.typedOperands, f.note? operand = some note := by
  rw [← List.mem_filterMap, annotate]
  have hlength := length_notes_le_one (f := f) (i := i)
  cases hnotes : i.typedOperands.filterMap f.note? with
  | nil => simp
  | cons first rest =>
      rw [hnotes, List.length_cons] at hlength
      have hrest : rest = [] := List.length_eq_zero_iff.mp (by omega)
      simp [hrest, eq_comm]

/-- An instruction is noted to refer to nothing exactly if an operand of it names
an entry past the end of the table. -/
theorem annotate_eq_missing_iff :
    f.annotate i = some (Referent.text (.missing t index))
      ↔ (t.kind, index) ∈ i.typedOperands ∧ f.tableSize t ≤ index.toNat := by
  rw [annotate_eq_some_iff]
  simp only [note?_eq, Option.map_eq_some_iff, Referent.text_eq_missing_iff, exists_eq_right,
    referent?_eq_missing_iff]
  constructor
  · rintro ⟨_, hmem, rfl, hsize⟩
    exact ⟨hmem, hsize⟩
  · rintro ⟨hmem, hsize⟩
    exact ⟨_, hmem, rfl, hsize⟩

/-! ## The verifier -/

/-- The violation that an operand commits which names an entry past the end of the
table. -/
def outOfRange (t : Table) (pos : Nat) (index : Operand) (size : Nat) : Violation :=
  match t with
  | .ints => .intOutOfRange pos index size
  | .strs => .strOutOfRange pos index size
  | .code => .targetOutOfRange pos index size

theorem breaks_outOfRange_iff (hi : f.code[pos]? = some i) :
    (∃ size, f.Breaks p (outOfRange t pos index size))
      ↔ (t.kind, index) ∈ i.typedOperands ∧ f.tableSize t ≤ index.toNat := by
  cases t with
  | ints =>
      rw [Table.kind, Instruction.mem_typedOperands_intConst_iff]
      constructor
      · rintro ⟨_, h⟩
        cases h with
        | intOutOfRange hi' hop hindex hsize =>
            rw [hi] at hi'
            cases hi'
            exact ⟨⟨hop, hindex⟩, hsize⟩
      · rintro ⟨⟨hop, hindex⟩, hsize⟩
        exact ⟨_, .intOutOfRange hi hop hindex hsize⟩
  | strs =>
      rw [Table.kind, Instruction.mem_typedOperands_strConst_iff]
      constructor
      · rintro ⟨_, h⟩
        cases h with
        | strOutOfRange hi' hop hindex hsize =>
            rw [hi] at hi'
            cases hi'
            exact ⟨⟨hop, hindex⟩, hsize⟩
      · rintro ⟨⟨hop, hindex⟩, hsize⟩
        exact ⟨_, .strOutOfRange hi hop hindex hsize⟩
  | code =>
      rw [Table.kind, Instruction.mem_typedOperands_target_iff]
      constructor
      · rintro ⟨_, h⟩
        cases h with
        | targetOutOfRange hi' hnamed hlength =>
            rw [hi] at hi'
            cases hi'
            exact ⟨hnamed, hlength⟩
      · rintro ⟨hnamed, hlength⟩
        exact ⟨_, .targetOutOfRange hi hnamed hlength⟩

/-- What is noted to refer to nothing is what the verifier reports as out of
range. -/
theorem annotate_eq_missing_iff_mem_errors (hlength : f.length ≤ p.maxInstructions)
    (hi : f.code[pos]? = some i) :
    f.annotate i = some (Referent.text (.missing t index))
      ↔ ∃ size, outOfRange t pos index size ∈ (f.verify p).errors := by
  simp only [mem_errors_iff hlength]
  rw [annotate_eq_missing_iff, breaks_outOfRange_iff hi]

/-! ## Notes of valid functions -/

/-- The text shows the constant or the opcode that an operand of the instruction
refers to. -/
inductive Shows (f : Function) (i : Instruction) : String → Prop where
  | int {index : Operand} {value : Int32} (hop : i.opcode = .intk)
      (hindex : i.operand? 0 = some index) (hvalue : f.ints[index.toNat]? = some value) :
      Shows f i (String.ofList (Text.signed value.toInt))
  | str {index : Operand} {value : String} (hop : i.opcode = .strk)
      (hindex : i.operand? 0 = some index) (hvalue : f.strs[index.toNat]? = some value) :
      Shows f i (Text.literal value)
  | instruction {index : Operand} {j : Instruction}
      (hindex : i.jumpTarget? = some index ∨ i.exit? = some index)
      (hj : f.code[index.toNat]? = some j) :
      Shows f i ("-> " ++ j.opcode.mnemonic)

theorem shows_of_entry? {r : Referent} (hmem : (t.kind, index) ∈ i.typedOperands)
    (h : f.entryAt? t index = some r) : f.Shows i r.text := by
  cases t with
  | ints =>
      obtain ⟨hop, hindex⟩ := Instruction.mem_typedOperands_intConst_iff.mp hmem
      obtain ⟨value, hvalue, rfl⟩ := Option.map_eq_some_iff.mp h
      exact .int hop hindex hvalue
  | strs =>
      obtain ⟨hop, hindex⟩ := Instruction.mem_typedOperands_strConst_iff.mp hmem
      obtain ⟨value, hvalue, rfl⟩ := Option.map_eq_some_iff.mp h
      exact .str hop hindex hvalue
  | code =>
      obtain ⟨j, hj, rfl⟩ := Option.map_eq_some_iff.mp h
      exact .instruction (Instruction.mem_typedOperands_target_iff.mp hmem) hj

/-- In a valid function every note shows something. -/
theorem shows_of_isValid (hvalid : (f.verify p).isValid) (hi : f.code[pos]? = some i)
    (hnote : f.annotate i = some note) : f.Shows i note := by
  obtain ⟨⟨kind, index⟩, hmem, hoperand⟩ := annotate_eq_some_iff.mp hnote
  rw [note?_eq] at hoperand
  obtain ⟨r, hr, rfl⟩ := Option.map_eq_some_iff.mp hoperand
  obtain ⟨t, ht, _⟩ := Option.map_eq_some_iff.mp hr
  obtain rfl := OperandKind.table?_eq_some_iff.mp ht
  have hlt : index.toNat < f.tableSize t := by
    by_contra hge
    obtain ⟨size, hbroken⟩ := (breaks_outOfRange_iff (p := p) hi).mpr
      ⟨hmem, Nat.le_of_not_lt hge⟩
    have hlength := length_le_of_isValid hvalid
    exact ((isValid_iff_lawful hlength).mp hvalid).not_breaks hlength hbroken
  rw [referent?_of_lt hlt] at hr
  exact shows_of_entry? hmem hr

/-- Where an instruction is listed. -/
theorem getElem?_lines_disassemble (hi : f.code[pos]? = some i) :
    (Text.lines f.disassemble.toList)[f.ints.size + f.strs.size + 6 + pos]?
      = some (f.codeLine i pos).toList := by
  rw [disassemble, lines_joinLines fun _ => f.allVisible_of_mem_listingLines, List.getElem?_map,
    listingLines, List.getElem?_append_right]
  · simp only [List.length_append, List.length_map, List.length_zipIdx, List.length_cons,
      List.length_nil, Array.length_toList]
    rw [show f.ints.size + f.strs.size + 6 + pos - (0 + 1 + 1 + 1 + 1 + 1 + f.ints.size
      + f.strs.size + (0 + 1)) = pos by omega, List.getElem?_map, List.getElem?_zipIdx,
      Array.getElem?_toList, hi]
    simp
  · simp only [List.length_append, List.length_map, List.length_zipIdx, List.length_cons,
      List.length_nil, Array.length_toList]
    omega

/-- Within the limit on instructions, an operand is noted as out of range exactly
if the verifier reports it; and in a valid function each note in the listing
shows what is referred to. -/
theorem annotate_outOfRange_iff (f : Function) (p : Policy)
    (hlength : f.length ≤ p.maxInstructions) :
    (∀ (pos : Nat) (i : Instruction) (index : Operand), f.code[pos]? = some i →
      (f.annotate i = some s!"int #{index.toNat} out of range"
        ↔ ∃ size, Violation.intOutOfRange pos index size ∈ (f.verify p).errors)
      ∧ (f.annotate i = some s!"str #{index.toNat} out of range"
        ↔ ∃ size, Violation.strOutOfRange pos index size ∈ (f.verify p).errors)
      ∧ (f.annotate i = some s!"-> #{index.toNat} out of range"
        ↔ ∃ size, Violation.targetOutOfRange pos index size ∈ (f.verify p).errors))
    ∧ ((f.verify p).isValid → ∀ (pos : Nat) (i : Instruction) (note : String),
      f.code[pos]? = some i → f.annotate i = some note →
      (Text.lines f.disassemble.toList)[f.ints.size + f.strs.size + 6 + pos]?
          = some (i.listed pos ++ "  " ++ note).toList
        ∧ f.Shows i note) := by
  refine ⟨fun pos i index hi => ⟨?_, ?_, ?_⟩, fun hvalid pos i note hi hnote => ⟨?_, ?_⟩⟩
  · exact annotate_eq_missing_iff_mem_errors (t := .ints) hlength hi
  · exact annotate_eq_missing_iff_mem_errors (t := .strs) hlength hi
  · exact annotate_eq_missing_iff_mem_errors (t := .code) hlength hi
  · rw [getElem?_lines_disassemble hi, codeLine, hnote]
  · exact shows_of_isValid hvalid hi hnote

/-- A string constant reads like the note of a missing integer.  The operand that
names no integer is noted and reported; once there are enough integers nothing
is reported, and the note of the string is still the string. -/
theorem annotate_outOfRange_iff_lookalike :
    let code : Array Instruction := #[⟨.intk, [1], rfl⟩, ⟨.strk, [0], rfl⟩, ⟨.retv, [], rfl⟩]
    let f : Function := ⟨0, 0, #[7], #["int #1 out of range"], code⟩
    let g : Function := ⟨0, 0, #[7, -7], #["int #1 out of range"], code⟩
    (f.length ≤ Policy.strict.maxInstructions ∧ .intOutOfRange 0 1 1 ∈ (f.verify .strict).errors
        ∧ f.annotate ⟨.intk, [1], rfl⟩ = some "int #1 out of range")
      ∧ (g.length ≤ Policy.strict.maxInstructions ∧ (g.verify .strict).isValid
        ∧ g.annotate ⟨.strk, [0], rfl⟩ = some (Text.literal "int #1 out of range")
        ∧ g.Shows ⟨.strk, [0], rfl⟩ (Text.literal "int #1 out of range")) := by
  intro code f g
  have hf : f.length ≤ Policy.strict.maxInstructions := by decide
  have hg : g.length ≤ Policy.strict.maxInstructions := by decide
  have hreported : .intOutOfRange 0 1 1 ∈ (f.verify .strict).errors := by decide
  have hvalid : (g.verify .strict).isValid := by decide
  have hshown : g.annotate ⟨.strk, [0], rfl⟩ = some (Text.literal "int #1 out of range") := rfl
  refine ⟨⟨hf, hreported, ?_⟩, hg, hvalid, hshown, ?_⟩
  · exact ((annotate_outOfRange_iff f .strict hf).1 0 _ 1 rfl).1.mpr ⟨1, hreported⟩
  · exact ((annotate_outOfRange_iff g .strict hg).2 hvalid 1 _ _ rfl hshown).2

end Function

end Wordcode
