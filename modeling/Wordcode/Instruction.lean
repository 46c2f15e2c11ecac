/-
# Instructions — an opcode and its operands

An instruction holds exactly as many operands as its opcode takes; the count
is a field of the type, so no operation can lose it.  Operands that are not
checked yet (read from text or from words) come in through `ofOperands`, which
refuses a wrong count, and the only way to change an instruction is `set`,
which refuses a slot that the opcode does not use.
-/
import Wordcode.Opcode
import Wordcode.Text.Numeral

namespace Wordcode

/-- What an operand slot holds: a reference to a value, an index or a small
number, depending on the opcode and the slot. -/
abbrev Operand := UInt16

/-! ## Errors -/

/-- Why code could not be made, changed or read. -/
inductive CodeError where
  /-- An instruction was given the wrong number of operands. -/
  | arityMismatch (op : Opcode) (found : Nat)
  /-- A slot was addressed that the opcode does not use. -/
  | unusedSlot (op : Opcode) (slot : Nat)
  /-- No opcode has this code. -/
  | unknownOpcode (code : UInt8)
  /-- No opcode has this mnemonic. -/
  | unknownMnemonic (name : String)
  /-- A word has bits set that its opcode does not use. -/
  | invalidEncoding (word : UInt64)
  /-- An instruction was addressed past the end of the stream. -/
  | instructionOutOfRange (index length : Nat)
deriving DecidableEq

namespace CodeError

/-- The error as it is reported. -/
def message : CodeError → String
  | .arityMismatch op found =>
    s!"Arity mismatch for {op.mnemonic}: expected {op.arity} operands, found {found}"
  | .unusedSlot op slot =>
    s!"Operand slot {slot} is not used by {op.mnemonic} (arity {op.arity})"
  | .unknownOpcode code => "Invalid opcode: 0x" ++ Text.hex 2 code.toNat
  | .unknownMnemonic name => "Unknown mnemonic: " ++ name
  | .invalidEncoding word => "Invalid instruction encoding: 0x" ++ Text.hex 16 word.toNat
  | .instructionOutOfRange index length =>
    s!"Instruction index {index} out of range (stream length {length})"

/-- Whether the error is a mistake of the program that makes the code, and not
bad input. -/
def isFrontEndDefect : CodeError → Bool
  | .arityMismatch .. | .unusedSlot .. | .instructionOutOfRange .. => true
  | .unknownOpcode _ | .unknownMnemonic _ | .invalidEncoding _ => false

end CodeError

/-- The refusal of a constructor for a fixed number of operands. -/
structure ShapeMismatch where
  /-- The opcode that was to be made an instruction. -/
  op : Opcode
  /-- The number of operands that the constructor gives it. -/
  given : Nat
deriving DecidableEq

/-- The refusal as it is reported. -/
def ShapeMismatch.message (e : ShapeMismatch) : String :=
  s!"arity mismatch: {e.op.mnemonic} takes {e.op.arity} operands, constructed with {e.given}"

/-! ## Instructions -/

/-- An opcode with one operand for each slot that it uses. -/
structure Instruction where
  /-- The operation. -/
  opcode : Opcode
  /-- The operands, in the order of the slots. -/
  operands : List Operand
  /-- Every slot is filled and no other is. -/
  length_operands : operands.length = opcode.arity
deriving DecidableEq

namespace Instruction

/-- The instruction with the given operands. -/
def ofOperands (op : Opcode) (operands : List Operand) : Except CodeError Instruction :=
  if h : operands.length = op.arity then .ok ⟨op, operands, h⟩
  else .error (.arityMismatch op operands.length)

/-- Nothing but its opcode and its operands tells an instruction from another. -/
theorem eq_of_operands_eq {i j : Instruction} (hopcode : i.opcode = j.opcode)
    (hoperands : i.operands = j.operands) : i = j := by
  cases i
  cases j
  cases hopcode
  cases hoperands
  rfl

theorem ofOperands_eq_ok_iff {op : Opcode} {operands : List Operand} {i : Instruction} :
    ofOperands op operands = .ok i ↔ i.opcode = op ∧ i.operands = operands := by
  unfold ofOperands
  constructor
  · intro h
    split at h
    · cases h; exact ⟨rfl, rfl⟩
    · cases h
  · rintro ⟨rfl, rfl⟩
    rw [dif_pos i.length_operands]

/-- An instruction made by a constructor that knows how many operands it
gives. -/
def ofShape (op : Opcode) (operands : List Operand) : Except ShapeMismatch Instruction :=
  if h : operands.length = op.arity then .ok ⟨op, operands, h⟩
  else .error ⟨op, operands.length⟩

/-- An instruction without operands. -/
def nullary (op : Opcode) : Except ShapeMismatch Instruction := ofShape op []

/-- An instruction with one operand. -/
def unary (op : Opcode) (a : Operand) : Except ShapeMismatch Instruction := ofShape op [a]

/-- An instruction with two operands. -/
def binary (op : Opcode) (a b : Operand) : Except ShapeMismatch Instruction := ofShape op [a, b]

/-- An instruction with three operands. -/
def ternary (op : Opcode) (a b c : Operand) : Except ShapeMismatch Instruction :=
  ofShape op [a, b, c]

/-- The operand in a slot, if the opcode uses that slot. -/
def operand? (i : Instruction) (slot : Nat) : Option Operand := i.operands[slot]?

/-- The operands with the way each is read. -/
def typedOperands (i : Instruction) : List (OperandKind × Operand) :=
  i.opcode.operandKinds.zip i.operands

/-- The target of a jump. -/
def branchTarget? (i : Instruction) : Option Operand := i.opcode.branchSlot?.bind i.operand?

/-- The indices of the instructions that an instruction names. -/
def targets (i : Instruction) : List Nat :=
  i.typedOperands.filterMap fun
    | (.target, target) => some target.toNat
    | _ => none

/-- The instruction with another operand in a slot that its opcode uses. -/
def set (i : Instruction) (slot : Nat) (value : Operand) : Except CodeError Instruction :=
  if slot < i.opcode.arity then
    .ok ⟨i.opcode, i.operands.set slot value, by rw [List.length_set, i.length_operands]⟩
  else .error (.unusedSlot i.opcode slot)

/-- The instruction as listings write it: the mnemonic, and the operands with
commas between them. -/
def text (i : Instruction) : String :=
  match i.operands with
  | [] => i.opcode.mnemonic
  | operands =>
    i.opcode.mnemonic ++ " " ++ ", ".intercalate (operands.map fun a => toString a.toNat)

end Instruction

end Wordcode
