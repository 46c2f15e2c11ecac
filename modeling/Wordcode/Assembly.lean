/-
# Assembly — from listings to functions

A listing is read once, from its first line to its last, into a builder.  A
label names the instruction that comes next, on whatever line it stands.  An
operand that names a label may come before the label does, so it is built as
zero and noted as a fixup; when all lines are read, each fixup is patched with
the index of its label.

Every table is asked for room before it grows, so the builder never refuses
anything.  The first error ends the reading; a label that is never defined is
noticed only afterwards, at the first line that refers to one.
-/
import Std.Data.HashMap
import Wordcode.Builder
import Wordcode.Listing.Line

namespace Wordcode

/-! ## Errors -/

/-- Why an operand cannot be what it is written as. -/
inductive OperandError where
  /-- A number does not fit 16 bits. -/
  | outOfRange (value : Int)
  /-- A label stands in a slot that holds no target. -/
  | notATarget (label : String)
deriving DecidableEq

/-- What is wrong with a line of a listing. -/
inductive AssemblyFault where
  /-- The line itself cannot be read. -/
  | line (e : LineError)
  /-- An operand cannot be what it is written as. -/
  | invalidOperand (op : Opcode) (slot : Nat) (e : OperandError)
  /-- A label is referred to and never defined. -/
  | undefinedLabel (label : String)
  /-- A label is defined a second time. -/
  | duplicateLabel (label : String)
  /-- A table has no room for what the line adds to it. -/
  | tableFull (t : Table)
  /-- The instruction cannot be built or patched. -/
  | code (e : CodeError)
deriving DecidableEq

/-- The first error of a listing. -/
structure AssemblyError where
  /-- The line it is reported at, counted from one. -/
  line : Nat
  /-- What is wrong with that line. -/
  fault : AssemblyFault
deriving DecidableEq

/-- What is wrong with an operand, as it is reported. -/
def OperandError.message (op : Opcode) (slot : Nat) : OperandError → String
  | .outOfRange value =>
    s!"{op.mnemonic} operand {slot} out of range: " ++ String.ofList (Text.signed value)
  | .notATarget label => s!"{op.mnemonic} operand {slot} is not a branch target: @{label}"

/-- The error as it is reported. -/
def AssemblyError.message (e : AssemblyError) : String :=
  let line := e.line
  match e.fault with
  | .line (.malformed column fault) =>
    s!"Syntax error at line {line}, column {column}: " ++ fault.message
  | .line (.unknownInstruction mnemonic) => s!"Unknown instruction at line {line}: {mnemonic}"
  | .line (.invalidDirective d) => s!"Invalid directive at line {line}: " ++ d.message
  | .invalidOperand op slot d => s!"Invalid operand at line {line}: " ++ d.message op slot
  | .undefinedLabel label => s!"Undefined label at line {line}: {label}"
  | .duplicateLabel label => s!"Duplicate label at line {line}: {label}"
  | .tableFull t => s!"Line {line}: {t.text} is full"
  | .code d => s!"Line {line}: " ++ d.message

namespace Assembly

/-! ## Lines -/

/-- An operand that waits for the index of a label. -/
structure Fixup where
  /-- The instruction it belongs to. -/
  index : Operand
  /-- The slot it fills. -/
  slot : Nat
  /-- The label it names. -/
  label : String
  /-- The line it stands on. -/
  line : Nat
deriving DecidableEq

/-- What has been read so far. -/
structure State where
  /-- The function so far, with zero for every operand that waits. -/
  builder : Builder := .new
  /-- The labels defined so far and the instructions they name. -/
  labels : Std.HashMap String Operand := ∅
  /-- The operands that wait, in the order of the listing. -/
  fixups : Array Fixup := #[]

/-- The operand that an expression stands for in a slot, or zero if it waits
for a label. -/
def operandValue (op : Opcode) (slot : Nat) : OperandExpr → Except AssemblyFault Operand
  | .number value =>
    match Text.uint16? value with
    | some operand => .ok operand
    | none => .error (.invalidOperand op slot (.outOfRange value))
  | .label name =>
    if op.operandKinds[slot]? = some .target then .ok 0
    else .error (.invalidOperand op slot (.notATarget name))

/-- The instruction with zero for every operand that waits. -/
def placeholder (raw : RawInstruction) : Except AssemblyFault Instruction := do
  let values ← raw.operands.zipIdx.mapM fun (e, slot) => operandValue raw.opcode slot e
  match Instruction.ofOperands raw.opcode values with
  | .ok i => .ok i
  | .error e => .error (.code e)

/-- The operands of an instruction that wait. -/
def waiting (index : Operand) (line : Nat) (raw : RawInstruction) : List Fixup :=
  raw.operands.zipIdx.filterMap fun
    | (.label name, slot) => some ⟨index, slot, name, line⟩
    | (.number _, _) => none

namespace State

/-- Lets a label name the next instruction. -/
def define (s : State) (label : String) : Except AssemblyFault State :=
  if s.builder.HasRoom .code then
    if s.labels.contains label then .error (.duplicateLabel label)
    else
      let index := s.builder.nextIndex .code
      .ok { s with labels := s.labels.insert label index }
  else .error (.tableFull .code)

/-- Carries out a directive. -/
def declare (s : State) : Directive → Except AssemblyFault State
  | .args count => .ok { s with builder := s.builder.setArgs count }
  | .upvalues count => .ok { s with builder := s.builder.setUpvalues count }
  | .int value =>
    if room : s.builder.HasRoom .ints then
      .ok { s with builder := s.builder.pushInt value room }
    else .error (.tableFull .ints)
  | .str value =>
    if room : s.builder.HasRoom .strs then
      .ok { s with builder := s.builder.pushStr value room }
    else .error (.tableFull .strs)

/-- Appends an instruction. -/
def emit (s : State) (line : Nat) (raw : RawInstruction) : Except AssemblyFault State :=
  if room : s.builder.HasRoom .code then do
    let i ← placeholder raw
    let index := s.builder.nextIndex .code
    return { s with
      builder := s.builder.push i room
      fixups := s.fixups ++ waiting index line raw }
  else .error (.tableFull .code)

/-- Carries out what a line says. -/
def obey (s : State) (line : Nat) (content : Line) : Except AssemblyFault State := do
  let s ← match content.label with
    | none => pure s
    | some label => s.define label
  match content.statement with
  | none => return s
  | some (.directive d) => s.declare d
  | some (.instruction raw) => s.emit line raw

/-- Reads a line and carries out what it says. -/
def readLine (s : State) (line : Nat) (text : List Char) : Except AssemblyError State :=
  match Line.parse text with
  | .error e => .error ⟨line, .line e⟩
  | .ok content =>
    match s.obey line content with
    | .error fault => .error ⟨line, fault⟩
    | .ok s => .ok s

end State

/-- Reads lines, the first of which has the number `first`. -/
def readLines (first : Nat) (lines : List (List Char)) (s : State) : Except AssemblyError State :=
  (lines.zipIdx first).foldlM (fun s (text, line) => s.readLine line text) s

/-! ## Fixups -/

/-- Patches an operand with the index of the label it waits for. -/
def patchFixup (labels : Std.HashMap String Operand) (b : Builder) (fixup : Fixup) :
    Except AssemblyError Builder :=
  match labels[fixup.label]? with
  | none => .error ⟨fixup.line, .undefinedLabel fixup.label⟩
  | some target =>
    match b.patch fixup.index fixup.slot target with
    | .ok b => .ok b
    | .error e => .error ⟨fixup.line, .code e⟩

/-- Patches every operand that waits. -/
def State.finish (s : State) : Except AssemblyError Function := do
  let b ← s.fixups.toList.foldlM (patchFixup s.labels) s.builder
  return b.function

end Assembly

/-- The function that a listing describes. -/
def assemble (source : String) : Except AssemblyError Function :=
  Assembly.readLines 1 (Text.lines source.toList) {} >>= Assembly.State.finish

end Wordcode
