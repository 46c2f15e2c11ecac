/-
# Verdicts — what the verifier finds

A violation says which rule an instruction (or the function) breaks, and where;
a warning says what is allowed but probably not meant.
-/
import Wordcode.Instruction

namespace Wordcode

/-- A broken rule.  `pos` is the index of the instruction that breaks it. -/
inductive Violation where
  /-- The stream is longer than the policy allows. -/
  | tooManyInstructions (length limit : Nat)
  /-- A target lies past the end of the stream. -/
  | targetOutOfRange (pos : Nat) (target : Operand) (length : Nat)
  /-- A jump names an instruction that is no marker. -/
  | notAMarker (pos : Nat) (target : Operand) (found : Opcode)
  /-- A jump names a marker of a kind that it may not go to. -/
  | illegalMarker (pos : Nat) (op : Opcode) (kind : Marker)
  /-- A marker stands on the wrong side of the jump that names it. -/
  | wrongDirection (pos : Nat) (target : Operand) (kind : Marker)
  /-- An index lies past the end of the integer pool. -/
  | intOutOfRange (pos : Nat) (index : Operand) (size : Nat)
  /-- An index lies past the end of the string pool. -/
  | strOutOfRange (pos : Nat) (index : Operand) (size : Nat)
  /-- A boolean literal is neither zero nor one. -/
  | notABool (pos : Nat) (value : Operand)
  /-- The last instruction neither leaves the function nor jumps. -/
  | missingTerminator
deriving DecidableEq

namespace Violation

/-- The violation as it is reported. -/
def message : Violation → String
  | .tooManyInstructions length limit =>
    s!"Function has {length} instructions, limit is {limit}"
  | .targetOutOfRange pos target length =>
    s!"Instruction {pos}: target {target.toNat} out of range (stream length {length})"
  | .notAMarker pos target found =>
    s!"Instruction {pos}: target {target.toNat} is {found.mnemonic}, not a branch target"
  | .illegalMarker pos op kind =>
    s!"Instruction {pos}: {op.mnemonic} may not target a {kind.text} marker"
  | .wrongDirection pos target kind =>
    s!"Instruction {pos}: {kind.text} marker {target.toNat} is on the wrong side of the jump"
  | .intOutOfRange pos index size =>
    s!"Instruction {pos}: integer constant {index.toNat} out of range (pool size {size})"
  | .strOutOfRange pos index size =>
    s!"Instruction {pos}: string constant {index.toNat} out of range (pool size {size})"
  | .notABool pos value =>
    s!"Instruction {pos}: boolean literal must be 0 or 1, found {value.toNat}"
  | .missingTerminator => "Function can run past its last instruction"

/-- The instruction that a violation blames, if it blames one. -/
def position? : Violation → Option Nat
  | .tooManyInstructions .. | .missingTerminator => none
  | .targetOutOfRange pos .. | .notAMarker pos .. | .illegalMarker pos ..
  | .wrongDirection pos .. | .intOutOfRange pos .. | .strOutOfRange pos ..
  | .notABool pos _ => some pos

end Violation

/-- Something that is allowed but probably not meant. -/
inductive Warning where
  /-- The last instruction neither leaves the function nor jumps. -/
  | missingTerminator
  /-- No jump names the marker at this index. -/
  | unreferencedTarget (pos : Nat)
deriving DecidableEq

/-- All that the verifier found. -/
structure Verdict where
  errors : List Violation
  warnings : List Warning
deriving DecidableEq

namespace Verdict

/-- Whether no rule is broken. -/
def isValid (v : Verdict) : Bool := v.errors.isEmpty

/-- Whether there is any warning. -/
def hasWarnings (v : Verdict) : Bool := !v.warnings.isEmpty

end Verdict

end Wordcode
