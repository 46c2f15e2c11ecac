/-
# The verifier

An instruction has the right number of operands by its type; the verifier
checks what the operands mean in a function.

* A jump names a marker in range, of a kind that the jump may go to, and (if
  the policy says so) on the right side: forward markers after the jump, loop
  markers before it.
* The exit of a `jfor` is an instruction in range.
* Indices into the pools are in range, and boolean literals are zero or one.
* The last instruction leaves the function or jumps; a policy may make this a
  warning.

References to values and to types are not checked.  Violations come in the
order of the instructions and, within one, in the order of the slots; each is
found from its own operand and the function, so no check hides another.
Markers that no operand names are reported as warnings; a jump that breaks a
rule of kind or direction still names its marker.
-/
import Wordcode.Verify.Policy
import Wordcode.Verify.Verdict

namespace Wordcode

namespace Function

/-! ## Operands -/

/-- The rules that the target of a jump breaks. -/
def branchViolations (f : Function) (p : Policy) (pos : Nat) (op : Opcode) (branch : Branch)
    (target : Operand) : List Violation :=
  match f.code[target.toNat]? with
  | none => [.targetOutOfRange pos target f.length]
  | some found =>
    match found.opcode.marker? with
    | none => [.notAMarker pos target found.opcode]
    | some kind =>
      let backward := decide (target.toNat < pos)
      (if branch.accepts kind then [] else [.illegalMarker pos op kind])
        ++ (if p.checkDirection && backward != kind.isBackward then
              [.wrongDirection pos target kind] else [])

/-- The rules that one operand breaks. -/
def operandViolations (f : Function) (p : Policy) (pos : Nat) (op : Opcode) :
    OperandKind × Operand → List Violation
  | (.target, target) =>
    match op.branch? with
    | some branch => f.branchViolations p pos op branch target
    | none => if target.toNat < f.length then [] else [.targetOutOfRange pos target f.length]
  | (.intConst, index) =>
    if index.toNat < f.ints.size then [] else [.intOutOfRange pos index f.ints.size]
  | (.strConst, index) =>
    if index.toNat < f.strs.size then [] else [.strOutOfRange pos index f.strs.size]
  | (.literal, value) => if op ≠ .boolk ∨ value ≤ 1 then [] else [.notABool pos value]
  | (.value, _) | (.typeConst, _) => []

/-- The rules that one instruction breaks. -/
def instructionViolations (f : Function) (p : Policy) (pos : Nat) (i : Instruction) :
    List Violation :=
  i.typedOperands.flatMap (f.operandViolations p pos i.opcode)

/-- The rules that the instructions of a function break. -/
def codeViolations (f : Function) (p : Policy) : List Violation :=
  f.code.toList.zipIdx.flatMap fun (i, pos) => f.instructionViolations p pos i

/-! ## Markers -/

/-- Which instructions are named, index by index.  Every target in range sets a
flag.  A jump to an instruction that is no marker sets one as well, although it
names no marker; that makes no difference, as only the flags of markers are read. -/
def namedFlags (f : Function) : Array Bool :=
  let named := f.code.toList.flatMap Instruction.targets
  named.foldl (fun flags target => flags.setIfInBounds target true)
    (Array.replicate f.length false)

/-- The markers that no instruction names. -/
def unreferencedMarkers (f : Function) : List Nat :=
  let flags := f.namedFlags
  f.code.toList.zipIdx.filterMap fun (i, pos) =>
    if i.opcode.marker?.isSome && !flags.getD pos false then some pos else none

/-! ## The verdict -/

/-- Whether the last instruction leaves the function or jumps. -/
def isTerminated (f : Function) : Bool := f.code.back?.any fun i => i.opcode.endsBlock

/-- The verdict on a function. -/
def verify (f : Function) (p : Policy) : Verdict :=
  if p.maxInstructions < f.length then
    ⟨[.tooManyInstructions f.length p.maxInstructions], []⟩
  else
    let unreferenced := f.unreferencedMarkers.map Warning.unreferencedTarget
    if f.isTerminated then ⟨f.codeViolations p, unreferenced⟩
    else if p.requireTerminator then ⟨f.codeViolations p ++ [.missingTerminator], unreferenced⟩
    else ⟨f.codeViolations p, unreferenced ++ [.missingTerminator]⟩

end Function

end Wordcode
