/-
# Control flow — where a function can go

What happens after an instruction depends on the role of its opcode alone.  A
terminal instruction has nothing after it and an unconditional jump only its
target; every other instruction may go on to the next one, and a conditional
jump or a `jfor` may instead go to the instruction that it names.

`Goes` is one step of this and `Reaches` any number of them.  Neither asks for
the place it goes to to exist: that a verified function never leaves its stream
is something to prove, not a part of the definition.
-/
import Wordcode.Function

namespace Wordcode

/-- The indices that control can go on to from an instruction at `pos`. -/
def Instruction.successors (i : Instruction) (pos : Nat) : List Nat :=
  match i.opcode.role with
  | .terminal => []
  | .branch .unconditional => i.targets
  | _ => (pos + 1) :: i.targets

namespace Function

/-- Control can go from one index to another in one step. -/
def Goes (f : Function) (p q : Nat) : Prop :=
  ∃ i, f.code[p]? = some i ∧ q ∈ i.successors p

/-- Control can go from one index to another in some number of steps. -/
inductive Reaches (f : Function) (p : Nat) : Nat → Prop
  | refl : Reaches f p p
  | step {q r : Nat} : Reaches f p q → f.Goes q r → Reaches f p r

/-- Control stops at an index for good: there is an instruction, and nothing
after it. -/
def Stops (f : Function) (p : Nat) : Prop :=
  ∃ i, f.code[p]? = some i ∧ i.successors p = []

end Function

end Wordcode
