/-
# Policies — what the verifier insists on

Two of the verifier's checks can be switched, and the length of the stream can
be limited.  A policy is well formed if its limit is at least one and no larger
than what operands can address; `make` builds only such policies, `validate`
tells why another is not one.
-/
import Wordcode.Function

namespace Wordcode

/-- Which of the optional checks the verifier runs, and the longest stream it
accepts. -/
structure Policy where
  /-- Whether forward markers must stand after the jumps that name them, and
  loop markers before. -/
  checkDirection : Bool
  /-- Whether running past the end is an error; otherwise it is a warning. -/
  requireTerminator : Bool
  /-- The longest accepted stream. -/
  maxInstructions : Nat
deriving DecidableEq

/-- Why a policy is not well formed. -/
inductive PolicyError where
  | zeroLimit
  | limitTooLarge
deriving DecidableEq

/-- The error as it is reported. -/
def PolicyError.message : PolicyError → String
  | .zeroLimit => "instruction limit must be at least 1"
  | .limitTooLarge => s!"instruction limit must not exceed {capacity}"

namespace Policy

/-- Directions are checked, a missing terminator is a warning. -/
def standard : Policy := ⟨true, false, capacity⟩

/-- Everything is checked. -/
def strict : Policy := ⟨true, true, capacity⟩

/-- Only what cannot be switched off is checked. -/
def permissive : Policy := ⟨false, false, capacity⟩

/-- The policy with the given parts, if it is well formed. -/
def make (checkDirection requireTerminator : Bool) (maxInstructions : Nat) :
    Except PolicyError Policy :=
  if maxInstructions = 0 then .error .zeroLimit
  else if capacity < maxInstructions then .error .limitTooLarge
  else .ok ⟨checkDirection, requireTerminator, maxInstructions⟩

/-- Whether a policy is well formed, and if not, why. -/
def validate (p : Policy) : Except PolicyError Unit :=
  (make p.checkDirection p.requireTerminator p.maxInstructions).map fun _ => ()

/-- The policy as it is displayed. -/
def text (p : Policy) : String :=
  s!"direction={p.checkDirection} terminator={p.requireTerminator} "
    ++ s!"max_instructions={p.maxInstructions}"

end Policy

end Wordcode
