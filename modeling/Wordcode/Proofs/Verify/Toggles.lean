/-
# Toggles — what the switches of a policy change

A policy can switch two of the checks.  Without the check of directions the
violations of direction are missing from the errors and nothing else changes:
a jump that breaks a rule names its marker all the same, so the warnings do not
depend on which rules are checked.  Where a terminator is required, one finding
moves from the end of the warnings to the end of the errors (`Tightens`).

So a function that passes a policy passes the laxer ones (`isValid_of_checkDirection`,
`Tightens.isValid`).
-/
import Wordcode.Proofs.Verify.Report

namespace Wordcode

/-- Whether a marker stands on the wrong side of a jump. -/
def Violation.isWrongDirection : Violation → Bool
  | .wrongDirection .. => true
  | _ => false

namespace Verdict

/-- What requiring a terminator makes of a verdict.  A missing terminator moves
from the end of the warnings to the end of the errors; if none is missing, the
verdict is the same. -/
inductive Tightens : Verdict → Verdict → Prop where
  | terminated {v : Verdict} :
      .missingTerminator ∉ v.errors → .missingTerminator ∉ v.warnings → Tightens v v
  | unterminated {errors : List Violation} {warnings : List Warning} :
      .missingTerminator ∉ errors → .missingTerminator ∉ warnings →
      Tightens ⟨errors, warnings ++ [.missingTerminator]⟩ ⟨errors ++ [.missingTerminator], warnings⟩

theorem Tightens.isValid {v w : Verdict} (h : v.Tightens w) (hvalid : w.isValid) : v.isValid := by
  cases h with
  | terminated => exact hvalid
  | unterminated =>
      rw [Verdict.isValid, List.isEmpty_iff] at hvalid
      cases (List.append_eq_nil_iff.mp hvalid).2

end Verdict

namespace Function

variable {f : Function} {p : Policy} {pos : Nat}

/-! ## Directions -/

theorem filter_ite_singleton {c : Prop} [Decidable c] {v : Violation}
    (hv : v.isWrongDirection = false) :
    (if c then [] else [v]).filter (fun v => !v.isWrongDirection) = if c then [] else [v] := by
  split
  · rfl
  · rw [List.filter_cons_of_pos (by rw [hv]; rfl), List.filter_nil]

theorem filter_branchViolations {op : Opcode} {branch : Branch} {target : Operand} :
    (f.branchViolations { p with checkDirection := true } pos op branch target).filter
        (fun v => !v.isWrongDirection)
      = f.branchViolations { p with checkDirection := false } pos op branch target := by
  unfold branchViolations
  split
  · rfl
  · split
    · rfl
    · next kind _ =>
        rw [List.filter_append, filter_ite_singleton rfl]
        congr 1
        -- the marker may stand on either side, and nothing of this list is left
        cases decide (target.toNat < pos) <;> cases kind.isBackward <;> rfl

theorem filter_operandViolations {op : Opcode} {operand : OperandKind × Operand} :
    (f.operandViolations { p with checkDirection := true } pos op operand).filter
        (fun v => !v.isWrongDirection)
      = f.operandViolations { p with checkDirection := false } pos op operand := by
  unfold operandViolations
  split
  · split
    · exact filter_branchViolations
    · exact filter_ite_singleton rfl
  · exact filter_ite_singleton rfl
  · exact filter_ite_singleton rfl
  · exact filter_ite_singleton rfl
  · rfl
  · rfl

theorem filter_codeViolations :
    (f.codeViolations { p with checkDirection := true }).filter (fun v => !v.isWrongDirection)
      = f.codeViolations { p with checkDirection := false } := by
  simp only [codeViolations, instructionViolations, List.filter_flatMap, filter_operandViolations]

theorem filter_errors (hlength : f.length ≤ p.maxInstructions) :
    (f.verify { p with checkDirection := true }).errors.filter (fun v => !v.isWrongDirection)
      = (f.verify { p with checkDirection := false }).errors := by
  have hchecked := errors_verify (f := f) (p := { p with checkDirection := true }) hlength
  have hunchecked := errors_verify (f := f) (p := { p with checkDirection := false }) hlength
  rw [hchecked, hunchecked, List.filter_append, filter_codeViolations]
  congr 1
  -- a missing terminator is no violation of direction
  split <;> rfl

theorem warnings_checkDirection (hlength : f.length ≤ p.maxInstructions) :
    (f.verify { p with checkDirection := false }).warnings
      = (f.verify { p with checkDirection := true }).warnings := by
  have hchecked := warnings_verify (f := f) (p := { p with checkDirection := true }) hlength
  have hunchecked := warnings_verify (f := f) (p := { p with checkDirection := false }) hlength
  rw [hchecked, hunchecked]

/-! ## Terminators -/

theorem missingTerminator_not_mem_codeViolations : .missingTerminator ∉ f.codeViolations p := by
  intro h
  obtain ⟨pos, i, _, operand, _, hv⟩ := mem_codeViolations_iff.mp h
  cases position?_of_mem_operandViolations hv

theorem missingTerminator_not_mem_map (markers : List Nat) :
    .missingTerminator ∉ markers.map Warning.unreferencedTarget := by
  intro h
  obtain ⟨_, _, hmarker⟩ := List.mem_map.mp h
  cases hmarker

theorem tightens_verify (hlength : f.length ≤ p.maxInstructions) :
    (f.verify { p with requireTerminator := false }).Tightens
      (f.verify { p with requireTerminator := true }) := by
  have hnot : ¬ p.maxInstructions < f.length := Nat.not_lt.mpr hlength
  have herrors : .missingTerminator ∉ f.codeViolations p := missingTerminator_not_mem_codeViolations
  have hwarnings := missingTerminator_not_mem_map f.unreferencedMarkers
  unfold verify
  rw [if_neg hnot, if_neg hnot]
  cases f.isTerminated with
  | true => exact .terminated herrors hwarnings
  | false => exact .unterminated herrors hwarnings

/-! ## Validity -/

theorem isValid_of_checkDirection (hvalid : (f.verify { p with checkDirection := true }).isValid) :
    (f.verify { p with checkDirection := false }).isValid := by
  have hlength : f.length ≤ p.maxInstructions :=
    length_le_of_isValid (p := { p with checkDirection := true }) hvalid
  rw [Verdict.isValid, List.isEmpty_iff] at hvalid ⊢
  rw [← filter_errors hlength, hvalid, List.filter_nil]

/-- For a stream that is not too long, switching off the check of directions
takes the violations of direction out of the errors, in place, and leaves the
warnings; and requiring a terminator moves at most one finding.  For one that
is too long no toggle matters.  So a function that is valid where everything is
checked is valid by the standard policy, and then by the permissive one. -/
theorem verify_toggles (f : Function) (p : Policy) :
    (f.length ≤ p.maxInstructions →
        (f.verify { p with checkDirection := false }).errors
            = (f.verify { p with checkDirection := true }).errors.filter
                (fun v => !v.isWrongDirection)
          ∧ (f.verify { p with checkDirection := false }).warnings
            = (f.verify { p with checkDirection := true }).warnings
          ∧ (f.verify { p with requireTerminator := false }).Tightens
              (f.verify { p with requireTerminator := true }))
      ∧ (p.maxInstructions < f.length → ∀ checkDirection requireTerminator : Bool,
          f.verify { p with checkDirection, requireTerminator } = f.verify p)
      ∧ ((f.verify .strict).isValid → (f.verify .standard).isValid)
      ∧ ((f.verify .standard).isValid → (f.verify .permissive).isValid) := by
  refine ⟨fun hlength => ?_, fun hlong _ _ => ?_, fun hvalid => ?_, fun hvalid => ?_⟩
  · exact ⟨(filter_errors hlength).symm, warnings_checkDirection hlength, tightens_verify hlength⟩
  · rw [verify_of_tooLong hlong]
    exact verify_of_tooLong hlong
  · have hlength : f.length ≤ Policy.strict.maxInstructions := length_le_of_isValid hvalid
    exact (tightens_verify (p := .strict) hlength).isValid hvalid
  · exact isValid_of_checkDirection (p := .standard) hvalid

/-- A jump goes back to a forward marker and the last instruction is run past:
one violation goes with the check of directions, the other is a warning by the
standard policy.  A limit of two is too short for the function, and a function
that only returns passes every policy. -/
theorem verify_toggles_backward_skip :
    let f : Function := ⟨0, 0, #[], #[], #[⟨.jtarg, [], rfl⟩, ⟨.jump, [0], rfl⟩, ⟨.nop, [], rfl⟩]⟩
    let g : Function := ⟨0, 0, #[], #[], #[⟨.retv, [], rfl⟩]⟩
    let limited : Policy := ⟨true, true, 2⟩
    (f.length ≤ Policy.strict.maxInstructions
        ∧ (f.verify .strict).errors = [.wrongDirection 1 0 .forward, .missingTerminator]
        ∧ (f.verify { Policy.strict with checkDirection := false }).errors = [.missingTerminator]
        ∧ (f.verify .standard).Tightens (f.verify .strict))
      ∧ (limited.maxInstructions < f.length ∧ f.verify ⟨false, false, 2⟩ = f.verify limited)
      ∧ (g.verify .strict).isValid ∧ (g.verify .standard).isValid ∧ (g.verify .permissive).isValid := by
  intro f g limited
  have hlength : f.length ≤ Policy.strict.maxInstructions := by decide
  have hlong : limited.maxInstructions < f.length := by decide
  have hstrict : (f.verify .strict).errors = [.wrongDirection 1 0 .forward, .missingTerminator] := by
    decide
  obtain ⟨herrors, _, htightens⟩ := (verify_toggles f .strict).1 hlength
  obtain ⟨_, _, hstandard, hpermissive⟩ := verify_toggles g .strict
  have hvalid : (g.verify .strict).isValid := by decide
  refine ⟨⟨hlength, hstrict, ?_, htightens⟩, ⟨hlong, ?_⟩, hvalid, hstandard hvalid,
    hpermissive (hstandard hvalid)⟩
  · exact herrors.trans (congrArg (List.filter fun v => !v.isWrongDirection) hstrict)
  · exact (verify_toggles f limited).2.1 hlong false false

end Function

end Wordcode
