/-
# Report — in which order, and what is only warned about

The verifier goes through the instructions once, so what it reports is in the
order of the instructions.  The markers that it warns about are those that no
instruction names: the table of flags that it fills on the way holds exactly
what is named (`getD_namedFlags_iff`).
-/
import Wordcode.Proofs.Traversal
import Wordcode.Proofs.Verify.Rules

namespace Wordcode

/-- The marker that a warning is about. -/
def Warning.position? : Warning → Option Nat
  | .missingTerminator => none
  | .unreferencedTarget pos => some pos

namespace Function

variable {f : Function} {p : Policy} {pos : Nat} {v : Violation}

/-! ## The order of violations -/

theorem position?_of_mem_branchViolations {op : Opcode} {branch : Branch} {target : Operand}
    (h : v ∈ f.branchViolations p pos op branch target) : v.position? = some pos := by
  rcases mem_branchViolations_iff.mp h with ⟨_, rfl⟩ | ⟨_, _, _, rfl⟩ |
    ⟨_, _, ⟨_, rfl⟩ | ⟨_, _, rfl⟩⟩
  all_goals rfl

theorem position?_of_mem_operandViolations {op : Opcode} {operand : OperandKind × Operand}
    (h : v ∈ f.operandViolations p pos op operand) : v.position? = some pos := by
  unfold operandViolations at h
  split at h
  · split at h
    · exact position?_of_mem_branchViolations h
    · obtain ⟨_, rfl⟩ := mem_ite_singleton_iff.mp h
      rfl
  · obtain ⟨_, rfl⟩ := mem_ite_singleton_iff.mp h
    rfl
  · obtain ⟨_, rfl⟩ := mem_ite_singleton_iff.mp h
    rfl
  · obtain ⟨_, rfl⟩ := mem_ite_singleton_iff.mp h
    rfl
  · cases h
  · cases h

/-- The violations of an instruction blame it. -/
theorem position?_of_mem_instructionViolations {i : Instruction}
    (h : v ∈ f.instructionViolations p pos i) : v.position? = some pos := by
  obtain ⟨operand, _, hv⟩ := List.mem_flatMap.mp h
  exact position?_of_mem_operandViolations hv

theorem pairwise_codeViolations :
    ((f.codeViolations p).filterMap Violation.position?).Pairwise (· ≤ ·) := by
  rw [List.pairwise_filterMap, codeViolations, List.pairwise_flatMap]
  constructor
  · rintro ⟨i, pos⟩ _
    refine List.pairwise_of_forall_mem_list fun v hv w hw a ha b hb => ?_
    rw [position?_of_mem_instructionViolations hv] at ha
    rw [position?_of_mem_instructionViolations hw] at hb
    cases ha
    cases hb
    exact Nat.le_refl _
  · refine (pairwise_zipIdx f.code.toList).imp ?_
    rintro ⟨i, pos⟩ ⟨j, pos'⟩ hlt v hv w hw a ha b hb
    rw [position?_of_mem_instructionViolations hv] at ha
    rw [position?_of_mem_instructionViolations hw] at hb
    cases ha
    cases hb
    exact Nat.le_of_lt hlt

theorem pairwise_errors (hlength : f.length ≤ p.maxInstructions) :
    ((f.verify p).errors.filterMap Violation.position?).Pairwise (· ≤ ·) := by
  rw [errors_verify hlength, List.filterMap_append]
  split
  · exact (List.append_nil _).symm ▸ pairwise_codeViolations
  · exact (List.append_nil _).symm ▸ pairwise_codeViolations

/-! ## Named instructions -/

/-- An instruction is named by a jump or by a for-loop. -/
def Names (f : Function) (pos : Nat) : Prop :=
  ∃ (k : Nat) (i : Instruction) (target : Operand), f.code[k]? = some i
    ∧ (i.jumpTarget? = some target ∨ i.exit? = some target) ∧ target.toNat = pos

theorem getD_setIfInBounds {flags : Array Bool} {target : Nat} :
    (flags.setIfInBounds target true).getD pos false
      ↔ flags.getD pos false ∨ pos < flags.size ∧ pos = target := by
  rw [Array.getD_eq_getD_getElem?, Array.getD_eq_getD_getElem?, Array.getElem?_setIfInBounds]
  by_cases heq : target = pos
  · subst heq
    by_cases hlt : target < flags.size
    · simp [hlt]
    · simp [hlt]
  · simp [heq, Ne.symm heq]

theorem getD_foldl_setIfInBounds (targets : List Nat) (flags : Array Bool) :
    (targets.foldl (fun flags target => flags.setIfInBounds target true) flags).getD pos false
      ↔ flags.getD pos false ∨ pos < flags.size ∧ pos ∈ targets := by
  -- a flag that is set stays set, so the flags are carried along in any state
  induction targets generalizing flags with
  | nil => simp
  | cons target targets ih =>
      rw [List.foldl_cons, ih, Array.size_setIfInBounds, getD_setIfInBounds, or_assoc,
        ← and_or_left, List.mem_cons]

theorem getD_namedFlags_iff : f.namedFlags.getD pos false ↔ pos < f.length ∧ f.Names pos := by
  rw [namedFlags, getD_foldl_setIfInBounds, Array.size_replicate]
  have hclear : ¬ (Array.replicate f.length false).getD pos false := by
    rw [Array.getD_eq_getD_getElem?, Array.getElem?_replicate]
    split <;> decide
  rw [or_iff_right hclear]
  refine and_congr_right fun _ => ?_
  simp only [List.mem_flatMap, Array.mem_toList_iff, Array.mem_iff_getElem?,
    Instruction.mem_targets_iff]
  constructor
  · rintro ⟨i, ⟨k, hi⟩, target, hnamed, rfl⟩
    exact ⟨k, i, target, hi, hnamed, rfl⟩
  · rintro ⟨k, i, target, hi, hnamed, rfl⟩
    exact ⟨i, ⟨k, hi⟩, target, hnamed, rfl⟩

/-! ## Markers that are not named -/

theorem mem_unreferencedMarkers_iff : pos ∈ f.unreferencedMarkers ↔
    (∃ op, f.opcodeAt? pos = some op ∧ op.IsMarker) ∧ ¬ f.Names pos := by
  simp only [unreferencedMarkers, List.mem_filterMap, Prod.exists, List.mem_zipIdx_iff_getElem?,
    Array.getElem?_toList, opcodeAt?, Option.map_eq_some_iff, ← Opcode.isSome_marker?_iff]
  constructor
  · rintro ⟨i, k, hi, hif⟩
    rw [Option.ite_none_right_eq_some, Bool.and_eq_true, Bool.not_eq_true',
      Bool.eq_false_iff] at hif
    obtain ⟨⟨hmarker, hflag⟩, ⟨⟩⟩ := hif
    obtain ⟨hlt, _⟩ := Array.getElem?_eq_some_iff.mp hi
    exact ⟨⟨i.opcode, ⟨i, hi, rfl⟩, hmarker⟩, fun hnamed =>
      hflag (getD_namedFlags_iff.mpr ⟨hlt, hnamed⟩)⟩
  · rintro ⟨⟨_, ⟨i, hi, rfl⟩, hmarker⟩, hnot⟩
    refine ⟨i, pos, hi, if_pos ?_⟩
    rw [Bool.and_eq_true, Bool.not_eq_true', Bool.eq_false_iff]
    exact ⟨hmarker, fun hflag => hnot (getD_namedFlags_iff.mp hflag).2⟩

theorem pairwise_unreferencedMarkers : f.unreferencedMarkers.Pairwise (· < ·) := by
  rw [unreferencedMarkers, List.pairwise_filterMap]
  refine (pairwise_zipIdx f.code.toList).imp ?_
  rintro ⟨i, pos⟩ ⟨j, pos'⟩ hlt a ha b hb
  rw [Option.ite_none_right_eq_some] at ha hb
  cases ha.2
  cases hb.2
  exact hlt

theorem warnings_verify (hlength : f.length ≤ p.maxInstructions) : (f.verify p).warnings
    = f.unreferencedMarkers.map Warning.unreferencedTarget
      ++ if ¬ p.requireTerminator ∧ ¬ f.isTerminated then [.missingTerminator] else [] := by
  unfold verify
  rw [if_neg (Nat.not_lt.mpr hlength)]
  cases f.isTerminated <;> cases p.requireTerminator <;> simp

theorem position?_warnings (hlength : f.length ≤ p.maxInstructions) :
    (f.verify p).warnings.filterMap Warning.position? = f.unreferencedMarkers := by
  have hmarkers : (f.unreferencedMarkers.map Warning.unreferencedTarget).filterMap Warning.position?
      = f.unreferencedMarkers := by
    rw [List.filterMap_map]
    exact List.filterMap_some
  rw [warnings_verify hlength, List.filterMap_append, hmarkers]
  -- the warning about the end is about no marker
  split <;> exact List.append_nil _

theorem unreferencedTarget_mem_warnings_iff (hlength : f.length ≤ p.maxInstructions) :
    .unreferencedTarget pos ∈ (f.verify p).warnings ↔ pos ∈ f.unreferencedMarkers := by
  rw [← position?_warnings hlength, List.mem_filterMap]
  constructor
  · intro h
    exact ⟨_, h, rfl⟩
  · rintro ⟨w, hw, hpos⟩
    cases w with
    | missingTerminator => cases hpos
    | unreferencedTarget =>
        cases hpos
        exact hw

/-! ## The whole verdict -/

/-- For a stream that is not too long, the verdict is valid exactly if the
function is lawful; each violation in it is one and none is missing; the
violations are in the order of the instructions; and the markers that it warns
about are, in their order and once each, those that no instruction names. -/
theorem verify_iff (f : Function) (p : Policy) (hlength : f.length ≤ p.maxInstructions) :
    ((f.verify p).isValid ↔ f.Lawful p)
      ∧ (∀ v, v ∈ (f.verify p).errors ↔ f.Breaks p v)
      ∧ ((f.verify p).errors.filterMap Violation.position?).Pairwise (· ≤ ·)
      ∧ ((f.verify p).warnings.filterMap Warning.position?).Pairwise (· < ·)
      ∧ ∀ pos, pos ∈ (f.verify p).warnings.filterMap Warning.position? ↔
          (∃ op, f.opcodeAt? pos = some op ∧ op.IsMarker) ∧ ¬ f.Names pos := by
  rw [position?_warnings hlength]
  exact ⟨isValid_iff_lawful hlength, fun _ => mem_errors_iff hlength, pairwise_errors hlength,
    pairwise_unreferencedMarkers, fun _ => mem_unreferencedMarkers_iff⟩

/-- A conditional jump that closes a loop breaks a rule, and yet it names the
marker of the loop. -/
theorem verify_iff_conditional_loop :
    let f : Function := ⟨0, 0, #[], #[], #[⟨.jloop, [], rfl⟩, ⟨.jt, [0, 0], rfl⟩, ⟨.retv, [], rfl⟩]⟩
    f.length ≤ Policy.strict.maxInstructions
      ∧ ¬ f.Lawful .strict ∧ f.Breaks .strict (.illegalMarker 1 .jt .loop) ∧ f.Names 0 := by
  intro f
  have hlength : f.length ≤ Policy.strict.maxInstructions := by decide
  obtain ⟨hvalid, hbreaks, _, _, hwarned⟩ := verify_iff f .strict hlength
  refine ⟨hlength, fun h => absurd (hvalid.mpr h) (by decide), (hbreaks _).mp (by decide), ?_⟩
  by_contra hnot
  exact absurd ((hwarned 0).mpr ⟨⟨.jloop, rfl, .inr (.inl rfl)⟩, hnot⟩) (by decide)

end Function

end Wordcode
