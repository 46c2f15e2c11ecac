/-
# Unchecked operands — what a verdict cannot depend on

References to values and to types are not checked, and of a pool only its size
is.  Two functions that differ in nothing else (`Agrees`) get the same verdict:
the same violations with the same data in them, and the same warnings, in the
same order.

The two functions are compared list by list.  What a verdict is made of goes
through the instructions and, within one, through its operands; agreeing lists
yield the same if agreeing elements do.
-/
import Wordcode.Proofs.Traversal
import Wordcode.Verify

namespace Wordcode

/-- Whether the verifier looks at operands of a kind. -/
def OperandKind.isChecked : OperandKind → Bool
  | .target | .intConst | .strConst | .literal => true
  | .value | .typeConst => false

/-- Two instructions are of one opcode and have the same operands in the slots
that are checked. -/
structure Instruction.Agrees (i j : Instruction) : Prop where
  opcode : i.opcode = j.opcode
  operand : ∀ slot kind, i.opcode.operandKinds[slot]? = some kind → kind.isChecked →
    i.operand? slot = j.operand? slot

/-- Two functions have pools of the same sizes, and instructions that agree one
by one. -/
structure Function.Agrees (f g : Function) : Prop where
  ints : f.ints.size = g.ints.size
  strs : f.strs.size = g.strs.size
  code : List.Forall₂ Instruction.Agrees f.code.toList g.code.toList

/-! ## Operands -/

/-- Two operands are read in the same way and, if that is checked, the same. -/
def AgreeingOperands (x y : OperandKind × Operand) : Prop :=
  x.1 = y.1 ∧ (x.1.isChecked → x.2 = y.2)

namespace Instruction.Agrees

variable {i j : Instruction}

theorem refl (i : Instruction) : i.Agrees i := ⟨rfl, fun _ _ _ _ => rfl⟩

theorem forall₂_typedOperands (h : i.Agrees j) :
    List.Forall₂ AgreeingOperands i.typedOperands j.typedOperands := by
  have hlength : j.operands.length = i.operands.length := by
    rw [i.length_operands, j.length_operands, h.opcode]
  refine List.forall₂_iff_get.mpr ⟨?_, fun slot hslot hslot' => ?_⟩
  · simp only [typedOperands, List.length_zip, h.opcode, hlength]
  · rw [typedOperands, List.length_zip, Nat.lt_min] at hslot
    have hslot' : slot < j.operands.length := hlength ▸ hslot.2
    simp only [typedOperands, List.get_eq_getElem, List.getElem_zip, ← h.opcode]
    refine ⟨rfl, fun hchecked => ?_⟩
    have hoperand := h.operand slot _ (List.getElem?_eq_getElem hslot.1) hchecked
    rw [operand?, operand?, List.getElem?_eq_getElem hslot.2, List.getElem?_eq_getElem hslot',
      Option.some.injEq] at hoperand
    exact hoperand

theorem targets_eq (h : i.Agrees j) : i.targets = j.targets := by
  refine filterMap_eq_filterMap_of_forall₂ h.forall₂_typedOperands ?_
  rintro ⟨kind, a⟩ ⟨_, b⟩ ⟨rfl, hab⟩
  cases kind with
  | target =>
      cases (hab rfl : a = b)
      rfl
  | value | intConst | strConst | typeConst | literal => rfl

end Instruction.Agrees

namespace Function.Agrees

variable {f g : Function} {p : Policy} {pos : Nat}

theorem length_eq (h : f.Agrees g) : f.length = g.length := h.code.length_eq

theorem rel_getElem? (h : f.Agrees g) (pos : Nat) :
    Option.Rel Instruction.Agrees f.code[pos]? g.code[pos]? := by
  have hrel := forall₂_iff_getElem?.mp h.code pos
  rwa [Array.getElem?_toList, Array.getElem?_toList] at hrel

/-! ## Violations -/

theorem branchViolations_eq (h : f.Agrees g) (op : Opcode) (branch : Branch) (target : Operand) :
    f.branchViolations p pos op branch target = g.branchViolations p pos op branch target := by
  have hfound := h.rel_getElem? target.toNat
  unfold branchViolations
  generalize f.code[target.toNat]? = found, g.code[target.toNat]? = found' at hfound
  cases hfound with
  | none => simp only [h.length_eq]
  | some hij => simp only [hij.opcode]

theorem operandViolations_eq (h : f.Agrees g) (op : Opcode) {x y : OperandKind × Operand}
    (hxy : AgreeingOperands x y) :
    f.operandViolations p pos op x = g.operandViolations p pos op y := by
  obtain ⟨kind, a⟩ := x
  obtain ⟨_, b⟩ := y
  obtain ⟨rfl, hab⟩ := hxy
  cases kind with
  | target =>
      cases (hab rfl : a = b)
      cases hbranch : op.branch? with
      | none => simp only [operandViolations, hbranch, h.length_eq]
      | some branch => simp only [operandViolations, hbranch, h.branchViolations_eq]
  | intConst =>
      cases (hab rfl : a = b)
      simp only [operandViolations, h.ints]
  | strConst =>
      cases (hab rfl : a = b)
      simp only [operandViolations, h.strs]
  | literal =>
      cases (hab rfl : a = b)
      rfl
  | value | typeConst => rfl

theorem codeViolations_eq (h : f.Agrees g) : f.codeViolations p = g.codeViolations p := by
  refine flatMap_eq_flatMap_of_forall₂ (forall₂_zipIdx_of_forall₂ h.code 0) ?_
  rintro ⟨i, pos⟩ ⟨j, _⟩ ⟨hij, rfl⟩
  refine flatMap_eq_flatMap_of_forall₂ hij.forall₂_typedOperands fun x y hxy => ?_
  rw [hij.opcode]
  exact h.operandViolations_eq _ hxy

/-! ## Markers -/

theorem namedFlags_eq (h : f.Agrees g) : f.namedFlags = g.namedFlags := by
  have htargets := flatMap_eq_flatMap_of_forall₂ h.code fun _ _ hij => hij.targets_eq
  simp only [namedFlags, htargets, h.length_eq]

theorem unreferencedMarkers_eq (h : f.Agrees g) :
    f.unreferencedMarkers = g.unreferencedMarkers := by
  refine filterMap_eq_filterMap_of_forall₂ (forall₂_zipIdx_of_forall₂ h.code 0) ?_
  rintro ⟨i, pos⟩ ⟨j, _⟩ ⟨hij, rfl⟩
  have hopcode : i.opcode = j.opcode := hij.opcode
  simp only [hopcode, h.namedFlags_eq]

/-! ## The verdict -/

theorem isTerminated_eq (h : f.Agrees g) : f.isTerminated = g.isTerminated := by
  have hsize : f.code.size = g.code.size := h.length_eq
  have hlast := h.rel_getElem? (g.code.size - 1)
  unfold isTerminated
  rw [Array.back?_eq_getElem?, Array.back?_eq_getElem?, hsize]
  generalize f.code[g.code.size - 1]? = last, g.code[g.code.size - 1]? = last' at hlast
  cases hlast with
  | none => rfl
  | some hij => simp only [Option.any_some, hij.opcode]

end Function.Agrees

namespace Function

/-- Functions that differ in nothing that is checked get the same verdict by
every policy. -/
theorem verify_eq_of_agrees (f g : Function) (h : f.Agrees g) (p : Policy) :
    f.verify p = g.verify p := by
  simp only [verify, h.length_eq, h.isTerminated_eq, h.codeViolations_eq, h.unreferencedMarkers_eq]

/-- Two functions with other counts, another constant and other references to
values and types, but the same faults: a jump that closes a loop on a condition
and a literal that is no boolean. -/
theorem verify_eq_of_agrees_conditional_loop :
    let f : Function := ⟨1, 0, #[3], #[], #[⟨.jloop, [], rfl⟩, ⟨.atype, [4, 5], rfl⟩,
      ⟨.boolk, [2], rfl⟩, ⟨.jt, [6, 0], rfl⟩]⟩
    let g : Function := ⟨2, 7, #[9], #[], #[⟨.jloop, [], rfl⟩, ⟨.atype, [0, 1], rfl⟩,
      ⟨.boolk, [2], rfl⟩, ⟨.jt, [8, 0], rfl⟩]⟩
    f.Agrees g ∧ (f.verify .strict).errors
          = [.notABool 2 2, .illegalMarker 3 .jt .loop, .missingTerminator]
      ∧ f.verify .strict = g.verify .strict := by
  intro f g
  have htype : Instruction.Agrees ⟨.atype, [4, 5], rfl⟩ ⟨.atype, [0, 1], rfl⟩ := by
    refine ⟨rfl, ?_⟩
    rintro (_ | _ | slot) kind hkind hchecked
    · cases hkind
      cases hchecked
    · cases hkind
      cases hchecked
    · cases hkind
  have hjump : Instruction.Agrees ⟨.jt, [6, 0], rfl⟩ ⟨.jt, [8, 0], rfl⟩ := by
    refine ⟨rfl, ?_⟩
    rintro (_ | _ | slot) kind hkind hchecked
    · cases hkind
      cases hchecked
    · rfl
    · cases hkind
  have hfg : f.Agrees g :=
    ⟨rfl, rfl, .cons (.refl _) (.cons htype (.cons (.refl _) (.cons hjump .nil)))⟩
  exact ⟨hfg, by decide, verify_eq_of_agrees f g hfg .strict⟩

end Function

end Wordcode
