/-
# Slots — which operands name what

The catalog gives every slot a kind; here the kinds that the verifier looks at
are turned into opcodes and slots.  Three opcodes jump, one more has an exit,
and three load something that has to be in range.  Everything that is proved
of checked functions goes through these few facts and not through the catalog.
-/
import Wordcode.ControlFlow
import Wordcode.Verify

namespace Wordcode

/-! ## Opcodes -/

namespace Opcode

variable {op : Opcode} {slot : Nat}

/-- Where the catalog has a kind of operand, checked row by row. -/
theorem slot_iff {kind : OperandKind} {places : List (Opcode × Nat)}
    (hplaces : ∀ place ∈ places, place.2 < 3)
    (hall : ∀ op ∈ all, ∀ slot < 3, op.operandKinds[slot]? = some kind ↔ (op, slot) ∈ places) :
    op.operandKinds[slot]? = some kind ↔ (op, slot) ∈ places := by
  constructor
  · intro h
    obtain ⟨hslot, _⟩ := List.getElem?_eq_some_iff.mp h
    exact (hall op op.mem_all slot (Nat.lt_of_lt_of_le hslot op.arity_le_three)).mp h
  · intro h
    exact (hall op op.mem_all slot (hplaces _ h)).mpr h

theorem target_slot_iff : op.operandKinds[slot]? = some .target ↔
    (op, slot) ∈ [(.jump, 0), (.jt, 1), (.jf, 1), (jfor, 2)] :=
  slot_iff (by decide) (by decide +kernel)

theorem intConst_slot_iff : op.operandKinds[slot]? = some .intConst ↔
    (op, slot) ∈ [(intk, 0)] :=
  slot_iff (by decide) (by decide +kernel)

theorem strConst_slot_iff : op.operandKinds[slot]? = some .strConst ↔
    (op, slot) ∈ [(strk, 0)] :=
  slot_iff (by decide) (by decide +kernel)

theorem literal_slot_iff : op.operandKinds[slot]? = some .literal ↔
    (op, slot) ∈ [(boolk, 0)] :=
  slot_iff (by decide) (by decide +kernel)

theorem marker?_eq_some_iff {kind : Marker} : op.marker? = some kind ↔ op = kind.opcode := by
  cases kind <;> cases op <;> decide

theorem branch?_eq_some_iff {branch : Branch} : op.branch? = some branch ↔
    op = .jump ∧ branch = .unconditional ∨ (op = .jt ∨ op = .jf) ∧ branch = .conditional := by
  cases branch <;> cases op <;> decide

theorem endsBlock_iff : op.endsBlock ↔ op = .jump ∨ op = .ret ∨ op = .retv ∨ op = .tcall := by
  cases op <;> decide

end Opcode

/-! ## Instructions -/

namespace Instruction

/-- The target of a jump. -/
def jumpTarget? (i : Instruction) : Option Operand :=
  match i.opcode with
  | .jump => i.operand? 0
  | .jt | .jf => i.operand? 1
  | _ => none

/-- The exit of a for-loop. -/
def exit? (i : Instruction) : Option Operand :=
  match i.opcode with
  | .jfor => i.operand? 2
  | _ => none

variable {i : Instruction} {a : Operand}

theorem mem_typedOperands_iff {kind : OperandKind} : (kind, a) ∈ i.typedOperands ↔
    ∃ slot, i.opcode.operandKinds[slot]? = some kind ∧ i.operand? slot = some a := by
  rw [typedOperands, List.mem_iff_getElem?]
  simp only [List.getElem?_zip_eq_some]
  rfl

theorem jumpTarget?_eq_some_iff : i.jumpTarget? = some a ↔
    i.opcode = .jump ∧ i.operand? 0 = some a
      ∨ (i.opcode = .jt ∨ i.opcode = .jf) ∧ i.operand? 1 = some a := by
  unfold jumpTarget?
  split <;> simp_all

theorem exit?_eq_some_iff :
    i.exit? = some a ↔ i.opcode = .jfor ∧ i.operand? 2 = some a := by
  unfold exit?
  split <;> simp_all

/-- A target is named by a jump or by a for-loop. -/
theorem mem_typedOperands_target_iff :
    (.target, a) ∈ i.typedOperands ↔ i.jumpTarget? = some a ∨ i.exit? = some a := by
  simp only [mem_typedOperands_iff, Opcode.target_slot_iff, jumpTarget?_eq_some_iff,
    exit?_eq_some_iff, List.mem_cons, List.not_mem_nil, or_false, Prod.mk.injEq]
  constructor
  · rintro ⟨slot, ⟨hop, rfl⟩ | ⟨hop, rfl⟩ | ⟨hop, rfl⟩ | ⟨hop, rfl⟩, ha⟩
    · exact .inl (.inl ⟨hop, ha⟩)
    · exact .inl (.inr ⟨.inl hop, ha⟩)
    · exact .inl (.inr ⟨.inr hop, ha⟩)
    · exact .inr ⟨hop, ha⟩
  · rintro ((⟨hop, ha⟩ | ⟨hop | hop, ha⟩) | ⟨hop, ha⟩)
    · exact ⟨0, .inl ⟨hop, rfl⟩, ha⟩
    · exact ⟨1, .inr (.inl ⟨hop, rfl⟩), ha⟩
    · exact ⟨1, .inr (.inr (.inl ⟨hop, rfl⟩)), ha⟩
    · exact ⟨2, .inr (.inr (.inr ⟨hop, rfl⟩)), ha⟩

theorem mem_typedOperands_of_slot_iff {kind : OperandKind} {op : Opcode}
    (hkind : ∀ slot, i.opcode.operandKinds[slot]? = some kind ↔ (i.opcode, slot) ∈ [(op, 0)]) :
    (kind, a) ∈ i.typedOperands ↔ i.opcode = op ∧ i.operand? 0 = some a := by
  simp only [mem_typedOperands_iff, hkind, List.mem_singleton, Prod.mk.injEq]
  constructor
  · rintro ⟨slot, ⟨hop, rfl⟩, ha⟩
    exact ⟨hop, ha⟩
  · rintro ⟨hop, ha⟩
    exact ⟨0, ⟨hop, rfl⟩, ha⟩

theorem mem_typedOperands_intConst_iff :
    (.intConst, a) ∈ i.typedOperands ↔ i.opcode = .intk ∧ i.operand? 0 = some a :=
  mem_typedOperands_of_slot_iff fun _ => Opcode.intConst_slot_iff

theorem mem_typedOperands_strConst_iff :
    (.strConst, a) ∈ i.typedOperands ↔ i.opcode = .strk ∧ i.operand? 0 = some a :=
  mem_typedOperands_of_slot_iff fun _ => Opcode.strConst_slot_iff

theorem mem_typedOperands_literal_iff :
    (.literal, a) ∈ i.typedOperands ↔ i.opcode = .boolk ∧ i.operand? 0 = some a :=
  mem_typedOperands_of_slot_iff fun _ => Opcode.literal_slot_iff

theorem mem_targets_iff {target : Nat} : target ∈ i.targets ↔
    ∃ a, (i.jumpTarget? = some a ∨ i.exit? = some a) ∧ target = a.toNat := by
  simp only [← mem_typedOperands_target_iff]
  rw [targets, List.mem_filterMap]
  constructor
  · rintro ⟨⟨kind, a⟩, ha, hkind⟩
    cases kind with
    | target => exact ⟨a, ha, (Option.some.inj hkind).symm⟩
    | value | intConst | strConst | typeConst | literal => cases hkind
  · rintro ⟨a, ha, rfl⟩
    exact ⟨(.target, a), ha, rfl⟩

/-- A jump names exactly one instruction. -/
theorem exists_jumpTarget (h : i.opcode = .jump) : ∃ a, i.jumpTarget? = some a := by
  have hlength : 0 < i.operands.length := by
    rw [i.length_operands, h]
    decide
  exact ⟨i.operands[0], jumpTarget?_eq_some_iff.mpr
    (.inl ⟨h, List.getElem?_eq_getElem hlength⟩)⟩

/-! ## Control flow -/

/-- An instruction that names another one does not leave the function. -/
theorem isTerminal_eq_false (h : i.jumpTarget? = some a ∨ i.exit? = some a) :
    i.opcode.isTerminal = false := by
  rw [jumpTarget?_eq_some_iff, exit?_eq_some_iff] at h
  rcases h with (⟨hop, _⟩ | ⟨hop | hop, _⟩) | ⟨hop, _⟩
  all_goals
    rw [hop]
    rfl

theorem mem_successors_iff {pos q : Nat} : q ∈ i.successors pos ↔
    ¬ i.opcode.endsBlock ∧ q = pos + 1
      ∨ ∃ a, (i.jumpTarget? = some a ∨ i.exit? = some a) ∧ q = a.toNat := by
  rw [← mem_targets_iff]
  unfold successors
  split
  · next hrole =>
      have hterminal : i.opcode.isTerminal := by
        rw [Opcode.isTerminal, hrole]
        rfl
      have htargets : i.targets = [] := by
        rw [List.eq_nil_iff_forall_not_mem]
        intro target htarget
        obtain ⟨a, ha, _⟩ := mem_targets_iff.mp htarget
        rw [isTerminal_eq_false ha] at hterminal
        cases hterminal
      simp [htargets, Opcode.endsBlock, hterminal]
  · next hrole => simp [Opcode.endsBlock, hrole]
  · next hterminal hjump =>
      have hends : i.opcode.endsBlock = false := by
        simp only [Opcode.endsBlock, Opcode.isTerminal, Bool.or_eq_false_iff,
          beq_eq_false_iff_ne]
        exact ⟨hterminal, hjump⟩
      simp [hends]

theorem successors_eq_nil_iff {pos : Nat} : i.successors pos = [] ↔
    i.opcode = .ret ∨ i.opcode = .retv ∨ i.opcode = .tcall := by
  rw [List.eq_nil_iff_forall_not_mem]
  constructor
  · intro hnone
    have hends : i.opcode.endsBlock := by
      refine Decidable.byContradiction fun hnext => ?_
      exact hnone (pos + 1) (mem_successors_iff.mpr (.inl ⟨hnext, rfl⟩))
    refine (Opcode.endsBlock_iff.mp hends).resolve_left fun hjump => ?_
    obtain ⟨a, ha⟩ := exists_jumpTarget hjump
    exact hnone a.toNat (mem_successors_iff.mpr (.inr ⟨a, .inl ha, rfl⟩))
  · intro hop q hq
    rcases mem_successors_iff.mp hq with ⟨hnext, _⟩ | ⟨a, ha, _⟩
    · exact hnext (Opcode.endsBlock_iff.mpr (.inr hop))
    · have hterminal : i.opcode.isTerminal := by
        rcases hop with hop | hop | hop
        all_goals
          rw [hop]
          rfl
      rw [isTerminal_eq_false ha] at hterminal
      cases hterminal

end Instruction

end Wordcode
