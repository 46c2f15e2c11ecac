/-
# Patch — one operand and nothing else

A function is seen here as a table of operands, one row for each instruction
and one column for each slot (`operandAt?`).  A patch is accepted exactly at a
place of that table (`exists_patch_iff`), and then the function differs at that
place only (`Updated`): the counts, the pools, the number of the instructions
and their opcodes stay.
-/
import Wordcode.Builder

namespace Wordcode

/-! ## Functions as tables of operands -/

namespace Function

/-- The operand in a slot of an instruction. -/
def operandAt? (f : Function) (k slot : Nat) : Option Operand :=
  f.code[k]?.bind (·.operand? slot)

/-- The opcodes, in program order. -/
def opcodes (f : Function) : List Opcode := f.code.toList.map Instruction.opcode

/-- One function is another with a new operand at one place. -/
structure Updated (f f' : Function) (k slot : Nat) (value : Operand) : Prop where
  args : f'.args = f.args
  upvalues : f'.upvalues = f.upvalues
  ints : f'.ints = f.ints
  strs : f'.strs = f.strs
  opcodes : f'.opcodes = f.opcodes
  operandAt? : ∀ k' slot', f'.operandAt? k' slot'
    = if k' = k ∧ slot' = slot then some value else f.operandAt? k' slot'

/-- A new operand at a place leaves the same places. -/
theorem Updated.isSome_operandAt? {f f' : Function} {k slot : Nat} {value : Operand}
    (h : f.Updated f' k slot value) (hplace : (f.operandAt? k slot).isSome) (k' slot' : Nat) :
    (f'.operandAt? k' slot').isSome = (f.operandAt? k' slot').isSome := by
  rw [h.operandAt?]
  split
  · next heq =>
      obtain ⟨rfl, rfl⟩ := heq
      rw [hplace, Option.isSome_some]
  · rfl

end Function

/-! ## Patches of an instruction -/

theorem Instruction.set_eq_ok_iff {i j : Instruction} {slot : Nat} {value : Operand} :
    i.set slot value = .ok j ↔
      slot < i.opcode.arity ∧ j.opcode = i.opcode ∧ j.operands = i.operands.set slot value := by
  unfold Instruction.set
  split
  · next hslot =>
      constructor
      · intro h
        cases h
        exact ⟨hslot, rfl, rfl⟩
      · rintro ⟨_, hopcode, hoperands⟩
        rw [Except.ok.injEq, eq_comm]
        exact eq_of_operands_eq hopcode hoperands
  · next hslot =>
      constructor
      · intro h
        cases h
      · intro h
        exact absurd h.1 hslot

/-- A patch is refused exactly if its slot is not used. -/
theorem Instruction.set_eq_error_iff {i : Instruction} {slot : Nat} {value : Operand}
    {e : CodeError} : i.set slot value = .error e ↔
    i.opcode.arity ≤ slot ∧ e = .unusedSlot i.opcode slot := by
  unfold Instruction.set
  split
  · next hslot => simp [Nat.not_le.mpr hslot]
  · next hslot => simp [Nat.le_of_not_lt hslot, eq_comm]

theorem Instruction.exists_set_iff {i : Instruction} {slot : Nat} (value : Operand) :
    (∃ j, i.set slot value = .ok j) ↔ (i.operand? slot).isSome := by
  rw [operand?, isSome_getElem?, i.length_operands]
  unfold Instruction.set
  split
  · next hslot => exact ⟨fun _ => hslot, fun _ => ⟨_, rfl⟩⟩
  · next hslot =>
      constructor
      · rintro ⟨j, h⟩
        cases h
      · intro h
        exact absurd h hslot

/-! ## Patches of a builder -/

namespace Builder

variable {b b' : Builder} {index value : Operand} {slot : Nat}

theorem patch_eq_ok_iff : b.patch index slot value = .ok b' ↔
    ∃ i j, b.function.code[index.toNat]? = some i ∧ i.set slot value = .ok j
      ∧ b' = b.replace index j := by
  unfold patch patched
  cases hcode : b.function.code[index.toNat]? with
  | none => simp
  | some i =>
      cases hset : i.set slot value with
      | error e => simp [hset]
      | ok j => simp [hset, eq_comm]

/-- A patch is refused where there is no instruction, and in a slot that the
instruction does not use. -/
theorem patch_eq_error_iff {e : CodeError} : b.patch index slot value = .error e ↔
    b.function.length ≤ index.toNat
        ∧ e = .instructionOutOfRange index.toNat b.function.length
      ∨ ∃ i, b.function.code[index.toNat]? = some i
        ∧ i.opcode.arity ≤ slot ∧ e = .unusedSlot i.opcode slot := by
  have hlength : b.function.length ≤ index.toNat ↔ b.function.code[index.toNat]? = none :=
    Array.getElem?_eq_none_iff.symm
  rw [hlength]
  unfold patch patched
  cases b.function.code[index.toNat]? with
  | none => simp [eq_comm]
  | some i =>
      have hset : i.set slot value = .error e ↔ _ := Instruction.set_eq_error_iff
      simp only [reduceCtorEq, false_and, false_or, Option.some.injEq, exists_eq_left', ← hset]
      cases i.set slot value <;> simp

/-- A patch is accepted exactly where there is an operand. -/
theorem exists_patch_iff : (∃ b', b.patch index slot value = .ok b') ↔
    (b.function.operandAt? index.toNat slot).isSome := by
  simp only [patch_eq_ok_iff, Function.operandAt?]
  cases hcode : b.function.code[index.toNat]? with
  | none => simp
  | some i =>
      rw [Option.bind_some, ← Instruction.exists_set_iff value]
      constructor
      · rintro ⟨_, _, j, hi, hj, _⟩
        exact ⟨j, Option.some.inj hi ▸ hj⟩
      · rintro ⟨j, hj⟩
        exact ⟨_, i, j, rfl, hj, rfl⟩

theorem getElem?_replace {i j : Instruction} (hi : b.function.code[index.toNat]? = some i)
    (k : Nat) : (b.replace index j).function.code[k]?
      = if k = index.toNat then some j else b.function.code[k]? := by
  simp only [replace, Array.getElem?_setIfInBounds, eq_comm (a := k)]
  split
  · exact if_pos (Array.getElem?_eq_some_iff.mp hi).1
  · rfl

/-- A patch changes one operand and nothing else. -/
theorem updated_of_patch (h : b.patch index slot value = .ok b') :
    b.function.Updated b'.function index.toNat slot value := by
  obtain ⟨i, j, hi, hj, rfl⟩ := patch_eq_ok_iff.mp h
  obtain ⟨hslot, hopcode, hoperands⟩ := Instruction.set_eq_ok_iff.mp hj
  refine ⟨rfl, rfl, rfl, rfl, ?_, fun k' slot' => ?_⟩
  · refine List.ext_getElem? fun k => ?_
    simp only [Function.opcodes, List.getElem?_map, Array.getElem?_toList, getElem?_replace hi]
    split
    · next hk => rw [hk, hi, Option.map_some, hopcode, Option.map_some]
    · rfl
  · simp only [Function.operandAt?, getElem?_replace hi]
    by_cases hk : k' = index.toNat
    · subst hk
      simp only [if_true, true_and, hi, Option.bind_some, Instruction.operand?, hoperands,
        List.getElem?_set, i.length_operands, hslot]
      simp only [eq_comm (a := slot)]
    · simp only [hk, if_false, false_and]

theorem phase_patch (h : b.patch index slot value = .ok b') : b'.phase = b.phase := by
  obtain ⟨_, _, _, _, rfl⟩ := patch_eq_ok_iff.mp h
  rfl

/-! ## Patches as edits -/

theorem apply_patch_of_ok (h : b.patch index slot value = .ok b') :
    b.apply (.patch index slot value) = (b', .done) := by
  rw [apply, h]

theorem apply_patch_of_error {e : CodeError} (h : b.patch index slot value = .error e) :
    b.apply (.patch index slot value) = (b, .refused e) := by
  rw [apply, h]

end Builder

end Wordcode
