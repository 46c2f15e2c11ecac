/-
# Safety — verified code does not run off

A lawful function that is terminated keeps control inside its stream.  Within
the stream, one step stays there (`Goes.lt_length`): a jump and the exit of a
for-loop because their targets are checked, a step to the next instruction
because the last one has no next.  So every index that is reached is inside,
whatever the number of steps, and there every check of the verifier applies
(`SafeAt`).
-/
import Wordcode.Proofs.Verify.Rules

namespace Wordcode

namespace Function

/-- What holds at every index that control reaches in a verified function. -/
structure SafeAt (f : Function) (pos : Nat) : Prop where
  /-- The index is that of an instruction. -/
  inside : pos < f.length
  /-- Control ends only where the function is left. -/
  stops : (∀ next, ¬ f.Goes pos next) →
    f.opcodeAt? pos = some .ret ∨ f.opcodeAt? pos = some .retv ∨ f.opcodeAt? pos = some .tcall
  /-- A jump arrives at a marker. -/
  marker {i : Instruction} {target : Operand} :
    f.code[pos]? = some i → i.jumpTarget? = some target →
    ∃ op, f.opcodeAt? target.toNat = some op ∧ op.IsMarker
  /-- A conditional jump arrives at a forward marker. -/
  forward {i : Instruction} {target : Operand} :
    f.code[pos]? = some i → i.opcode = .jt ∨ i.opcode = .jf → i.jumpTarget? = some target →
    f.opcodeAt? target.toNat = some .jtarg
  /-- An integer that is loaded is in the pool. -/
  int {i : Instruction} {index : Operand} :
    f.code[pos]? = some i → i.opcode = .intk → i.operand? 0 = some index →
    ∃ value, f.ints[index.toNat]? = some value
  /-- A string that is loaded is in the pool. -/
  str {i : Instruction} {index : Operand} :
    f.code[pos]? = some i → i.opcode = .strk → i.operand? 0 = some index →
    ∃ value, f.strs[index.toNat]? = some value

variable {f : Function} {p : Policy} {pos start next : Nat}

/-! ## One step -/

theorem Terminated.length_pos (h : f.Terminated) : 0 < f.length := by
  obtain ⟨i, hi, _⟩ := h
  rw [Array.back?_eq_getElem?] at hi
  exact Nat.lt_of_le_of_lt (Nat.zero_le _) (Array.getElem?_eq_some_iff.mp hi).1

/-- Where control goes on to the next instruction, there is one. -/
theorem Terminated.next_lt_length (h : f.Terminated) {i : Instruction}
    (hi : f.code[pos]? = some i) (hnext : ¬ i.opcode.endsBlock) : pos + 1 < f.length := by
  obtain ⟨hlt, _⟩ := Array.getElem?_eq_some_iff.mp hi
  refine Nat.lt_of_le_of_ne hlt fun hlast => ?_
  obtain ⟨j, hj, hends⟩ := h
  rw [Array.back?_eq_getElem?] at hj
  have hpos : f.code.size - 1 = pos := by
    show f.length - 1 = pos
    omega
  rw [hpos, hi] at hj
  cases hj
  exact hnext (Opcode.endsBlock_iff.mpr hends)

/-- One step stays inside the stream. -/
theorem Goes.lt_length (h : f.Goes pos next) (hlawful : f.Lawful p) (hend : f.Terminated) :
    next < f.length := by
  obtain ⟨i, hi, hnext⟩ := h
  rcases Instruction.mem_successors_iff.mp hnext with ⟨hgoes, rfl⟩ | ⟨target, htarget | hexit, rfl⟩
  · exact hend.next_lt_length hi hgoes
  · exact (hlawful.jump hi htarget).1
  · exact hlawful.exit hi hexit

/-- Inside the stream, control that can go nowhere has stopped. -/
theorem stops_of_not_goes (hpos : pos < f.length) (h : ∀ next, ¬ f.Goes pos next) :
    f.Stops pos := by
  have hi : f.code[pos]? = some f.code[pos] := Array.getElem?_eq_getElem hpos
  refine ⟨_, hi, List.eq_nil_iff_forall_not_mem.mpr fun next hnext => ?_⟩
  exact h next ⟨_, hi, hnext⟩

/-! ## Any number of steps -/

theorem Reaches.lt_length (h : f.Reaches start pos) (hstart : start < f.length)
    (hlawful : f.Lawful p) (hend : f.Terminated) : pos < f.length := by
  induction h with
  | refl => exact hstart
  | step _ hgo _ => exact hgo.lt_length hlawful hend

theorem Lawful.safeAt (h : f.Lawful p) (hpos : pos < f.length) : f.SafeAt pos := by
  refine ⟨hpos, fun hgo => ?_, fun hi htarget => (h.jump hi htarget).2, h.conditional,
    fun hi hop hindex => ?_, fun hi hop hindex => ?_⟩
  · obtain ⟨i, hi, hnil⟩ := stops_of_not_goes hpos hgo
    rw [Instruction.successors_eq_nil_iff] at hnil
    simpa [opcodeAt?, hi] using hnil
  · exact ⟨_, Array.getElem?_eq_getElem (h.int hi hop hindex)⟩
  · exact ⟨_, Array.getElem?_eq_getElem (h.str hi hop hindex)⟩

/-- A function that is verified, its end included, has an instruction, and
control that starts anywhere in it stays safe for any number of steps. -/
theorem safeAt_of_isValid (f : Function) (p : Policy) (hrequire : p.requireTerminator)
    (hvalid : (f.verify p).isValid) :
    0 < f.length ∧ ∀ start < f.length, ∀ pos, f.Reaches start pos → f.SafeAt pos := by
  have hlawful := (isValid_iff_lawful (length_le_of_isValid hvalid)).mp hvalid
  have hend := hlawful.terminated hrequire
  exact ⟨hend.length_pos, fun start hstart pos hreach =>
    hlawful.safeAt (hreach.lt_length hstart hlawful hend)⟩

/-- A loop that is left by its exit only, and the instruction after it. -/
theorem safeAt_of_isValid_for_loop :
    let f : Function := ⟨0, 0, #[7], #[],
      #[⟨.intk, [0], rfl⟩, ⟨.jfor, [0, 0, 3], rfl⟩, ⟨.jump, [1], rfl⟩, ⟨.retv, [], rfl⟩]⟩
    Policy.strict.requireTerminator ∧ (f.verify .strict).isValid ∧ f.Reaches 0 3 ∧ f.SafeAt 3 := by
  intro f
  have hvalid : (f.verify .strict).isValid := by decide
  have hgo : f.Goes 0 1 := ⟨_, rfl, by decide⟩
  have hexit : f.Goes 1 3 := ⟨_, rfl, by decide⟩
  have hreach : f.Reaches 0 3 := .step (.step .refl hgo) hexit
  exact ⟨rfl, hvalid, hreach, (safeAt_of_isValid f .strict rfl hvalid).2 0 (by decide) 3 hreach⟩

end Function

end Wordcode
