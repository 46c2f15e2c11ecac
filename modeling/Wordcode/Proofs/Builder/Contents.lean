/-
# Contents — a builder is three growing lists

The reference against which builders are measured.  `Contents` holds what a
function holds as plain lists, and `Contents.edit` says what an edit does to
them: a count is overwritten, an entry comes to the end of its list while the
list can be addressed, an operand is overwritten where there is one.  Nothing
in it is refused and nothing has an index.

A builder holds these lists after any edits (`contents_run`).  What the lists do
not tell is what it answers, and its phase.  Patches never set the phase; it is
right all the same because an empty phase belongs to the empty function
(`function_run_eq_empty`), in which there is nothing to patch.
-/
import Wordcode.Proofs.Builder.Session

namespace Wordcode

/-! ## The lists -/

/-- An operation and its operands. -/
abbrev Row := Opcode × List Operand

/-- The row with another operand in a slot, if it has that slot. -/
def Row.overwrite (slot : Nat) (value : Operand) (row : Row) : Row :=
  (row.1, row.2.set slot value)

/-- What a function holds. -/
structure Contents where
  /-- The number of positional arguments. -/
  args : UInt16
  /-- The number of captured values. -/
  upvalues : UInt16
  /-- The integer constants. -/
  ints : List Int32
  /-- The string constants. -/
  strs : List String
  /-- The operations with their operands. -/
  code : List Row

/-- The row of an instruction. -/
def Instruction.row (i : Instruction) : Row := (i.opcode, i.operands)

/-- What a function holds. -/
def Function.contents (f : Function) : Contents :=
  ⟨f.args, f.upvalues, f.ints.toList, f.strs.toList, f.code.toList.map Instruction.row⟩

/-- One more entry at the end of a list, while the list can be addressed. -/
def extend {α : Type} (as : List α) (a : α) : List α :=
  if as.length < capacity then as ++ [a] else as

theorem extend_of_lt {α : Type} {as : List α} {a : α} (h : as.length < capacity) :
    extend as a = as ++ [a] := if_pos h

theorem extend_of_not_lt {α : Type} {as : List α} {a : α} (h : ¬ as.length < capacity) :
    extend as a = as := if_neg h

/-- The lists after an edit. -/
def Contents.edit (c : Contents) : Edit → Contents
  | .setArgs count => { c with args := count }
  | .setUpvalues count => { c with upvalues := count }
  | .pushInt value => { c with ints := extend c.ints value }
  | .pushStr value => { c with strs := extend c.strs value }
  | .push i => { c with code := extend c.code i.row }
  | .patch index slot value =>
    { c with code := c.code.modify index.toNat (Row.overwrite slot value) }

/-- Nothing but what it holds tells a function from another. -/
theorem Function.eq_of_contents_eq {f g : Function} (h : f.contents = g.contents) : f = g := by
  have hrow : ∀ i j : Instruction, i.row = j.row → i = j := fun i j hij =>
    Instruction.eq_of_operands_eq (congrArg Prod.fst hij) (congrArg Prod.snd hij)
  obtain ⟨args, upvalues, ints, strs, code⟩ := f
  obtain ⟨args', upvalues', ints', strs', code'⟩ := g
  simp only [contents, Contents.mk.injEq, Array.toList_inj, List.map_inj_right hrow] at h
  obtain ⟨rfl, rfl, rfl, rfl, rfl⟩ := h
  rfl

namespace Builder

variable {b : Builder} {edit : Edit} {t : Table} {index value : Operand} {slot : Nat}

/-! ## One edit -/

/-- A patch overwrites an operand of one row. -/
theorem rows_replace {i j : Instruction} (hi : b.function.code[index.toNat]? = some i)
    (hj : i.set slot value = .ok j) :
    (b.replace index j).function.code.toList.map Instruction.row
      = (b.function.code.toList.map Instruction.row).modify index.toNat
          (Row.overwrite slot value) := by
  obtain ⟨_, hopcode, hoperands⟩ := Instruction.set_eq_ok_iff.mp hj
  refine List.ext_getElem? fun k => ?_
  rw [List.getElem?_modify, List.getElem?_map, List.getElem?_map, Array.getElem?_toList,
    Array.getElem?_toList, getElem?_replace hi]
  by_cases hk : k = index.toNat
  · subst hk
    simp [hi, Instruction.row, Row.overwrite, hopcode, hoperands]
  · simp [hk, Ne.symm hk]

/-- Where a patch is refused there is nothing to overwrite. -/
theorem rows_of_patch_eq_error {e : CodeError} (h : b.patch index slot value = .error e) :
    (b.function.code.toList.map Instruction.row).modify index.toNat (Row.overwrite slot value)
      = b.function.code.toList.map Instruction.row := by
  rcases patch_eq_error_iff.mp h with ⟨hlength, _⟩ | ⟨i, hi, hslot, _⟩
  · refine List.modify_eq_self ?_
    rwa [List.length_map, Array.length_toList]
  · have hrow : Row.overwrite slot value i.row = i.row := by
      rw [← i.length_operands] at hslot
      exact Prod.ext rfl (List.set_eq_of_length_le hslot)
    refine List.ext_getElem? fun k => ?_
    rw [List.getElem?_modify, List.getElem?_map, Array.getElem?_toList]
    by_cases hk : index.toNat = k
    · subst hk
      simp [hi, hrow]
    · simp [hk]

theorem contents_apply (b : Builder) (edit : Edit) :
    (b.apply edit).1.function.contents = b.function.contents.edit edit := by
  cases edit with
  | setArgs | setUpvalues => rfl
  | pushInt value =>
      simp only [apply, Contents.edit, Function.contents]
      split
      · next hroom =>
          rw [extend_of_lt (by rwa [Array.length_toList])]
          simp only [pushInt, Array.toList_push]
      · next hfull => rw [extend_of_not_lt (by rwa [Array.length_toList])]
  | pushStr value =>
      simp only [apply, Contents.edit, Function.contents]
      split
      · next hroom =>
          rw [extend_of_lt (by rwa [Array.length_toList])]
          simp only [pushStr, Array.toList_push]
      · next hfull => rw [extend_of_not_lt (by rwa [Array.length_toList])]
  | push i =>
      simp only [apply, Contents.edit, Function.contents]
      split
      · next hroom =>
          rw [extend_of_lt (by rwa [List.length_map, Array.length_toList])]
          simp only [push, Array.toList_push, List.map_append, List.map_singleton]
      · next hfull => rw [extend_of_not_lt (by rwa [List.length_map, Array.length_toList])]
  | patch index slot value =>
      simp only [Contents.edit, Function.contents]
      cases hpatch : b.patch index slot value with
      | error e =>
          -- the builder stays, and so do the rows, which a patch of nothing leaves
          rw [apply_patch_of_error hpatch, rows_of_patch_eq_error hpatch]
      | ok b' =>
          rw [apply_patch_of_ok hpatch]
          obtain ⟨i, j, hi, hj, rfl⟩ := patch_eq_ok_iff.mp hpatch
          rw [← rows_replace hi hj]
          rfl

/-! ## Any number of edits -/

theorem contents_run (b : Builder) (edits : List Edit) :
    (b.run edits).function.contents = edits.foldl Contents.edit b.function.contents := by
  induction edits generalizing b with
  | nil => rfl
  | cons edit edits ih => rw [run_cons, ih, contents_apply, List.foldl_cons]

/-! ## Starts -/

/-- A builder that a session starts with. -/
inductive IsStart : Builder → Prop where
  | fresh : IsStart new
  | resumed {f : Function} (h : f.Fits) : IsStart (ofFunction f)

theorem IsStart.fits (h : b.IsStart) : b.function.Fits := by
  cases h with
  | fresh => exact Function.fits_empty
  | resumed hfits => exact hfits

theorem IsStart.phase_eq_empty_iff (h : b.IsStart) :
    b.phase = .empty ↔ b = .new ∨ b = .ofFunction .empty := by
  cases h with
  | fresh => exact ⟨fun _ => .inl rfl, fun _ => rfl⟩
  | @resumed f hfits =>
      constructor
      · intro hphase
        by_cases hf : f = .empty
        · exact .inr (congrArg _ hf)
        · rw [ofFunction, if_neg hf] at hphase
          cases hphase
      · rintro (h | h) <;> rw [h] <;> rfl

theorem IsStart.function_eq_empty (h : b.IsStart) (hphase : b.phase = .empty) :
    b.function = .empty := by
  rcases h.phase_eq_empty_iff.mp hphase with h | h <;> rw [h] <;> rfl

/-- Nothing can be patched in the empty function. -/
theorem isRefusal_of_isPatch (hempty : b.function = .empty) (h : edit.isPatch) :
    (b.apply edit).2.isRefusal := by
  cases edit with
  | setArgs | setUpvalues | pushInt | pushStr | push => cases h
  | patch index slot value =>
      have hrefused : (b.apply (.patch index slot value)).2
          = .refused (.instructionOutOfRange index.toNat b.function.length) := by
        refine reply_eq_outOfRange_iff.mpr ?_
        rw [hempty]
        exact Nat.zero_le _
      rw [hrefused]
      rfl

theorem function_apply_eq_empty (h : b.phase = .empty → b.function = .empty)
    (hphase : (b.apply edit).1.phase = .empty) : (b.apply edit).1.function = .empty := by
  obtain ⟨hb, hedit⟩ := phase_apply_iff.mp hphase
  -- whether it is a patch or refused anyway, the edit changes nothing
  have hrefusal : (b.apply edit).2.isRefusal := hedit.elim (isRefusal_of_isPatch (h hb)) id
  rw [apply_of_isRefusal hrefusal]
  exact h hb

theorem function_run_eq_empty (h : b.phase = .empty → b.function = .empty) (edits : List Edit)
    (hphase : (b.run edits).phase = .empty) : (b.run edits).function = .empty := by
  induction edits generalizing b with
  | nil => exact h hphase
  | cons edit edits ih => exact ih (fun hb => function_apply_eq_empty h hb) hphase

/-! ## Sessions -/

/-- After any edits a builder holds the function whose contents are the edited
lists, and answers by them; its phase is empty exactly if it started from the
empty function and every declaration or append was refused, and then it still
holds that function. -/
theorem run_refines (start : Builder) (hstart : start.IsStart) (edits : List Edit) :
    (∀ f : Function, f = (start.run edits).function
        ↔ f.contents = edits.foldl Contents.edit start.function.contents)
      ∧ (start.run edits).Answers
      ∧ ((start.run edits).phase = .empty ↔
        (start = .new ∨ start = .ofFunction .empty)
          ∧ List.Forall₂ (fun edit reply => edit.isPatch ∨ reply.isRefusal) edits
              (start.replies edits))
      ∧ ((start.run edits).phase = .empty → (start.run edits).function = .empty) := by
  refine ⟨fun f => ?_, answers_of_fits (fits_run hstart.fits edits), ?_,
    function_run_eq_empty hstart.function_eq_empty edits⟩
  · rw [← contents_run]
    exact ⟨congrArg Function.contents, Function.eq_of_contents_eq⟩
  · rw [phase_run_iff, hstart.phase_eq_empty_iff]

/-- A finished function is taken up again: a constant is appended, its
conditional jump is patched, and so is an instruction that it does not have. -/
theorem run_refines_resumed :
    let f : Function := ⟨0, 0, #[], #[], #[⟨.jf, [7, 0], rfl⟩]⟩
    let edits : List Edit := [.pushInt 5, .patch 0 1 3, .patch 1 0 9]
    (ofFunction f).IsStart
      ∧ ((ofFunction f).run edits).function.contents = ⟨0, 0, [5], [], [(.jf, [7, 3])]⟩
      ∧ ((ofFunction f).run edits).Answers
      ∧ ((ofFunction f).run edits).phase ≠ .empty := by
  intro f edits
  have hfits : f.Fits := by
    intro t
    cases t <;> decide
  obtain ⟨hcontents, hanswers, hphase, _⟩ := run_refines (ofFunction f) (.resumed hfits) edits
  refine ⟨.resumed hfits, ((hcontents _).mp rfl).trans (by rfl), hanswers, ?_⟩
  intro hempty
  have hstart : (ofFunction f).phase ≠ .empty := by decide
  exact hstart (((IsStart.resumed hfits).phase_eq_empty_iff).mpr (hphase.mp hempty).1)

end Builder

end Wordcode
