/-
# Sessions — what a builder answers, edit after edit

What one edit does is said here once.  An append is answered with the index of
the entry or, when its table is full, refused (`reply_append`); a patch is
done or refused as `patch` says; and an edit that is refused leaves everything
as it was (`apply_of_isRefusal`).  A builder whose tables can
be addressed so `Answers` as its function demands (`answers_of_fits`).

From the single edits follow the two facts about a whole session that need no
more: no table grows past what operands can address (`tableSize_run`), and the
phase tells whether any declaration or append was accepted (`phase_run_iff`).
-/
import Mathlib.Data.List.Forall2
import Wordcode.Proofs.Builder.Patch

namespace Wordcode

/-! ## Edits and answers -/

/-- The table that an edit appends to. -/
def Edit.table? : Edit → Option Table
  | .pushInt _ => some .ints
  | .pushStr _ => some .strs
  | .push _ => some .code
  | .setArgs _ | .setUpvalues _ | .patch .. => none

/-- Whether an edit overwrites an operand, and neither declares nor appends. -/
def Edit.isPatch : Edit → Bool
  | .patch .. => true
  | .setArgs _ | .setUpvalues _ | .pushInt _ | .pushStr _ | .push _ => false

/-- Whether the answer says that an edit was not carried out. -/
def Reply.isRefusal : Reply → Bool
  | .full _ | .refused _ => true
  | .done | .appended _ => false

/-- No table has more entries than operands can address. -/
def Function.Fits (f : Function) : Prop := ∀ t : Table, f.tableSize t ≤ capacity

theorem Function.fits_empty : Function.empty.Fits := by
  intro t
  cases t <;> exact Nat.zero_le _

namespace Builder

variable {b : Builder} {edit : Edit} {t : Table} {index value : Operand} {slot : Nat}

/-! ## One edit -/

/-- An append gets the next index of its table if there is room. -/
theorem reply_append (h : edit.table? = some t) :
    (b.apply edit).2 = if b.HasRoom t then .appended (b.nextIndex t) else .full t := by
  cases edit with
  | setArgs | setUpvalues | patch => cases h
  | pushInt | pushStr | push =>
      cases h
      simp only [apply]
      split <;> rfl

theorem reply_patch_eq_done_iff : (b.apply (.patch index slot value)).2 = .done ↔
    ∃ b', b.patch index slot value = .ok b' := by
  cases hpatch : b.patch index slot value with
  | error e => simp [apply_patch_of_error hpatch]
  | ok b' => simp [apply_patch_of_ok hpatch]

theorem reply_patch_eq_refused_iff {e : CodeError} :
    (b.apply (.patch index slot value)).2 = .refused e ↔
      b.patch index slot value = .error e := by
  cases hpatch : b.patch index slot value with
  | error e => simp [apply_patch_of_error hpatch]
  | ok b' => simp [apply_patch_of_ok hpatch]

theorem reply_patch_done_or_isRefusal (b : Builder) (index : Operand) (slot : Nat)
    (value : Operand) : (b.apply (.patch index slot value)).2 = .done
      ∨ (b.apply (.patch index slot value)).2.isRefusal := by
  cases hpatch : b.patch index slot value with
  | error e =>
      rw [apply_patch_of_error hpatch]
      exact .inr rfl
  | ok b' =>
      rw [apply_patch_of_ok hpatch]
      exact .inl rfl

/-- An accepted patch is a patch. -/
theorem patch_of_reply_done (h : (b.apply (.patch index slot value)).2 = .done) :
    b.patch index slot value = .ok (b.apply (.patch index slot value)).1 := by
  obtain ⟨b', hpatch⟩ := reply_patch_eq_done_iff.mp h
  rw [apply_patch_of_ok hpatch, hpatch]

theorem apply_of_isRefusal (h : (b.apply edit).2.isRefusal) : (b.apply edit).1 = b := by
  cases edit with
  | setArgs | setUpvalues => cases h
  | pushInt | pushStr | push =>
      simp only [apply] at h ⊢
      split at h
      · cases h
      · next hfull => rw [dif_neg hfull]
  | patch index slot value =>
      cases hpatch : b.patch index slot value with
      | error e => rw [apply_patch_of_error hpatch]
      | ok b' =>
          rw [apply_patch_of_ok hpatch] at h
          cases h

/-- An edit adds an entry to the table it appends to, if there is room, and to
no other. -/
theorem tableSize_apply (b : Builder) (edit : Edit) (t : Table) :
    (b.apply edit).1.function.tableSize t
      = b.function.tableSize t + if edit.table? = some t ∧ b.HasRoom t then 1 else 0 := by
  cases edit with
  | setArgs | setUpvalues => cases t <;> rfl
  | pushInt | pushStr | push =>
      simp only [apply]
      split
      · next hroom =>
          cases t <;> simp [hroom, Edit.table?, Function.tableSize, pushInt, pushStr, push]
      · next hfull => cases t <;> simp [hfull, Edit.table?]
  | patch index slot value =>
      rw [if_neg (by simp [Edit.table?]), Nat.add_zero]
      cases hpatch : b.patch index slot value with
      | error e => rw [apply_patch_of_error hpatch]
      | ok b' =>
          rw [apply_patch_of_ok hpatch]
          obtain ⟨_, _, _, _, rfl⟩ := patch_eq_ok_iff.mp hpatch
          cases t <;> simp [Function.tableSize, replace]

/-- The phase stays empty exactly if the edit is a patch or refused. -/
theorem phase_apply_iff : (b.apply edit).1.phase = .empty ↔
    b.phase = .empty ∧ (edit.isPatch ∨ (b.apply edit).2.isRefusal) := by
  cases edit with
  | setArgs | setUpvalues =>
      simp [apply, setArgs, setUpvalues, Edit.isPatch, Reply.isRefusal]
  | pushInt | pushStr | push =>
      simp only [apply]
      split
      · simp [pushInt, pushStr, push, Edit.isPatch, Reply.isRefusal]
      · simp [Reply.isRefusal]
  | patch index slot value =>
      cases hpatch : b.patch index slot value with
      | error e => simp [apply_patch_of_error hpatch, Edit.isPatch]
      | ok b' => simp [apply_patch_of_ok hpatch, phase_patch hpatch, Edit.isPatch]

/-! ## Answers -/

/-- What a builder answers to the next edit, and what it leaves as it was.  An
entry gets the number of the entries before it, unless there is one for each
index already; a patch is done exactly where there is an operand, and otherwise
the answer tells whether the instruction or its slot is missing. -/
structure Answers (b : Builder) : Prop where
  appended : ∀ edit t index, edit.table? = some t → ((b.apply edit).2 = .appended index ↔
    b.function.tableSize t < capacity ∧ index.toNat = b.function.tableSize t)
  full : ∀ edit t, edit.table? = some t → ((b.apply edit).2 = .full t ↔
    b.function.tableSize t = capacity)
  patched : ∀ index slot value, (b.apply (.patch index slot value)).2 = .done ↔
    ∃ i, b.function.code[index.toNat]? = some i ∧ slot < i.opcode.arity
  outOfRange : ∀ index slot value, (b.apply (.patch index slot value)).2
      = .refused (.instructionOutOfRange index.toNat b.function.length) ↔
    b.function.length ≤ index.toNat
  unusedSlot : ∀ index slot value i, b.function.code[index.toNat]? = some i →
    ((b.apply (.patch index slot value)).2 = .refused (.unusedSlot i.opcode slot) ↔
      i.opcode.arity ≤ slot)
  updated : ∀ index slot value, (b.apply (.patch index slot value)).2 = .done →
    b.function.Updated (b.apply (.patch index slot value)).1.function index.toNat slot value
      ∧ (b.apply (.patch index slot value)).1.phase = b.phase
  unchanged : ∀ edit, (b.apply edit).2.isRefusal → (b.apply edit).1 = b

theorem reply_eq_appended_iff (h : edit.table? = some t) :
    (b.apply edit).2 = .appended index ↔
      b.function.tableSize t < capacity ∧ index.toNat = b.function.tableSize t := by
  rw [reply_append h]
  split
  · next hroom =>
      rw [Reply.appended.injEq, eq_comm, ← UInt16.toNat_inj, toNat_nextIndex hroom]
      exact (and_iff_right hroom).symm
  · next hfull =>
      constructor
      · intro hreply
        cases hreply
      · rintro ⟨hroom, _⟩
        exact absurd hroom hfull

/-- Only where the table has not outgrown the indices is "full" the exact size. -/
theorem reply_eq_full_iff (hfits : b.function.Fits) (h : edit.table? = some t) :
    (b.apply edit).2 = .full t ↔ b.function.tableSize t = capacity := by
  have hle : b.function.tableSize t ≤ capacity := hfits t
  rw [reply_append h]
  split
  · next hroom =>
      constructor
      · intro hreply
        cases hreply
      · intro hsize
        exact absurd hsize (Nat.ne_of_lt hroom)
  · next hfull =>
      constructor
      · intro _
        exact Nat.le_antisymm hle (Nat.le_of_not_lt hfull)
      · intro _
        rfl

theorem reply_eq_done_iff : (b.apply (.patch index slot value)).2 = .done ↔
    ∃ i, b.function.code[index.toNat]? = some i ∧ slot < i.opcode.arity := by
  rw [reply_patch_eq_done_iff, exists_patch_iff, Function.operandAt?, Option.isSome_bind,
    Option.any_eq_true]
  simp only [Instruction.operand?, isSome_getElem?, Instruction.length_operands]

theorem reply_eq_outOfRange_iff : (b.apply (.patch index slot value)).2
      = .refused (.instructionOutOfRange index.toNat b.function.length) ↔
    b.function.length ≤ index.toNat := by
  simp [reply_patch_eq_refused_iff, patch_eq_error_iff]

theorem reply_eq_unusedSlot_iff {i : Instruction} (hi : b.function.code[index.toNat]? = some i) :
    (b.apply (.patch index slot value)).2 = .refused (.unusedSlot i.opcode slot) ↔
      i.opcode.arity ≤ slot := by
  rw [reply_patch_eq_refused_iff, patch_eq_error_iff]
  constructor
  · rintro (⟨_, herror⟩ | ⟨j, hj, hslot, _⟩)
    · cases herror
    · obtain rfl : i = j := Option.some.inj (hi.symm.trans hj)
      exact hslot
  · intro hslot
    exact .inr ⟨i, hi, hslot, rfl⟩

theorem answers_of_fits (hfits : b.function.Fits) : b.Answers where
  appended _ _ _ h := reply_eq_appended_iff h
  full _ _ h := reply_eq_full_iff hfits h
  patched _ _ _ := reply_eq_done_iff
  outOfRange _ _ _ := reply_eq_outOfRange_iff
  unusedSlot _ _ _ _ hi := reply_eq_unusedSlot_iff hi
  updated _ _ _ h := ⟨updated_of_patch (patch_of_reply_done h), phase_patch (patch_of_reply_done h)⟩
  unchanged _ h := apply_of_isRefusal h

/-! ## Any number of edits -/

/-- The answers to a sequence of edits. -/
def replies (b : Builder) : List Edit → List Reply
  | [] => []
  | edit :: edits => (b.apply edit).2 :: (b.apply edit).1.replies edits

theorem run_cons (b : Builder) (edit : Edit) (edits : List Edit) :
    b.run (edit :: edits) = (b.apply edit).1.run edits := rfl

/-- A table is within what operands can address, or it was too large from the
start and stays as large as it was. -/
theorem tableSize_run (b : Builder) (edits : List Edit) (t : Table) :
    (b.run edits).function.tableSize t ≤ capacity
      ∨ (b.run edits).function.tableSize t = b.function.tableSize t := by
  induction edits generalizing b with
  | nil => exact .inr rfl
  | cons edit edits ih =>
      rcases ih (b.apply edit).1 with hle | heq
      · exact .inl hle
      · -- the later edits add nothing, so the size is decided by the first one
        rw [run_cons, heq, tableSize_apply]
        split
        · next happend => exact .inl happend.2
        · exact .inr rfl

/-- No table outgrows the operands. -/
theorem fits_run (h : b.function.Fits) (edits : List Edit) : (b.run edits).function.Fits :=
  fun t => (tableSize_run b edits t).elim id fun heq => heq ▸ h t

/-- The phase is still empty exactly if it was at the start and no declaration
or append was accepted. -/
theorem phase_run_iff (b : Builder) (edits : List Edit) : (b.run edits).phase = .empty ↔
    b.phase = .empty
      ∧ List.Forall₂ (fun edit reply => edit.isPatch ∨ reply.isRefusal) edits (b.replies edits) := by
  induction edits generalizing b with
  | nil => exact ⟨fun h => ⟨h, .nil⟩, fun h => h.1⟩
  | cons edit edits ih =>
      rw [run_cons, ih, phase_apply_iff, replies, List.forall₂_cons, and_assoc]

end Builder

end Wordcode
