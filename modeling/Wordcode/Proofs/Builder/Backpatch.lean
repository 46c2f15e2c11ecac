/-
# Backpatching — an operand that is filled in later

A front end that meets a forward jump emits it with any operand in the place of
the target, and patches it when the target is known.  This is as good as emitting
the jump with its target: the builder ends up the same, and answers the same
(`run_push_patch`).  Patches of different places can be made in any order
(`run_perm_of_patches`), and of the patches of one place only the last one is
seen (`run_apply_patch`).

All three come down to one exchange: a patch that is accepted can be made before
an edit or after it, unless that edit overwrites the same place
(`apply_patch_comm`).  For what the function holds this is a fact about lists,
`Contents.edit_comm`.  No answer changes either, because an answer depends on the
sizes of the tables and on the opcodes alone (`reply_congr`), and a patch changes
neither.
-/
import Mathlib.Data.List.Nodup
import Wordcode.Proofs.Builder.Contents
import Wordcode.Proofs.Builder.Growth

namespace Wordcode

/-! ## Places -/

/-- The place that an edit overwrites: an instruction, and one of its slots. -/
def Edit.place? : Edit → Option (Operand × Nat)
  | .patch index slot _ => some (index, slot)
  | .setArgs _ | .setUpvalues _ | .pushInt _ | .pushStr _ | .push _ => none

/-- Two instructions differ at most in what one slot holds. -/
structure Instruction.SameBut (slot : Nat) (i j : Instruction) : Prop where
  opcode : i.opcode = j.opcode
  operand? : ∀ slot', slot' ≠ slot → i.operand? slot' = j.operand? slot'

variable {index value : Operand} {slot : Nat} {edit : Edit}

/-- With the operand of that slot, the one becomes the other. -/
theorem Instruction.SameBut.set_eq_ok {i j : Instruction} (h : i.SameBut slot j)
    (hvalue : j.operand? slot = some value) : i.set slot value = .ok j := by
  have hslot : slot < i.operands.length := by
    rw [i.length_operands, h.opcode, ← j.length_operands]
    exact (List.getElem?_eq_some_iff.mp hvalue).1
  refine set_eq_ok_iff.mpr ⟨i.length_operands ▸ hslot, h.opcode.symm, ?_⟩
  refine List.ext_getElem? fun slot' => ?_
  by_cases heq : slot = slot'
  · subst heq
    rw [List.getElem?_set_self hslot]
    exact hvalue
  · rw [List.getElem?_set_ne heq]
    exact (h.operand? slot' (Ne.symm heq)).symm

/-! ## The lists -/

theorem extend_modify {α : Type} {as : List α} {k : Nat} (hk : k < as.length) (f : α → α) (a : α) :
    extend (as.modify k f) a = (extend as a).modify k f := by
  unfold extend
  rw [List.length_modify]
  split
  · refine List.ext_getElem? fun k' => ?_
    simp only [List.getElem?_modify, List.getElem?_append, List.length_modify]
    split
    · rfl
    · next hle =>
        have hne : k ≠ k' := by omega
        simp [hne]
  · rfl

theorem Row.overwrite_comm {slot' : Nat} {value' : Operand} (h : slot ≠ slot') (row : Row) :
    Row.overwrite slot' value' (row.overwrite slot value)
      = Row.overwrite slot value (row.overwrite slot' value') :=
  Prod.ext rfl (List.set_comm _ _ h)

namespace Contents

variable {c : Contents}

/-- An operand that is there can be overwritten before an edit or after it, and so
can any operand if the edit overwrites another one. -/
theorem edit_comm (hplace : edit.place? ≠ some (index, slot))
    (hthere : edit.isPatch ∨ index.toNat < c.code.length) :
    (c.edit (.patch index slot value)).edit edit
      = (c.edit edit).edit (.patch index slot value) := by
  cases edit with
  | setArgs | setUpvalues | pushInt | pushStr => rfl
  | push i =>
      have hindex : index.toNat < c.code.length := hthere.resolve_left Bool.false_ne_true
      simp only [edit, extend_modify hindex]
  | patch index' slot' value' =>
      simp only [edit]
      congr 1
      by_cases hindex : index = index'
      · subst hindex
        have hslot : slot ≠ slot' := by
          rintro rfl
          exact hplace rfl
        rw [List.modify_modify_eq, List.modify_modify_eq]
        congr 1
        funext row
        exact Row.overwrite_comm hslot row
      · exact List.modify_modify_ne _ _ _ fun h => hindex (UInt16.toNat_inj.mp h)

/-- An operand that is overwritten twice is what it was made last. -/
theorem edit_patch_patch (value' : Operand) :
    (c.edit (.patch index slot value)).edit (.patch index slot value')
      = c.edit (.patch index slot value') := by
  simp only [edit, List.modify_modify_eq]
  congr 2
  funext row
  exact Prod.ext rfl (List.set_set _)

end Contents

namespace Builder

variable {b b' : Builder}

/-- Nothing but its function and its phase tells a builder from another. -/
theorem eq_of_contents_eq (hcontents : b.function.contents = b'.function.contents)
    (hphase : b.phase = .empty ↔ b'.phase = .empty) : b = b' := by
  obtain ⟨f, phase⟩ := b
  obtain ⟨f', phase'⟩ := b'
  obtain rfl : f = f' := Function.eq_of_contents_eq hcontents
  cases phase <;> cases phase' <;> simp_all

/-! ## Answers -/

/-- The answer to a patch is known from the opcodes. -/
theorem reply_patch : (b.apply (.patch index slot value)).2
    = match b.function.opcodes[index.toNat]? with
      | none => .refused (.instructionOutOfRange index.toNat b.function.length)
      | some op => if slot < op.arity then .done else .refused (.unusedSlot op slot) := by
  rw [Function.opcodes, List.getElem?_map, Array.getElem?_toList]
  cases hi : b.function.code[index.toNat]? with
  | none => exact reply_eq_outOfRange_iff.mpr (Array.getElem?_eq_none_iff.mp hi)
  | some i =>
      dsimp only [Option.map_some]
      split
      · next hslot => exact reply_eq_done_iff.mpr ⟨i, hi, hslot⟩
      · next hslot => exact (reply_eq_unusedSlot_iff hi).mpr (Nat.le_of_not_lt hslot)

/-- Builders with tables of the same sizes and with the same opcodes answer the
same. -/
theorem reply_congr (hsizes : ∀ t, b'.function.tableSize t = b.function.tableSize t)
    (hopcodes : b'.function.opcodes = b.function.opcodes) (edit : Edit) :
    (b'.apply edit).2 = (b.apply edit).2 := by
  cases edit with
  | setArgs | setUpvalues => rfl
  | pushInt | pushStr | push =>
      have hroom : ∀ t, b'.HasRoom t ↔ b.HasRoom t := fun t => by rw [HasRoom, hsizes, HasRoom]
      rw [reply_append rfl, reply_append rfl]
      simp only [hroom, nextIndex, hsizes]
  | patch index slot value =>
      have hlength : b'.function.length = b.function.length := hsizes .code
      rw [reply_patch, reply_patch, hopcodes, hlength]

theorem opcodes_apply_patch : (b.apply (.patch index slot value)).1.function.opcodes
    = b.function.opcodes := by
  rcases reply_patch_done_or_isRefusal b index slot value with hdone | hrefusal
  · exact (updated_of_patch (patch_of_reply_done hdone)).opcodes
  · rw [apply_of_isRefusal hrefusal]

/-- A patch changes no answer. -/
theorem reply_apply_patch (edit : Edit) :
    ((b.apply (.patch index slot value)).1.apply edit).2 = (b.apply edit).2 := by
  refine reply_congr (fun t => ?_) opcodes_apply_patch edit
  rw [tableSize_apply, if_neg (by simp [Edit.table?]), Nat.add_zero]

/-- A place that can be patched can be patched after any edit. -/
theorem reply_patch_apply_eq_done (hdone : (b.apply (.patch index slot value)).2 = .done)
    (edit : Edit) : ((b.apply edit).1.apply (.patch index slot value)).2 = .done := by
  cases hpatch : edit.isPatch with
  | true =>
      cases edit with
      | setArgs | setUpvalues | pushInt | pushStr | push => cases hpatch
      | patch => rwa [reply_apply_patch]
  | false =>
      obtain ⟨i, hi, hslot⟩ := reply_eq_done_iff.mp hdone
      have hindex : index.toNat < b.function.length := (Array.getElem?_eq_some_iff.mp hi).1
      refine reply_eq_done_iff.mpr ⟨i, ?_, hslot⟩
      rw [(grows_apply b hpatch).getElem?_code hindex, hi]

/-! ## One exchange -/

/-- A patch that is accepted can be made before an edit or after it, unless the
edit overwrites the same place; and two patches of different places can be made in
either order, accepted or not. -/
theorem apply_patch_comm (hplace : edit.place? ≠ some (index, slot))
    (hthere : edit.isPatch ∨ (b.apply (.patch index slot value)).2 = .done) :
    ((b.apply (.patch index slot value)).1.apply edit).1
      = ((b.apply edit).1.apply (.patch index slot value)).1 := by
  have hcode : edit.isPatch ∨ index.toNat < b.function.contents.code.length := by
    refine hthere.imp_right fun hdone => ?_
    obtain ⟨i, hi, _⟩ := reply_eq_done_iff.mp hdone
    rw [Function.contents, List.length_map, Array.length_toList]
    exact (Array.getElem?_eq_some_iff.mp hi).1
  refine eq_of_contents_eq ?_ ?_
  · simp only [contents_apply]
    exact Contents.edit_comm hplace hcode
  · -- neither the patch itself nor the answer to the edit makes a difference to the phase
    simp only [phase_apply_iff, reply_apply_patch, Edit.isPatch, true_or, and_true]

/-- The second of two patches of one place is all that is seen of them. -/
theorem apply_patch_patch (value' : Operand) :
    ((b.apply (.patch index slot value)).1.apply (.patch index slot value')).1
      = (b.apply (.patch index slot value')).1 := by
  refine eq_of_contents_eq ?_ ?_
  · simp only [contents_apply]
    exact Contents.edit_patch_patch value'
  · simp only [phase_apply_iff, Edit.isPatch, true_or, and_true]

/-! ## Any number of edits -/

/-- A patch that is accepted can be put off as long as its place is not overwritten. -/
theorem run_patch_append {edits : List Edit}
    (hdone : (b.apply (.patch index slot value)).2 = .done)
    (hplace : ∀ edit ∈ edits, edit.place? ≠ some (index, slot)) :
    b.run (edits ++ [Edit.patch index slot value]) = b.run (Edit.patch index slot value :: edits)
      ∧ b.replies (edits ++ [Edit.patch index slot value]) = b.replies edits ++ [.done]
      ∧ (b.apply (.patch index slot value)).1.replies edits = b.replies edits := by
  induction edits generalizing b with
  | nil =>
      refine ⟨rfl, ?_, rfl⟩
      show [(b.apply (.patch index slot value)).2] = [.done]
      rw [hdone]
  | cons edit edits ih =>
      obtain ⟨hedit, hedits⟩ := List.forall_mem_cons.mp hplace
      obtain ⟨hrun, hreplies, hsame⟩ := ih (reply_patch_apply_eq_done hdone edit) hedits
      have hcomm := apply_patch_comm hedit (.inr hdone)
      refine ⟨?_, ?_, ?_⟩
      · rw [List.cons_append, run_cons, hrun, run_cons, run_cons, run_cons, hcomm]
      · rw [List.cons_append, replies, hreplies, replies, List.cons_append]
      · rw [replies, reply_apply_patch, hcomm, hsame, replies]

/-! ## Emitting the operand at once -/

section Push
variable {i j : Instruction}

/-- The entry that was appended last, exchanged for another. -/
theorem replace_push (hroom : b.HasRoom .code) (hindex : index.toNat = b.function.code.size) :
    (b.push i hroom).replace index j = b.push j hroom := by
  have hcode : (b.function.code.push i).setIfInBounds b.function.code.size j
      = b.function.code.push j := by
    refine Array.ext_getElem? fun k => ?_
    rw [Array.getElem?_setIfInBounds, Array.getElem?_push, Array.getElem?_push, Array.size_push]
    by_cases hk : b.function.code.size = k
    · simp [hk]
    · simp [hk, Ne.symm hk]
  simp only [replace, push, hindex, hcode]

/-- An instruction that is patched right after it was appended is the instruction
with that operand. -/
theorem apply_push_patch (hsame : i.SameBut slot j) (hvalue : j.operand? slot = some value)
    (hpush : (b.apply (.push i)).2 = .appended index) :
    (b.apply (.push j)).2 = .appended index
      ∧ ((b.apply (.push i)).1.apply (.patch index slot value)).1 = (b.apply (.push j)).1
      ∧ ((b.apply (.push i)).1.apply (.patch index slot value)).2 = .done := by
  obtain ⟨hsize, hindex⟩ := (reply_eq_appended_iff rfl).mp hpush
  refine ⟨(reply_eq_appended_iff rfl).mpr ⟨hsize, hindex⟩, ?_⟩
  have hroom : b.HasRoom .code := hsize
  have hlast : (b.push i hroom).function.code[index.toNat]? = some i := by
    rw [hindex]
    exact Array.getElem?_push_size
  have hpatch : (b.push i hroom).patch index slot value = .ok (b.push j hroom) :=
    patch_eq_ok_iff.mpr ⟨i, j, hlast, hsame.set_eq_ok hvalue, (replace_push hroom hindex).symm⟩
  have hfirst : (b.apply (.push i)).1 = b.push i hroom := by rw [apply, dif_pos hroom]
  have hfinal : (b.apply (.push j)).1 = b.push j hroom := by rw [apply, dif_pos hroom]
  rw [hfirst, hfinal, apply_patch_of_ok hpatch]
  exact ⟨rfl, rfl⟩

/-- A placeholder that is patched later is as good as the operand itself. -/
theorem run_push_patch {edits : List Edit} (hsame : i.SameBut slot j)
    (hvalue : j.operand? slot = some value) (hpush : (b.apply (.push i)).2 = .appended index)
    (hplace : ∀ edit ∈ edits, edit.place? ≠ some (index, slot)) :
    b.run (Edit.push i :: edits ++ [Edit.patch index slot value]) = b.run (Edit.push j :: edits)
      ∧ b.replies (Edit.push i :: edits ++ [Edit.patch index slot value])
        = b.replies (Edit.push j :: edits) ++ [.done] := by
  obtain ⟨hreply, hfirst, hdone⟩ := apply_push_patch hsame hvalue hpush
  obtain ⟨hrun, hreplies, hsame'⟩ := run_patch_append hdone hplace
  constructor
  · rw [List.cons_append, run_cons, hrun, run_cons, hfirst, run_cons]
  · rw [List.cons_append, replies, hreplies, hpush, ← hsame', hfirst, replies, hreply,
      List.cons_append]

end Push

/-! ## Patches only -/

/-- A patch leaves no trace once its place is patched again, whatever is done
before that. -/
theorem run_apply_patch (b : Builder) (edits : List Edit) (index : Operand) (slot : Nat)
    (value value' : Operand) :
    (b.apply (.patch index slot value)).1.run (edits ++ [Edit.patch index slot value'])
        = b.run (edits ++ [Edit.patch index slot value'])
      ∧ (b.apply (.patch index slot value)).1.replies (edits ++ [Edit.patch index slot value'])
        = b.replies (edits ++ [Edit.patch index slot value']) := by
  induction edits generalizing b with
  | nil =>
      refine ⟨apply_patch_patch value', ?_⟩
      simp only [List.nil_append, replies, reply_apply_patch]
  | cons edit edits ih =>
      simp only [List.cons_append, run_cons, replies, reply_apply_patch]
      by_cases hplace : edit.place? = some (index, slot)
      · cases edit with
        | setArgs | setUpvalues | pushInt | pushStr | push => cases hplace
        | patch =>
            cases hplace
            rw [apply_patch_patch]
            exact ⟨rfl, rfl⟩
      · rcases reply_patch_done_or_isRefusal b index slot value with hdone | hrefusal
        · obtain ⟨hrun, hreplies⟩ := ih (b.apply edit).1
          rw [apply_patch_comm hplace (.inr hdone), hrun, hreplies]
          exact ⟨rfl, rfl⟩
        · rw [apply_of_isRefusal hrefusal]
          exact ⟨rfl, rfl⟩

/-- Patches of different places can be made in any order, and each is answered as
if it were the only one. -/
theorem run_perm_of_patches (b : Builder) {patches patches' : List Edit}
    (hperm : patches.Perm patches') (hpatches : ∀ edit ∈ patches, edit.isPatch)
    (hplaces : (patches.map Edit.place?).Nodup) :
    b.run patches = b.run patches' := by
  refine hperm.foldl_eq' (fun edit hedit edit' hedit' b => ?_) b
  by_cases heq : edit = edit'
  · rw [heq]
  · have hplace : edit'.place? ≠ edit.place? := fun h =>
      heq (List.inj_on_of_nodup_map hplaces hedit hedit' h.symm)
    cases edit with
    | setArgs | setUpvalues | pushInt | pushStr | push => cases hpatches _ hedit
    | patch index slot value => exact apply_patch_comm hplace (.inl (hpatches _ hedit'))

theorem replies_of_patches (b : Builder) {patches : List Edit}
    (hpatches : ∀ edit ∈ patches, edit.isPatch) :
    b.replies patches = patches.map fun edit => (b.apply edit).2 := by
  induction patches generalizing b with
  | nil => rfl
  | cons edit patches ih =>
      obtain ⟨hedit, hrest⟩ := List.forall_mem_cons.mp hpatches
      cases edit with
      | setArgs | setUpvalues | pushInt | pushStr | push => cases hedit
      | patch index slot value =>
          rw [replies, ih _ hrest, List.map_cons]
          congr 1
          exact List.map_congr_left fun edit _ => reply_apply_patch edit

/-! ## Backpatching -/

/-- Whatever a builder holds.  An instruction that is emitted with any operand in a
slot, and patched there after any edits of other places, leaves the builder that the
instruction with the final operand leaves, and every edit gets the same answer.  A
patch that is accepted can be put off past edits of other places.  Patches of
different places can be made in any order, each answered as if it were alone.  Of two
patches of one place the second alone counts, whatever is done in between. -/
theorem backpatch_exact (b : Builder) :
    (∀ (placeholder final : Instruction) (index value : Operand) (slot : Nat) (edits : List Edit),
        placeholder.SameBut slot final → final.operand? slot = some value →
        (b.apply (.push placeholder)).2 = .appended index →
        (∀ edit ∈ edits, edit.place? ≠ some (index, slot)) →
        b.run (Edit.push placeholder :: edits ++ [Edit.patch index slot value])
            = b.run (Edit.push final :: edits)
          ∧ b.replies (Edit.push placeholder :: edits ++ [Edit.patch index slot value])
            = b.replies (Edit.push final :: edits) ++ [.done])
      ∧ (∀ (index value : Operand) (slot : Nat) (edits : List Edit),
        (b.apply (.patch index slot value)).2 = .done →
        (∀ edit ∈ edits, edit.place? ≠ some (index, slot)) →
        b.run (edits ++ [Edit.patch index slot value])
            = b.run (Edit.patch index slot value :: edits)
          ∧ b.replies (edits ++ [Edit.patch index slot value]) = b.replies edits ++ [.done]
          ∧ b.replies (Edit.patch index slot value :: edits) = .done :: b.replies edits)
      ∧ (∀ patches patches' : List Edit, (∀ edit ∈ patches, edit.isPatch) →
        (patches.map Edit.place?).Nodup → patches.Perm patches' →
        b.run patches = b.run patches'
          ∧ b.replies patches = patches.map (fun edit => (b.apply edit).2)
          ∧ b.replies patches' = patches'.map (fun edit => (b.apply edit).2))
      ∧ ∀ (index value value' : Operand) (slot : Nat) (edits : List Edit),
        b.run (Edit.patch index slot value :: edits ++ [Edit.patch index slot value'])
            = b.run (edits ++ [Edit.patch index slot value'])
          ∧ b.replies (Edit.patch index slot value :: edits ++ [Edit.patch index slot value'])
            = (b.apply (.patch index slot value)).2
              :: b.replies (edits ++ [Edit.patch index slot value']) := by
  refine ⟨?_, ?_, ?_, ?_⟩
  · intro placeholder final index value slot edits hsame hvalue hpush hplace
    exact run_push_patch hsame hvalue hpush hplace
  · intro index value slot edits hdone hplace
    obtain ⟨hrun, hreplies, hsame⟩ := run_patch_append hdone hplace
    exact ⟨hrun, hreplies, by rw [replies, hdone, hsame]⟩
  · intro patches patches' hpatches hplaces hperm
    have hpatches' : ∀ edit ∈ patches', edit.isPatch := fun edit hedit =>
      hpatches edit (hperm.mem_iff.mpr hedit)
    exact ⟨run_perm_of_patches b hperm hpatches hplaces, replies_of_patches b hpatches,
      replies_of_patches b hpatches'⟩
  · intro index value value' slot edits
    obtain ⟨hrun, hreplies⟩ := run_apply_patch b edits index slot value value'
    exact ⟨hrun, congrArg _ hreplies⟩

/-- A function is taken up again.  A conditional jump is emitted before its target is
known; a patch of its other operand, a patch that is refused and other instructions
come before the target is filled in.  A patch of the first instruction is put off past
the same edits, and three patches change places. -/
theorem backpatch_exact_forward_jump :
    let b := ofFunction ⟨0, 0, #[], #[], #[⟨.jf, [7, 0], rfl⟩]⟩
    let placeholder : Instruction := ⟨.jt, [7, 65535], rfl⟩
    let final : Instruction := ⟨.jt, [7, 3], rfl⟩
    let edits : List Edit := [Edit.patch 1 0 9, .pushInt 5, .patch 9 1 4,
      .push ⟨.retv, [], rfl⟩, .patch 0 1 3, .push ⟨.jtarg, [], rfl⟩]
    let patches : List Edit := [Edit.patch 0 0 8, .patch 5 0 1, .patch 0 1 2]
    (b.apply (.push placeholder)).2 = .appended 1
      ∧ b.run (Edit.push placeholder :: edits ++ [Edit.patch 1 1 3])
        = b.run (Edit.push final :: edits)
      ∧ b.replies (Edit.push placeholder :: edits ++ [Edit.patch 1 1 3])
        = b.replies (Edit.push final :: edits) ++ [.done]
      ∧ b.run (edits ++ [Edit.patch 0 0 8]) = b.run (Edit.patch 0 0 8 :: edits)
      ∧ b.run patches = b.run patches.reverse := by
  intro b placeholder final edits patches
  have hpush : (b.apply (.push placeholder)).2 = .appended 1 := by decide
  have hsame : placeholder.SameBut 1 final := by
    refine ⟨rfl, fun slot hslot => ?_⟩
    rcases slot with _ | _ | slot
    · rfl
    · exact (hslot rfl).elim
    · rfl
  obtain ⟨hemitted, hdeferred, hpermuted, _⟩ := backpatch_exact b
  obtain ⟨hrun, hreplies⟩ :=
    hemitted placeholder final 1 3 1 edits hsame rfl hpush (by decide)
  obtain ⟨hrun', _⟩ := hdeferred 0 8 0 edits (by decide) (by decide)
  obtain ⟨hrun'', _⟩ :=
    hpermuted patches patches.reverse (by decide) (by decide) patches.reverse_perm.symm
  exact ⟨hpush, hrun, hreplies, hrun', hrun''⟩

end Builder

end Wordcode
