/-
# Patching — one pass over the operands that wait

The second loop of assembly.  Two operands that wait never stand at one place,
so a later patch does not undo an earlier one: in the end every place that
waited holds the index of its label and every other place what it held before
(`Patched`).

`Reflects.exists_finish_iff` and `Reflects.finish` put the two loops together:
a state that reflects readable lines can be finished exactly if every label
that is referred to is defined, and then the lines denote the result.
-/
import Wordcode.Proofs.Assembly.Reading
import Wordcode.Proofs.Builder.Patch

namespace Wordcode

namespace Assembly

variable {labels : Std.HashMap String Operand} {fixup : Fixup} {fixups : List Fixup}
  {b b' : Builder}

/-! ## The patching loop -/

/-- The place that an operand waits for. -/
def Fixup.place (fixup : Fixup) : Nat × Nat := (fixup.index.toNat, fixup.slot)

theorem patchFixup_eq_ok_iff : patchFixup labels b fixup = .ok b' ↔
    ∃ target, labels[fixup.label]? = some target
      ∧ b.patch fixup.index fixup.slot target = .ok b' := by
  unfold patchFixup
  cases labels[fixup.label]? with
  | none => exact ⟨nofun, nofun⟩
  | some target =>
      cases hpatch : b.patch fixup.index fixup.slot target with
      | error e => simp [hpatch]
      | ok b₁ => simp [hpatch]

theorem exists_patchFixup_iff : (∃ b', patchFixup labels b fixup = .ok b') ↔
    (∃ target, labels[fixup.label]? = some target)
      ∧ (b.function.operandAt? fixup.index.toNat fixup.slot).isSome := by
  simp only [patchFixup_eq_ok_iff]
  constructor
  · rintro ⟨b', target, htarget, hpatch⟩
    exact ⟨⟨target, htarget⟩, Builder.exists_patch_iff.mp ⟨b', hpatch⟩⟩
  · rintro ⟨⟨target, htarget⟩, hplace⟩
    obtain ⟨b', hpatch⟩ := Builder.exists_patch_iff.mpr hplace
    exact ⟨b', target, htarget, hpatch⟩

/-- A patch moves no place. -/
theorem isSome_operandAt?_patchFixup (h : patchFixup labels b fixup = .ok b') (k slot : Nat) :
    (b'.function.operandAt? k slot).isSome = (b.function.operandAt? k slot).isSome := by
  obtain ⟨target, _, hpatch⟩ := patchFixup_eq_ok_iff.mp h
  exact (Builder.updated_of_patch hpatch).isSome_operandAt?
    (Builder.exists_patch_iff.mp ⟨b', hpatch⟩) k slot

theorem isSome_operandAt?_patchFixups (h : fixups.foldlM (patchFixup labels) b = .ok b')
    (k slot : Nat) :
    (b'.function.operandAt? k slot).isSome = (b.function.operandAt? k slot).isSome := by
  induction fixups generalizing b with
  | nil =>
      cases h
      rfl
  | cons fixup fixups ih =>
      rw [List.foldlM_cons, bind_eq_ok_iff] at h
      obtain ⟨b₁, hfirst, hrest⟩ := h
      exact (ih hrest).trans (isSome_operandAt?_patchFixup hfirst k slot)

/-- The loop goes through exactly if every label is defined and every place
exists. -/
theorem exists_patchFixups_iff : (∃ b', fixups.foldlM (patchFixup labels) b = .ok b') ↔
    ∀ fixup ∈ fixups, (∃ target, labels[fixup.label]? = some target)
      ∧ (b.function.operandAt? fixup.index.toNat fixup.slot).isSome := by
  induction fixups generalizing b with
  | nil => exact ⟨fun _ => nofun, fun _ => ⟨b, rfl⟩⟩
  | cons fixup fixups ih =>
      rw [List.forall_mem_cons, ← exists_patchFixup_iff]
      simp only [List.foldlM_cons, bind_eq_ok_iff]
      -- a patch moves no place, so the rest can be asked for before it
      constructor
      · rintro ⟨b', b₁, hfirst, hrest⟩
        have hall := ih.mp ⟨b', hrest⟩
        simp only [isSome_operandAt?_patchFixup hfirst] at hall
        exact ⟨⟨b₁, hfirst⟩, hall⟩
      · rintro ⟨⟨b₁, hfirst⟩, hall⟩
        simp only [← isSome_operandAt?_patchFixup hfirst] at hall
        obtain ⟨b', hrest⟩ := ih.mpr hall
        exact ⟨b', b₁, hfirst, hrest⟩

/-- What the loop makes of a function. -/
structure Patched (labels : Std.HashMap String Operand) (fixups : List Fixup)
    (f f' : Function) : Prop where
  args : f'.args = f.args
  upvalues : f'.upvalues = f.upvalues
  ints : f'.ints = f.ints
  strs : f'.strs = f.strs
  opcodes : f'.opcodes = f.opcodes
  /-- A place that waited holds the index of its label. -/
  hit : ∀ fixup ∈ fixups, ∃ target, labels[fixup.label]? = some target
    ∧ f'.operandAt? fixup.index.toNat fixup.slot = some target
  /-- A place that did not wait holds what it held. -/
  miss : ∀ k slot, (k, slot) ∉ fixups.map Fixup.place →
    f'.operandAt? k slot = f.operandAt? k slot

/-- One more operand before those that were patched. -/
theorem Patched.cons {f f₁ f' : Function} {target : Operand}
    (hplaces : ∀ other ∈ fixups, other.place = fixup.place → other.label = fixup.label)
    (htarget : labels[fixup.label]? = some target)
    (hfirst : f.Updated f₁ fixup.index.toNat fixup.slot target)
    (hrest : Patched labels fixups f₁ f') : Patched labels (fixup :: fixups) f f' := by
  refine ⟨hrest.args.trans hfirst.args, hrest.upvalues.trans hfirst.upvalues,
    hrest.ints.trans hfirst.ints, hrest.strs.trans hfirst.strs,
    hrest.opcodes.trans hfirst.opcodes, List.forall_mem_cons.mpr ⟨?_, hrest.hit⟩,
    fun k slot hnot => ?_⟩
  · by_cases hagain : fixup.place ∈ fixups.map Fixup.place
    · obtain ⟨other, hother, hplace⟩ := List.mem_map.mp hagain
      have hhit := hrest.hit other hother
      rw [hplaces other hother hplace, (Prod.mk.inj hplace).1, (Prod.mk.inj hplace).2] at hhit
      exact hhit
    · refine ⟨target, htarget, ?_⟩
      rw [hrest.miss _ _ hagain, hfirst.operandAt?, if_pos ⟨rfl, rfl⟩]
  · rw [List.map_cons, List.mem_cons, not_or] at hnot
    rw [hrest.miss k slot hnot.2, hfirst.operandAt?, if_neg]
    rintro ⟨rfl, rfl⟩
    exact hnot.1 rfl

theorem patched_of_patchFixups
    (hplaces : ∀ x ∈ fixups, ∀ y ∈ fixups, x.place = y.place → x.label = y.label)
    (h : fixups.foldlM (patchFixup labels) b = .ok b') :
    Patched labels fixups b.function b'.function := by
  induction fixups generalizing b with
  | nil =>
      cases h
      exact ⟨rfl, rfl, rfl, rfl, rfl, nofun, fun _ _ _ => rfl⟩
  | cons fixup fixups ih =>
      rw [List.foldlM_cons, bind_eq_ok_iff] at h
      obtain ⟨b₁, hfirst, hrest⟩ := h
      obtain ⟨target, htarget, hpatch⟩ := patchFixup_eq_ok_iff.mp hfirst
      refine Patched.cons (fun other hother hplace => ?_) htarget
        (Builder.updated_of_patch hpatch) (ih (fun x hx y hy => ?_) hrest)
      · exact hplaces other (List.mem_cons_of_mem _ hother) fixup (List.mem_cons_self ..) hplace
      · exact hplaces x (List.mem_cons_of_mem _ hx) y (List.mem_cons_of_mem _ hy)

end Assembly

/-! ## Places of a listing -/

namespace Listing

open Assembly

/-- The expression in a slot of an instruction. -/
def exprAt? (ls : Listing) (k slot : Nat) : Option OperandExpr :=
  ls.instructions[k]?.bind (·.operands[slot]?)

variable {ls : Listing} {f : Function} {index? : String → Option Nat}

/-- Instructions of a listing stand for code exactly if the opcodes are the
same and the expression at every place stands for the operand there. -/
theorem forall₂_denotes_iff :
    List.Forall₂ (RawInstruction.Denotes index?) ls.instructions f.code.toList ↔
      f.opcodes = ls.instructions.map RawInstruction.opcode
        ∧ ∀ k slot, Option.Rel (OperandExpr.Denotes index?) (ls.exprAt? k slot)
            (f.operandAt? k slot) := by
  simp only [forall₂_iff_getElem?, exprAt?, Function.operandAt?, Function.opcodes,
    List.ext_getElem?_iff, List.getElem?_map, Array.getElem?_toList, ← forall_and]
  refine forall_congr' fun k => ?_
  cases ls.instructions[k]? with
  | none =>
      cases f.code[k]? with
      | none => exact ⟨fun _ => ⟨rfl, fun _ => .none⟩, fun _ => .none⟩
      | some i => simp
  | some raw =>
      cases f.code[k]? with
      | none => simp
      | some i =>
          constructor
          · rintro ⟨hopcode, hoperands⟩
            exact ⟨congrArg some hopcode.symm, forall₂_iff_getElem?.mp hoperands⟩
          · rintro ⟨hopcode, hoperands⟩
            exact .some ⟨(Option.some.inj hopcode).symm, forall₂_iff_getElem?.mpr hoperands⟩

/-- The operands that wait stand at the places that name a label. -/
theorem exists_fixup_iff (h : ls.Readable) {k slot : Nat} {name : String} :
    (∃ fixup ∈ ls.fixups, fixup.place = (k, slot) ∧ fixup.label = name) ↔
      ls.exprAt? k slot = some (.label name) := by
  -- an index of an instruction is small enough not to be wrapped
  have htoNat : ∀ {k raw}, ls.instructions[k]? = some raw → (UInt16.ofNat k).toNat = k := by
    intro k raw hraw
    obtain ⟨hk, _⟩ := List.getElem?_eq_some_iff.mp hraw
    exact UInt16.toNat_ofNat_of_lt' (Nat.lt_of_lt_of_le hk (h.tableSize_le .code))
  simp only [exprAt?, Option.bind_eq_some_iff]
  constructor
  · rintro ⟨fixup, hfixup, hplace, rfl⟩
    obtain ⟨j, raw, hj, hindex, hlabel⟩ := mem_fixups.mp hfixup
    have hraw : ls.instructions[j]? = some raw := by rw [getElem?_instructions, hj]; rfl
    obtain ⟨rfl, rfl⟩ := Prod.mk.inj hplace
    rw [hindex, htoNat hraw]
    exact ⟨raw, hraw, hlabel⟩
  · rintro ⟨raw, hraw, hlabel⟩
    have hnumbered := hraw
    rw [getElem?_instructions, Option.map_eq_some_iff] at hnumbered
    obtain ⟨⟨_, line⟩, hk, rfl⟩ := hnumbered
    refine ⟨⟨UInt16.ofNat k, slot, name, line⟩, mem_fixups.mpr ⟨k, _, hk, rfl, hlabel⟩, ?_, rfl⟩
    exact Prod.ext (htoNat hraw) rfl

/-- No two labels wait at one place. -/
theorem label_eq_of_place_eq (h : ls.Readable) {x y : Fixup} (hx : x ∈ ls.fixups)
    (hy : y ∈ ls.fixups) (hplace : x.place = y.place) : x.label = y.label := by
  have hxe := (exists_fixup_iff h).mp ⟨x, hx, rfl, rfl⟩
  have hye := (exists_fixup_iff h).mp ⟨y, hy, hplace.symm, rfl⟩
  rw [hxe] at hye
  exact OperandExpr.label.inj (Option.some.inj hye)

end Listing

/-! ## Both loops together -/

namespace Assembly

variable {s : State} {ls : Listing} {f : Function}

theorem State.finish_eq_ok_iff : s.finish = .ok f ↔
    ∃ b, s.fixups.toList.foldlM (patchFixup s.labels) s.builder = .ok b ∧ b.function = f := by
  simp only [finish, bind_eq_ok_iff, pure_eq_ok_iff]

theorem State.Reflects.operandAt? (h : s.Reflects ls) (k slot : Nat) :
    Option.Rel (OperandExpr.Denotes unresolved) (ls.exprAt? k slot)
      (s.builder.function.operandAt? k slot) :=
  (Listing.forall₂_denotes_iff.mp h.code).2 k slot

theorem State.Reflects.exists_getElem?_iff (h : s.Reflects ls) {name : String} :
    (∃ target, s.labels[name]? = some target) ↔ name ∈ ls.labels := by
  rw [← h.contains_iff, Std.HashMap.contains_eq_isSome_getElem?, Option.isSome_iff_exists]

/-- An operand that waits stands at a place that exists. -/
theorem State.Reflects.isSome_operandAt? (h : s.Reflects ls) (hreadable : ls.Readable)
    {fixup : Fixup} (hfixup : fixup ∈ ls.fixups) :
    (s.builder.function.operandAt? fixup.index.toNat fixup.slot).isSome := by
  have hexpr := (Listing.exists_fixup_iff hreadable).mp ⟨fixup, hfixup, rfl, rfl⟩
  have hrel := h.operandAt? fixup.index.toNat fixup.slot
  rw [hexpr] at hrel
  generalize s.builder.function.operandAt? _ _ = operand? at hrel
  obtain @⟨_, a, _⟩ := hrel
  rfl

/-- Operands that wait can be patched exactly if their labels are defined. -/
theorem State.Reflects.exists_patchFixups_iff (h : s.Reflects ls) (hreadable : ls.Readable)
    {fixups : List Fixup} (hfixups : ∀ fixup ∈ fixups, fixup ∈ ls.fixups) :
    (∃ b, fixups.foldlM (patchFixup s.labels) s.builder = .ok b) ↔
      ∀ fixup ∈ fixups, fixup.label ∈ ls.labels := by
  rw [Assembly.exists_patchFixups_iff]
  simp only [h.exists_getElem?_iff]
  constructor
  · intro hall fixup hfixup
    exact (hall fixup hfixup).1
  · intro hall fixup hfixup
    exact ⟨hall fixup hfixup, h.isSome_operandAt? hreadable (hfixups fixup hfixup)⟩

/-- What was read can be finished exactly if every label referred to is
defined. -/
theorem State.Reflects.exists_finish_iff (h : s.Reflects ls) (hreadable : ls.Readable) :
    (∃ f, s.finish = .ok f) ↔ ls.WellFormed := by
  simp only [finish_eq_ok_iff, exists_comm (α := Function), exists_and_left, exists_eq', and_true]
  rw [h.fixups, h.exists_patchFixups_iff hreadable fun _ hfixup => hfixup]
  constructor
  · intro hall
    refine ⟨hreadable, fun raw hraw name hname => ?_⟩
    obtain ⟨k, hk⟩ := List.mem_iff_getElem?.mp hraw
    obtain ⟨slot, hslot⟩ := List.mem_iff_getElem?.mp hname
    obtain ⟨fixup, hfixup, _, rfl⟩ := (Listing.exists_fixup_iff hreadable).mpr
      (Option.bind_eq_some_iff.mpr ⟨raw, hk, hslot⟩)
    exact hall fixup hfixup
  · intro hls fixup hfixup
    have hexpr := (Listing.exists_fixup_iff hreadable).mp ⟨fixup, hfixup, rfl, rfl⟩
    obtain ⟨raw, hraw, hslot⟩ := Option.bind_eq_some_iff.mp hexpr
    exact hls.labels_defined raw (List.mem_of_getElem? hraw) _ (List.mem_of_getElem? hslot)

/-- After the patches every operand stands for its expression, labels included. -/
theorem State.Reflects.operandAt?_patched (h : s.Reflects ls) (hreadable : ls.Readable)
    (hpatched : Patched s.labels ls.fixups s.builder.function f) (k slot : Nat) :
    Option.Rel (OperandExpr.Denotes ls.labelIndex?) (ls.exprAt? k slot)
      (f.operandAt? k slot) := by
  have hold := h.operandAt? k slot
  have hmiss : (∀ name, ls.exprAt? k slot ≠ some (.label name)) →
      f.operandAt? k slot = s.builder.function.operandAt? k slot := by
    intro hnot
    refine hpatched.miss k slot fun hmem => ?_
    obtain ⟨fixup, hfixup, hplace⟩ := List.mem_map.mp hmem
    exact hnot _ ((Listing.exists_fixup_iff hreadable).mp ⟨fixup, hfixup, hplace, rfl⟩)
  match hexpr : ls.exprAt? k slot with
  | some (.label name) =>
      obtain ⟨fixup, hfixup, hplace, rfl⟩ := (Listing.exists_fixup_iff hreadable).mpr hexpr
      obtain ⟨rfl, rfl⟩ := Prod.mk.inj hplace
      obtain ⟨target, htarget, hoperand⟩ := hpatched.hit fixup hfixup
      rw [hoperand]
      exact .some (by rw [OperandExpr.Denotes, ← h.labels, htarget, Option.map_some])
  | some (.number value) =>
      rw [hmiss (by simp [hexpr])]
      rw [hexpr] at hold
      generalize s.builder.function.operandAt? k slot = operand? at hold ⊢
      obtain @⟨_, a, ha⟩ := hold
      exact .some ha
  | none =>
      rw [hmiss (by simp [hexpr])]
      rw [hexpr] at hold
      generalize s.builder.function.operandAt? k slot = operand? at hold ⊢
      cases hold
      exact .none

/-- What is finished is what the lines denote. -/
theorem State.Reflects.finish (h : s.Reflects ls) (hreadable : ls.Readable)
    (hf : s.finish = .ok f) : ls.Denotes f := by
  obtain ⟨b, hpatches, rfl⟩ := finish_eq_ok_iff.mp hf
  rw [h.fixups] at hpatches
  have hpatched := patched_of_patchFixups
    (fun x hx y hy => Listing.label_eq_of_place_eq hreadable hx hy) hpatches
  refine ⟨hpatched.args.trans h.args, hpatched.upvalues.trans h.upvalues,
    hpatched.ints ▸ h.ints, hpatched.strs ▸ h.strs, Listing.forall₂_denotes_iff.mpr ⟨?_, ?_⟩⟩
  · exact hpatched.opcodes.trans (Listing.forall₂_denotes_iff.mp h.code).1
  · exact h.operandAt?_patched hreadable hpatched

end Assembly

end Wordcode
