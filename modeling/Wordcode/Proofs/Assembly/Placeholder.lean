/-
# Placeholders — instructions whose labels are not resolved yet

While a listing is read, an instruction is built with zero for every operand
that names a label, and the operand is noted as one that waits.  Said without
the loop: a placeholder is what the instruction denotes when every label stands
for zero (`placeholder_eq_ok_iff`), and the operands that wait are the places
where the instructions of the listing name a label (`mem_fixups`).
-/
import Wordcode.Assembly
import Wordcode.Proofs.Traversal
import Wordcode.Proofs.Listing.Meaning

namespace Wordcode

namespace Assembly

/-! ## Placeholders -/

/-- Where every label stands before it is resolved. -/
def unresolved (_ : String) : Option Nat := some 0

theorem operandValue_eq_ok_iff {op : Opcode} {slot : Nat} {e : OperandExpr} {a : Operand} :
    operandValue op slot e = .ok a ↔
      (∀ name, e = .label name → op.operandKinds[slot]? = some .target)
        ∧ e.Denotes unresolved a := by
  cases e with
  | number value =>
      have hfits := Text.uint16?_eq_some_iff (n := value) (v := a)
      cases h : Text.uint16? value with
      | none | some _ =>
          rw [h] at hfits
          simpa [operandValue, h, OperandExpr.Denotes] using hfits
  | label name =>
      by_cases h : op.operandKinds[slot]? = some .target
      · simp [operandValue, h, OperandExpr.Denotes, unresolved, ← UInt16.toNat_inj]
      · simp [operandValue, h]

/-- Operands stand for values, and labels only where targets are held. -/
theorem mapM_operandValue_eq_ok_iff {op : Opcode} {es : List OperandExpr} {values : List Operand} :
    (es.zipIdx.mapM fun (e, slot) => operandValue op slot e) = .ok values ↔
      (∀ (slot : Nat) (name : String), es[slot]? = some (.label name) →
        op.operandKinds[slot]? = some .target)
        ∧ List.Forall₂ (OperandExpr.Denotes unresolved) es values := by
  simp only [mapM_eq_ok_iff, operandValue_eq_ok_iff, List.forall₂_and_left]
  refine and_congr ⟨fun h slot name he => ?_, fun h p hp name hname => ?_⟩ ?_
  · exact h (.label name, slot) (List.mem_zipIdx_iff_getElem?.mpr he) name rfl
  · exact h p.2 name (hname ▸ List.mem_zipIdx_iff_getElem?.mp hp)
  · conv_rhs => rw [← List.zipIdx_map_fst 0 es, List.forall₂_map_left_iff]

theorem numbers_fit_of_denotes {index? : String → Option Nat} {raw : RawInstruction}
    {i : Instruction} (h : raw.Denotes index? i) (value : Int)
    (hvalue : .number value ∈ raw.operands) : 0 ≤ value ∧ value ≤ 65535 := by
  obtain ⟨slot, hslot⟩ := List.mem_iff_getElem?.mp hvalue
  have hrel := forall₂_iff_getElem?.mp h.operands slot
  rw [hslot] at hrel
  generalize i.operands[slot]? = operand? at hrel
  obtain @⟨_, a, rfl⟩ := hrel
  have ha : a.toNat < 65536 := a.toNat_lt_size
  omega

/-- A placeholder can be built exactly for an instruction that keeps the rules,
and it is that instruction with every label at zero. -/
theorem placeholder_eq_ok_iff {raw : RawInstruction} {i : Instruction} :
    placeholder raw = .ok i ↔ raw.WellShaped ∧ raw.Denotes unresolved i := by
  rw [placeholder, bind_eq_ok_iff]
  constructor
  · rintro ⟨values, hvalues, h⟩
    obtain ⟨hopcode, rfl⟩ : i.opcode = raw.opcode ∧ i.operands = values := by
      cases hi : Instruction.ofOperands raw.opcode values with
      | error e => rw [hi] at h; cases h
      | ok i' => rw [hi] at h; cases h; exact Instruction.ofOperands_eq_ok_iff.mp hi
    obtain ⟨htargets, hoperands⟩ := mapM_operandValue_eq_ok_iff.mp hvalues
    have hdenotes : raw.Denotes unresolved i := ⟨hopcode.symm, hoperands⟩
    refine ⟨⟨numbers_fit_of_denotes hdenotes, htargets, ?_⟩, hdenotes⟩
    rw [hoperands.length_eq, i.length_operands, hopcode]
  · rintro ⟨hshape, hopcode, hoperands⟩
    refine ⟨i.operands, mapM_operandValue_eq_ok_iff.mpr ⟨hshape.labels_at_targets, hoperands⟩, ?_⟩
    rw [Instruction.ofOperands_eq_ok_iff.mpr ⟨hopcode.symm, rfl⟩]

/-- The operand that is built for an expression before any label is known. -/
def provisional : OperandExpr → Operand
  | .number value => UInt16.ofNat value.toNat
  | .label _ => 0

theorem exists_denotes_unresolved {raw : RawInstruction} (h : raw.WellShaped) :
    ∃ i, raw.Denotes unresolved i := by
  have hdenotes : List.Forall₂ (OperandExpr.Denotes unresolved) raw.operands
      (raw.operands.map provisional) := by
    refine List.forall₂_map_right_iff.mpr (List.forall₂_same.mpr fun e he => ?_)
    cases e with
    | number n =>
        obtain ⟨hlo, hhi⟩ := h.numbers_fit n he
        show n = (UInt16.ofNat n.toNat).toNat
        rw [UInt16.toNat_ofNat_of_lt' (by show n.toNat < 65536; omega)]
        omega
    | label name => rfl
  exact ⟨⟨raw.opcode, raw.operands.map provisional, by rw [List.length_map, h.length_operands]⟩,
    rfl, hdenotes⟩

/-! ## Waiting operands -/

theorem mem_waiting {index : Operand} {line : Nat} {raw : RawInstruction} {fixup : Fixup} :
    fixup ∈ waiting index line raw ↔
      fixup.index = index ∧ fixup.line = line
        ∧ raw.operands[fixup.slot]? = some (.label fixup.label) := by
  rw [waiting, List.mem_filterMap]
  constructor
  · rintro ⟨⟨e, slot⟩, hp, hfixup⟩
    have he : raw.operands[slot]? = some e := List.mem_zipIdx_iff_getElem?.mp hp
    cases e with
    | number _ => cases hfixup
    | label name => cases hfixup; exact ⟨rfl, rfl, he⟩
  · rintro ⟨rfl, rfl, hlabel⟩
    exact ⟨(.label fixup.label, fixup.slot), List.mem_zipIdx_iff_getElem?.mpr hlabel, rfl⟩

end Assembly

namespace Listing

open Assembly

/-- The instructions with the lines they stand on. -/
def numbered (ls : Listing) : List (RawInstruction × Nat) :=
  (ls.zipIdx 1).filterMap fun (l, line) => l.instruction?.map (·, line)

/-- The operands that wait once the lines are read. -/
def fixups (ls : Listing) : List Fixup :=
  ls.numbered.zipIdx.flatMap fun ((raw, line), index) => waiting (UInt16.ofNat index) line raw

variable {done ls : Listing} {l : Line}

theorem numbered_append_singleton : numbered (done ++ [l])
    = done.numbered ++ (l.instruction?.map (·, done.length + 1)).toList := by
  rw [numbered, List.zipIdx_append, List.filterMap_append, numbered, Nat.add_comm 1]
  rfl

theorem map_fst_numbered : ls.numbered.map Prod.fst = ls.instructions := by
  rw [numbered, List.map_filterMap, instructions]
  conv_rhs => rw [← List.zipIdx_map_fst 1 ls, List.filterMap_map]
  refine List.filterMap_congr fun p _ => ?_
  cases h : p.1.instruction? <;> simp [h]

theorem getElem?_instructions {k : Nat} :
    ls.instructions[k]? = ls.numbered[k]?.map Prod.fst := by
  rw [← map_fst_numbered, List.getElem?_map]

theorem fixups_append_singleton : fixups (done ++ [l]) = done.fixups
    ++ l.instruction?.toList.flatMap
        (waiting (UInt16.ofNat done.instructions.length) (done.length + 1)) := by
  have hlength : done.numbered.length = done.instructions.length := by
    rw [← map_fst_numbered, List.length_map]
  rw [fixups, numbered_append_singleton, List.zipIdx_append, List.flatMap_append, fixups]
  congr 1
  cases h : l.instruction? <;> simp [hlength]

/-- The operands that wait are those that name a label. -/
theorem mem_fixups {fixup : Fixup} : fixup ∈ ls.fixups ↔
    ∃ k raw, ls.numbered[k]? = some (raw, fixup.line) ∧ fixup.index = UInt16.ofNat k
      ∧ raw.operands[fixup.slot]? = some (.label fixup.label) := by
  rw [fixups, List.mem_flatMap]
  constructor
  · rintro ⟨⟨⟨raw, line⟩, k⟩, hp, hfixup⟩
    obtain ⟨hindex, hline, hlabel⟩ := mem_waiting.mp hfixup
    have hk := List.mem_zipIdx_iff_getElem?.mp hp
    exact ⟨k, raw, hline ▸ hk, hindex, hlabel⟩
  · rintro ⟨k, raw, hk, hindex, hlabel⟩
    exact ⟨((raw, fixup.line), k), List.mem_zipIdx_iff_getElem?.mpr hk,
      mem_waiting.mpr ⟨hindex, rfl, hlabel⟩⟩

end Listing

end Wordcode
