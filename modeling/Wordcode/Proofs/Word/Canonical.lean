/-
# Canonical words — one word for each instruction, and no other

A word is canonical if its lowest byte is the code of an opcode and everything
that this opcode does not use is zero.  These are exactly the words that hold
an instruction (`exists_decode_iff`), and each holds the one that it is the
word of (`decode_eq_ok_iff`).

A patch of an instruction writes to one used slot of its word and to nothing
else (`slots_encode_of_set`), so patches never lead out of the canonical words.
-/
import Wordcode.Proofs.Builder.Patch
import Wordcode.Proofs.Traversal

namespace Wordcode

/-! ## Words of instructions -/

/-- The word has the code of an opcode, and what the opcode does not use is
zero. -/
def Word.Canonical (w : Word) : Prop :=
  ∃ op : Opcode, w.opcodeByte = op.code ∧ w.reserved = 0 ∧ ∀ a ∈ w.slots.drop op.arity, a = 0

namespace Instruction

variable {i j : Instruction} {w : Word} {slot : Nat} {value : Operand}

theorem opcodeByte_encode (i : Instruction) : i.encode.opcodeByte = i.opcode.code :=
  Word.opcodeByte_pack ..

theorem reserved_encode (i : Instruction) : i.encode.reserved = 0 :=
  Word.reserved_pack ..

/-- The slots of the word are the operands, and zero where there is none. -/
theorem slots_encode (i : Instruction) :
    i.encode.slots = i.operands ++ List.replicate (3 - i.opcode.arity) 0 := by
  obtain ⟨op, operands, h⟩ := i
  have hle := op.arity_le_three
  rw [← h] at hle
  rw [encode, Word.slots_pack]
  dsimp only
  rw [← h]
  rcases operands with _ | ⟨a, _ | ⟨b, _ | ⟨c, _ | ⟨d, rest⟩⟩⟩⟩
  · rfl
  · rfl
  · rfl
  · rfl
  · simp only [List.length_cons] at hle
    omega

theorem canonical_encode (i : Instruction) : i.encode.Canonical := by
  refine ⟨i.opcode, i.opcodeByte_encode, i.reserved_encode, fun a ha => ?_⟩
  rw [i.slots_encode, ← i.length_operands, List.drop_left] at ha
  exact List.eq_of_mem_replicate ha

/-! ## Reading a word -/

/-- A word holds an instruction exactly if it is the word of that instruction. -/
theorem decode_eq_ok_iff : decode w = .ok i ↔ w = i.encode := by
  constructor
  · intro h
    exact (encode_of_decode h).symm
  · rintro rfl
    exact i.decode_encode

/-- The words that hold an instruction are the canonical ones. -/
theorem exists_decode_iff : (∃ i, decode w = .ok i) ↔ w.Canonical := by
  constructor
  · rintro ⟨i, hi⟩
    exact decode_eq_ok_iff.mp hi ▸ i.canonical_encode
  · rintro ⟨op, hop, hreserved, hdrop⟩
    have hlength : (w.slots.take op.arity).length = op.arity := by
      rw [List.length_take, w.length_slots, Nat.min_eq_left op.arity_le_three]
    refine ⟨⟨op, w.slots.take op.arity, hlength⟩, ?_⟩
    have hzero : ¬ (w.slots.drop op.arity).any (· ≠ 0) := by
      simpa using hdrop
    rw [decode, hop, Opcode.ofCode?_code]
    dsimp only
    rw [if_neg (not_not_intro hreserved), if_neg hzero, ofOperands_eq_ok_iff]
    exact ⟨rfl, rfl⟩

/-! ## Patching the instruction of a word -/

/-- The slots of a word after a patch: only a used slot can be written. -/
def writeSlot (used : Nat) (slots : List Operand) (patch : Nat × Operand) : List Operand :=
  if patch.1 < used then slots.set patch.1 patch.2 else slots

/-- A patch writes to its slot of the word. -/
theorem slots_encode_of_set (h : i.set slot value = .ok j) :
    j.encode.slots = i.encode.slots.set slot value := by
  obtain ⟨hslot, hopcode, hoperands⟩ := set_eq_ok_iff.mp h
  rw [← i.length_operands] at hslot
  rw [j.slots_encode, i.slots_encode, hopcode, hoperands, List.set_append_left _ _ hslot]

end Instruction

namespace Builder

variable {b : Builder} {index value : Operand} {slot : Nat} {i : Instruction}

/-- One patch, carried out or refused, of an instruction and of its word. -/
theorem getElem?_apply_patch (hi : b.function.code[index.toNat]? = some i) :
    ∃ j, (b.apply (.patch index slot value)).1.function.code[index.toNat]? = some j
      ∧ j.opcode = i.opcode
      ∧ j.encode.slots = Instruction.writeSlot i.opcode.arity i.encode.slots (slot, value) := by
  cases hpatch : b.patch index slot value with
  | error e =>
      rw [apply_patch_of_error hpatch]
      rcases patch_eq_error_iff.mp hpatch with ⟨hlength, _⟩ | ⟨i', hi', hslot, _⟩
      · rw [Array.getElem?_eq_none hlength] at hi
        cases hi
      · obtain rfl : i = i' := Option.some.inj (hi.symm.trans hi')
        exact ⟨i, hi, rfl, (if_neg (Nat.not_lt.mpr hslot)).symm⟩
  | ok b' =>
      rw [apply_patch_of_ok hpatch]
      obtain ⟨i', j, hi', hset, rfl⟩ := patch_eq_ok_iff.mp hpatch
      obtain rfl : i = i' := Option.some.inj (hi.symm.trans hi')
      obtain ⟨hslot, hopcode, _⟩ := Instruction.set_eq_ok_iff.mp hset
      refine ⟨j, ?_, hopcode, ?_⟩
      · exact (getElem?_replace hi _).trans (if_pos rfl)
      · exact (Instruction.slots_encode_of_set hset).trans (if_pos hslot).symm

/-- Any number of patches of an instruction, refused ones among them. -/
theorem getElem?_run_patches (hi : b.function.code[index.toNat]? = some i)
    (patches : List (Nat × Operand)) :
    ∃ j, (b.run (patches.map fun patch => .patch index patch.1 patch.2)).function.code[index.toNat]?
        = some j
      ∧ j.opcode = i.opcode
      ∧ j.encode.slots = patches.foldl (Instruction.writeSlot i.opcode.arity) i.encode.slots := by
  induction patches generalizing b i with
  | nil => exact ⟨i, hi, rfl, rfl⟩
  | cons patch patches ih =>
      obtain ⟨i₁, hi₁, hopcode₁, hslots₁⟩ := getElem?_apply_patch hi
      obtain ⟨j, hj, hopcode, hslots⟩ := ih hi₁
      rw [hopcode₁, hslots₁] at hslots
      exact ⟨j, hj, hopcode.trans hopcode₁, hslots⟩

end Builder

/-! ## Streams of words -/

namespace Word

variable {words : List Word} {is : List Instruction} {e : CodeError}

theorem forall₂_decode_iff :
    List.Forall₂ (fun w i => Instruction.decode w = .ok i) words is ↔
      words = is.map Instruction.encode := by
  simp only [Instruction.decode_eq_ok_iff]
  rw [← List.forall₂_map_right_iff (R := Eq), List.forall₂_eq_eq_eq]

/-- A stream holds instructions exactly if it is the stream of their words. -/
theorem decodeAll_eq_ok_iff : decodeAll words = .ok is ↔ words = is.map Instruction.encode := by
  rw [decodeAll, mapM_eq_ok_iff, forall₂_decode_iff]

/-- A stream is refused with the error of the first word that holds nothing. -/
theorem decodeAll_eq_error_iff : decodeAll words = .error e ↔
    ∃ (is : List Instruction) (w : Word) (rest : List Word),
      words = is.map Instruction.encode ++ w :: rest ∧ Instruction.decode w = .error e := by
  rw [decodeAll, mapM_eq_error_iff]
  simp only [forall₂_decode_iff]
  constructor
  · rintro ⟨_, w, rest, is, rfl, rfl, hw⟩
    exact ⟨is, w, rest, rfl, hw⟩
  · rintro ⟨is, w, rest, rfl, hw⟩
    exact ⟨_, w, rest, is, rfl, rfl, hw⟩

end Word

/-! ## The encoding as a whole -/

/-- Instructions and canonical words are in one-to-one correspondence.  A word
holds an instruction exactly if it is the word of it, with an operand in each
slot that the opcode uses; patches of an instruction, the refused ones among
them, write the same slots of its word and lead to an instruction that its word
holds again; and a stream of words is read exactly if it consists of words of
instructions, and else refused with the error of the first other word. -/
theorem Instruction.encoding_exact :
    (∀ (w : Word) (i : Instruction), decode w = .ok i ↔ w = i.encode)
      ∧ (∀ i : Instruction, i.operands.length = i.opcode.arity
          ∧ i.encode.slots = i.operands ++ List.replicate (3 - i.opcode.arity) 0)
      ∧ (∀ w : Word, (∃ i, decode w = .ok i) ↔ w.Canonical)
      ∧ (∀ (b : Builder) (index : Operand) (i : Instruction) (patches : List (Nat × Operand)),
          b.function.code[index.toNat]? = some i →
          ∃ j, (b.run (patches.map fun patch => .patch index patch.1 patch.2)).function.code[
              index.toNat]? = some j
            ∧ decode j.encode = .ok j ∧ j.opcode = i.opcode
            ∧ j.encode.slots = patches.foldl (writeSlot i.opcode.arity) i.encode.slots)
      ∧ (∀ (words : List Word) (is : List Instruction),
          Word.decodeAll words = .ok is ↔ words = is.map encode)
      ∧ (∀ (words : List Word) (e : CodeError), Word.decodeAll words = .error e ↔
          ∃ (is : List Instruction) (w : Word) (rest : List Word),
            words = is.map encode ++ w :: rest ∧ decode w = .error e)
      ∧ ∀ f : Function, Word.decodeAll f.words = .ok f.code.toList := by
  refine ⟨fun _ _ => decode_eq_ok_iff, fun i => ⟨i.length_operands, i.slots_encode⟩,
    fun _ => exists_decode_iff, fun b index i patches hi => ?_,
    fun _ _ => Word.decodeAll_eq_ok_iff, fun _ _ => Word.decodeAll_eq_error_iff,
    fun f => Word.decodeAll_eq_ok_iff.mpr rfl⟩
  obtain ⟨j, hj, hopcode, hslots⟩ := Builder.getElem?_run_patches hi patches
  exact ⟨j, hj, j.decode_encode, hopcode, hslots⟩

/-- A patch past the operands of a conditional jump, and one of its target. -/
theorem Instruction.encoding_exact_patched :
    let i : Instruction := ⟨.jf, [7, 0], rfl⟩
    let b : Builder := ⟨{ code := #[i] }, .building⟩
    b.function.code[(0 : Operand).toNat]? = some i
      ∧ ∃ j, (b.run [.patch 0 2 9, .patch 0 1 3]).function.code[(0 : Operand).toNat]? = some j
        ∧ decode j.encode = .ok j ∧ j.encode.slots = [7, 3, 0] := by
  intro i b
  obtain ⟨_, _, _, hpatches, _⟩ := encoding_exact
  obtain ⟨j, hj, hdecode, _, hslots⟩ := hpatches b 0 i [(2, 9), (1, 3)] rfl
  exact ⟨rfl, j, hj, hdecode, hslots.trans (by decide)⟩

end Wordcode
