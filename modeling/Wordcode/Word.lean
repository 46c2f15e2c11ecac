/-
# Words — the fixed-width form of instructions

An instruction takes one 64-bit word.  From the lowest bit up: the code of the
opcode in 8 bits, three operand slots of 16 bits, and 8 reserved bits.  The
reserved bits and the slots that the opcode does not use are zero, and
`decode` refuses a word in which they are not, so an instruction has one word
and no other: `decode_encode` and `encode_of_decode`.
-/
import Wordcode.Instruction

namespace Wordcode

/-- An instruction in its fixed-width form. -/
abbrev Word := UInt64

namespace Word

/-! ## Fields -/

/-- Where each operand slot starts, in bits from the lowest. -/
def slotShifts : List Nat := [8, 24, 40]

/-- Where the reserved bits start. -/
def reservedShift : Nat := 56

/-- The code of the opcode. -/
def opcodeByte (w : Word) : UInt8 := w.toUInt8

/-- The three operand slots. -/
def slots (w : Word) : List Operand :=
  slotShifts.map fun shift => (w >>> UInt64.ofNat shift).toUInt16

/-- The operand in a slot, if there is such a slot. -/
def slot? (w : Word) (i : Nat) : Option Operand := w.slots[i]?

/-- The reserved bits. -/
def reserved (w : Word) : UInt8 := (w >>> UInt64.ofNat reservedShift).toUInt8

/-- The word with the given fields and no reserved bit set.  The fields do not
overlap, so their sum puts them side by side. -/
def pack (op : Opcode) (a b c : Operand) : Word :=
  op.code.toUInt64 + a.toUInt64 <<< 8 + b.toUInt64 <<< 24 + c.toUInt64 <<< 40

/-! ## Fields of a packed word

The fields are read off the number that the word is, where `pack` is a sum of
disjoint multiples of powers of two. -/

theorem toNat_pack (op : Opcode) (a b c : Operand) :
    (pack op a b c).toNat
      = op.code.toNat + a.toNat * 256 + b.toNat * 16777216 + c.toNat * 1099511627776 := by
  have hop : op.code.toNat < 256 := op.code.toNat_lt_size
  have ha : a.toNat < 65536 := a.toNat_lt_size
  have hb : b.toNat < 65536 := b.toNat_lt_size
  have hc : c.toNat < 65536 := c.toNat_lt_size
  simp [pack, UInt64.toNat_add, UInt64.toNat_shiftLeft, Nat.shiftLeft_eq]
  omega

theorem toNat_opcodeByte (w : Word) : w.opcodeByte.toNat = w.toNat % 256 := by
  simp [opcodeByte]

theorem toNat_reserved (w : Word) : w.reserved.toNat = w.toNat / 72057594037927936 := by
  have hw : w.toNat < 18446744073709551616 := w.toNat_lt_size
  simp [reserved, reservedShift, Nat.shiftRight_eq_div_pow]
  omega

theorem map_toNat_slots (w : Word) : w.slots.map UInt16.toNat
    = [w.toNat / 256 % 65536, w.toNat / 16777216 % 65536, w.toNat / 1099511627776 % 65536] := by
  simp [slots, slotShifts, Nat.shiftRight_eq_div_pow]

theorem length_slots (w : Word) : w.slots.length = 3 := rfl

@[simp] theorem opcodeByte_pack (op : Opcode) (a b c : Operand) :
    (pack op a b c).opcodeByte = op.code := by
  have hop : op.code.toNat < 256 := op.code.toNat_lt_size
  apply UInt8.toNat_inj.mp
  rw [toNat_opcodeByte, toNat_pack]
  omega

@[simp] theorem reserved_pack (op : Opcode) (a b c : Operand) : (pack op a b c).reserved = 0 := by
  have hop : op.code.toNat < 256 := op.code.toNat_lt_size
  have ha : a.toNat < 65536 := a.toNat_lt_size
  have hb : b.toNat < 65536 := b.toNat_lt_size
  have hc : c.toNat < 65536 := c.toNat_lt_size
  apply UInt8.toNat_inj.mp
  rw [toNat_reserved, toNat_pack, UInt8.toNat_zero]
  omega

@[simp] theorem slots_pack (op : Opcode) (a b c : Operand) : (pack op a b c).slots = [a, b, c] := by
  have hop : op.code.toNat < 256 := op.code.toNat_lt_size
  have ha : a.toNat < 65536 := a.toNat_lt_size
  have hb : b.toNat < 65536 := b.toNat_lt_size
  have hc : c.toNat < 65536 := c.toNat_lt_size
  have h := map_toNat_slots (pack op a b c)
  rw [toNat_pack] at h
  simp only [slots, slotShifts, List.map_cons, List.map_nil, List.cons.injEq, and_true] at h ⊢
  refine ⟨UInt16.toNat_inj.mp ?_, UInt16.toNat_inj.mp ?_, UInt16.toNat_inj.mp ?_⟩
  · rw [h.1]; omega
  · rw [h.2.1]; omega
  · rw [h.2.2]; omega

/-- A word without reserved bits is the sum of its other fields. -/
theorem pack_fields {w : Word} {op : Opcode} {a b c : Operand} (hop : w.opcodeByte = op.code)
    (hslots : w.slots = [a, b, c]) (hreserved : w.reserved = 0) : pack op a b c = w := by
  have hw : w.toNat < 18446744073709551616 := w.toNat_lt_size
  have hslots' := map_toNat_slots w
  have hop' := toNat_opcodeByte w
  have hreserved' := toNat_reserved w
  rw [hslots] at hslots'
  rw [hop] at hop'
  rw [hreserved, UInt8.toNat_zero] at hreserved'
  simp only [List.map_cons, List.map_nil, List.cons.injEq, and_true] at hslots'
  apply UInt64.toNat_inj.mp
  rw [toNat_pack]
  omega

end Word

/-! ## Instructions and words -/

namespace Instruction

/-- The word of an instruction. -/
def encode (i : Instruction) : Word :=
  Word.pack i.opcode (i.operands.getD 0 0) (i.operands.getD 1 0) (i.operands.getD 2 0)

/-- The instruction that a word holds. -/
def decode (w : Word) : Except CodeError Instruction :=
  match Opcode.ofCode? w.opcodeByte with
  | none => .error (.unknownOpcode w.opcodeByte)
  | some op =>
    if w.reserved ≠ 0 then .error (.invalidEncoding w)
    else if (w.slots.drop op.arity).any (· ≠ 0) then .error (.invalidEncoding w)
    else ofOperands op (w.slots.take op.arity)

/-- The word of an instruction holds that instruction. -/
theorem decode_encode (i : Instruction) : decode i.encode = .ok i := by
  obtain ⟨op, operands, h⟩ := i
  have hle := op.arity_le_three
  rw [← h] at hle
  unfold decode encode
  simp only [Word.opcodeByte_pack, Opcode.ofCode?_code, Word.reserved_pack, Word.slots_pack]
  rcases operands with _ | ⟨a, _ | ⟨b, _ | ⟨c, _ | ⟨d, rest⟩⟩⟩⟩
  · simp [ofOperands, ← h]
  · simp [ofOperands, ← h]
  · simp [ofOperands, ← h]
  · simp [ofOperands, ← h]
  · simp only [List.length_cons] at hle
    omega

/-- A word that holds an instruction is the word of that instruction. -/
theorem encode_of_decode {w : Word} {i : Instruction} (h : decode w = .ok i) : i.encode = w := by
  unfold decode at h
  cases hcode : Opcode.ofCode? w.opcodeByte with
  | none => rw [hcode] at h; cases h
  | some op =>
      rw [hcode] at h
      dsimp only at h
      split at h
      · cases h
      · next hreserved =>
          split at h
          · cases h
          · next hdrop =>
              have hle := op.arity_le_three
              have hop := Opcode.code_ofCode? hcode
              unfold ofOperands at h
              split at h
              · next hlen =>
                  cases h
                  obtain ⟨a, b, c, hs⟩ : ∃ a b c, w.slots = [a, b, c] := ⟨_, _, _, rfl⟩
                  refine Word.pack_fields hop.symm ?_ (Decidable.not_not.mp hreserved)
                  dsimp only
                  rw [hs] at hdrop ⊢
                  generalize op.arity = n at hle hdrop
                  obtain rfl | rfl | rfl | rfl : n = 0 ∨ n = 1 ∨ n = 2 ∨ n = 3 := by omega
                  · simp_all
                  · simp_all
                  · simp_all
                  · simp_all
              · cases h

end Instruction

namespace Word

/-- The instructions that a stream of words holds, or the error of the first
word that holds none. -/
def decodeAll (words : List Word) : Except CodeError (List Instruction) :=
  words.mapM Instruction.decode

end Word

end Wordcode
