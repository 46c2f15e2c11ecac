/-
# Refused words — why a word holds no instruction

There are two reasons to refuse a word, and `decode` looks for them in this
order: no opcode has its lowest byte for a code, or something is written where
the opcode reads nothing.  Both are said here of the number that the word is and
not of its fields (`Refused`).  `decode_eq_error_iff` says that there is no third
reason: once a word has passed, the operands taken out of it are as many as the
opcode asks for.

Whoever reads words for a listing knows two errors only and turns every other
error into one of them.  As no other occurs, an error is passed on as it is
(`mapError_read`).
-/
import Wordcode.Disassembly
import Wordcode.Proofs.Word.Canonical

namespace Wordcode

/-! ## Codes -/

/-- The codes of opcodes are the first sixty-one bytes. -/
theorem Opcode.exists_code_iff {b : UInt8} : (∃ op : Opcode, op.code = b) ↔ b.toNat < 61 := by
  constructor
  · rintro ⟨op, rfl⟩
    cases op <;> decide
  · intro hb
    have hlt : b.toNat < all.length := hb
    have hop : ofCode? b = some all[b.toNat] := List.getElem?_eq_getElem hlt
    exact ⟨_, code_ofCode? hop⟩

theorem Opcode.code_injective {op op' : Opcode} (h : op.code = op'.code) : op = op' := by
  have hop := op.ofCode?_code
  rw [h, op'.ofCode?_code] at hop
  exact (Option.some.inj hop).symm

theorem Opcode.ofCode?_eq_none_iff {b : UInt8} : ofCode? b = none ↔ 61 ≤ b.toNat :=
  List.getElem?_eq_none_iff

namespace Word

variable {w : Word} {used : Nat} {e : CodeError}

/-! ## What an opcode does not read -/

/-- Something is written in the highest byte, or in a slot after the first `used`. -/
def Stray (w : Word) (used : Nat) : Prop :=
  w.toNat >>> 56 ≠ 0
    ∨ ∃ slot, used ≤ slot ∧ slot < 3 ∧ w.toNat >>> (8 + 16 * slot) % 65536 ≠ 0

theorem reserved_eq_zero_iff : w.reserved = 0 ↔ w.toNat >>> 56 = 0 := by
  rw [← UInt8.toNat_inj, toNat_reserved, UInt8.toNat_zero, Nat.shiftRight_eq_div_pow]

/-- The slots that are not read are the numbers of 16 bits from there on. -/
theorem map_toNat_drop_slots (w : Word) (used : Nat) : (w.slots.drop used).map UInt16.toNat
    = (List.range' used (3 - used)).map fun slot => w.toNat >>> (8 + 16 * slot) % 65536 := by
  have hall : w.slots.map UInt16.toNat
      = (List.range' 0 3).map fun slot => w.toNat >>> (8 + 16 * slot) % 65536 := by
    rw [map_toNat_slots]
    simp [List.range'_succ, Nat.shiftRight_eq_div_pow]
  rw [List.map_drop, hall, ← List.map_drop, List.drop_range', Nat.mul_one, Nat.zero_add]

theorem exists_mem_drop_slots_iff : (∃ a ∈ w.slots.drop used, a ≠ 0) ↔
    ∃ slot, used ≤ slot ∧ slot < 3 ∧ w.toNat >>> (8 + 16 * slot) % 65536 ≠ 0 := by
  have hnumbers := map_toNat_drop_slots w used
  constructor
  · rintro ⟨a, ha, hwritten⟩
    have hmem := List.mem_map_of_mem (f := UInt16.toNat) ha
    rw [hnumbers] at hmem
    obtain ⟨slot, hslot, heq⟩ := List.mem_map.mp hmem
    rw [List.mem_range'_1] at hslot
    refine ⟨slot, hslot.1, by omega, fun hzero => hwritten ?_⟩
    rw [← UInt16.toNat_inj, ← heq, hzero, UInt16.toNat_zero]
  · rintro ⟨slot, hused, hslot, hwritten⟩
    have hmem : slot ∈ List.range' used (3 - used) := List.mem_range'_1.mpr (by omega)
    obtain ⟨a, ha, heq⟩ := List.mem_map.mp (hnumbers ▸ List.mem_map_of_mem hmem)
    refine ⟨a, ha, fun hzero => hwritten ?_⟩
    rw [← heq, hzero, UInt16.toNat_zero]

/-- What is stray stands in the reserved bits or in an unused slot. -/
theorem stray_iff : w.Stray used ↔ w.reserved ≠ 0 ∨ ∃ a ∈ w.slots.drop used, a ≠ 0 := by
  rw [Stray, exists_mem_drop_slots_iff, Ne, Ne, reserved_eq_zero_iff]

theorem canonical_iff :
    w.Canonical ↔ ∃ op : Opcode, op.code = w.opcodeByte ∧ ¬ w.Stray op.arity := by
  simp only [Canonical, stray_iff, not_or, not_exists, not_and, Decidable.not_not, eq_comm]

/-! ## Errors of decoding -/

/-- The reasons to refuse a word. -/
inductive Refused (w : Word) : CodeError → Prop where
  /-- No opcode has the lowest byte for a code. -/
  | unknownOpcode (h : 61 ≤ w.opcodeByte.toNat) : Refused w (.unknownOpcode w.opcodeByte)
  /-- The opcode does not read all that is written. -/
  | invalidEncoding {op : Opcode} (hop : op.code = w.opcodeByte) (h : w.Stray op.arity) :
      Refused w (.invalidEncoding w)

theorem decode_of_unknownOpcode (h : 61 ≤ w.opcodeByte.toNat) :
    Instruction.decode w = .error (.unknownOpcode w.opcodeByte) := by
  rw [Instruction.decode, Opcode.ofCode?_eq_none_iff.mpr h]

theorem decode_of_stray {op : Opcode} (hop : op.code = w.opcodeByte) (h : w.Stray op.arity) :
    Instruction.decode w = .error (.invalidEncoding w) := by
  rw [Instruction.decode, ← hop, Opcode.ofCode?_code]
  dsimp only
  rcases stray_iff.mp h with hreserved | ⟨a, ha, hwritten⟩
  · rw [if_pos hreserved]
  · have hslots : (w.slots.drop op.arity).any (· ≠ 0) :=
      List.any_eq_true.mpr ⟨a, ha, decide_eq_true hwritten⟩
    rw [if_pos hslots, ite_self]

/-- A word is refused for one of the two reasons, with the error that names it. -/
theorem decode_eq_error_iff : Instruction.decode w = .error e ↔ w.Refused e := by
  constructor
  · intro h
    by_cases hcode : 61 ≤ w.opcodeByte.toNat
    · rw [decode_of_unknownOpcode hcode] at h
      cases h
      exact .unknownOpcode hcode
    · obtain ⟨op, hop⟩ := Opcode.exists_code_iff.mpr (Nat.lt_of_not_le hcode)
      by_cases hstray : w.Stray op.arity
      · rw [decode_of_stray hop hstray] at h
        cases h
        exact .invalidEncoding hop hstray
      · -- nothing is left that could go wrong
        obtain ⟨i, hi⟩ := Instruction.exists_decode_iff.mpr (canonical_iff.mpr ⟨op, hop, hstray⟩)
        rw [hi] at h
        cases h
  · intro h
    cases h with
    | unknownOpcode hcode => exact decode_of_unknownOpcode hcode
    | invalidEncoding hop hstray => exact decode_of_stray hop hstray

end Word

/-! ## Errors of reading -/

/-- The error of decoding that an error of reading stands for. -/
def WordError.toCodeError : WordError → CodeError
  | .invalidEncoding w => .invalidEncoding w
  | .unknownOpcode code => .unknownOpcode code

namespace Word

theorem Refused.toCodeError_ofCodeError {w : Word} {e : CodeError} (h : w.Refused e) :
    (WordError.ofCodeError w e).toCodeError = e := by
  cases h with
  | unknownOpcode => rfl
  | invalidEncoding => rfl

/-- Reading a word says what decoding it says. -/
theorem mapError_read (w : Word) : w.read.mapError WordError.toCodeError = Instruction.decode w := by
  unfold read
  cases h : Instruction.decode w with
  | ok i => rfl
  | error e => exact congrArg Except.error (decode_eq_error_iff.mp h).toCodeError_ofCodeError

/-- A word is refused for its lowest byte exactly if no opcode has that code,
whatever else is written; it is refused as it is exactly if its opcode does not
read all of it; and otherwise it holds an instruction, so that nothing is ever
said about the number of operands.  Reading a word for a listing gives the same
instruction, or the same error about the same byte or word. -/
theorem decode_classified (w : Word) :
    (∀ code, Instruction.decode w = .error (.unknownOpcode code) ↔
        code = w.opcodeByte ∧ 61 ≤ w.opcodeByte.toNat)
      ∧ (∀ v, Instruction.decode w = .error (.invalidEncoding v) ↔ v = w
          ∧ w.opcodeByte.toNat < 61 ∧ ∃ op : Opcode, op.code = w.opcodeByte ∧ w.Stray op.arity)
      ∧ ((∃ i, Instruction.decode w = .ok i) ↔ w.opcodeByte.toNat < 61
          ∧ ∀ op : Opcode, op.code = w.opcodeByte → ¬ w.Stray op.arity)
      ∧ (∀ e, Instruction.decode w = .error e →
          e = .unknownOpcode w.opcodeByte ∨ e = .invalidEncoding w)
      ∧ w.read.mapError WordError.toCodeError = Instruction.decode w := by
  simp only [decode_eq_error_iff]
  refine ⟨fun code => ?_, fun v => ?_, ?_, fun e he => ?_, w.mapError_read⟩
  · constructor
    · intro h
      cases h with
      | unknownOpcode hcode => exact ⟨rfl, hcode⟩
    · rintro ⟨rfl, hcode⟩
      exact .unknownOpcode hcode
  · constructor
    · intro h
      cases h with
      | invalidEncoding hop hstray =>
          exact ⟨rfl, Opcode.exists_code_iff.mp ⟨_, hop⟩, _, hop, hstray⟩
    · rintro ⟨rfl, _, op, hop, hstray⟩
      exact .invalidEncoding hop hstray
  · rw [Instruction.exists_decode_iff, canonical_iff, ← Opcode.exists_code_iff]
    constructor
    · rintro ⟨op, hop, hstray⟩
      refine ⟨⟨op, hop⟩, fun op' hop' => ?_⟩
      rw [← hop] at hop'
      rwa [Opcode.code_injective hop']
    · rintro ⟨⟨op, hop⟩, hstray⟩
      exact ⟨op, hop, hstray op hop⟩
  · cases he with
    | unknownOpcode => exact .inl rfl
    | invalidEncoding => exact .inr rfl

end Word

end Wordcode
