/-
# Rules — what a verdict means

The rules of the verifier, stated one by one over opcodes and slots and not
over the catalog.  `Breaks` says of a violation that it is one, `Lawful` that a
function has none.

The verifier reports exactly the violations that there are
(`mem_errors_iff`), so a function is accepted exactly if it is lawful
(`isValid_iff_lawful`).
-/
import Mathlib.Tactic.ByContra
import Wordcode.Proofs.Verify.Slots

namespace Wordcode

/-- The opcodes that a jump may name. -/
def Opcode.IsMarker (op : Opcode) : Prop := op = .jtarg ∨ op = .jloop ∨ op = .jfor

theorem Opcode.isMarker_iff {op : Opcode} : op.IsMarker ↔ ∃ kind : Marker, op = kind.opcode := by
  constructor
  · rintro (rfl | rfl | rfl)
    · exact ⟨.forward, rfl⟩
    · exact ⟨.loop, rfl⟩
    · exact ⟨.forLoop, rfl⟩
  · rintro ⟨kind, rfl⟩
    cases kind with
    | forward => exact .inl rfl
    | loop => exact .inr (.inl rfl)
    | forLoop => exact .inr (.inr rfl)

theorem Opcode.isSome_marker?_iff {op : Opcode} : op.marker?.isSome ↔ op.IsMarker := by
  simp only [Option.isSome_iff_exists, marker?_eq_some_iff, isMarker_iff]

namespace Function

/-- The opcode of the instruction at an index. -/
def opcodeAt? (f : Function) (pos : Nat) : Option Opcode := f.code[pos]?.map Instruction.opcode

/-- Control does not run past the last instruction. -/
def Terminated (f : Function) : Prop :=
  ∃ i, f.code.back? = some i
    ∧ (i.opcode = .jump ∨ i.opcode = .ret ∨ i.opcode = .retv ∨ i.opcode = .tcall)

/-! ## Violations -/

/-- What it is to break a rule. -/
inductive Breaks (f : Function) (p : Policy) : Violation → Prop where
  | tooManyInstructions :
      p.maxInstructions < f.length →
      Breaks f p (.tooManyInstructions f.length p.maxInstructions)
  | targetOutOfRange {pos : Nat} {i : Instruction} {target : Operand} :
      f.code[pos]? = some i → i.jumpTarget? = some target ∨ i.exit? = some target →
      f.length ≤ target.toNat →
      Breaks f p (.targetOutOfRange pos target f.length)
  | notAMarker {pos : Nat} {i : Instruction} {target : Operand} {found : Opcode} :
      f.code[pos]? = some i → i.jumpTarget? = some target →
      f.opcodeAt? target.toNat = some found → ¬ found.IsMarker →
      Breaks f p (.notAMarker pos target found)
  | illegalMarker {pos : Nat} {i : Instruction} {target : Operand} {kind : Marker} :
      f.code[pos]? = some i → i.opcode = .jt ∨ i.opcode = .jf → i.jumpTarget? = some target →
      f.opcodeAt? target.toNat = some kind.opcode → kind ≠ .forward →
      Breaks f p (.illegalMarker pos i.opcode kind)
  | forwardNotAfter {pos : Nat} {i : Instruction} {target : Operand} :
      p.checkDirection → f.code[pos]? = some i → i.jumpTarget? = some target →
      f.opcodeAt? target.toNat = some .jtarg → target.toNat ≤ pos →
      Breaks f p (.wrongDirection pos target .forward)
  | loopNotBefore {pos : Nat} {i : Instruction} {target : Operand} {kind : Marker} :
      p.checkDirection → f.code[pos]? = some i → i.jumpTarget? = some target →
      f.opcodeAt? target.toNat = some kind.opcode → kind ≠ .forward → pos ≤ target.toNat →
      Breaks f p (.wrongDirection pos target kind)
  | intOutOfRange {pos : Nat} {i : Instruction} {index : Operand} :
      f.code[pos]? = some i → i.opcode = .intk → i.operand? 0 = some index →
      f.ints.size ≤ index.toNat →
      Breaks f p (.intOutOfRange pos index f.ints.size)
  | strOutOfRange {pos : Nat} {i : Instruction} {index : Operand} :
      f.code[pos]? = some i → i.opcode = .strk → i.operand? 0 = some index →
      f.strs.size ≤ index.toNat →
      Breaks f p (.strOutOfRange pos index f.strs.size)
  | notABool {pos : Nat} {i : Instruction} {value : Operand} :
      f.code[pos]? = some i → i.opcode = .boolk → i.operand? 0 = some value →
      value ≠ 0 → value ≠ 1 →
      Breaks f p (.notABool pos value)
  | missingTerminator :
      p.requireTerminator → ¬ f.Terminated →
      Breaks f p .missingTerminator

/-! ## Operands -/

variable {f : Function} {p : Policy} {pos : Nat} {v : Violation}

theorem opcodeAt?_eq_none_iff : f.opcodeAt? pos = none ↔ f.length ≤ pos := by
  rw [opcodeAt?, Option.map_eq_none_iff, Array.getElem?_eq_none_iff]
  rfl

/-- What may be wrong with a jump. -/
theorem mem_branchViolations_iff {op : Opcode} {branch : Branch} {target : Operand} :
    v ∈ f.branchViolations p pos op branch target ↔
      f.length ≤ target.toNat ∧ v = .targetOutOfRange pos target f.length
      ∨ (∃ found, f.opcodeAt? target.toNat = some found ∧ ¬ found.IsMarker
          ∧ v = .notAMarker pos target found)
      ∨ ∃ kind : Marker, f.opcodeAt? target.toNat = some kind.opcode
          ∧ (branch.accepts kind = false ∧ v = .illegalMarker pos op kind
            ∨ p.checkDirection ∧ decide (target.toNat < pos) ≠ kind.isBackward
              ∧ v = .wrongDirection pos target kind) := by
  rw [← opcodeAt?_eq_none_iff]
  unfold branchViolations opcodeAt?
  cases f.code[target.toNat]? with
  | none => simp
  | some i =>
      cases hkind : i.opcode.marker? with
      | none =>
          have hnot : ∀ kind : Marker, i.opcode ≠ kind.opcode := by
            intro kind heq
            rw [Opcode.marker?_eq_some_iff.mpr heq] at hkind
            cases hkind
          simp [hkind, Opcode.isMarker_iff, hnot]
      | some kind =>
          have hop : i.opcode = kind.opcode := Opcode.marker?_eq_some_iff.mp hkind
          have honly : ∀ kind' : Marker, i.opcode = kind'.opcode ↔ kind' = kind := by
            intro kind'
            rw [← Opcode.marker?_eq_some_iff, hkind, Option.some.injEq, eq_comm]
          simp [hkind, Opcode.isMarker_iff, honly, and_assoc]

/-- Every violation of an instruction is one of an operand of it. -/
theorem mem_codeViolations_iff : v ∈ f.codeViolations p ↔
    ∃ pos i, f.code[pos]? = some i
      ∧ ∃ operand ∈ i.typedOperands, v ∈ f.operandViolations p pos i.opcode operand := by
  simp only [codeViolations, instructionViolations, List.mem_flatMap]
  constructor
  · rintro ⟨⟨i, pos⟩, hi, operand, hoperand, hv⟩
    rw [List.mem_zipIdx_iff_getElem?, Array.getElem?_toList] at hi
    exact ⟨pos, i, hi, operand, hoperand, hv⟩
  · rintro ⟨pos, i, hi, operand, hoperand, hv⟩
    rw [← Array.getElem?_toList] at hi
    exact ⟨(i, pos), List.mem_zipIdx_iff_getElem?.mpr hi, operand, hoperand, hv⟩

/-! ## Soundness -/

theorem mem_ite_singleton_iff {c : Prop} [Decidable c] {w : Violation} :
    v ∈ (if c then [] else [w]) ↔ ¬ c ∧ v = w := by
  rw [List.mem_ite_nil_left, List.mem_singleton]

theorem breaks_of_mem_branchViolations {i : Instruction} {branch : Branch} {target : Operand}
    (hi : f.code[pos]? = some i) (htarget : i.jumpTarget? = some target)
    (hbranch : i.opcode.branch? = some branch)
    (hv : v ∈ f.branchViolations p pos i.opcode branch target) : f.Breaks p v := by
  rcases mem_branchViolations_iff.mp hv with ⟨hlength, rfl⟩ | ⟨found, hfound, hnot, rfl⟩ |
    ⟨kind, hkind, ⟨haccepts, rfl⟩ | ⟨hcheck, hside, rfl⟩⟩
  · exact .targetOutOfRange hi (.inl htarget) hlength
  · exact .notAMarker hi htarget hfound hnot
  · rcases Opcode.branch?_eq_some_iff.mp hbranch with ⟨_, rfl⟩ | ⟨hop, rfl⟩
    · cases haccepts
    · refine .illegalMarker hi hop htarget hkind ?_
      rintro rfl
      cases haccepts
  · cases kind with
    | forward =>
        have hlt : target.toNat < pos := by simpa [Marker.isBackward] using hside
        exact .forwardNotAfter hcheck hi htarget hkind (Nat.le_of_lt hlt)
    | loop | forLoop =>
        have hle : pos ≤ target.toNat := by simpa [Marker.isBackward] using hside
        exact .loopNotBefore hcheck hi htarget hkind (by decide) hle

theorem breaks_of_mem_operandViolations {i : Instruction} {operand : OperandKind × Operand}
    (hi : f.code[pos]? = some i) (hoperand : operand ∈ i.typedOperands)
    (hv : v ∈ f.operandViolations p pos i.opcode operand) : f.Breaks p v := by
  unfold operandViolations at hv
  split at hv
  · next target =>
      have hnamed := Instruction.mem_typedOperands_target_iff.mp hoperand
      split at hv
      · next branch hbranch =>
          refine breaks_of_mem_branchViolations hi (hnamed.resolve_right fun hexit => ?_) hbranch hv
          rw [(Instruction.exit?_eq_some_iff.mp hexit).1] at hbranch
          cases hbranch
      · obtain ⟨hlength, rfl⟩ := mem_ite_singleton_iff.mp hv
        exact .targetOutOfRange hi hnamed (Nat.le_of_not_lt hlength)
  · next index =>
      obtain ⟨hop, hindex⟩ := Instruction.mem_typedOperands_intConst_iff.mp hoperand
      obtain ⟨hsize, rfl⟩ := mem_ite_singleton_iff.mp hv
      exact .intOutOfRange hi hop hindex (Nat.le_of_not_lt hsize)
  · next index =>
      obtain ⟨hop, hindex⟩ := Instruction.mem_typedOperands_strConst_iff.mp hoperand
      obtain ⟨hsize, rfl⟩ := mem_ite_singleton_iff.mp hv
      exact .strOutOfRange hi hop hindex (Nat.le_of_not_lt hsize)
  · next value =>
      obtain ⟨hop, hvalue⟩ := Instruction.mem_typedOperands_literal_iff.mp hoperand
      obtain ⟨hlarge, rfl⟩ := mem_ite_singleton_iff.mp hv
      refine .notABool hi hop hvalue ?_ ?_
      · rintro rfl
        exact hlarge (.inr (by decide))
      · rintro rfl
        exact hlarge (.inr (by decide))
  all_goals cases hv

theorem breaks_of_mem_codeViolations (hv : v ∈ f.codeViolations p) : f.Breaks p v := by
  obtain ⟨pos, i, hi, operand, hoperand, hv⟩ := mem_codeViolations_iff.mp hv
  exact breaks_of_mem_operandViolations hi hoperand hv

/-! ## Completeness -/

theorem mem_codeViolations_of_branch {i : Instruction} {target : Operand}
    (hi : f.code[pos]? = some i) (htarget : i.jumpTarget? = some target)
    (hv : ∀ branch, i.opcode.branch? = some branch →
      v ∈ f.branchViolations p pos i.opcode branch target) : v ∈ f.codeViolations p := by
  obtain ⟨branch, hbranch⟩ : ∃ branch, i.opcode.branch? = some branch := by
    rcases Instruction.jumpTarget?_eq_some_iff.mp htarget with ⟨hop, _⟩ | ⟨hop, _⟩
    · exact ⟨_, Opcode.branch?_eq_some_iff.mpr (.inl ⟨hop, rfl⟩)⟩
    · exact ⟨_, Opcode.branch?_eq_some_iff.mpr (.inr ⟨hop, rfl⟩)⟩
  refine mem_codeViolations_iff.mpr ⟨pos, i, hi, (.target, target),
    Instruction.mem_typedOperands_target_iff.mpr (.inl htarget), ?_⟩
  simp only [operandViolations, hbranch]
  exact hv branch hbranch

theorem mem_codeViolations_of_breaks (h : f.Breaks p v) (hpos : v.position?.isSome) :
    v ∈ f.codeViolations p := by
  cases h with
  | tooManyInstructions | missingTerminator => cases hpos
  | @targetOutOfRange pos i target hi hnamed hlength =>
      rcases hnamed with htarget | hexit
      · exact mem_codeViolations_of_branch hi htarget fun _ _ =>
          mem_branchViolations_iff.mpr (.inl ⟨hlength, rfl⟩)
      · refine mem_codeViolations_iff.mpr ⟨pos, i, hi, (.target, target),
          Instruction.mem_typedOperands_target_iff.mpr (.inr hexit), ?_⟩
        have hbranch : i.opcode.branch? = none := by
          rw [(Instruction.exit?_eq_some_iff.mp hexit).1]
          rfl
        simp [operandViolations, hbranch, hlength]
  | notAMarker hi htarget hfound hnot =>
      exact mem_codeViolations_of_branch hi htarget fun _ _ =>
        mem_branchViolations_iff.mpr (.inr (.inl ⟨_, hfound, hnot, rfl⟩))
  | @illegalMarker pos i target kind hi hop htarget hkind hne =>
      refine mem_codeViolations_of_branch hi htarget fun branch hbranch =>
        mem_branchViolations_iff.mpr (.inr (.inr ⟨_, hkind, .inl ⟨?_, rfl⟩⟩))
      rcases Opcode.branch?_eq_some_iff.mp hbranch with ⟨hjump, _⟩ | ⟨_, rfl⟩
      · rw [hjump] at hop
        exact absurd hop (by decide)
      · cases kind with
        | forward => exact absurd rfl hne
        | loop | forLoop => rfl
  | @forwardNotAfter pos i target hcheck hi htarget hkind hle =>
      refine mem_codeViolations_of_branch hi htarget fun branch hbranch =>
        mem_branchViolations_iff.mpr (.inr (.inr ⟨.forward, hkind, .inr ⟨hcheck, ?_, rfl⟩⟩))
      have hlt : target.toNat < pos := Nat.lt_of_le_of_ne hle fun heq => by
        -- a jump is no marker, so it does not name itself
        rw [heq, opcodeAt?, hi, Option.map_some, Option.some.injEq] at hkind
        rw [hkind] at hbranch
        cases hbranch
      simp [hlt, Marker.isBackward]
  | @loopNotBefore pos i target kind hcheck hi htarget hkind hne hle =>
      refine mem_codeViolations_of_branch hi htarget fun branch hbranch =>
        mem_branchViolations_iff.mpr (.inr (.inr ⟨_, hkind, .inr ⟨hcheck, ?_, rfl⟩⟩))
      cases kind with
      | forward => exact absurd rfl hne
      | loop | forLoop => simp [Marker.isBackward, hle]
  | intOutOfRange hi hop hindex hsize =>
      refine mem_codeViolations_iff.mpr ⟨_, _, hi, (.intConst, _),
        Instruction.mem_typedOperands_intConst_iff.mpr ⟨hop, hindex⟩, ?_⟩
      simp [operandViolations, hsize]
  | strOutOfRange hi hop hindex hsize =>
      refine mem_codeViolations_iff.mpr ⟨_, _, hi, (.strConst, _),
        Instruction.mem_typedOperands_strConst_iff.mpr ⟨hop, hindex⟩, ?_⟩
      simp [operandViolations, hsize]
  | @notABool pos i value hi hop hvalue hzero hone =>
      refine mem_codeViolations_iff.mpr ⟨_, _, hi, (.literal, _),
        Instruction.mem_typedOperands_literal_iff.mpr ⟨hop, hvalue⟩, ?_⟩
      have hlarge : ¬ value ≤ 1 := by
        rw [UInt16.le_iff_toNat_le]
        rw [Ne, ← UInt16.toNat_inj] at hzero hone
        simp only [UInt16.toNat_zero, UInt16.toNat_one] at hzero hone ⊢
        omega
      simp [operandViolations, hop, hlarge]

/-! ## The verdict -/

theorem isTerminated_iff : f.isTerminated ↔ f.Terminated := by
  unfold isTerminated Terminated
  cases f.code.back? with
  | none => simp
  | some i => simp [Opcode.endsBlock_iff]

/-- A stream that is too long is refused before anything else is looked at. -/
theorem verify_of_tooLong (hlong : p.maxInstructions < f.length) :
    f.verify p = ⟨[.tooManyInstructions f.length p.maxInstructions], []⟩ := if_pos hlong

theorem length_le_of_isValid (h : (f.verify p).isValid) : f.length ≤ p.maxInstructions := by
  by_contra hlong
  rw [verify_of_tooLong (Nat.lt_of_not_le hlong)] at h
  cases h

theorem errors_verify (hlength : f.length ≤ p.maxInstructions) : (f.verify p).errors
    = f.codeViolations p
      ++ if p.requireTerminator ∧ ¬ f.isTerminated then [.missingTerminator] else [] := by
  unfold verify
  rw [if_neg (Nat.not_lt.mpr hlength)]
  cases f.isTerminated <;> cases p.requireTerminator <;> simp

/-- The verifier reports what there is to report and nothing else. -/
theorem mem_errors_iff (hlength : f.length ≤ p.maxInstructions) :
    v ∈ (f.verify p).errors ↔ f.Breaks p v := by
  rw [errors_verify hlength, List.mem_append]
  constructor
  · rintro (hv | hv)
    · exact breaks_of_mem_codeViolations hv
    · split at hv
      · next hend =>
          rw [List.mem_singleton.mp hv]
          exact .missingTerminator hend.1 (mt isTerminated_iff.mpr hend.2)
      · cases hv
  · intro hv
    cases hpos : v.position? with
    | some pos => exact .inl (mem_codeViolations_of_breaks hv (by rw [hpos]; rfl))
    | none =>
        cases hv with
        | tooManyInstructions hlong => exact absurd hlong (Nat.not_lt.mpr hlength)
        | missingTerminator hrequire hnot =>
            rw [if_pos ⟨hrequire, mt isTerminated_iff.mp hnot⟩]
            exact .inr (List.mem_singleton_self _)
        | _ => cases hpos

/-! ## Lawful functions -/

/-- A function that keeps every rule. -/
structure Lawful (f : Function) (p : Policy) : Prop where
  /-- Jumps name markers in range. -/
  jump {pos : Nat} {i : Instruction} {target : Operand} :
    f.code[pos]? = some i → i.jumpTarget? = some target →
    target.toNat < f.length ∧ ∃ op, f.opcodeAt? target.toNat = some op ∧ op.IsMarker
  /-- Conditional jumps skip forward. -/
  conditional {pos : Nat} {i : Instruction} {target : Operand} :
    f.code[pos]? = some i → i.opcode = .jt ∨ i.opcode = .jf → i.jumpTarget? = some target →
    f.opcodeAt? target.toNat = some .jtarg
  /-- Forward markers stand after the jumps that name them. -/
  forward {pos : Nat} {i : Instruction} {target : Operand} :
    p.checkDirection → f.code[pos]? = some i → i.jumpTarget? = some target →
    f.opcodeAt? target.toNat = some .jtarg → pos < target.toNat
  /-- Loop markers stand before the jumps that name them. -/
  loop {pos : Nat} {i : Instruction} {target : Operand} :
    p.checkDirection → f.code[pos]? = some i → i.jumpTarget? = some target →
    f.opcodeAt? target.toNat = some .jloop ∨ f.opcodeAt? target.toNat = some .jfor →
    target.toNat < pos
  /-- Exits of for-loops are in range. -/
  exit {pos : Nat} {i : Instruction} {target : Operand} :
    f.code[pos]? = some i → i.exit? = some target → target.toNat < f.length
  /-- Indices into the integer pool are in range. -/
  int {pos : Nat} {i : Instruction} {index : Operand} :
    f.code[pos]? = some i → i.opcode = .intk → i.operand? 0 = some index →
    index.toNat < f.ints.size
  /-- Indices into the string pool are in range. -/
  str {pos : Nat} {i : Instruction} {index : Operand} :
    f.code[pos]? = some i → i.opcode = .strk → i.operand? 0 = some index →
    index.toNat < f.strs.size
  /-- Boolean literals are zero or one. -/
  bool {pos : Nat} {i : Instruction} {value : Operand} :
    f.code[pos]? = some i → i.opcode = .boolk → i.operand? 0 = some value → value = 0 ∨ value = 1
  /-- The last instruction leaves the function or jumps. -/
  terminated : p.requireTerminator → f.Terminated

theorem Lawful.not_breaks (h : f.Lawful p) (hlength : f.length ≤ p.maxInstructions) :
    ¬ f.Breaks p v := by
  intro hv
  cases hv with
  | tooManyInstructions hlong => exact Nat.not_lt.mpr hlength hlong
  | targetOutOfRange hi hnamed hout =>
      rcases hnamed with htarget | hexit
      · exact Nat.not_lt.mpr hout (h.jump hi htarget).1
      · exact Nat.not_lt.mpr hout (h.exit hi hexit)
  | notAMarker hi htarget hfound hnot =>
      obtain ⟨_, op, hop, hmarker⟩ := h.jump hi htarget
      rw [hfound] at hop
      exact hnot (Option.some.inj hop ▸ hmarker)
  | @illegalMarker _ _ _ kind hi hop htarget hkind hne =>
      rw [h.conditional hi hop htarget] at hkind
      cases kind with
      | forward => exact hne rfl
      | loop | forLoop => cases hkind
  | forwardNotAfter hcheck hi htarget hkind hle =>
      exact Nat.not_lt.mpr hle (h.forward hcheck hi htarget hkind)
  | @loopNotBefore _ _ _ kind hcheck hi htarget hkind hne hle =>
      refine Nat.not_lt.mpr hle (h.loop hcheck hi htarget ?_)
      cases kind with
      | forward => exact absurd rfl hne
      | loop => exact .inl hkind
      | forLoop => exact .inr hkind
  | intOutOfRange hi hop hindex hsize => exact Nat.not_lt.mpr hsize (h.int hi hop hindex)
  | strOutOfRange hi hop hindex hsize => exact Nat.not_lt.mpr hsize (h.str hi hop hindex)
  | notABool hi hop hvalue hzero hone => exact (h.bool hi hop hvalue).elim hzero hone
  | missingTerminator hrequire hnot => exact hnot (h.terminated hrequire)

theorem exists_marker_of_not_breaks (h : ∀ v, ¬ f.Breaks p v) {i : Instruction} {target : Operand}
    (hi : f.code[pos]? = some i) (htarget : i.jumpTarget? = some target) :
    target.toNat < f.length ∧ ∃ kind : Marker, f.opcodeAt? target.toNat = some kind.opcode := by
  have hlt : target.toNat < f.length := by
    by_contra hge
    exact h _ (.targetOutOfRange hi (.inl htarget) (Nat.le_of_not_lt hge))
  obtain ⟨op, hop⟩ : ∃ op, f.opcodeAt? target.toNat = some op :=
    ⟨_, by rw [opcodeAt?, Array.getElem?_eq_getElem hlt, Option.map_some]⟩
  have hmarker : op.IsMarker := by
    by_contra hnot
    exact h _ (.notAMarker hi htarget hop hnot)
  obtain ⟨kind, rfl⟩ := Opcode.isMarker_iff.mp hmarker
  exact ⟨hlt, kind, hop⟩

theorem lawful_of_not_breaks (h : ∀ v, ¬ f.Breaks p v) : f.Lawful p where
  jump hi htarget := by
    obtain ⟨hlt, kind, hkind⟩ := exists_marker_of_not_breaks h hi htarget
    exact ⟨hlt, kind.opcode, hkind, Opcode.isMarker_iff.mpr ⟨kind, rfl⟩⟩
  conditional hi hop htarget := by
    obtain ⟨_, kind, hkind⟩ := exists_marker_of_not_breaks h hi htarget
    by_cases hforward : kind = .forward
    · rw [hkind, hforward]
      rfl
    · exact absurd (.illegalMarker hi hop htarget hkind hforward) (h _)
  forward hcheck hi htarget hkind := by
    by_contra hle
    exact h _ (.forwardNotAfter hcheck hi htarget hkind (Nat.le_of_not_lt hle))
  loop hcheck hi htarget hkind := by
    by_contra hle
    obtain ⟨kind, hkind, hne⟩ : ∃ kind : Marker,
        f.opcodeAt? _ = some kind.opcode ∧ kind ≠ .forward := by
      rcases hkind with hkind | hkind
      · exact ⟨.loop, hkind, by decide⟩
      · exact ⟨.forLoop, hkind, by decide⟩
    exact h _ (.loopNotBefore hcheck hi htarget hkind hne (Nat.le_of_not_lt hle))
  exit hi hexit := by
    by_contra hge
    exact h _ (.targetOutOfRange hi (.inr hexit) (Nat.le_of_not_lt hge))
  int hi hop hindex := by
    by_contra hge
    exact h _ (.intOutOfRange hi hop hindex (Nat.le_of_not_lt hge))
  str hi hop hindex := by
    by_contra hge
    exact h _ (.strOutOfRange hi hop hindex (Nat.le_of_not_lt hge))
  bool hi hop hvalue := by
    by_contra hnot
    rw [not_or] at hnot
    exact h _ (.notABool hi hop hvalue hnot.1 hnot.2)
  terminated hrequire := by
    by_contra hnot
    exact h _ (.missingTerminator hrequire hnot)

/-- The verifier accepts the lawful functions. -/
theorem isValid_iff_lawful (hlength : f.length ≤ p.maxInstructions) :
    (f.verify p).isValid ↔ f.Lawful p := by
  rw [Verdict.isValid, List.isEmpty_iff, List.eq_nil_iff_forall_not_mem]
  simp only [mem_errors_iff hlength]
  exact ⟨lawful_of_not_breaks, fun h _ => h.not_breaks hlength⟩

end Function

end Wordcode
