/-
# Loops — control comes back only through a loop marker

Control goes down in a lawful function in two ways only: to a `jloop` or a
`jfor`, because the other marker stands after the jumps that name it, or from
a `jfor` to its exit, whose side is never checked.  So away from these two
opcodes every step goes up (`Goes.lt_of_not_loopHead`), a path that avoids them
goes up all the way (`pairwise_lt_of_not_loopHead`), and a path that closes
cannot avoid them.
-/
import Mathlib.Data.List.Chain
import Wordcode.Proofs.ControlFlow.Safety

namespace Wordcode

namespace Function

/-- The index holds a marker that starts a loop. -/
def LoopHead (f : Function) (pos : Nat) : Prop :=
  f.opcodeAt? pos = some .jloop ∨ f.opcodeAt? pos = some .jfor

variable {f : Function} {p : Policy} {pos next start : Nat} {path : List Nat}

/-! ## One step -/

/-- A jump that does not go up goes to the head of a loop. -/
theorem Lawful.loopHead_of_le (h : f.Lawful p) (hcheck : p.checkDirection) {i : Instruction}
    {target : Operand} (hi : f.code[pos]? = some i) (htarget : i.jumpTarget? = some target)
    (hle : target.toNat ≤ pos) : f.LoopHead target.toNat := by
  obtain ⟨_, op, hop, rfl | hloop | hfor⟩ := h.jump hi htarget
  · exact absurd (h.forward hcheck hi htarget hop) (Nat.not_lt.mpr hle)
  · exact .inl (hloop ▸ hop)
  · exact .inr (hfor ▸ hop)

/-- A step that does not go up arrives at the head of a loop or leaves a
for-loop. -/
theorem Goes.loopHead_or_exit (h : f.Goes pos next) (hlawful : f.Lawful p)
    (hcheck : p.checkDirection) (hle : next ≤ pos) :
    f.LoopHead next ∨ f.opcodeAt? pos = some .jfor := by
  obtain ⟨i, hi, hnext⟩ := h
  rcases Instruction.mem_successors_iff.mp hnext with ⟨_, rfl⟩ | ⟨target, htarget | hexit, rfl⟩
  · exact absurd hle (Nat.not_succ_le_self pos)
  · exact .inl (hlawful.loopHead_of_le hcheck hi htarget hle)
  · right
    rw [opcodeAt?, hi, Option.map_some, (Instruction.exit?_eq_some_iff.mp hexit).1]

/-- Away from the heads of loops every step goes up. -/
theorem Goes.lt_of_not_loopHead (h : f.Goes pos next) (hlawful : f.Lawful p)
    (hcheck : p.checkDirection) (hpos : ¬ f.LoopHead pos) (hnext : ¬ f.LoopHead next) :
    pos < next := by
  by_contra hle
  rcases h.loopHead_or_exit hlawful hcheck (Nat.le_of_not_lt hle) with hhead | hfor
  · exact hnext hhead
  · exact hpos (.inr hfor)

/-! ## Any number of steps -/

/-- A path that visits no head of a loop goes up all the way. -/
theorem pairwise_lt_of_not_loopHead (hlawful : f.Lawful p) (hcheck : p.checkDirection)
    (hpath : path.IsChain f.Goes) (havoid : ∀ pos ∈ path, ¬ f.LoopHead pos) :
    path.Pairwise (· < ·) := by
  have hup : path.IsChain (· < ·) := hpath.imp_of_mem_imp fun pos next hpos hnext hgo =>
    hgo.lt_of_not_loopHead hlawful hcheck (havoid pos hpos) (havoid next hnext)
  exact List.isChain_iff_pairwise.mp hup

/-- A path that comes back to where it starts visits the head of a loop. -/
theorem exists_loopHead_of_cycle (hlawful : f.Lawful p) (hcheck : p.checkDirection)
    (hcycle : (start :: (path ++ [start])).IsChain f.Goes) :
    ∃ pos ∈ start :: path, f.LoopHead pos := by
  by_contra hnone
  have havoid : ∀ pos ∈ start :: (path ++ [start]), ¬ f.LoopHead pos := by
    intro pos hpos hhead
    rw [← List.cons_append, List.mem_append, List.mem_singleton] at hpos
    rcases hpos with hmem | rfl
    · exact hnone ⟨pos, hmem, hhead⟩
    · exact hnone ⟨pos, List.mem_cons_self, hhead⟩
  have hup := pairwise_lt_of_not_loopHead hlawful hcheck hcycle havoid
  exact Nat.lt_irrefl start (List.rel_of_pairwise_cons hup (by simp))

/-- Where directions are checked, a step of a verified function that does not
go up arrives at a `jloop` or a `jfor` or leaves a `jfor`; so every cycle, of
any length, visits one of the two, and a path that visits neither goes up. -/
theorem loops_of_isValid (f : Function) (p : Policy) (hcheck : p.checkDirection)
    (hvalid : (f.verify p).isValid) :
    (∀ pos next, f.Goes pos next → next ≤ pos →
        f.LoopHead next ∨ f.opcodeAt? pos = some .jfor)
      ∧ (∀ (start : Nat) (path : List Nat), (start :: (path ++ [start])).IsChain f.Goes →
          ∃ pos ∈ start :: path, f.LoopHead pos)
      ∧ ∀ path : List Nat, path.IsChain f.Goes → (∀ pos ∈ path, ¬ f.LoopHead pos) →
          path.Pairwise (· < ·) := by
  have hlawful := (isValid_iff_lawful (length_le_of_isValid hvalid)).mp hvalid
  exact ⟨fun _ _ hgo hle => hgo.loopHead_or_exit hlawful hcheck hle,
    fun _ _ hcycle => exists_loopHead_of_cycle hlawful hcheck hcycle,
    fun _ hpath havoid => pairwise_lt_of_not_loopHead hlawful hcheck hpath havoid⟩

/-- A for-loop whose exit points back to a place before it that is no marker:
the step back is there, and the cycle visits the `jfor` that it leaves. -/
theorem loops_of_isValid_exit_backward :
    let f : Function := ⟨0, 0, #[], #[],
      #[⟨.nop, [], rfl⟩, ⟨.jfor, [0, 0, 0], rfl⟩, ⟨.jump, [1], rfl⟩]⟩
    Policy.standard.checkDirection ∧ (f.verify .standard).isValid
      ∧ f.Goes 1 0 ∧ ¬ f.LoopHead 0 ∧ f.opcodeAt? 1 = some .jfor
      ∧ ∃ pos ∈ [0, 1], f.LoopHead pos := by
  intro f
  have hvalid : (f.verify .standard).isValid := by decide
  have hgo : f.Goes 0 1 := ⟨_, rfl, by decide⟩
  have hback : f.Goes 1 0 := ⟨_, rfl, by decide⟩
  have hnot : ¬ f.LoopHead 0 := by rintro (h | h) <;> cases h
  obtain ⟨hstep, hcycle, _⟩ := loops_of_isValid f .standard rfl hvalid
  refine ⟨rfl, hvalid, hback, hnot, (hstep 1 0 hback (by decide)).resolve_left hnot, ?_⟩
  exact hcycle 0 [1] (.cons_cons hgo (.cons_cons hback (.singleton _)))

end Function

end Wordcode
