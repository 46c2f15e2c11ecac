/-
# Growth — without patches a function only gets longer

Of all edits only a patch changes an entry that is there already.  A session
without patches therefore leaves a function whose tables begin with the tables
that it started from (`Builder.grows_run`), and an index means what it meant
before.
-/
import Wordcode.Proofs.Builder.Session

namespace Wordcode

namespace Function

/-- The tables of a function begin with those of another.  Nothing is said of
the counts that are declared. -/
structure Grows (f g : Function) : Prop where
  ints : f.ints.toList <+: g.ints.toList
  strs : f.strs.toList <+: g.strs.toList
  code : f.code.toList <+: g.code.toList

namespace Grows

variable {f g h : Function} {pos : Nat}

theorem refl (f : Function) : f.Grows f :=
  ⟨List.prefix_refl _, List.prefix_refl _, List.prefix_refl _⟩

theorem trans (hfg : f.Grows g) (hgh : g.Grows h) : f.Grows h :=
  ⟨hfg.ints.trans hgh.ints, hfg.strs.trans hgh.strs, hfg.code.trans hgh.code⟩

theorem tableSize_le (hfg : f.Grows g) (t : Table) : f.tableSize t ≤ g.tableSize t := by
  cases t with
  | ints => exact hfg.ints.length_le
  | strs => exact hfg.strs.length_le
  | code => exact hfg.code.length_le

theorem length_le (hfg : f.Grows g) : f.length ≤ g.length := hfg.tableSize_le .code

/-- An instruction that is there stays where it is. -/
theorem getElem?_code (hfg : f.Grows g) (hpos : pos < f.length) : g.code[pos]? = f.code[pos]? := by
  obtain ⟨later, hlater⟩ := hfg.code
  rw [← Array.getElem?_toList, ← hlater, List.getElem?_append_left hpos, Array.getElem?_toList]

end Grows

end Function

namespace Builder

theorem prefix_toList_push {α : Type} (entries : Array α) (entry : α) :
    entries.toList <+: (entries.push entry).toList := by
  rw [Array.toList_push]
  exact List.prefix_append _ _

theorem grows_apply (b : Builder) {edit : Edit} (hedit : edit.isPatch = false) :
    b.function.Grows (b.apply edit).1.function := by
  cases edit with
  | setArgs | setUpvalues => exact ⟨List.prefix_refl _, List.prefix_refl _, List.prefix_refl _⟩
  | pushInt value =>
      simp only [apply]
      split
      · exact ⟨prefix_toList_push _ _, List.prefix_refl _, List.prefix_refl _⟩
      · exact .refl _
  | pushStr value =>
      simp only [apply]
      split
      · exact ⟨List.prefix_refl _, prefix_toList_push _ _, List.prefix_refl _⟩
      · exact .refl _
  | push i =>
      simp only [apply]
      split
      · exact ⟨List.prefix_refl _, List.prefix_refl _, prefix_toList_push _ _⟩
      · exact .refl _
  | patch => cases hedit

theorem grows_run (b : Builder) {edits : List Edit} (hedits : ∀ edit ∈ edits, edit.isPatch = false) :
    b.function.Grows (b.run edits).function := by
  induction edits generalizing b with
  | nil => exact .refl _
  | cons edit edits ih =>
      rw [List.forall_mem_cons] at hedits
      exact (grows_apply b hedits.1).trans (ih (b.apply edit).1 hedits.2)

theorem run_append (b : Builder) (before after : List Edit) :
    b.run (before ++ after) = (b.run before).run after := List.foldl_append

end Builder

end Wordcode
