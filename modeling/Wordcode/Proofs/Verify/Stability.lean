/-
# Stability — what is appended does not spoil what is there

The rules for an instruction ask whether an index is in range and what stands
there.  Both can only become true as the tables grow: an index in range stays in
range, and it names what it named.  So an instruction that breaks a rule in a
longer function breaks one in the shorter function already
(`Grows.exists_breaks`).  It need not be the same rule, for a target may have
come into range and be no marker.

Warnings go the other way: instructions that are appended may name a marker,
and none that names it goes away (`Grows.names`).
-/
import Wordcode.Proofs.Builder.Growth
import Wordcode.Proofs.Verify.Report

namespace Wordcode

namespace Function

namespace Grows

variable {f g : Function} {p : Policy} {pos : Nat} {v : Violation}

theorem opcodeAt?_eq (hfg : f.Grows g) (hpos : pos < f.length) :
    g.opcodeAt? pos = f.opcodeAt? pos := by
  rw [opcodeAt?, opcodeAt?, hfg.getElem?_code hpos]

/-! ## Violations -/

/-- A jump names what it named before, or it broke a rule then. -/
theorem opcodeAt?_eq_or_breaks (hfg : f.Grows g) (p : Policy) {i : Instruction} {target : Operand}
    (hi : f.code[pos]? = some i) (htarget : i.jumpTarget? = some target) :
    g.opcodeAt? target.toNat = f.opcodeAt? target.toNat
      ∨ ∃ w, f.Breaks p w ∧ w.position? = some pos := by
  rcases Nat.lt_or_ge target.toNat f.length with hin | hout
  · exact .inl (hfg.opcodeAt?_eq hin)
  · exact .inr ⟨_, .targetOutOfRange hi (.inl htarget) hout, rfl⟩

/-- An instruction that breaks a rule after growth broke one before. -/
theorem exists_breaks (hfg : f.Grows g) (hv : g.Breaks p v) (hpos : v.position? = some pos)
    (hlt : pos < f.length) : ∃ w, f.Breaks p w ∧ w.position? = some pos := by
  cases hv with
  | tooManyInstructions | missingTerminator => cases hpos
  | targetOutOfRange hi hnamed hout =>
      cases hpos
      rw [hfg.getElem?_code hlt] at hi
      exact ⟨_, .targetOutOfRange hi hnamed (Nat.le_trans hfg.length_le hout), rfl⟩
  | notAMarker hi htarget hfound hnot =>
      cases hpos
      rw [hfg.getElem?_code hlt] at hi
      rcases hfg.opcodeAt?_eq_or_breaks p hi htarget with hsame | hbreaks
      · exact ⟨_, .notAMarker hi htarget (hsame ▸ hfound) hnot, rfl⟩
      · exact hbreaks
  | illegalMarker hi hop htarget hkind hne =>
      cases hpos
      rw [hfg.getElem?_code hlt] at hi
      rcases hfg.opcodeAt?_eq_or_breaks p hi htarget with hsame | hbreaks
      · exact ⟨_, .illegalMarker hi hop htarget (hsame ▸ hkind) hne, rfl⟩
      · exact hbreaks
  | forwardNotAfter hcheck hi htarget hkind hle =>
      cases hpos
      rw [hfg.getElem?_code hlt] at hi
      rcases hfg.opcodeAt?_eq_or_breaks p hi htarget with hsame | hbreaks
      · exact ⟨_, .forwardNotAfter hcheck hi htarget (hsame ▸ hkind) hle, rfl⟩
      · exact hbreaks
  | loopNotBefore hcheck hi htarget hkind hne hle =>
      cases hpos
      rw [hfg.getElem?_code hlt] at hi
      rcases hfg.opcodeAt?_eq_or_breaks p hi htarget with hsame | hbreaks
      · exact ⟨_, .loopNotBefore hcheck hi htarget (hsame ▸ hkind) hne hle, rfl⟩
      · exact hbreaks
  | intOutOfRange hi hop hindex hout =>
      cases hpos
      rw [hfg.getElem?_code hlt] at hi
      exact ⟨_, .intOutOfRange hi hop hindex (Nat.le_trans (hfg.tableSize_le .ints) hout), rfl⟩
  | strOutOfRange hi hop hindex hout =>
      cases hpos
      rw [hfg.getElem?_code hlt] at hi
      exact ⟨_, .strOutOfRange hi hop hindex (Nat.le_trans (hfg.tableSize_le .strs) hout), rfl⟩
  | notABool hi hop hvalue hzero hone =>
      cases hpos
      rw [hfg.getElem?_code hlt] at hi
      exact ⟨_, .notABool hi hop hvalue hzero hone, rfl⟩

/-- If nothing but a missing terminator was wrong, no instruction that was there
is wrong after growth. -/
theorem length_le_of_mem_errors (hfg : f.Grows g) (hlength : g.length ≤ p.maxInstructions)
    (herrors : ∀ w ∈ (f.verify p).errors, w = .missingTerminator)
    (hv : v ∈ (g.verify p).errors) (hpos : v.position? = some pos) : f.length ≤ pos := by
  by_contra hlt
  have hbreaks := (mem_errors_iff hlength).mp hv
  obtain ⟨w, hw, hwpos⟩ := hfg.exists_breaks hbreaks hpos (Nat.lt_of_not_le hlt)
  have hmem := (mem_errors_iff (Nat.le_trans hfg.length_le hlength)).mpr hw
  rw [herrors w hmem] at hwpos
  cases hwpos

/-! ## Warnings -/

theorem names (hfg : f.Grows g) (h : f.Names pos) : g.Names pos := by
  obtain ⟨k, i, target, hi, hnamed, htarget⟩ := h
  obtain ⟨hk, _⟩ := Array.getElem?_eq_some_iff.mp hi
  exact ⟨k, i, target, (hfg.getElem?_code hk).trans hi, hnamed, htarget⟩

theorem mem_warnings (hfg : f.Grows g) (hlength : g.length ≤ p.maxInstructions)
    (hpos : pos < f.length) (h : .unreferencedTarget pos ∈ (g.verify p).warnings) :
    .unreferencedTarget pos ∈ (f.verify p).warnings := by
  have hlength' := Nat.le_trans hfg.length_le hlength
  rw [unreferencedTarget_mem_warnings_iff hlength, mem_unreferencedMarkers_iff,
    hfg.opcodeAt?_eq hpos] at h
  rw [unreferencedTarget_mem_warnings_iff hlength', mem_unreferencedMarkers_iff]
  exact ⟨h.1, fun hnamed => h.2 (hfg.names hnamed)⟩

end Grows

/-- Let a function be under construction and be given more declarations,
constants and instructions, but no patch.  If nothing but a missing terminator
was wrong with it, no instruction that it had is wrong now; and, wrong or not, a
marker that it had and that is not named now was not named then. -/
theorem verify_run_append (start : Builder) (before after : List Edit)
    (hafter : ∀ edit ∈ after, edit.isPatch = false) (p : Policy)
    (hlength : (start.run (before ++ after)).function.length ≤ p.maxInstructions) :
    let f := (start.run before).function
    let g := (start.run (before ++ after)).function
    ((∀ v ∈ (f.verify p).errors, v = .missingTerminator) →
        ∀ v ∈ (g.verify p).errors, ∀ pos, v.position? = some pos → f.length ≤ pos)
      ∧ ∀ pos < f.length, .unreferencedTarget pos ∈ (g.verify p).warnings →
          .unreferencedTarget pos ∈ (f.verify p).warnings := by
  intro f g
  have hfg : f.Grows g := by
    have hgrows := Builder.grows_run (start.run before) hafter
    rwa [← Builder.run_append] at hgrows
  exact ⟨fun herrors v hv pos hpos => hfg.length_le_of_mem_errors hlength herrors hv hpos,
    fun pos hpos hwarned => hfg.mem_warnings hlength hpos hwarned⟩

/-- After two markers a literal that is no boolean is appended, and a for-loop
that exits to one of them: the new instruction is the one to blame, and only
the other marker is still without a name. -/
theorem verify_run_append_markers :
    let before : List Edit := [.push ⟨.jtarg, [], rfl⟩, .push ⟨.jtarg, [], rfl⟩]
    let after : List Edit :=
      [.setArgs 1, .push ⟨.boolk, [2], rfl⟩, .push ⟨.jfor, [0, 0, 1], rfl⟩]
    let f := (Builder.new.run before).function
    let g := (Builder.new.run (before ++ after)).function
    (∀ edit ∈ after, edit.isPatch = false) ∧ g.length ≤ Policy.strict.maxInstructions
      ∧ (f.verify .strict).errors = [.missingTerminator] ∧ .notABool 2 2 ∈ (g.verify .strict).errors
      ∧ f.length ≤ 2
      ∧ .unreferencedTarget 0 ∈ (g.verify .strict).warnings
      ∧ .unreferencedTarget 0 ∈ (f.verify .strict).warnings := by
  intro before after f g
  have hafter : ∀ edit ∈ after, edit.isPatch = false := by decide
  have hlength : g.length ≤ Policy.strict.maxInstructions := by decide
  have herrors : (f.verify .strict).errors = [.missingTerminator] := by decide
  have hbool : .notABool 2 2 ∈ (g.verify .strict).errors := by decide
  have hwarned : .unreferencedTarget 0 ∈ (g.verify .strict).warnings := by decide
  obtain ⟨hblamed, hkept⟩ := verify_run_append .new before after hafter .strict hlength
  refine ⟨hafter, hlength, herrors, hbool, hblamed ?_ _ hbool 2 rfl, hwarned,
    hkept 0 (by decide) hwarned⟩
  intro v hv
  rw [herrors] at hv
  exact List.mem_singleton.mp hv

end Function

end Wordcode
