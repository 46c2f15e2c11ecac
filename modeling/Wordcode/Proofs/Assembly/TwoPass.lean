/-
# Two passes — assembly against its reference

Assembly goes over a listing once and patches what it could not know yet.  Here
it is measured against the reading in two passes of `Listing.Denotes`: count
the instructions before each label, then look every label up.  Both accept the
same listings and give the same function.
-/
import Wordcode.Proofs.Assembly.Patching

namespace Wordcode

variable {source : String} {ls ls' : Listing} {f g : Function} {index? : String → Option Nat}

/-! ## The reference is a function -/

theorem OperandExpr.rightUnique_denotes : Relator.RightUnique (OperandExpr.Denotes index?) := by
  intro e a b ha hb
  cases e with
  | number value => exact UInt16.toNat_inj.mp (Int.ofNat.inj (ha.symm.trans hb))
  | label name => exact UInt16.toNat_inj.mp (Option.some.inj (ha.symm.trans hb))

theorem RawInstruction.rightUnique_denotes : Relator.RightUnique (RawInstruction.Denotes index?) :=
  fun _ _ _ hi hj => Instruction.eq_of_operands_eq (hi.opcode.symm.trans hj.opcode)
    (List.right_unique_forall₂' OperandExpr.rightUnique_denotes hi.operands hj.operands)

/-- Lines denote at most one function. -/
theorem Listing.Denotes.unique (hf : ls.Denotes f) (hg : ls.Denotes g) : f = g := by
  have hints : f.ints = g.ints := Array.toList_inj.mp (hf.ints.trans hg.ints.symm)
  have hstrs : f.strs = g.strs := Array.toList_inj.mp (hf.strs.trans hg.strs.symm)
  have hcode : f.code = g.code := Array.toList_inj.mp
    (List.right_unique_forall₂' RawInstruction.rightUnique_denotes hf.code hg.code)
  have hargs := hf.args.trans hg.args.symm
  have hupvalues := hf.upvalues.trans hg.upvalues.symm
  cases f
  cases g
  simp_all

/-- A listing describes tables of its own sizes. -/
theorem Listing.Denotes.tableSize_eq (hf : ls.Denotes f) (t : Table) :
    f.tableSize t = ls.tableSize t := by
  cases t with
  | ints => exact Array.length_toList.symm.trans (congrArg List.length hf.ints)
  | strs => exact Array.length_toList.symm.trans (congrArg List.length hf.strs)
  | code => exact Array.length_toList.symm.trans hf.code.length_eq.symm

/-- A text has at most one sequence of parsed lines. -/
theorem Listing.Reads.unique (h : Listing.Reads source ls) (h' : Listing.Reads source ls') :
    ls = ls' :=
  List.right_unique_forall₂' (fun _ _ _ hl hl' => Except.ok.inj (hl.symm.trans hl')) h h'

/-! ## Assembly -/

namespace Assembly

/-- A text is assembled exactly if its lines can be parsed and keep every rule. -/
theorem exists_assemble_iff :
    (∃ f, assemble source = .ok f) ↔ ∃ ls, Listing.Reads source ls ∧ ls.WellFormed := by
  simp only [assemble, bind_eq_ok_iff]
  constructor
  · rintro ⟨f, s, hs, hf⟩
    obtain ⟨ls, hls, hreadable, hreflects⟩ := exists_reflects_of_readLines hs
    exact ⟨ls, hls, (hreflects.exists_finish_iff hreadable).mp ⟨f, hf⟩⟩
  · rintro ⟨ls, hls, hwellFormed⟩
    obtain ⟨s, hs⟩ := (exists_readLines_iff State.Reflects.nil .nil _).mpr
      ⟨ls, hls, hwellFormed.toReadable⟩
    have hreflects := State.Reflects.nil.readLines hls hs
    obtain ⟨f, hf⟩ := (hreflects.exists_finish_iff hwellFormed.toReadable).mpr hwellFormed
    exact ⟨f, s, hs, hf⟩

/-- What is assembled is what the lines denote. -/
theorem denotes_of_assemble (hls : Listing.Reads source ls) (hf : assemble source = .ok f) :
    ls.WellFormed ∧ ls.Denotes f := by
  obtain ⟨ls', hls', hwellFormed⟩ := exists_assemble_iff.mp ⟨f, hf⟩
  obtain rfl := hls.unique hls'
  rw [assemble, bind_eq_ok_iff] at hf
  obtain ⟨s, hs, hf⟩ := hf
  exact ⟨hwellFormed, (State.Reflects.nil.readLines hls hs).finish hwellFormed.toReadable hf⟩

/-- A text whose lines keep the rules and denote a function is assembled into
that function. -/
theorem assemble_of_denotes (hls : Listing.Reads source ls) (hwellFormed : ls.WellFormed)
    (hf : ls.Denotes f) : assemble source = .ok f := by
  obtain ⟨g, hg⟩ := exists_assemble_iff.mpr ⟨ls, hls, hwellFormed⟩
  rw [hg, (denotes_of_assemble hls hg).2.unique hf]

/-- Assembly in one pass accepts what the reading in two passes accepts, and
gives the function that it describes. -/
theorem assemble_iff_two_passes (source : String) :
    ((∃ f, assemble source = .ok f) ↔ ∃ ls, Listing.Reads source ls ∧ ls.WellFormed)
      ∧ ∀ f, assemble source = .ok f ↔
        ∃ ls, Listing.Reads source ls ∧ ls.WellFormed ∧ ls.Denotes f := by
  refine ⟨exists_assemble_iff, fun f => ⟨fun hf => ?_, ?_⟩⟩
  · obtain ⟨ls, hls, _⟩ := exists_assemble_iff.mp ⟨f, hf⟩
    exact ⟨ls, hls, denotes_of_assemble hls hf⟩
  · rintro ⟨ls, hls, hwellFormed, hf⟩
    exact assemble_of_denotes hls hwellFormed hf

end Assembly

end Wordcode
