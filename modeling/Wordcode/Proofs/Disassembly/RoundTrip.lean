/-
# Round trip — a disassembled function is assembled again

The listing of a function holds no label, so its meaning is plain: `parsed` is
what its lines say, `reads_disassemble` that they are read as that, and
`denotes_parsed` that this describes the function.  That the tables of the
function are within what operands can address is the only thing asked of it.
-/
import Wordcode.Proofs.Assembly.TwoPass
import Wordcode.Proofs.Disassembly.Written
import Wordcode.Proofs.Text.Lines

namespace Wordcode

open Text Lexeme Assembly

/-! ## Lines of the listing -/

namespace Line

/-- A line that is a directive. -/
def ofDirective (d : Directive) : Line := ⟨none, some (.directive d)⟩

/-- A line that is an instruction. -/
def ofInstruction (i : Instruction) : Line := ⟨none, some (.instruction i.raw)⟩

end Line

namespace Function

variable (f : Function)

/-- The lines of the listing of a function, parsed. -/
def parsed : Listing :=
  [.silent, .silent, .silent, .ofDirective (.args f.args), .ofDirective (.upvalues f.upvalues)]
  ++ f.ints.toList.map (fun value => .ofDirective (.int value))
  ++ f.strs.toList.map (fun value => .ofDirective (.str value))
  ++ [.silent]
  ++ f.code.toList.map .ofInstruction

theorem allVisible_of_mem_listingLines {line : String} (h : line ∈ f.listingLines) :
    AllVisible line := by
  simp only [listingLines, List.mem_append, List.mem_cons, List.not_mem_nil, or_false,
    List.mem_map] at h
  rcases h with ((((rfl | rfl | rfl | rfl | rfl) | ⟨_, _, rfl⟩) | ⟨_, _, rfl⟩) | rfl) | ⟨_, _, rfl⟩
  · decide
  · exact f.allVisible_countsLine
  · decide
  · exact .append (by decide) (.repr _)
  · exact .append (by decide) (.repr _)
  · exact allVisible_intLine _ _
  · exact allVisible_strLine _ _
  · decide
  · exact f.allVisible_codeLine _ _

/-- Lines that are numbered when they are written are parsed one by one. -/
theorem forall₂_zipIdx {α : Type} {write : α → Nat → String} {line : α → Line}
    (h : ∀ a k, Line.parse (write a k).toList = .ok (line a)) (as : List α) :
    List.Forall₂ (fun text l => Line.parse text.toList = .ok l)
      (as.zipIdx.map fun (a, k) => write a k) (as.map line) := by
  conv_rhs => rw [← List.zipIdx_map_fst 0 as, List.map_map]
  rw [List.forall₂_map_left_iff, List.forall₂_map_right_iff, List.forall₂_same]
  exact fun p _ => h p.1 p.2

theorem reads_disassemble : Listing.Reads f.disassemble f.parsed := by
  rw [Listing.Reads, disassemble, lines_joinLines fun _ => f.allVisible_of_mem_listingLines,
    Listing.Parses, List.forall₂_map_left_iff]
  -- part by part, as the listing is put together
  refine List.rel_append (List.rel_append (List.rel_append (List.rel_append ?_ ?_) ?_) ?_) ?_
  · have htitle : Line.parse listingTitle.toList = .ok .silent :=
      Line.parse_blank (yields_comment (by decide) rfl)
    have hcounts := Line.parse_blank (yields_comment f.allVisible_countsLine (by
      simp only [String.toList_append]
      rfl))
    exact .cons htitle (.cons hcounts (.cons (Line.parse_blank .nil)
      (.cons (parse_argsLine _) (.cons (parse_upvaluesLine _) .nil))))
  · exact forall₂_zipIdx parse_intLine _
  · exact forall₂_zipIdx parse_strLine _
  · exact .cons (Line.parse_blank .nil) .nil
  · exact forall₂_zipIdx f.parse_codeLine _

/-! ## What the lines describe -/

section Parts
variable {α : Type} (d : α → Directive) (as : List α) (is : List Instruction)

theorem instructions_map_ofDirective :
    Listing.instructions (as.map fun a => .ofDirective (d a)) = [] := by
  rw [Listing.instructions, List.filterMap_map]
  exact List.filterMap_eq_nil_iff.mpr fun _ _ => rfl

theorem instructions_map_ofInstruction :
    Listing.instructions (is.map .ofInstruction) = is.map Instruction.raw := by
  rw [Listing.instructions, List.filterMap_map]
  exact congrFun List.filterMap_eq_map' is

theorem directives_map_ofDirective :
    Listing.directives (as.map fun a => .ofDirective (d a)) = as.map d := by
  rw [Listing.directives, List.filterMap_map]
  exact congrFun List.filterMap_eq_map' as

theorem directives_map_ofInstruction : Listing.directives (is.map .ofInstruction) = [] := by
  rw [Listing.directives, List.filterMap_map]
  exact List.filterMap_eq_nil_iff.mpr fun _ _ => rfl

theorem labels_map_ofDirective : Listing.labels (as.map fun a => .ofDirective (d a)) = [] := by
  rw [Listing.labels, List.filterMap_map]
  exact List.filterMap_eq_nil_iff.mpr fun _ _ => rfl

theorem labels_map_ofInstruction : Listing.labels (is.map .ofInstruction) = [] := by
  rw [Listing.labels, List.filterMap_map]
  exact List.filterMap_eq_nil_iff.mpr fun _ _ => rfl

end Parts

theorem instructions_parsed : f.parsed.instructions = f.code.toList.map Instruction.raw := by
  simp only [parsed, Listing.instructions_append, instructions_map_ofDirective,
    instructions_map_ofInstruction]
  rfl

theorem labels_parsed : f.parsed.labels = [] := by
  simp only [parsed, Listing.labels_append, labels_map_ofDirective, labels_map_ofInstruction]
  rfl

theorem directives_parsed : f.parsed.directives = [.args f.args, .upvalues f.upvalues]
    ++ f.ints.toList.map .int ++ f.strs.toList.map .str := by
  have hsilent : Listing.directives [Line.silent] = [] := rfl
  simp only [parsed, Listing.directives_append, directives_map_ofDirective,
    directives_map_ofInstruction, hsilent, List.append_nil]
  rfl

theorem filterMap_directives_parsed {β : Type} (g : Directive → Option β) :
    f.parsed.directives.filterMap g = (g (.args f.args)).toList ++ (g (.upvalues f.upvalues)).toList
      ++ f.ints.toList.filterMap (g ∘ .int) ++ f.strs.toList.filterMap (g ∘ .str) := by
  rw [directives_parsed, List.filterMap_append, List.filterMap_append, List.filterMap_map,
    List.filterMap_map]
  cases hargs : g (.args f.args) <;> cases hupvalues : g (.upvalues f.upvalues) <;>
    simp [hargs, hupvalues]

theorem denotes_raw (index? : String → Option Nat) (i : Instruction) : i.raw.Denotes index? i :=
  ⟨rfl, List.forall₂_map_left_iff.mpr (List.forall₂_same.mpr fun _ _ => rfl)⟩

theorem denotes_parsed : f.parsed.Denotes f := by
  refine ⟨?_, ?_, ?_, ?_, ?_⟩
  · simp [Listing.args, filterMap_directives_parsed, Directive.args?, Function.comp_def]
  · simp [Listing.upvalues, filterMap_directives_parsed, Directive.upvalues?, Function.comp_def]
  · simp [Listing.ints, filterMap_directives_parsed, Directive.int?, Function.comp_def]
  · simp [Listing.strs, filterMap_directives_parsed, Directive.str?, Function.comp_def]
  · rw [instructions_parsed, List.forall₂_map_left_iff, List.forall₂_same]
    exact fun i _ => denotes_raw _ i

theorem mem_operands_raw {i : Instruction} {e : OperandExpr} (h : e ∈ i.raw.operands) :
    ∃ a : Operand, e = .number a.toNat := by
  obtain ⟨a, _, rfl⟩ := List.mem_map.mp h
  exact ⟨a, rfl⟩

theorem wellShaped_raw (i : Instruction) : i.raw.WellShaped := by
  refine ⟨numbers_fit_of_denotes (denotes_raw unresolved i), fun slot name hlabel => ?_, ?_⟩
  · obtain ⟨a, ha⟩ := mem_operands_raw (List.mem_of_getElem? hlabel)
    cases ha
  · rw [Instruction.raw, List.length_map, i.length_operands]

/-- Lines without a label, with numbers for operands, keep the rules if there is
room for what they add. -/
theorem wellFormed_of_raw {ls : Listing} {is : List Instruction} (hlabels : ls.labels = [])
    (hinstructions : ls.instructions = is.map Instruction.raw)
    (hsize : ∀ t : Table, ls.tableSize t ≤ capacity) : ls.WellFormed := by
  refine ⟨⟨?_, fun raw hraw => ?_, hsize, fun name k hk => ?_⟩, fun raw hraw name hname => ?_⟩
  · rw [hlabels]
    exact List.nodup_nil
  · rw [hinstructions] at hraw
    obtain ⟨i, _, rfl⟩ := List.mem_map.mp hraw
    exact wellShaped_raw i
  · have hmem := Listing.mem_labels_of_labelIndex? hk
    rw [hlabels] at hmem
    cases hmem
  · rw [hinstructions] at hraw
    obtain ⟨i, _, rfl⟩ := List.mem_map.mp hraw
    obtain ⟨a, ha⟩ := mem_operands_raw hname
    cases ha

theorem wellFormed_parsed (h : ∀ t : Table, f.tableSize t ≤ capacity) : f.parsed.WellFormed := by
  refine wellFormed_of_raw f.labels_parsed f.instructions_parsed fun t => ?_
  rw [← f.denotes_parsed.tableSize_eq]
  exact h t

/-- A function whose tables can be addressed is assembled again from its
listing. -/
theorem assemble_disassemble (h : ∀ t : Table, f.tableSize t ≤ capacity) :
    assemble f.disassemble = .ok f :=
  assemble_of_denotes f.reads_disassemble (f.wellFormed_parsed h) f.denotes_parsed

/-- A string with everything in it that could end a literal, a comment or a
line, and a jump to nowhere. -/
theorem assemble_disassemble_awkward :
    let f : Function := ⟨2, 1, #[-2147483648], #["say \"hi\";\n# \\ \r\x00é"], #[⟨.jump, [9], rfl⟩]⟩
    (∀ t : Table, f.tableSize t ≤ capacity) ∧ assemble f.disassemble = .ok f :=
  have h : ∀ t : Table, Function.tableSize _ t ≤ capacity := fun t => by cases t <;> decide
  ⟨h, assemble_disassemble _ h⟩

end Function

end Wordcode
