/-
# Meaning — what the lines of a listing say together

The second reading of a listing, against which assembly is measured.  It takes
the parsed lines as a whole and never builds anything: a first pass counts the
instructions before each label (`labelIndex?`), a second one says which
function the lines describe when every label stands for its count (`Denotes`).
`WellFormed` collects, rule by rule, what a listing must keep to describe a
function at all.

No rule mentions an order of reading, a placeholder or a patch.  The rules
that reading can check as it goes are `Readable`; the one that it cannot, that
every label referred to is defined somewhere, comes on top.

`readable_append_singleton` cuts `Readable` into what each line has to keep
with respect to the lines before it (`FitsAfter`); it is what lets a loop over
the lines check the rules one line at a time.
-/
import Mathlib.Data.List.Forall2
import Mathlib.Data.List.Nodup
import Wordcode.Builder
import Wordcode.Listing.Line

namespace Wordcode

/-! ## Parts of a line -/

namespace Directive

/-- The number of positional arguments, if it is what is declared. -/
def args? : Directive → Option UInt16
  | .args count => some count
  | _ => none

/-- The number of captured values, if it is what is declared. -/
def upvalues? : Directive → Option UInt16
  | .upvalues count => some count
  | _ => none

/-- The integer constant, if it is what is declared. -/
def int? : Directive → Option Int32
  | .int value => some value
  | _ => none

/-- The string constant, if it is what is declared. -/
def str? : Directive → Option String
  | .str value => some value
  | _ => none

end Directive

namespace Line

/-- The instruction on a line. -/
def instruction? (l : Line) : Option RawInstruction :=
  match l.statement with
  | some (.instruction raw) => some raw
  | _ => none

/-- The directive on a line. -/
def directive? (l : Line) : Option Directive :=
  match l.statement with
  | some (.directive d) => some d
  | _ => none

/-- The table that a line adds an entry to. -/
def table? (l : Line) : Option Table :=
  match l.statement with
  | some (.instruction _) => some .code
  | some (.directive (.int _)) => some .ints
  | some (.directive (.str _)) => some .strs
  | _ => none

end Line

/-- A line that says nothing. -/
def Line.silent : Line := ⟨none, none⟩

/-- The lines of a listing, in order. -/
abbrev Listing := List Line

namespace Listing

/-! ## First pass: counting -/

/-- The instructions, in order. -/
def instructions (ls : Listing) : List RawInstruction := ls.filterMap Line.instruction?

/-- The directives, in order. -/
def directives (ls : Listing) : List Directive := ls.filterMap Line.directive?

/-- The labels that are defined, in order. -/
def labels (ls : Listing) : List String := ls.filterMap Line.label

/-- The integer constants, in order. -/
def ints (ls : Listing) : List Int32 := ls.directives.filterMap Directive.int?

/-- The string constants, in order. -/
def strs (ls : Listing) : List String := ls.directives.filterMap Directive.str?

/-- The number of positional arguments: the last one declared. -/
def args (ls : Listing) : UInt16 := (ls.directives.filterMap Directive.args?).getLast?.getD 0

/-- The number of captured values: the last one declared. -/
def upvalues (ls : Listing) : UInt16 :=
  (ls.directives.filterMap Directive.upvalues?).getLast?.getD 0

/-- The number of entries for a table. -/
def tableSize (ls : Listing) : Table → Nat
  | .ints => ls.ints.length
  | .strs => ls.strs.length
  | .code => ls.instructions.length

/-- The index that a label names: the number of instructions on the lines
before the one that defines it. -/
def labelIndex? (ls : Listing) (name : String) : Option Nat :=
  (ls.findIdx? (·.label == some name)).map fun k => (instructions (ls.take k)).length

end Listing

/-! ## Second pass: what the lines describe -/

/-- An expression stands for an operand, when labels stand for indices. -/
def OperandExpr.Denotes (index? : String → Option Nat) : OperandExpr → Operand → Prop
  | .number value, a => value = a.toNat
  | .label name, a => index? name = some a.toNat

/-- An instruction of a listing stands for an instruction, when labels stand
for indices. -/
structure RawInstruction.Denotes (index? : String → Option Nat) (raw : RawInstruction)
    (i : Instruction) : Prop where
  opcode : raw.opcode = i.opcode
  operands : List.Forall₂ (OperandExpr.Denotes index?) raw.operands i.operands

namespace Listing

/-- Lines, each parsed alone. -/
def Parses (texts : List (List Char)) (ls : Listing) : Prop :=
  List.Forall₂ (fun text l => Line.parse text = .ok l) texts ls

/-- The lines of a text, each parsed alone. -/
def Reads (source : String) (ls : Listing) : Prop := Parses (Text.lines source.toList) ls

/-- The lines describe a function. -/
structure Denotes (ls : Listing) (f : Function) : Prop where
  args : f.args = ls.args
  upvalues : f.upvalues = ls.upvalues
  ints : f.ints.toList = ls.ints
  strs : f.strs.toList = ls.strs
  code : List.Forall₂ (RawInstruction.Denotes ls.labelIndex?) ls.instructions f.code.toList

end Listing

/-! ## Rules -/

/-- The rules for an instruction that do not depend on where it stands. -/
structure RawInstruction.WellShaped (raw : RawInstruction) : Prop where
  /-- Every number fits an operand. -/
  numbers_fit : ∀ value, .number value ∈ raw.operands → 0 ≤ value ∧ value ≤ 65535
  /-- Labels stand only in slots that hold a target. -/
  labels_at_targets : ∀ (slot : Nat) (name : String),
    raw.operands[slot]? = some (.label name) → raw.opcode.operandKinds[slot]? = some .target
  /-- Every slot is filled and no other is. -/
  length_operands : raw.operands.length = raw.opcode.arity

namespace Listing

/-- The rules that can be checked while the lines are read. -/
structure Readable (ls : Listing) : Prop where
  /-- No label is defined twice. -/
  nodup_labels : ls.labels.Nodup
  wellShaped : ∀ raw ∈ ls.instructions, raw.WellShaped
  /-- Every entry of every table can be named by an operand. -/
  tableSize_le : ∀ t : Table, ls.tableSize t ≤ capacity
  /-- Every label stands before an instruction that an operand can name. -/
  labelIndex_lt : ∀ name k, ls.labelIndex? name = some k → k < capacity

/-- The rules for a listing that describes a function. -/
structure WellFormed (ls : Listing) : Prop extends Readable ls where
  /-- Every label referred to is defined, before or after. -/
  labels_defined : ∀ raw ∈ ls.instructions, ∀ name, .label name ∈ raw.operands →
    name ∈ ls.labels

end Listing

/-- A line keeps the rules after the lines before it. -/
structure Line.FitsAfter (done : Listing) (l : Line) : Prop where
  label : ∀ name, l.label = some name → done.tableSize .code < capacity ∧ name ∉ done.labels
  room : ∀ t, l.table? = some t → done.tableSize t < capacity
  wellShaped : ∀ raw, l.instruction? = some raw → raw.WellShaped

namespace Listing

/-! ## Lines read before and after

Every part of a listing is a list that grows at its end, so each part of
`done ++ [l]` is the part of `done` and what `l` adds to it. -/

section Append
variable (ls ls' done : Listing) (l : Line)

@[simp] theorem instructions_append :
    instructions (ls ++ ls') = ls.instructions ++ ls'.instructions :=
  List.filterMap_append

@[simp] theorem labels_append : labels (ls ++ ls') = ls.labels ++ ls'.labels :=
  List.filterMap_append

@[simp] theorem directives_append : directives (ls ++ ls') = ls.directives ++ ls'.directives :=
  List.filterMap_append

@[simp] theorem ints_append : ints (ls ++ ls') = ls.ints ++ ls'.ints := by
  rw [ints, directives_append]
  exact List.filterMap_append

@[simp] theorem strs_append : strs (ls ++ ls') = ls.strs ++ ls'.strs := by
  rw [strs, directives_append]
  exact List.filterMap_append

@[simp] theorem instructions_singleton : instructions [l] = l.instruction?.toList := by
  cases h : l.instruction? <;> simp [instructions, h]

@[simp] theorem labels_singleton : labels [l] = l.label.toList := by
  cases h : l.label <;> simp [labels, h]

@[simp] theorem directives_singleton : directives [l] = l.directive?.toList := by
  cases h : l.directive? <;> simp [directives, h]

@[simp] theorem ints_singleton : ints [l] = (l.directive?.bind Directive.int?).toList := by
  cases h : l.directive? with
  | none => simp [ints, h]
  | some d => cases h' : d.int? <;> simp [ints, h, h']

@[simp] theorem strs_singleton : strs [l] = (l.directive?.bind Directive.str?).toList := by
  cases h : l.directive? with
  | none => simp [strs, h]
  | some d => cases h' : d.str? <;> simp [strs, h, h']

theorem args_append_singleton :
    args (done ++ [l]) = (l.directive?.bind Directive.args?).getD done.args := by
  rw [args, directives_append, directives_singleton, List.filterMap_append]
  cases h : l.directive? with
  | none => simp [args]
  | some d => cases h' : d.args? <;> simp [args, h']

theorem upvalues_append_singleton :
    upvalues (done ++ [l]) = (l.directive?.bind Directive.upvalues?).getD done.upvalues := by
  rw [upvalues, directives_append, directives_singleton, List.filterMap_append]
  cases h : l.directive? with
  | none => simp [upvalues]
  | some d => cases h' : d.upvalues? <;> simp [upvalues, h']

theorem tableSize_append (t : Table) :
    tableSize (ls ++ ls') t = ls.tableSize t + ls'.tableSize t := by
  cases t <;> simp [tableSize]

theorem tableSize_singleton (t : Table) :
    tableSize [l] t = if l.table? = some t then 1 else 0 := by
  obtain ⟨label, statement⟩ := l
  rcases statement with _ | ⟨(_ | _ | _ | _) | _⟩ <;> cases t <;>
    simp [tableSize, Line.table?, Line.instruction?, Line.directive?, Directive.int?,
      Directive.str?]

end Append

variable {done ls : Listing} {l : Line} {name : String}

theorem mem_labels : name ∈ ls.labels ↔ ∃ l ∈ ls, l.label = some name :=
  List.mem_filterMap

/-- A label has an index exactly if it is defined. -/
theorem labelIndex?_eq_none_iff : ls.labelIndex? name = none ↔ name ∉ ls.labels := by
  rw [labelIndex?, Option.map_eq_none_iff, List.findIdx?_eq_none_iff, mem_labels]
  simp only [beq_eq_false_iff_ne, ne_eq, not_exists, not_and]

theorem mem_labels_of_labelIndex? {k : Nat} (h : ls.labelIndex? name = some k) :
    name ∈ ls.labels := by
  by_contra hnot
  rw [labelIndex?_eq_none_iff.mpr hnot] at h
  cases h

/-- Lines that follow do not move a label. -/
theorem labelIndex?_append_left (h : name ∈ ls.labels) (ls' : Listing) :
    labelIndex? (ls ++ ls') name = ls.labelIndex? name := by
  have hsome : (ls.findIdx? (·.label == some name)).isSome := by
    obtain ⟨l, hl, hname⟩ := mem_labels.mp h
    rw [List.findIdx?_isSome, List.any_eq_true]
    exact ⟨l, hl, beq_iff_eq.mpr hname⟩
  obtain ⟨n, hn⟩ := Option.isSome_iff_exists.mp hsome
  have hle : n ≤ ls.length := Nat.le_of_lt (List.findIdx?_eq_some_iff_findIdx_eq.mp hn).1
  simp only [labelIndex?, List.findIdx?_append, hn, Option.some_or, Option.map_some,
    List.take_append_of_le_length hle]

/-- Behind other lines a label names an instruction that is behind theirs, unless
they define it themselves. -/
theorem labelIndex?_append (ls ls' : Listing) (name : String) : labelIndex? (ls ++ ls') name
    = (ls.labelIndex? name).or ((ls'.labelIndex? name).map (ls.instructions.length + ·)) := by
  by_cases hold : name ∈ ls.labels
  · have hsome : ls.labelIndex? name ≠ none := fun hnone => labelIndex?_eq_none_iff.mp hnone hold
    obtain ⟨k, hk⟩ := Option.ne_none_iff_exists'.mp hsome
    rw [labelIndex?_append_left hold, hk, Option.some_or]
  · have hnone : ls.findIdx? (·.label == some name) = none :=
      Option.map_eq_none_iff.mp (labelIndex?_eq_none_iff.mpr hold)
    rw [labelIndex?_eq_none_iff.mpr hold, Option.none_or, labelIndex?, List.findIdx?_append, hnone,
      Option.none_or, labelIndex?, Option.map_map, Option.map_map]
    congr 1
    funext k
    rw [Function.comp_apply, Function.comp_apply, Nat.add_comm k, List.take_length_add_append,
      instructions_append, List.length_append]

theorem labelIndex?_singleton :
    labelIndex? [l] name = if l.label = some name then some 0 else none := by
  by_cases hl : l.label = some name
  · simp [labelIndex?, hl, instructions]
  · simp [labelIndex?, hl]

/-- A label keeps the index that it has; one that is new on a line names the
next instruction. -/
theorem labelIndex?_append_singleton : labelIndex? (done ++ [l]) name =
    (done.labelIndex? name).or
      (if l.label = some name then some (done.tableSize .code) else none) := by
  rw [labelIndex?_append, labelIndex?_singleton]
  split
  · rfl
  · rfl

theorem labelIndex?_append_new (hold : name ∉ done.labels) (hl : l.label = some name) :
    labelIndex? (done ++ [l]) name = some (done.tableSize .code) := by
  rw [labelIndex?_append_singleton, labelIndex?_eq_none_iff.mpr hold, Option.none_or, if_pos hl]

/-! ## The rules line by line -/

theorem Readable.nil : Readable [] :=
  ⟨List.nodup_nil, nofun, fun t => by cases t <;> exact Nat.zero_le _, nofun⟩

/-- The lines before others keep the rules by themselves. -/
theorem Readable.of_append {ls' : Listing} (h : Readable (ls ++ ls')) : ls.Readable := by
  refine ⟨?_, fun raw hraw => h.wellShaped raw ?_, fun t => ?_, fun name k hk => ?_⟩
  · exact (List.nodup_append.mp (labels_append ls ls' ▸ h.nodup_labels)).1
  · exact instructions_append ls ls' ▸ List.mem_append_left _ hraw
  · have hsize := h.tableSize_le t
    rw [tableSize_append] at hsize
    omega
  · refine h.labelIndex_lt name k ?_
    rw [labelIndex?_append_left (mem_labels_of_labelIndex? hk), hk]

theorem Readable.fitsAfter (h : Readable (done ++ [l])) : l.FitsAfter done := by
  refine ⟨fun name hname => ?_, fun t ht => ?_, fun raw hraw => h.wellShaped raw ?_⟩
  · have hnew : name ∉ done.labels := by
      intro hdone
      have hnodup := h.nodup_labels
      rw [labels_append, labels_singleton, hname, Option.toList_some] at hnodup
      exact (List.nodup_append.mp hnodup).2.2 name hdone name (List.mem_singleton_self _) rfl
    exact ⟨h.labelIndex_lt name _ (labelIndex?_append_new hnew hname), hnew⟩
  · have hsize := h.tableSize_le t
    rw [tableSize_append, tableSize_singleton, if_pos ht] at hsize
    omega
  · rw [instructions_append, instructions_singleton, hraw]
    exact List.mem_append_right _ (List.mem_singleton_self _)

theorem Readable.append_singleton (h : done.Readable) (hl : l.FitsAfter done) :
    Readable (done ++ [l]) := by
  refine ⟨?_, fun raw hraw => ?_, fun t => ?_, fun name k hk => ?_⟩
  · rw [labels_append, labels_singleton]
    cases hlabel : l.label with
    | none => simpa using h.nodup_labels
    | some name =>
        refine List.nodup_append.mpr ⟨h.nodup_labels, List.nodup_singleton _, ?_⟩
        rintro other hother _ hname rfl
        rw [List.mem_singleton.mp hname] at hother
        exact (hl.label name hlabel).2 hother
  · rw [instructions_append, instructions_singleton, List.mem_append, Option.mem_toList] at hraw
    rcases hraw with hraw | hraw
    · exact h.wellShaped raw hraw
    · exact hl.wellShaped raw hraw
  · have hsize := h.tableSize_le t
    rw [tableSize_append, tableSize_singleton]
    split
    · next ht => exact hl.room t ht
    · exact hsize
  · rw [labelIndex?_append_singleton, Option.or_eq_some_iff] at hk
    rcases hk with hk | ⟨_, hk⟩
    · exact h.labelIndex_lt name k hk
    · split at hk
      · next hlabel => exact Option.some.inj hk ▸ (hl.label name hlabel).1
      · cases hk

/-- Lines keep the rules exactly if each does after those before it. -/
theorem readable_append_singleton :
    Readable (done ++ [l]) ↔ done.Readable ∧ l.FitsAfter done :=
  ⟨fun h => ⟨h.of_append, h.fitsAfter⟩, fun h => h.1.append_singleton h.2⟩

end Listing

end Wordcode
