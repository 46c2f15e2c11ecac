/-
# Written lines — what they yield

Each line of a listing is written in visible characters only, and parsing it
gives back what it was written from.  The comment after a statement may touch
its last token, since a text that fills its column is not followed by a blank;
`Note` is what can stand there, and it separates tokens either way.
-/
import Wordcode.Disassembly
import Wordcode.Proofs.Listing.Parse

namespace Wordcode

open Text Lexeme

/-! ## Comments -/

/-- Blanks and a visible comment. -/
inductive Note : List Char → Prop where
  | comment (n : Nat) {s : String} (hs : AllVisible s) (hhead : s.toList.head? = some ';') :
      Note (List.replicate n ' ' ++ s.toList)

theorem yields_comment {s : String} (hs : AllVisible s) (hhead : s.toList.head? = some ';') :
    Yields s.toList [] := by
  obtain ⟨cs, hcs⟩ := List.head?_eq_some_iff.mp hhead
  rw [AllVisible, hcs, List.forall_mem_cons] at hs
  rw [hcs]
  exact .comment rfl fun hmem => (hs.2 _ hmem).ne_newline rfl

namespace Note

variable {note : List Char}

theorem yields (h : Note note) : Yields note [] := by
  obtain ⟨n, hs, hhead⟩ := h
  exact .blanks n (yields_comment hs hhead)

theorem separated (h : Note note) : Separated note := by
  obtain ⟨n, hs, hhead⟩ := h
  cases n with
  | zero =>
      obtain ⟨cs, hcs⟩ := List.head?_eq_some_iff.mp hhead
      rw [hcs]
      exact separated_of_startsComment rfl
  | succ n => exact separated_blank _

end Note

/-- Text in a column that is filled up, with a comment after it. -/
theorem toList_padRight_append (width : Nat) (s t : String) :
    (padRight width s ++ t).toList
      = s.toList ++ (List.replicate (width - s.toList.length) ' ' ++ t.toList) := by
  rw [String.toList_append, padRight, String.toList_ofList, List.rightpad, List.append_assoc]

/-! ## Instructions -/

theorem fitsInt64_toNat (a : UInt16) : fitsInt64 a.toNat := by
  have ha : a.toNat < 65536 := a.toNat_lt_size
  rw [fitsInt64, Bool.and_eq_true, decide_eq_true_eq, decide_eq_true_eq]
  omega

theorem yields_operands {rest : List Char} (hrest : Separated rest) (h : Yields rest [])
    (values : List Operand) :
    Yields ((", ".intercalate (values.map fun a => toString a.toNat)).toList ++ rest)
      (OperandExpr.numberTokens (values.map fun a => (a.toNat : Int))) := by
  induction values with
  | nil => exact h
  | cons a values ih =>
      cases values with
      | nil =>
          rw [List.map_singleton, String.intercalate_singleton, Nat.toString_eq_ofList_toDigits,
            String.toList_ofList]
          exact .number (fitsInt64_toNat a) hrest h
      | cons b values =>
          rw [List.map_cons, List.map_cons, String.intercalate_cons_cons, String.toList_append,
            String.toList_append, Nat.toString_eq_ofList_toDigits, String.toList_ofList,
            List.append_assoc, List.append_assoc]
          exact .number (fitsInt64_toNat a) (separated_comma _) (.comma (.blank rfl ih))

theorem Opcode.allVisible_mnemonic (op : Opcode) : AllVisible op.mnemonic := by
  cases op <;> decide

namespace Instruction

variable (i : Instruction)

/-- The instruction as it is parsed. -/
def raw : RawInstruction := ⟨i.opcode, i.operands.map fun a => .number a.toNat⟩

theorem yields_text {rest : List Char} (hrest : Separated rest) (h : Yields rest []) :
    Yields (i.text.toList ++ rest) (.identifier i.opcode.mnemonic
      :: OperandExpr.numberTokens (i.operands.map fun a => (a.toNat : Int))) := by
  have hname := i.opcode.isName_mnemonic
  unfold text
  split
  · next hnil =>
      rw [hnil]
      have hy := Yields.identifier hname hrest h
      rwa [String.ofList_toList] at hy
  · rw [String.toList_append, String.toList_append, List.append_assoc, List.append_assoc]
    have hy := Yields.identifier hname (separated_blank _)
      (.blank rfl (yields_operands hrest h i.operands))
    rwa [String.ofList_toList] at hy

theorem allVisible_text : AllVisible i.text := by
  unfold text
  split
  · exact i.opcode.allVisible_mnemonic
  · refine .append (.append i.opcode.allVisible_mnemonic (by decide)) ?_
    exact .intercalate (by decide) (List.forall_mem_map.mpr fun a _ => .repr _)

/-- A written instruction is parsed as it was, whatever the comment says. -/
theorem parse_listed_append (index : Nat) {tail : String} (htail : AllVisible tail) :
    Line.parse (i.listed index ++ tail).toList = .ok ⟨none, some (.instruction i.raw)⟩ := by
  have hnote : Note (List.replicate (commentColumn - ("    " ++ i.text).toList.length) ' '
      ++ ("; " ++ (decimal 4 index ++ tail)).toList) := by
    refine .comment _ (.append (by decide) (.append (.decimal 4 index) htail)) ?_
    rw [String.toList_append]
    rfl
  have hy := i.yields_text hnote.separated hnote.yields
  have hparse := Line.parse_instruction (Yields.blanks 4 hy)
  rw [List.map_map] at hparse
  have hindented : ("    " ++ i.text).toList = List.replicate 4 ' ' ++ i.text.toList :=
    String.toList_append
  rw [listed, String.append_assoc, String.append_assoc, toList_padRight_append]
  rw [hindented] at hparse ⊢
  rw [List.append_assoc]
  exact hparse

theorem allVisible_listed (index : Nat) : AllVisible (i.listed index) :=
  .append (.append (.padRight (.append (by decide) i.allVisible_text) _) (by decide))
    (.decimal 4 index)

end Instruction

/-! ## Declarations -/

theorem parse_declaration (name : String) {value : List Char} {token : Token} {d : Directive}
    (hname : isName name.toList) (hd : d.Spelled name [token])
    (hvalue : Yields value [token]) :
    Line.parse ('.' :: (name.toList ++ ' ' :: value)) = .ok ⟨none, some (.directive d)⟩ := by
  have hy := Yields.directive hname (separated_blank _) (.blank rfl hvalue)
  rw [String.ofList_toList] at hy
  exact Line.parse_directive hd hy

theorem yields_count (count : UInt16) :
    Yields (toString count.toNat).toList [.number count.toNat] := by
  have hy := Yields.number (fitsInt64_toNat count) separated_nil .nil
  rw [List.append_nil] at hy
  rwa [Nat.toString_eq_ofList_toDigits, String.toList_ofList]

theorem parse_argsLine (count : UInt16) : Line.parse s!".args {count.toNat}".toList
    = .ok ⟨none, some (.directive (.args count))⟩ := by
  rw [String.toList_append]
  exact parse_declaration "args" (by decide) (.args (.number _)) (yields_count count)

theorem parse_upvaluesLine (count : UInt16) : Line.parse s!".upvalues {count.toNat}".toList
    = .ok ⟨none, some (.directive (.upvalues count))⟩ := by
  rw [String.toList_append]
  exact parse_declaration "upvalues" (by decide) (.upvalues (.number _)) (yields_count count)

namespace Function

/-- What stands in a column that is filled up, and the index of a pool entry
after it. -/
theorem note_entry (n index : Nat) : Note (List.replicate n ' ' ++ s!"; #{index}".toList) := by
  refine .comment n (.append (by decide) (.repr index)) ?_
  rw [String.toList_append]
  rfl

theorem fitsInt64_toInt (value : Int32) : fitsInt64 value.toInt := by
  have hlo := value.le_toInt
  have hhi := value.toInt_lt
  rw [fitsInt64, Bool.and_eq_true, decide_eq_true_eq, decide_eq_true_eq]
  omega

theorem parse_intLine (value : Int32) (index : Nat) :
    Line.parse (intLine value index).toList = .ok ⟨none, some (.directive (.int value))⟩ := by
  rw [intLine, String.append_assoc, String.toList_append, toList_padRight_append,
    String.toList_ofList (l := signed value.toInt)]
  have hnote := note_entry (poolWidth - (signed value.toInt).length) index
  exact parse_declaration "int" (by decide) (.int (.number _))
    (.signed (fitsInt64_toInt value) hnote.separated hnote.yields)

theorem parse_strLine (value : String) (index : Nat) :
    Line.parse (strLine value index).toList = .ok ⟨none, some (.directive (.str value))⟩ := by
  rw [strLine, String.append_assoc, String.toList_append, toList_padRight_append,
    toList_literal, List.cons_append, List.append_assoc]
  have hnote := note_entry (poolWidth - ('"' :: (escape value.toList ++ ['"'])).length) index
  have hy := hnote.yields.str value.toList
  rw [String.ofList_toList] at hy
  exact parse_declaration "str" (by decide) (.str value) hy

theorem allVisible_note (f : Function) {operand : OperandKind × Operand} {note : String}
    (h : f.note? operand = some note) : AllVisible note := by
  unfold note? at h
  split at h
  · split at h
    · cases h
      exact .signed _
    · cases h
      exact .append (.append (by decide) (.repr _)) (by decide)
  · split at h
    · cases h
      exact .literal _
    · cases h
      exact .append (.append (by decide) (.repr _)) (by decide)
  · split at h
    · next i _ =>
        cases h
        exact .append (by decide) i.opcode.allVisible_mnemonic
    · cases h
      exact .append (.append (by decide) (.repr _)) (by decide)
  all_goals cases h

theorem allVisible_annotate (f : Function) {i : Instruction} {note : String}
    (h : f.annotate i = some note) : AllVisible note := by
  unfold annotate at h
  split at h
  · cases h
  · cases h
    refine .intercalate (by decide) fun note hnote => ?_
    obtain ⟨operand, _, hoperand⟩ := List.mem_filterMap.mp hnote
    exact f.allVisible_note hoperand

theorem parse_codeLine (f : Function) (i : Instruction) (index : Nat) :
    Line.parse (f.codeLine i index).toList = .ok ⟨none, some (.instruction i.raw)⟩ := by
  unfold codeLine
  split
  · rw [← String.append_empty (s := i.listed index)]
    exact i.parse_listed_append index nofun
  · next note hnote =>
      rw [String.append_assoc]
      exact i.parse_listed_append index (.append (by decide) (f.allVisible_annotate hnote))

theorem allVisible_countsLine (f : Function) : AllVisible
    s!"; {f.code.size} instructions, {f.ints.size} int constants, {f.strs.size} str constants" :=
  .append (.append (.append (.append (.append (.append (by decide) (.repr _)) (by decide))
    (.repr _)) (by decide)) (.repr _)) (by decide)

theorem allVisible_intLine (value : Int32) (index : Nat) : AllVisible (intLine value index) :=
  .append (.append (by decide) (.padRight (.signed _) _)) (.append (by decide) (.repr _))

theorem allVisible_strLine (value : String) (index : Nat) : AllVisible (strLine value index) :=
  .append (.append (by decide) (.padRight (.literal _) _)) (.append (by decide) (.repr _))

theorem allVisible_codeLine (f : Function) (i : Instruction) (index : Nat) :
    AllVisible (f.codeLine i index) := by
  unfold codeLine
  split
  · exact i.allVisible_listed index
  · next note hnote =>
      exact .append (.append (i.allVisible_listed index) (by decide)) (f.allVisible_annotate hnote)

end Function

end Wordcode
