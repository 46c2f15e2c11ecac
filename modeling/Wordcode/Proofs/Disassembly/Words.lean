/-
# Words — a stream keeps the instructions that it holds

A listing of words has one line for each word.  The line of a word that holds an
instruction is parsed as that instruction; the line of any other word is a
comment, whatever its bits are, so it adds nothing and hides nothing
(`parse_listed`).  What is assembled from the listing are the instructions of
the words that hold one, as long as an index can name each of them; the first
one past that is refused on its own line.
-/
import Wordcode.Proofs.Assembly.Errors
import Wordcode.Proofs.Disassembly.RoundTrip

namespace Wordcode

open Text Assembly

/-! ## The line of a word -/

theorem WordError.allVisible_message (e : WordError) : AllVisible e.message := by
  cases e with
  | invalidEncoding w => exact .append (by decide) (.hexCapital 16 _)
  | unknownOpcode code => exact .append (by decide) (.hexCapital 2 _)

namespace Word

/-- The instruction that a word holds, if it holds one. -/
def held? (w : Word) : Option Instruction := (Instruction.decode w).toOption

/-- The instructions that words hold, in order. -/
def held (words : List Word) : List Instruction := words.filterMap held?

/-- The line of a word, parsed. -/
def line (w : Word) : Line :=
  match w.held? with
  | some i => .ofInstruction i
  | none => .silent

variable (w : Word) (index : Nat)

theorem held?_eq_some_iff {i : Instruction} :
    w.held? = some i ↔ Instruction.decode w = .ok i := by
  unfold held?
  cases Instruction.decode w <;> simp [Except.toOption]

theorem held?_eq_none_iff : w.held? = none ↔ ∃ e, Instruction.decode w = .error e := by
  unfold held?
  cases Instruction.decode w <;> simp [Except.toOption]

theorem listed_of_held {i : Instruction} (h : w.held? = some i) :
    w.listed index = i.listed index ++ ("  " ++ hexCapital 16 w.toNat) := by
  simp only [listed, read, w.held?_eq_some_iff.mp h, String.append_assoc]

/-- A word that holds no instruction is listed as a comment. -/
theorem listed_of_not_held (h : w.held? = none) :
    AllVisible (w.listed index) ∧ (w.listed index).toList.head? = some ';' := by
  obtain ⟨e, he⟩ := w.held?_eq_none_iff.mp h
  simp only [listed, read, he, String.append_assoc]
  constructor
  · exact .append (by decide) (.append (.decimal 4 index) (.append (by decide)
      (.append (.hexCapital 16 _) (.append (by decide) (WordError.allVisible_message _)))))
  · rw [String.toList_append]
    rfl

theorem allVisible_listed : AllVisible (w.listed index) := by
  cases h : w.held? with
  | none => exact (w.listed_of_not_held index h).1
  | some i =>
      rw [w.listed_of_held index h]
      exact .append (i.allVisible_listed index) (.append (by decide) (.hexCapital 16 _))

theorem parse_listed : Line.parse (w.listed index).toList = .ok w.line := by
  unfold line
  cases h : w.held? with
  | none =>
      obtain ⟨hvisible, hhead⟩ := w.listed_of_not_held index h
      exact Line.parse_blank (yields_comment hvisible hhead)
  | some i =>
      rw [w.listed_of_held index h]
      exact i.parse_listed_append index (.append (by decide) (.hexCapital 16 _))

/-! ## The listing -/

variable {words : List Word}

/-- The lines of the listing of words, parsed. -/
def parsedAll (words : List Word) : Listing := List.replicate 3 .silent ++ words.map line

theorem lines_disassembleAll : Text.lines (disassembleAll words).toList
    = ([listingTitle, s!"; {words.length} instructions", ""]
        ++ words.zipIdx.map fun p => p.1.listed p.2).map String.toList := by
  refine lines_joinLines fun text htext => ?_
  rw [List.mem_append, List.mem_map] at htext
  rcases htext with htext | ⟨p, _, rfl⟩
  · simp only [List.mem_cons, List.not_mem_nil, or_false] at htext
    rcases htext with rfl | rfl | rfl
    · decide
    · exact .append (.append (by decide) (.repr _)) (by decide)
    · decide
  · exact p.1.allVisible_listed p.2

theorem reads_disassembleAll : Listing.Reads (disassembleAll words) (parsedAll words) := by
  rw [Listing.Reads, lines_disassembleAll, Listing.Parses, List.forall₂_map_left_iff]
  refine List.rel_append ?_ (Function.forall₂_zipIdx parse_listed words)
  have hcount : AllVisible s!"; {words.length} instructions" :=
    .append (.append (by decide) (.repr _)) (by decide)
  have htitle : Line.parse listingTitle.toList = .ok .silent :=
    Line.parse_blank (yields_comment (by decide) rfl)
  exact .cons htitle (.cons (Line.parse_blank (yields_comment hcount (by
    simp only [String.toList_append]
    rfl))) (.cons (Line.parse_blank .nil) .nil))

theorem instructions_map_line :
    Listing.instructions (words.map line) = (held words).map Instruction.raw := by
  rw [Listing.instructions, List.filterMap_map, held, List.map_filterMap]
  refine List.filterMap_congr fun w _ => ?_
  simp only [Function.comp_apply, line]
  cases w.held? <;> rfl

theorem instructions_parsedAll :
    (parsedAll words).instructions = (held words).map Instruction.raw := by
  rw [parsedAll, Listing.instructions_append, instructions_map_line]
  rfl

theorem filterMap_parsedAll {α : Type} {part : Line → Option α} (hsilent : part .silent = none)
    (hinstruction : ∀ i, part (.ofInstruction i) = none) :
    (parsedAll words).filterMap part = [] := by
  refine List.filterMap_eq_nil_iff.mpr fun l hl => ?_
  rcases List.mem_append.mp hl with hl | hl
  · rw [List.eq_of_mem_replicate hl]
    exact hsilent
  · obtain ⟨w, _, rfl⟩ := List.mem_map.mp hl
    unfold line
    split
    · exact hinstruction _
    · exact hsilent

theorem labels_parsedAll : (parsedAll words).labels = [] :=
  filterMap_parsedAll rfl fun _ => rfl

theorem directives_parsedAll : (parsedAll words).directives = [] :=
  filterMap_parsedAll rfl fun _ => rfl

theorem tableSize_parsedAll (t : Table) :
    (parsedAll words).tableSize t = if t = .code then (held words).length else 0 := by
  cases t with
  | ints => simp [Listing.tableSize, Listing.ints, directives_parsedAll]
  | strs => simp [Listing.tableSize, Listing.strs, directives_parsedAll]
  | code => simp [Listing.tableSize, instructions_parsedAll]

theorem wellFormed_parsedAll (h : (held words).length ≤ capacity) :
    (parsedAll words).WellFormed := by
  refine Function.wellFormed_of_raw labels_parsedAll instructions_parsedAll fun t => ?_
  rw [tableSize_parsedAll]
  split
  · exact h
  · exact Nat.zero_le _

theorem denotes_parsedAll : (parsedAll words).Denotes { code := (held words).toArray } := by
  refine ⟨?_, ?_, ?_, ?_, ?_⟩
  · simp [Listing.args, directives_parsedAll]
  · simp [Listing.upvalues, directives_parsedAll]
  · simp [Listing.ints, directives_parsedAll]
  · simp [Listing.strs, directives_parsedAll]
  · rw [instructions_parsedAll, List.forall₂_map_left_iff, List.forall₂_same]
    exact fun i _ => Function.denotes_raw _ i

/-! ## More words than indices -/

theorem obey_of_full {s : State} {done : Listing} (h : s.Reflects done)
    (hfull : done.tableSize .code = capacity) (number : Nat) (i : Instruction) :
    s.obey number (.ofInstruction i) = .error (.tableFull .code) := by
  have hroom : ¬ s.builder.HasRoom .code := by
    rw [h.hasRoom_iff, hfull]
    exact Nat.lt_irrefl capacity
  show s.emit number i.raw = .error (.tableFull .code)
  exact dif_neg hroom

/-- The word after those that fill the code is refused on its own line. -/
theorem assemble_of_full {before after : List Word} {w : Word} {i : Instruction}
    (hfull : (held before).length = capacity) (hw : w.held? = some i) :
    assemble (disassembleAll (before ++ w :: after))
      = .error ⟨before.length + 4, .tableFull .code⟩ := by
  have hline : w.line = .ofInstruction i := by rw [line, hw]
  have hsplit : parsedAll (before ++ w :: after)
      = parsedAll before ++ .ofInstruction i :: after.map line := by
    rw [parsedAll, parsedAll, List.map_append, List.map_cons, hline, List.append_assoc]
  have hreads : Listing.Reads (disassembleAll (before ++ w :: after)) _ := reads_disassembleAll
  rw [Listing.Reads, hsplit] at hreads
  have hbefore := List.forall₂_take_append _ _ _ hreads
  obtain ⟨s, hs⟩ := (exists_readLines_iff State.Reflects.nil .nil _).mpr
    ⟨_, hbefore, (wellFormed_parsedAll (Nat.le_of_eq hfull)).toReadable⟩
  have hreflects := State.Reflects.nil.readLines hbefore hs
  have hsize : (parsedAll before).tableSize .code = capacity := by
    rw [tableSize_parsedAll, if_pos rfl, hfull]
  have hlength : (parsedAll before).length = before.length + 3 := by
    rw [parsedAll, List.length_append, List.length_replicate, List.length_map, Nat.add_comm]
  obtain ⟨text, texts, hparse, _, hdrop⟩ :=
    List.forall₂_cons_right_iff.mp (List.forall₂_drop_append _ _ _ hreads)
  refine bind_eq_error_iff.mpr (.inl (readLines_eq_error_iff.mpr ⟨_, text, texts, s, ?_, hs, ?_⟩))
  · rw [← hdrop, List.take_append_drop]
  · refine readLine_eq_error_iff.mpr (.inr ⟨_, _, hparse, obey_of_full hreflects hsize _ i, ?_⟩)
    rw [hbefore.length_eq, hlength, Nat.add_comm 1]

/-- Among words that hold too many instructions some word comes after those that
fill the code. -/
theorem exists_cons_after_full (h : capacity < (held words).length) :
    ∃ before w after i, words = before ++ w :: after ∧ (held before).length = capacity
      ∧ w.held? = some i := by
  have hsplit : words.filterMap held? = (held words).take capacity
      ++ (held words)[capacity] :: (held words).drop (capacity + 1) := by
    rw [← List.drop_eq_getElem_cons h, List.take_append_drop]
    rfl
  obtain ⟨filling, rest, rfl, hfilling, hrest⟩ := List.filterMap_eq_append_iff.mp hsplit
  obtain ⟨skipped, w, after, rfl, hskipped, hw, _⟩ := List.filterMap_eq_cons_iff.mp hrest
  refine ⟨filling ++ skipped, w, after, _, (List.append_assoc ..).symm, ?_, hw⟩
  rw [held, List.filterMap_append, hfilling, List.filterMap_eq_nil_iff.mpr hskipped,
    List.append_nil, List.length_take_of_le (Nat.le_of_lt h)]

/-- The listing of words keeps the instructions that they hold and nothing else.
It is assembled into these instructions, if an index can name each of them;
otherwise the line of the first word past that is refused.  Each word has its
own line, and that of a word without an instruction is a comment. -/
theorem assemble_disassembleAll (words : List Word) :
    ((held words).length ≤ capacity →
        assemble (disassembleAll words) = .ok { code := (held words).toArray })
      ∧ (capacity < (held words).length → ∃ before w after i, words = before ++ w :: after
          ∧ (held before).length = capacity ∧ w.held? = some i
          ∧ assemble (disassembleAll words) = .error ⟨before.length + 4, .tableFull .code⟩)
      ∧ (Text.lines (disassembleAll words).toList).length = words.length + 3
      ∧ ∀ (index : Nat) (w : Word), words[index]? = some w → w.held? = none →
          ∃ text, (Text.lines (disassembleAll words).toList)[index + 3]? = some (';' :: text)
            ∧ Line.parse (';' :: text) = .ok ⟨none, none⟩ := by
  refine ⟨fun hle => ?_, fun hlt => ?_, ?_, fun index w hword hheld => ?_⟩
  · exact assemble_of_denotes reads_disassembleAll (wellFormed_parsedAll hle) denotes_parsedAll
  · obtain ⟨before, w, after, i, rfl, hfull, hw⟩ := exists_cons_after_full hlt
    exact ⟨before, w, after, i, rfl, hfull, hw, assemble_of_full hfull hw⟩
  · simp [lines_disassembleAll]
  · obtain ⟨_, hhead⟩ := w.listed_of_not_held index hheld
    obtain ⟨text, htext⟩ := List.head?_eq_some_iff.mp hhead
    have hparse := w.parse_listed index
    rw [htext, line, hheld] at hparse
    refine ⟨text, ?_, hparse⟩
    rw [lines_disassembleAll]
    simp [hword, htext]

/-- A word without an opcode and one with a reserved bit between two that hold
an instruction, and one word more than there are indices. -/
theorem assemble_disassembleAll_mixed :
    assemble (disassembleAll [0x907, 0xff, 0x100000000000004, 4])
        = .ok { code := #[⟨.jump, [9], rfl⟩, ⟨.jtarg, [], rfl⟩] }
      ∧ (∃ text, (Text.lines (disassembleAll [0x907, 0xff, 0x100000000000004, 4]).toList)[4]?
          = some (';' :: text) ∧ Line.parse (';' :: text) = .ok ⟨none, none⟩)
      ∧ ∃ number, assemble (disassembleAll (List.replicate (capacity + 1) 4))
          = .error ⟨number, .tableFull .code⟩ := by
  obtain ⟨hfits, _, _, hcomment⟩ := assemble_disassembleAll [0x907, 0xff, 0x100000000000004, 4]
  have hmany : capacity < (held (List.replicate (capacity + 1) 4)).length := by
    have hjtarg : held? 4 = some ⟨.jtarg, [], rfl⟩ := rfl
    rw [held, List.filterMap_replicate_of_some hjtarg, List.length_replicate]
    exact Nat.lt_succ_self capacity
  obtain ⟨before, _, _, _, _, _, _, hfull⟩ := (assemble_disassembleAll _).2.1 hmany
  exact ⟨hfits (by decide), hcomment 1 0xff rfl rfl, _, hfull⟩

end Word

end Wordcode
