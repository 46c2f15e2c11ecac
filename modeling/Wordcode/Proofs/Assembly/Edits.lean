/-
# Edits — texts that are assembled into the same function

Lines that say nothing can be put anywhere, and each line can be changed in what
nobody reads (`LineEdit`).  What is assembled stays what it was, after one edit
and so after any number of them.

A line that is put in moves all lines after it, but no instruction: labels count
instructions, not lines (`Listing.labelIndex?_insert_silent`).  So the lines keep
the same rules and denote the same function as before.
-/
import Mathlib.Logic.Relation
import Wordcode.Proofs.Assembly.TwoPass
import Wordcode.Proofs.Listing.Inert
import Wordcode.Proofs.Listing.Parse

namespace Wordcode

open Text Lexeme

/-! ## Lines that say the same together -/

namespace Listing

/-- The parts that the lines are read for are the same. -/
structure Alike (ls ls' : Listing) : Prop where
  labels : ls'.labels = ls.labels
  instructions : ls'.instructions = ls.instructions
  directives : ls'.directives = ls.directives
  labelIndex? : ls'.labelIndex? = ls.labelIndex?

variable {ls ls' ls'' : Listing} {f : Function}

namespace Alike

theorem refl (ls : Listing) : ls.Alike ls := ⟨rfl, rfl, rfl, rfl⟩

theorem trans (h : ls.Alike ls') (h' : ls'.Alike ls'') : ls.Alike ls'' :=
  ⟨h'.labels.trans h.labels, h'.instructions.trans h.instructions,
    h'.directives.trans h.directives, h'.labelIndex?.trans h.labelIndex?⟩

theorem tableSize_eq (h : ls.Alike ls') (t : Table) : ls'.tableSize t = ls.tableSize t := by
  cases t with
  | ints => rw [tableSize, ints, h.directives]; rfl
  | strs => rw [tableSize, strs, h.directives]; rfl
  | code => rw [tableSize, h.instructions]; rfl

theorem wellFormed (h : ls.Alike ls') (hls : ls.WellFormed) : ls'.WellFormed := by
  refine ⟨⟨?_, ?_, fun t => ?_, ?_⟩, ?_⟩
  · rw [h.labels]
    exact hls.nodup_labels
  · rw [h.instructions]
    exact hls.wellShaped
  · rw [h.tableSize_eq]
    exact hls.tableSize_le t
  · rw [h.labelIndex?]
    exact hls.labelIndex_lt
  · rw [h.instructions, h.labels]
    exact hls.labels_defined

theorem denotes (h : ls.Alike ls') (hf : ls.Denotes f) : ls'.Denotes f := by
  refine ⟨?_, ?_, ?_, ?_, ?_⟩
  · rw [hf.args, args, args, h.directives]
  · rw [hf.upvalues, upvalues, upvalues, h.directives]
  · rw [hf.ints, ints, ints, h.directives]
  · rw [hf.strs, strs, strs, h.directives]
  · rw [h.labelIndex?, h.instructions]
    exact hf.code

end Alike

/-- A line that says nothing moves no label. -/
theorem labelIndex?_insert_silent (before after : Listing) :
    labelIndex? (before ++ .silent :: after) = labelIndex? (before ++ after) := by
  have hsilent : labelIndex? (.silent :: after) = labelIndex? after := by
    funext name
    have hnone : Line.silent.label ≠ some name := (Option.some_ne_none name).symm
    have hlength : (instructions [Line.silent]).length = 0 := rfl
    rw [← List.singleton_append, labelIndex?_append, labelIndex?_singleton, if_neg hnone,
      Option.none_or, hlength]
    simp
  funext name
  rw [labelIndex?_append, labelIndex?_append, hsilent]

theorem alike_insert_silent (before after : Listing) :
    Alike (before ++ after) (before ++ .silent :: after) where
  labels := by rw [labels_append, labels_append]; rfl
  instructions := by rw [instructions_append, instructions_append]; rfl
  directives := by rw [directives_append, directives_append]; rfl
  labelIndex? := labelIndex?_insert_silent before after

end Listing

/-! ## Edits -/

/-- A line of blanks, with a comment at its end or without. -/
inductive Vacant : List Char → Prop where
  | nil : Vacant []
  | blank {c : Char} {cs : List Char} (hc : isBlank c) (h : Vacant cs) : Vacant (c :: cs)
  | comment {mark : Char} {cs : List Char} (hmark : startsComment mark) (hline : '\n' ∉ cs) :
      Vacant (mark :: cs)

theorem Vacant.yields {text : List Char} (h : Vacant text) : Yields text [] := by
  induction h with
  | nil => exact .nil
  | blank hc _ ih => exact .blank hc ih
  | comment hmark hline => exact .comment hmark hline

/-- Lines are changed in what nobody reads: one of them, or by one more. -/
inductive ListingEdit : List (List Char) → List (List Char) → Prop where
  | line {before after : List (List Char)} {text text' : List Char} (h : LineEdit text text') :
      ListingEdit (before ++ text :: after) (before ++ text' :: after)
  | insert {before after : List (List Char)} {text : List Char} (h : Vacant text) :
      ListingEdit (before ++ after) (before ++ text :: after)

variable {texts texts' : List (List Char)} {ls : Listing}

theorem ListingEdit.exists_alike (h : ListingEdit texts texts') (hls : Listing.Parses texts ls) :
    ∃ ls', Listing.Parses texts' ls' ∧ ls.Alike ls' := by
  cases h with
  | line hline =>
      obtain ⟨before, l, after, rfl, hbefore, hl, hafter⟩ := forall₂_append_cons_left_iff.mp hls
      exact ⟨_, List.rel_append hbefore (.cons (hline.parse_eq_ok hl) hafter), .refl _⟩
  | insert hvacant =>
      obtain ⟨before, after, rfl, hbefore, hafter⟩ := forall₂_append_left_iff.mp hls
      exact ⟨_, List.rel_append hbefore (.cons (Line.parse_blank hvacant.yields) hafter),
        Listing.alike_insert_silent before after⟩

theorem exists_alike_of_edits (h : Relation.ReflTransGen ListingEdit texts texts')
    (hls : Listing.Parses texts ls) : ∃ ls', Listing.Parses texts' ls' ∧ ls.Alike ls' := by
  induction h with
  | refl => exact ⟨ls, hls, .refl ls⟩
  | tail _ hedit ih =>
      obtain ⟨ls', hls', halike⟩ := ih
      obtain ⟨ls'', hls'', halike'⟩ := hedit.exists_alike hls'
      exact ⟨ls'', hls'', halike.trans halike'⟩

namespace Assembly

/-- Vacant lines, blanks between tokens, comments and the case of mnemonics make no
difference to what is assembled. -/
theorem assemble_of_edits {source source' : String} {f : Function}
    (hedits : Relation.ReflTransGen ListingEdit (Text.lines source.toList)
      (Text.lines source'.toList))
    (h : assemble source = .ok f) : assemble source' = .ok f := by
  obtain ⟨ls, hls, _⟩ := exists_assemble_iff.mp ⟨f, h⟩
  obtain ⟨hwellFormed, hdenotes⟩ := denotes_of_assemble hls h
  obtain ⟨ls', hls', halike⟩ := exists_alike_of_edits hedits hls
  exact assemble_of_denotes hls' (halike.wellFormed hwellFormed) (halike.denotes hdenotes)

/-- A string that looks like a comment stays what it is, while a comment is put
after it, a line between, and the mnemonic is written otherwise and set apart. -/
theorem assemble_of_edits_spread :
    let source := ".str \"; #\"\nmul 1,2"
    let source' := ".str \"; #\"# text\n\t; numbers\nMUL\t 1,2"
    let f : Function := ⟨0, 0, #[], #["; #"], #[⟨.mul, [1, 2], rfl⟩]⟩
    Relation.ReflTransGen ListingEdit (Text.lines source.toList) (Text.lines source'.toList)
      ∧ assemble source = .ok f ∧ assemble source' = .ok f := by
  intro source source' f
  have hlines : Text.lines source.toList
      = [] ++ ".str \"; #\"".toList :: [[] ++ ("mul".toList ++ " 1,2".toList)] := by
    decide +kernel
  have hlines' : Text.lines source'.toList = [".str \"; #\"".toList ++ '#' :: " text".toList,
      '\t' :: ';' :: " numbers".toList] ++ ("MUL".toList ++ (['\t'] ++ " 1,2".toList)) :: [] := by
    decide +kernel
  have hcomment : LineEdit ".str \"; #\"".toList (".str \"; #\"".toList ++ '#' :: " text".toList) :=
    .comment rfl (by decide)
  have hvacant : Vacant ('\t' :: ';' :: " numbers".toList) := .blank rfl (.comment rfl (by decide))
  have hmnemonic : LineEdit ([] ++ ("mul".toList ++ " 1,2".toList))
      ([] ++ ("MUL".toList ++ " 1,2".toList)) :=
    .mnemonic (by decide +kernel) (by decide +kernel) (by unfold SameLetters; decide +kernel)
  have hblanks : LineEdit ("MUL".toList ++ " 1,2".toList)
      ("MUL".toList ++ (['\t'] ++ " 1,2".toList)) :=
    .blanks (List.forall_mem_singleton.mpr rfl) (by unfold TokenBoundary; decide +kernel)
  have hedits : Relation.ReflTransGen ListingEdit (Text.lines source.toList)
      (Text.lines source'.toList) := by
    have hsecond (text : List Char) : ListingEdit ([text] ++ [[] ++ ("mul".toList ++ " 1,2".toList)])
        ([text] ++ ('\t' :: ';' :: " numbers".toList) :: [[] ++ ("mul".toList ++ " 1,2".toList)]) :=
      .insert hvacant
    have hthird {line line' : List Char} (text comment : List Char) (h : LineEdit line line') :
        ListingEdit ([text, comment] ++ line :: []) ([text, comment] ++ line' :: []) := .line h
    rw [hlines, hlines']
    exact (((Relation.ReflTransGen.single (.line hcomment)).tail (hsecond _)).tail
      (hthird _ _ hmnemonic)).tail (hthird _ _ hblanks)
  have hf : assemble source = .ok f := by decide +kernel
  exact ⟨hedits, hf, assemble_of_edits hedits hf⟩

end Assembly

end Wordcode
