/-
# Lines — cutting what was joined

A listing is written as lines that are joined and read as text that is cut into
lines.  For visible lines nothing is lost between the two: no character of them
ends a line, and none is dropped from an end.  Of any text the first lines are
again the lines of a text (`exists_lines_eq_take`).
-/
import Wordcode.Proofs.Text.Characters
import Wordcode.Disassembly

namespace Wordcode

namespace Text

theorem dropReturn_of_visible {line : List Char} (h : ∀ c ∈ line, Visible c) :
    dropReturn line = line :=
  if_neg fun hlast => (h '\r' (List.mem_of_getLast? hlast)).ne_return rfl

/-- A line that ends at a newline is cut off. -/
theorem lines_append_newline {line : List Char} (h : '\n' ∉ line) (rest : List Char) :
    lines (line ++ '\n' :: rest) = dropReturn line :: lines rest := by
  have hne : rest.splitOn '\n' ≠ [] := List.splitOn_ne_nil _ _
  simp only [lines, List.splitOn_append_cons_self_of_not_mem h, List.dropLast_cons_of_ne_nil hne,
    List.map_cons, List.cons_append, List.getLast?_cons_of_ne_nil hne]

theorem length_lines_le_one {text : List Char} (h : '\n' ∉ text) : (lines text).length ≤ 1 := by
  rw [lines, List.splitOn_eq_singleton h]
  simpa using List.length_filter_le _ [text]

theorem lines_flatMap_newline {ls : List (List Char)} (h : ∀ line ∈ ls, ∀ c ∈ line, Visible c) :
    lines (ls.flatMap (· ++ ['\n'])) = ls := by
  induction ls with
  | nil => rfl
  | cons line ls ih =>
      rw [List.forall_mem_cons] at h
      have hnewline : '\n' ∉ line := fun hmem => (h.1 _ hmem).ne_newline rfl
      rw [List.flatMap_cons, List.append_assoc, List.singleton_append,
        lines_append_newline hnewline, dropReturn_of_visible h.1, ih h.2]

/-- The first lines of a text are the lines of a text that begins it. -/
theorem exists_lines_eq_take (text : List Char) (count : Nat) :
    ∃ part, part <+: text ∧ lines part = (lines text).take count := by
  induction count generalizing text with
  | zero => exact ⟨[], List.nil_prefix, rfl⟩
  | succ count ih =>
      by_cases hnewline : '\n' ∈ text
      · obtain ⟨line, rest, rfl, hline⟩ := List.eq_append_cons_of_mem hnewline
        obtain ⟨part, hstart, hpart⟩ := ih rest
        refine ⟨line ++ '\n' :: part, ?_, ?_⟩
        · rwa [List.prefix_append_right_inj, List.prefix_cons_inj]
        · rw [lines_append_newline hline, lines_append_newline hline, hpart, List.take_succ_cons]
      · have hle := length_lines_le_one hnewline
        exact ⟨text, List.prefix_refl _, (List.take_of_length_le (by omega)).symm⟩

end Text

theorem toList_joinLines (ls : List String) :
    (joinLines ls).toList = (ls.map String.toList).flatMap (· ++ ['\n']) := by
  simp only [joinLines, String.toList_join, List.flatMap_map, String.toList_append]
  rfl

/-- Joined lines are cut into the same lines. -/
theorem lines_joinLines {ls : List String} (h : ∀ line ∈ ls, Text.AllVisible line) :
    Text.lines (joinLines ls).toList = ls.map String.toList := by
  rw [toList_joinLines]
  exact Text.lines_flatMap_newline (List.forall_mem_map.mpr h)

end Wordcode
