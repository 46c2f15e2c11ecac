/-
# Errors — the line that is to blame

Assembly stops at its first error.  While lines are read, the error is about the
line that was read last, and what it says of this line is so (`Line.Breaks`).
The lines before it were carried out and the lines after it were not looked at,
so the error depends on nothing but the lines up to its own.

A label that is never defined is noticed only when all lines have been read.
The operands that wait are in the order of their lines
(`Listing.pairwise_fixups`), so the first one that cannot be patched stands on
the first line that refers to such a label.
-/
import Wordcode.Proofs.Assembly.TwoPass
import Wordcode.Proofs.Text.Lines

namespace Wordcode

/-! ## What a line can be refused for -/

/-- A rule for instructions that does not depend on where they stand is
broken. -/
inductive RawInstruction.Breaks (raw : RawInstruction) : AssemblyFault → Prop
  /-- A number does not fit an operand. -/
  | outOfRange {slot : Nat} {value : Int} (operand : raw.operands[slot]? = some (.number value))
      (range : ¬ (0 ≤ value ∧ value ≤ 65535)) :
      raw.Breaks (.invalidOperand raw.opcode slot (.outOfRange value))
  /-- A label stands in a slot that holds no target. -/
  | notATarget {slot : Nat} {name : String} (operand : raw.operands[slot]? = some (.label name))
      (kind : raw.opcode.operandKinds[slot]? ≠ some .target) :
      raw.Breaks (.invalidOperand raw.opcode slot (.notATarget name))
  /-- There are more or fewer operands than slots. -/
  | arity (count : raw.operands.length ≠ raw.opcode.arity) :
      raw.Breaks (.code (.arityMismatch raw.opcode raw.operands.length))

/-- A line breaks a rule after the lines before it. -/
inductive Line.Breaks (done : Listing) (l : Line) : AssemblyFault → Prop
  /-- A label stands where no instruction can follow. -/
  | labelFull {name : String} (label : l.label = some name)
      (full : capacity ≤ done.tableSize .code) : l.Breaks done (.tableFull .code)
  /-- A label is defined a second time. -/
  | duplicate {name : String} (label : l.label = some name) (old : name ∈ done.labels) :
      l.Breaks done (.duplicateLabel name)
  /-- The table that the line adds to has no room. -/
  | full {t : Table} (table : l.table? = some t) (full : capacity ≤ done.tableSize t) :
      l.Breaks done (.tableFull t)
  /-- The instruction on the line cannot be built anywhere. -/
  | instruction {raw : RawInstruction} {fault : AssemblyFault}
      (instruction : l.instruction? = some raw) (broken : raw.Breaks fault) : l.Breaks done fault

namespace Line.Breaks

variable {done : Listing} {l : Line}

/-- No line by itself leaves a label undefined. -/
theorem ne_undefinedLabel {fault : AssemblyFault} (h : l.Breaks done fault) (name : String) :
    fault ≠ .undefinedLabel name := by
  rintro rfl
  cases h with
  | instruction _ broken => cases broken

/-- All that can be wrong with the code is the number of operands. -/
theorem eq_arityMismatch {d : CodeError} (h : l.Breaks done (.code d)) :
    ∃ op count, d = .arityMismatch op count ∧ count ≠ op.arity := by
  cases h with
  | instruction _ broken =>
      cases broken with
      | arity count => exact ⟨_, _, rfl, count⟩

end Line.Breaks

namespace Assembly

variable {raw : RawInstruction} {fault : AssemblyFault} {s s' : State} {done ls : Listing}
  {l : Line} {line : Nat} {e : AssemblyError}

theorem operandValue_eq_error {op : Opcode} {slot : Nat} {expr : OperandExpr}
    (h : operandValue op slot expr = .error fault) :
    (∃ value, expr = .number value ∧ ¬ (0 ≤ value ∧ value ≤ 65535)
        ∧ fault = .invalidOperand op slot (.outOfRange value))
      ∨ ∃ name, expr = .label name ∧ op.operandKinds[slot]? ≠ some .target
        ∧ fault = .invalidOperand op slot (.notATarget name) := by
  cases expr with
  | number value =>
      simp only [operandValue] at h
      cases hvalue : Text.uint16? value with
      | some a =>
          rw [hvalue] at h
          cases h
      | none =>
          rw [hvalue] at h
          cases h
          exact .inl ⟨value, rfl, Text.uint16?_eq_none_iff.mp hvalue, rfl⟩
  | label name =>
      simp only [operandValue] at h
      split at h
      · cases h
      · next hkind =>
          cases h
          exact .inr ⟨name, rfl, hkind, rfl⟩

/-- An instruction that cannot be built breaks a rule. -/
theorem breaks_of_placeholder (h : placeholder raw = .error fault) : raw.Breaks fault := by
  rcases bind_eq_error_iff.mp h with hvalues | ⟨values, hvalues, hbuild⟩
  · obtain ⟨before, ⟨expr, slot⟩, after, _, hsplit, _, hoperand⟩ := mapM_eq_error_iff.mp hvalues
    have hmem : (expr, slot) ∈ raw.operands.zipIdx := by
      rw [hsplit]
      exact List.mem_append_cons_self
    have hslot : raw.operands[slot]? = some expr := List.mem_zipIdx_iff_getElem?.mp hmem
    rcases operandValue_eq_error hoperand with ⟨value, rfl, hrange, rfl⟩ | ⟨name, rfl, hkind, rfl⟩
    · exact .outOfRange hslot hrange
    · exact .notATarget hslot hkind
  · have hlength : raw.operands.length = values.length :=
      (mapM_operandValue_eq_ok_iff.mp hvalues).2.length_eq
    unfold Instruction.ofOperands at hbuild
    by_cases hcount : values.length = raw.opcode.arity
    · rw [dif_pos hcount] at hbuild
      cases hbuild
    · rw [dif_neg hcount] at hbuild
      cases hbuild
      rw [← hlength] at hcount ⊢
      exact .arity hcount

namespace State

theorem Reflects.capacity_le (h : s.Reflects done) {t : Table} (hfull : ¬ s.builder.HasRoom t) :
    capacity ≤ done.tableSize t := by
  rw [h.hasRoom_iff] at hfull
  exact Nat.le_of_not_lt hfull

theorem Reflects.breaks_of_obeyLabel (h : s.Reflects done)
    (hs : s.obeyLabel l.label = .error fault) : l.Breaks done fault := by
  cases hlabel : l.label with
  | none =>
      rw [hlabel] at hs
      cases hs
  | some name =>
      rw [hlabel, State.obeyLabel, State.define] at hs
      split at hs
      · split at hs
        · next hold =>
            cases hs
            exact .duplicate hlabel (h.contains_iff.mp hold)
        · cases hs
      · next hfull =>
          cases hs
          exact .labelFull hlabel (h.capacity_le hfull)

theorem Reflects.breaks_of_obeyStatement (h : s.Reflects (done ++ [⟨l.label, none⟩]))
    (hs : s.obeyStatement line l.statement = .error fault) : l.Breaks done fault := by
  -- the label of the line adds to no table
  have hfull : ∀ t, ¬ s.builder.HasRoom t → capacity ≤ done.tableSize t := by
    intro t hfull
    have hsize := h.capacity_le hfull
    rwa [Listing.tableSize_append, Listing.tableSize_singleton, if_neg (by simp [Line.table?]),
      Nat.add_zero] at hsize
  cases hstatement : l.statement with
  | none =>
      rw [hstatement] at hs
      cases hs
  | some statement =>
      rw [hstatement] at hs
      cases statement with
      | directive d =>
          cases d with
          | args count | upvalues count => cases hs
          | int value | str value =>
              rw [State.obeyStatement, State.declare] at hs
              split at hs
              · cases hs
              · next hnot =>
                  cases hs
                  exact .full (by rw [Line.table?, hstatement]) (hfull _ hnot)
      | instruction raw =>
          rw [State.obeyStatement, State.emit] at hs
          split at hs
          · rcases bind_eq_error_iff.mp hs with hraw | ⟨i, _, hpure⟩
            · exact .instruction (by rw [Line.instruction?, hstatement])
                (breaks_of_placeholder hraw)
            · cases hpure
          · next hnot =>
              cases hs
              exact .full (by rw [Line.table?, hstatement]) (hfull _ hnot)

/-- What a line is refused for is so. -/
theorem Reflects.breaks_of_obey (h : s.Reflects done) (hs : s.obey line l = .error fault) :
    l.Breaks done fault := by
  rw [obey_eq, bind_eq_error_iff] at hs
  rcases hs with hlabel | ⟨s₁, hlabel, hstatement⟩
  · exact h.breaks_of_obeyLabel hlabel
  · exact (h.obeyLabel hlabel).breaks_of_obeyStatement hstatement

end State

/-! ## The line that is refused -/

theorem readLine_eq_error_iff {text : List Char} : s.readLine line text = .error e ↔
    (∃ refusal, Line.parse text = .error refusal ∧ e = ⟨line, .line refusal⟩)
      ∨ ∃ l fault, Line.parse text = .ok l ∧ s.obey line l = .error fault ∧ e = ⟨line, fault⟩ := by
  unfold State.readLine
  cases Line.parse text with
  | error refusal => simp [eq_comm]
  | ok l => cases hobey : s.obey line l <;> simp [hobey, eq_comm]

/-- Lines are refused at the first one that is refused in the state that those
before it left. -/
theorem readLines_eq_error_iff {first : Nat} {texts : List (List Char)} :
    readLines first texts s = .error e ↔ ∃ before text after s', texts = before ++ text :: after
      ∧ readLines first before s = .ok s'
      ∧ s'.readLine (first + before.length) text = .error e := by
  rw [readLines, foldlM_eq_error_iff]
  constructor
  · rintro ⟨before, ⟨text, line⟩, after, s', hsplit, hbefore, htext⟩
    obtain ⟨before, rest, rfl, rfl, hrest⟩ := List.zipIdx_eq_append_iff.mp hsplit
    obtain ⟨_, after, rfl, hhead, _⟩ := List.zipIdx_eq_cons_iff.mp hrest.symm
    cases hhead
    exact ⟨before, text, after, s', rfl, hbefore, htext⟩
  · rintro ⟨before, text, after, s', rfl, hbefore, htext⟩
    refine ⟨before.zipIdx first, (text, first + before.length),
      after.zipIdx (first + before.length + 1), s', ?_, hbefore, htext⟩
    rw [List.zipIdx_append, List.zipIdx_cons]

/-- While lines are read, an error is about the line read last: it cannot be
parsed, or it breaks the rule that the error names. -/
theorem exists_of_readLines_eq_error {texts : List (List Char)}
    (h : readLines 1 texts {} = .error e) :
    ∃ before text after s, texts = before ++ text :: after ∧ readLines 1 before {} = .ok s
      ∧ s.readLine (1 + before.length) text = .error e ∧ e.line = 1 + before.length
      ∧ ((∃ refusal, e.fault = .line refusal) ∨ ∃ done l, Line.Breaks done l e.fault) := by
  obtain ⟨before, text, after, s, hsplit, hbefore, htext⟩ := readLines_eq_error_iff.mp h
  obtain ⟨done, _, _, hreflects⟩ := exists_reflects_of_readLines hbefore
  refine ⟨before, text, after, s, hsplit, hbefore, htext, ?_⟩
  rcases readLine_eq_error_iff.mp htext with ⟨refusal, _, rfl⟩ | ⟨l, fault, _, hobey, rfl⟩
  · exact ⟨rfl, .inl ⟨refusal, rfl⟩⟩
  · exact ⟨rfl, .inr ⟨done, l, hreflects.breaks_of_obey hobey⟩⟩

section Refused
variable {texts texts' : List (List Char)} (h : readLines 1 texts {} = .error e)
include h

theorem line_of_readLines_eq_error : 1 ≤ e.line ∧ e.line ≤ texts.length := by
  obtain ⟨before, text, after, _, rfl, _, _, hline, _⟩ := exists_of_readLines_eq_error h
  rw [List.length_append, List.length_cons]
  omega

theorem cause_of_readLines_eq_error :
    (∃ refusal, e.fault = .line refusal) ∨ ∃ done l, Line.Breaks done l e.fault := by
  obtain ⟨_, _, _, _, _, _, _, _, hcause⟩ := exists_of_readLines_eq_error h
  exact hcause

theorem fault_of_readLines_eq_error (name : String) : e.fault ≠ .undefinedLabel name := by
  intro hname
  rcases cause_of_readLines_eq_error h with ⟨refusal, hrefusal⟩ | ⟨done, l, hbreaks⟩
  · cases hrefusal.symm.trans hname
  · exact hbreaks.ne_undefinedLabel name hname

/-- What comes after a refused line does not count. -/
theorem readLines_eq_error_of_take_eq (hsame : texts'.take e.line = texts.take e.line) :
    readLines 1 texts' {} = .error e := by
  obtain ⟨before, text, after, s, rfl, hbefore, htext, hline, _⟩ := exists_of_readLines_eq_error h
  refine readLines_eq_error_iff.mpr ⟨before, text, texts'.drop e.line, s, ?_, hbefore, htext⟩
  have htake : (before ++ text :: after).take e.line = before ++ [text] := by
    rw [hline, Nat.add_comm, List.take_length_add_append]
    rfl
  rw [List.append_cons, ← htake, ← hsame, List.take_append_drop]

/-- The lines before a refused line are read. -/
theorem exists_readLines_take : ∃ s, readLines 1 (texts.take (e.line - 1)) {} = .ok s := by
  obtain ⟨before, text, after, s, rfl, hbefore, _, hline, _⟩ := exists_of_readLines_eq_error h
  rw [hline, Nat.add_sub_cancel_left, List.take_left]
  exact ⟨s, hbefore⟩

end Refused

end Assembly

/-! ## The first operand that cannot be patched -/

/-- A line refers to a label. -/
def Line.RefersTo (l : Line) (name : String) : Prop :=
  ∃ raw, l.instruction? = some raw ∧ .label name ∈ raw.operands

namespace Listing

open Assembly

variable {ls : Listing} {line : Nat} {name : String}

theorem mem_numbered {raw : RawInstruction} : (raw, line) ∈ ls.numbered ↔
    1 ≤ line ∧ ∃ l, ls[line - 1]? = some l ∧ l.instruction? = some raw := by
  rw [numbered, List.mem_filterMap]
  constructor
  · rintro ⟨⟨l, line'⟩, hl, hraw⟩
    obtain ⟨raw', hraw', hpair⟩ := Option.map_eq_some_iff.mp hraw
    cases hpair
    obtain ⟨hline, hget⟩ := List.mem_zipIdx_iff_le_and_getElem?_sub.mp hl
    exact ⟨hline, l, hget, hraw'⟩
  · rintro ⟨hline, l, hget, hraw⟩
    exact ⟨(l, line), List.mem_zipIdx_iff_le_and_getElem?_sub.mpr ⟨hline, hget⟩,
      Option.map_eq_some_iff.mpr ⟨raw, hraw, rfl⟩⟩

/-- An operand waits for each label that a line refers to. -/
theorem exists_fixup_on_line_iff : (∃ fixup ∈ ls.fixups, fixup.line = line ∧ fixup.label = name) ↔
    1 ≤ line ∧ ∃ l, ls[line - 1]? = some l ∧ l.RefersTo name := by
  constructor
  · rintro ⟨fixup, hfixup, rfl, rfl⟩
    obtain ⟨k, raw, hk, _, hlabel⟩ := mem_fixups.mp hfixup
    obtain ⟨hline, l, hl, hraw⟩ := mem_numbered.mp (List.mem_of_getElem? hk)
    exact ⟨hline, l, hl, raw, hraw, List.mem_of_getElem? hlabel⟩
  · rintro ⟨hline, l, hl, raw, hraw, hlabel⟩
    obtain ⟨k, hk⟩ := List.mem_iff_getElem?.mp (mem_numbered.mpr ⟨hline, l, hl, hraw⟩)
    obtain ⟨slot, hslot⟩ := List.mem_iff_getElem?.mp hlabel
    exact ⟨⟨UInt16.ofNat k, slot, name, line⟩, mem_fixups.mpr ⟨k, raw, hk, rfl, hslot⟩, rfl, rfl⟩

/-- Operands wait in the order of their lines. -/
theorem pairwise_fixups : ls.fixups.Pairwise fun x y => x.line ≤ y.line := by
  have hnumbered : ls.numbered.Pairwise fun p q => p.2 < q.2 := by
    refine List.pairwise_filterMap.mpr ((pairwise_zipIdx ls).imp ?_)
    intro p q hlt x hx y hy
    obtain ⟨_, _, rfl⟩ := Option.map_eq_some_iff.mp hx
    obtain ⟨_, _, rfl⟩ := Option.map_eq_some_iff.mp hy
    exact hlt
  rw [fixups, List.pairwise_flatMap]
  constructor
  · intro p _
    refine List.pairwise_of_forall_mem_list fun x hx y hy => Nat.le_of_eq ?_
    rw [(mem_waiting.mp hx).2.1, (mem_waiting.mp hy).2.1]
  · rw [← List.zipIdx_map_fst 0 ls.numbered, List.pairwise_map] at hnumbered
    refine hnumbered.imp ?_
    intro p q hlt x hx y hy
    rw [(mem_waiting.mp hx).2.1, (mem_waiting.mp hy).2.1]
    exact Nat.le_of_lt hlt

end Listing

namespace Assembly

variable {s : State} {ls : Listing} {e : AssemblyError}

theorem patchFixup_eq_error {labels : Std.HashMap String Operand} {b : Builder} {fixup : Fixup}
    (hplace : (b.function.operandAt? fixup.index.toNat fixup.slot).isSome)
    (h : patchFixup labels b fixup = .error e) :
    labels[fixup.label]? = none ∧ e = ⟨fixup.line, .undefinedLabel fixup.label⟩ := by
  cases hlabel : labels[fixup.label]? with
  | none =>
      rw [patchFixup, hlabel] at h
      cases h
      exact ⟨rfl, rfl⟩
  | some target =>
      obtain ⟨b', hok⟩ := exists_patchFixup_iff.mpr ⟨⟨target, hlabel⟩, hplace⟩
      rw [hok] at h
      cases h

/-- What was read cannot be finished only because of the first label referred to
that is undefined. -/
theorem State.Reflects.exists_of_finish_eq_error (h : s.Reflects ls) (hreadable : ls.Readable)
    (hs : s.finish = .error e) : ∃ before fixup after, ls.fixups = before ++ fixup :: after
      ∧ (∀ x ∈ before, x.label ∈ ls.labels) ∧ fixup.label ∉ ls.labels
      ∧ e = ⟨fixup.line, .undefinedLabel fixup.label⟩ := by
  rw [State.finish, bind_eq_error_iff] at hs
  rcases hs with hloop | ⟨b, _, hpure⟩
  · rw [h.fixups] at hloop
    obtain ⟨before, fixup, after, b, hsplit, hbefore, hfixup⟩ := foldlM_eq_error_iff.mp hloop
    have hmem : ∀ x ∈ before, x ∈ ls.fixups := by
      intro x hx
      rw [hsplit]
      exact List.mem_append_left _ hx
    have hplace : (b.function.operandAt? fixup.index.toNat fixup.slot).isSome := by
      rw [isSome_operandAt?_patchFixups hbefore]
      refine h.isSome_operandAt? hreadable ?_
      rw [hsplit]
      exact List.mem_append_cons_self
    obtain ⟨hnone, rfl⟩ := patchFixup_eq_error hplace hfixup
    refine ⟨before, fixup, after, hsplit, ?_, ?_, rfl⟩
    · exact (h.exists_patchFixups_iff hreadable hmem).mp ⟨b, hbefore⟩
    · rw [← h.exists_getElem?_iff, hnone]
      rintro ⟨_, hsome⟩
      cases hsome
  · cases hpure

/-- The error at the end of a text that was read is about the first line that
refers to an undefined label. -/
theorem State.Reflects.undefined_of_finish_eq_error (h : s.Reflects ls)
    (hreadable : ls.Readable) (hs : s.finish = .error e) :
    ∃ name, e.fault = .undefinedLabel name ∧ name ∉ ls.labels
      ∧ 1 ≤ e.line ∧ (∃ l, ls[e.line - 1]? = some l ∧ l.RefersTo name)
      ∧ ∀ k < e.line - 1, ∀ l other, ls[k]? = some l → l.RefersTo other →
        other ∈ ls.labels := by
  obtain ⟨before, fixup, after, hsplit, hdefined, hundefined, rfl⟩ :=
    h.exists_of_finish_eq_error hreadable hs
  have hmem : fixup ∈ ls.fixups := by
    rw [hsplit]
    exact List.mem_append_cons_self
  obtain ⟨hline, hrefers⟩ := Listing.exists_fixup_on_line_iff.mp ⟨fixup, hmem, rfl, rfl⟩
  refine ⟨fixup.label, rfl, hundefined, hline, hrefers, ?_⟩
  intro k hk l other hl hother
  obtain ⟨x, hx, hxline, rfl⟩ := Listing.exists_fixup_on_line_iff.mpr
    ⟨Nat.succ_pos k, l, hl, hother⟩
  -- the operand stands on an earlier line, so it was patched before
  have hsorted := ls.pairwise_fixups
  rw [hsplit] at hx hsorted
  rcases List.mem_append.mp hx with hx | hx
  · exact hdefined x hx
  · have hle : fixup.line ≤ x.line := by
      rcases List.mem_cons.mp hx with rfl | hx
      · exact Nat.le_refl _
      · exact (List.pairwise_cons.mp (List.pairwise_append.mp hsorted).2.1).1 x hx
    change k < fixup.line - 1 at hk
    omega

/-- A text that was read is assembled, or some label is undefined. -/
theorem State.Reflects.finish_or_undefined (h : s.Reflects ls) (hreadable : ls.Readable) :
    (∃ f, s.finish = .ok f) ∨ ∃ line name, s.finish = .error ⟨line, .undefinedLabel name⟩ := by
  cases hs : s.finish with
  | ok f => exact .inl ⟨f, rfl⟩
  | error e =>
      obtain ⟨name, hname, _⟩ := h.undefined_of_finish_eq_error hreadable hs
      exact .inr ⟨e.line, name, by rw [← hname]⟩

/-- An error of assembly is about a line of the text.  If it is not that a label
is undefined, it is the error of every text with the same lines up to that one,
and the lines before it can be assembled or leave only a label undefined.  If it
is, then all lines were read, no line defines the label, the line refers to it,
and every label that an earlier line refers to is defined. -/
theorem assemble_error_line {source : String} (h : assemble source = .error e) :
    (1 ≤ e.line ∧ e.line ≤ (Text.lines source.toList).length)
      ∧ ((∀ name, e.fault ≠ .undefinedLabel name) →
        (∀ source' : String, (Text.lines source'.toList).take e.line
            = (Text.lines source.toList).take e.line → assemble source' = .error e)
          ∧ (∃ source' : String, source'.toList <+: source.toList
            ∧ Text.lines source'.toList = (Text.lines source.toList).take (e.line - 1))
          ∧ ∀ source' : String,
            Text.lines source'.toList = (Text.lines source.toList).take (e.line - 1) →
              (∃ f, assemble source' = .ok f)
                ∨ ∃ line name, assemble source' = .error ⟨line, .undefinedLabel name⟩)
      ∧ ∀ name, e.fault = .undefinedLabel name →
        (∃ s, readLines 1 (Text.lines source.toList) {} = .ok s)
          ∧ ∃ ls, Listing.Reads source ls ∧ name ∉ ls.labels
            ∧ (∃ l, ls[e.line - 1]? = some l ∧ l.RefersTo name)
            ∧ ∀ k < e.line - 1, ∀ l other, ls[k]? = some l → l.RefersTo other →
              other ∈ ls.labels := by
  rcases bind_eq_error_iff.mp h with hread | ⟨s, hs, hfinish⟩
  · refine ⟨line_of_readLines_eq_error hread, fun _ => ⟨?_, ?_, ?_⟩,
      fun name hname => absurd hname (fault_of_readLines_eq_error hread name)⟩
    · intro source' hsame
      exact bind_eq_error_iff.mpr (.inl (readLines_eq_error_of_take_eq hread hsame))
    · obtain ⟨part, hstart, hlines⟩ := Text.exists_lines_eq_take source.toList (e.line - 1)
      refine ⟨String.ofList part, ?_, ?_⟩
      · rwa [String.toList_ofList]
      · rwa [String.toList_ofList]
    · intro source' hlines
      obtain ⟨s, hs⟩ := exists_readLines_take hread
      obtain ⟨ls, _, hreadable, hreflects⟩ := exists_reflects_of_readLines hs
      rw [assemble, hlines, hs]
      exact hreflects.finish_or_undefined hreadable
  · obtain ⟨ls, hls, hreadable, hreflects⟩ := exists_reflects_of_readLines hs
    obtain ⟨name, hname, hundefined, hline, ⟨l, hl, hrefers⟩, hearlier⟩ :=
      hreflects.undefined_of_finish_eq_error hreadable hfinish
    have hlt : e.line - 1 < ls.length := (List.getElem?_eq_some_iff.mp hl).1
    rw [← hls.length_eq] at hlt
    refine ⟨by omega, fun hnot => absurd hname (hnot name), fun name' hname' => ?_⟩
    obtain rfl : name = name' := AssemblyFault.undefinedLabel.inj (hname.symm.trans hname')
    exact ⟨⟨s, hs⟩, ls, hls, hundefined, ⟨l, hl, hrefers⟩, hearlier⟩

/-- A label that is never defined is masked by a line that cannot be read, and is
reported for its own line when all lines can. -/
theorem assemble_error_line_masked :
    assemble "jump @out\nmul 1\n" = .error ⟨2, .code (.arityMismatch .mul 1)⟩
      ∧ assemble "jump @out\nmul 1\n.int x\n" = .error ⟨2, .code (.arityMismatch .mul 1)⟩
      ∧ assemble ".int 7\njump @out\n" = .error ⟨2, .undefinedLabel "out"⟩
      ∧ ∃ ls, Listing.Reads ".int 7\njump @out\n" ls ∧ "out" ∉ ls.labels := by
  have hmasked : assemble "jump @out\nmul 1\n" = .error ⟨2, .code (.arityMismatch .mul 1)⟩ := by
    decide +kernel
  have hread : readLines 1 (Text.lines ".int 7\njump @out\n".toList) {}
      = .ok ⟨⟨{ ints := #[7], code := #[⟨.jump, [0], rfl⟩] }, .building⟩, ∅,
          #[⟨0, 0, "out", 2⟩]⟩ := by
    with_unfolding_all rfl
  have hundefined : assemble ".int 7\njump @out\n" = .error ⟨2, .undefinedLabel "out"⟩ := by
    refine bind_eq_error_iff.mpr (.inr ⟨_, hread, bind_eq_error_iff.mpr (.inl ?_)⟩)
    refine foldlM_eq_error_iff.mpr ⟨[], ⟨0, 0, "out", 2⟩, [], _, rfl, rfl, ?_⟩
    rw [patchFixup, Std.HashMap.getElem?_empty]
  obtain ⟨_, hsame, _⟩ := assemble_error_line hmasked
  obtain ⟨_, _, hlabel⟩ := assemble_error_line hundefined
  obtain ⟨_, ls, hls, hout, _⟩ := hlabel "out" rfl
  refine ⟨hmasked, (hsame ?_).1 _ (by decide), hundefined, ls, hls, hout⟩
  intro name hname
  cases hname

end Assembly

end Wordcode
