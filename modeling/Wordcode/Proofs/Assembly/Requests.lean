/-
# Requests — what assembly asks of its builder

A builder refuses an entry that has no room and a patch at a place that does not
exist.  Assembly never meets such an answer: here everything it asks of its
builder is written down as edits, in order (`requests`), and each of them is
granted by the builder that those before it left.

`Builder.Grants` composes, so one line and one patch are looked at alone; the
rest is going through the lines and through the operands that wait.  What is
left to go wrong in a text is what `Errors` says of its lines.
-/
import Wordcode.Proofs.Assembly.Errors
import Wordcode.Proofs.Builder.Session

namespace Wordcode

/-! ## Edits that are granted -/

namespace Builder

variable {b b' b'' : Builder} {edit : Edit} {edits edits' : List Edit}

/-- A builder grants each of some edits where it comes, and becomes another
builder. -/
structure Grants (b : Builder) (edits : List Edit) (b' : Builder) : Prop where
  run : b.run edits = b'
  replies : ∀ reply ∈ b.replies edits, reply.isRefusal = false

namespace Grants

theorem nil : b.Grants [] b := ⟨rfl, List.forall_mem_nil _⟩

theorem append (h : b.Grants edits b') (h' : b'.Grants edits' b'') :
    b.Grants (edits ++ edits') b'' := by
  induction edits generalizing b with
  | nil =>
      cases h.run
      exact h'
  | cons edit edits ih =>
      obtain ⟨hfirst, hrest⟩ := List.forall_mem_cons.mp h.replies
      have happend := ih ⟨h.run, hrest⟩
      exact ⟨happend.run, List.forall_mem_cons.mpr ⟨hfirst, happend.replies⟩⟩

/-- Each of the edits is granted by the builder that those before it left. -/
theorem isRefusal_eq_false (h : b.Grants (edits ++ edit :: edits') b') :
    ((b.run edits).apply edit).2.isRefusal = false := by
  induction edits generalizing b with
  | nil => exact (List.forall_mem_cons.mp h.replies).1
  | cons first edits ih =>
      exact ih ⟨h.run, (List.forall_mem_cons.mp h.replies).2⟩

end Grants

theorem hasRoom_of_granted {t : Table} (h : (b.apply edit).2.isRefusal = false)
    (ht : edit.table? = some t) : b.HasRoom t := by
  by_contra hfull
  rw [reply_append ht, if_neg hfull] at h
  cases h

theorem exists_slot_of_granted {index value : Operand} {slot : Nat}
    (h : (b.apply (.patch index slot value)).2.isRefusal = false) :
    ∃ i, b.function.code[index.toNat]? = some i ∧ slot < i.opcode.arity := by
  rcases reply_patch_done_or_isRefusal b index slot value with hdone | hrefusal
  · exact reply_eq_done_iff.mp hdone
  · rw [h] at hrefusal
    cases hrefusal

theorem grants_patch {index value : Operand} {slot : Nat}
    (h : b.patch index slot value = .ok b') : b.Grants [.patch index slot value] b' := by
  constructor <;> simp [run, replies, apply_patch_of_ok h, Reply.isRefusal]

end Builder

/-! ## What is asked for -/

/-- The edit that carries out a directive. -/
def Directive.edit : Directive → Edit
  | .args count => .setArgs count
  | .upvalues count => .setUpvalues count
  | .int value => .pushInt value
  | .str value => .pushStr value

/-- What a line asks of the builder once it is accepted. -/
def Line.edits (l : Line) : List Edit :=
  match l.statement with
  | none => []
  | some (.directive d) => [d.edit]
  | some (.instruction raw) =>
    match Assembly.placeholder raw with
    | .ok i => [.push i]
    | .error _ => []

namespace Assembly

/-- What lines ask of the builder, up to the first line that is refused. -/
def lineRequests (first : Nat) : List (List Char) → State → List Edit
  | [], _ => []
  | text :: texts, s =>
    match Line.parse text with
    | .error _ => []
    | .ok l =>
      match s.obey first l with
      | .error _ => []
      | .ok s' => l.edits ++ lineRequests (first + 1) texts s'

/-- What operands that wait ask of the builder, up to the first undefined
label. -/
def patchRequests (labels : Std.HashMap String Operand) : List Fixup → List Edit
  | [] => []
  | fixup :: fixups =>
    match labels[fixup.label]? with
    | none => []
    | some target => .patch fixup.index fixup.slot target :: patchRequests labels fixups

/-- Everything that assembly asks of the builder. -/
def requests (source : String) : List Edit :=
  let texts := Text.lines source.toList
  lineRequests 1 texts {} ++
    match readLines 1 texts {} with
    | .error _ => []
    | .ok s => patchRequests s.labels s.fixups.toList

/-! ## One line -/

namespace State

variable {s s' : State} {l : Line} {line : Nat}

theorem grants_of_declare {d : Directive} (hs : s.declare d = .ok s') :
    s.builder.Grants [d.edit] s'.builder := by
  cases d with
  | args count | upvalues count =>
      cases hs
      exact ⟨rfl, List.forall_mem_singleton.mpr rfl⟩
  | int value | str value =>
      rw [declare] at hs
      split at hs
      · next room =>
          cases hs
          constructor <;> simp [Directive.edit, Builder.run, Builder.replies, Builder.apply, room,
            Reply.isRefusal]
      · cases hs

theorem grants_of_emit {raw : RawInstruction} (hs : s.emit line raw = .ok s') :
    ∃ i, placeholder raw = .ok i ∧ s.builder.Grants [.push i] s'.builder := by
  obtain ⟨room, i, hi, rfl⟩ := emit_eq_ok_iff.mp hs
  refine ⟨i, placeholder_eq_ok_iff.mpr hi, ?_⟩
  constructor <;> simp [Builder.run, Builder.replies, Builder.apply, room, Reply.isRefusal]

theorem builder_of_obeyLabel {label : Option String} (hs : s.obeyLabel label = .ok s') :
    s'.builder = s.builder := by
  cases label with
  | none =>
      cases hs
      rfl
  | some name =>
      rw [obeyLabel, define] at hs
      split at hs
      · split at hs
        · cases hs
        · cases hs
          rfl
      · cases hs

/-- What an accepted line asks for is granted. -/
theorem grants_of_obey (hs : s.obey line l = .ok s') : s.builder.Grants l.edits s'.builder := by
  rw [obey_eq, bind_eq_ok_iff] at hs
  obtain ⟨s₁, hlabel, hstatement⟩ := hs
  rw [← builder_of_obeyLabel hlabel, Line.edits]
  cases hline : l.statement with
  | none =>
      rw [hline] at hstatement
      cases hstatement
      exact .nil
  | some statement =>
      rw [hline] at hstatement
      cases statement with
      | directive d => exact grants_of_declare hstatement
      | instruction raw =>
          obtain ⟨i, hi, hgrants⟩ := grants_of_emit hstatement
          simpa only [hi] using hgrants

end State

/-! ## All lines -/

section Lines
variable {s s' : State} {first : Nat} {texts : List (List Char)}

/-- What lines ask for is granted, up to the line that is refused, if one is. -/
theorem exists_grants_lineRequests (first : Nat) (texts : List (List Char)) (s : State) :
    ∃ b, s.builder.Grants (lineRequests first texts s) b := by
  induction texts generalizing first s with
  | nil => exact ⟨s.builder, .nil⟩
  | cons text texts ih =>
      rw [lineRequests]
      cases Line.parse text with
      | error refusal => exact ⟨s.builder, .nil⟩
      | ok l =>
          cases hobey : s.obey first l with
          | error fault => exact ⟨s.builder, by simpa only [hobey] using .nil⟩
          | ok s₁ =>
              obtain ⟨b, hrest⟩ := ih (first + 1) s₁
              exact ⟨b, by simpa only [hobey] using (State.grants_of_obey hobey).append hrest⟩

/-- Lines that were read have made the builder what it is. -/
theorem grants_of_readLines (hs : readLines first texts s = .ok s') :
    s.builder.Grants (lineRequests first texts s) s'.builder := by
  induction texts generalizing first s with
  | nil =>
      cases hs
      exact .nil
  | cons text texts ih =>
      simp only [readLines_cons, bind_eq_ok_iff, readLine_eq_ok_iff] at hs
      obtain ⟨s₁, ⟨l, hparse, hobey⟩, hrest⟩ := hs
      simp only [lineRequests, hparse, hobey]
      exact (State.grants_of_obey hobey).append (ih hrest)

/-- The first lines ask for the first edits. -/
theorem isPrefix_lineRequests_take (count : Nat) :
    lineRequests first (texts.take count) s <+: lineRequests first texts s := by
  induction count generalizing first texts s with
  | zero => exact List.nil_prefix
  | succ count ih =>
      cases texts with
      | nil => exact List.prefix_refl _
      | cons text texts =>
          rw [List.take_succ_cons, lineRequests, lineRequests]
          cases Line.parse text with
          | error refusal => exact List.prefix_refl _
          | ok l =>
              cases hobey : s.obey first l with
              | error fault => simp only [hobey, List.prefix_refl]
              | ok s₁ => simpa only [hobey, List.prefix_append_right_inj] using ih

end Lines

/-! ## Operands that wait -/

section Patches
variable {labels : Std.HashMap String Operand} {fixups : List Fixup} {b b' : Builder}

/-- Patches at places that exist are granted. -/
theorem exists_grants_patchRequests (labels : Std.HashMap String Operand)
    (hplaces : ∀ fixup ∈ fixups,
      (b.function.operandAt? fixup.index.toNat fixup.slot).isSome) :
    ∃ b', b.Grants (patchRequests labels fixups) b' := by
  induction fixups generalizing b with
  | nil => exact ⟨b, .nil⟩
  | cons fixup fixups ih =>
      obtain ⟨hfirst, hrest⟩ := List.forall_mem_cons.mp hplaces
      rw [patchRequests]
      cases hlabel : labels[fixup.label]? with
      | none => exact ⟨b, .nil⟩
      | some target =>
          obtain ⟨b₁, hb₁⟩ := exists_patchFixup_iff.mpr ⟨⟨target, hlabel⟩, hfirst⟩
          obtain ⟨target', htarget', hpatch⟩ := patchFixup_eq_ok_iff.mp hb₁
          obtain rfl : target = target' := Option.some.inj (hlabel.symm.trans htarget')
          simp only [← isSome_operandAt?_patchFixup hb₁] at hrest
          obtain ⟨b', hgrants⟩ := ih hrest
          exact ⟨b', (Builder.grants_patch hpatch).append hgrants⟩

/-- Patches that were all done have made the builder what it is. -/
theorem grants_of_patchFixups (h : fixups.foldlM (patchFixup labels) b = .ok b') :
    b.Grants (patchRequests labels fixups) b' := by
  induction fixups generalizing b with
  | nil =>
      cases h
      exact .nil
  | cons fixup fixups ih =>
      rw [List.foldlM_cons, bind_eq_ok_iff] at h
      obtain ⟨b₁, hfirst, hrest⟩ := h
      obtain ⟨target, htarget, hpatch⟩ := patchFixup_eq_ok_iff.mp hfirst
      rw [patchRequests, htarget]
      exact (Builder.grants_patch hpatch).append (ih hrest)

end Patches

/-! ## A whole text -/

variable {source : String}

/-- Everything that assembly asks for is granted. -/
theorem exists_grants_requests (source : String) :
    ∃ b, Builder.new.Grants (requests source) b := by
  rw [requests]
  cases hs : readLines 1 (Text.lines source.toList) {} with
  | error e =>
      obtain ⟨b, hgrants⟩ := exists_grants_lineRequests 1 (Text.lines source.toList) {}
      exact ⟨b, hgrants.append .nil⟩
  | ok s =>
      obtain ⟨ls, _, hreadable, hreflects⟩ := exists_reflects_of_readLines hs
      have hplaces : ∀ fixup ∈ s.fixups.toList,
          (s.builder.function.operandAt? fixup.index.toNat fixup.slot).isSome := by
        intro fixup hfixup
        rw [hreflects.fixups] at hfixup
        exact hreflects.isSome_operandAt? hreadable hfixup
      obtain ⟨b, hgrants⟩ := exists_grants_patchRequests s.labels hplaces
      exact ⟨b, (grants_of_readLines hs).append hgrants⟩

/-- The code of a text is refused only for the number of some operands. -/
theorem eq_arityMismatch_of_assemble {line : Nat} {d : CodeError}
    (h : assemble source = .error ⟨line, .code d⟩) :
    ∃ op count, d = .arityMismatch op count ∧ count ≠ op.arity := by
  rcases bind_eq_error_iff.mp h with hread | ⟨s, hs, hfinish⟩
  · rcases cause_of_readLines_eq_error hread with ⟨refusal, hrefusal⟩ | ⟨done, l, hbreaks⟩
    · cases hrefusal
    · exact hbreaks.eq_arityMismatch
  · obtain ⟨ls, _, hreadable, hreflects⟩ := exists_reflects_of_readLines hs
    obtain ⟨name, hname, _⟩ := hreflects.undefined_of_finish_eq_error hreadable hfinish
    cases hname

/-- Assembly asks its builder for nothing that is refused.  Whenever it appends
an entry the table has room, and whenever it patches an operand the instruction
is there and uses the slot.  These requests are all that makes the builder what
it is, after any number of lines and in the end.  So the code of a text is
refused only for a wrong number of operands, and a text whose lines were all
accepted only for an undefined label. -/
theorem requests_granted (source : String) :
    (∀ before edit after, requests source = before ++ edit :: after →
        (∀ t, edit.table? = some t → (Builder.new.run before).function.tableSize t < capacity)
          ∧ (∀ index slot value, edit = .patch index slot value →
            ∃ i, (Builder.new.run before).function.code[index.toNat]? = some i
              ∧ slot < i.opcode.arity)
          ∧ ((Builder.new.run before).apply edit).2.isRefusal = false)
      ∧ (∀ count s, readLines 1 ((Text.lines source.toList).take count) {} = .ok s →
          ∃ made, made <+: requests source ∧ Builder.new.run made = s.builder)
      ∧ (∀ f, assemble source = .ok f → (Builder.new.run (requests source)).function = f)
      ∧ (∀ line d, assemble source = .error ⟨line, .code d⟩ →
          ∃ op count, d = .arityMismatch op count ∧ count ≠ op.arity)
      ∧ ∀ s, readLines 1 (Text.lines source.toList) {} = .ok s →
          (∃ f, assemble source = .ok f)
            ∨ ∃ line name, assemble source = .error ⟨line, .undefinedLabel name⟩ := by
  refine ⟨?_, ?_, ?_, fun line d => eq_arityMismatch_of_assemble, ?_⟩
  · intro before edit after hsplit
    obtain ⟨b, hgrants⟩ := exists_grants_requests source
    rw [hsplit] at hgrants
    have hgranted := hgrants.isRefusal_eq_false
    refine ⟨fun t => Builder.hasRoom_of_granted hgranted, ?_, hgranted⟩
    rintro index slot value rfl
    exact Builder.exists_slot_of_granted hgranted
  · intro count s hs
    refine ⟨lineRequests 1 ((Text.lines source.toList).take count) {}, ?_,
      (grants_of_readLines hs).run⟩
    exact (isPrefix_lineRequests_take count).trans (List.prefix_append _ _)
  · intro f hf
    obtain ⟨s, hs, hfinish⟩ := bind_eq_ok_iff.mp hf
    obtain ⟨b, hpatches, rfl⟩ := State.finish_eq_ok_iff.mp hfinish
    have hgrants := (grants_of_readLines hs).append (grants_of_patchFixups hpatches)
    simp only [requests, hs]
    exact congrArg Builder.function hgrants.run
  · intro s hs
    obtain ⟨ls, _, hreadable, hreflects⟩ := exists_reflects_of_readLines hs
    rw [assemble, hs]
    exact hreflects.finish_or_undefined hreadable

/-- A jump to a label is appended, with room for it, and then patched where it
stands; an instruction with an operand too few asks for nothing. -/
theorem requests_granted_jump :
    requests "top:\njump @top\n" = [.push ⟨.jump, [0], rfl⟩, .patch 0 0 0]
      ∧ Builder.new.function.tableSize .code < capacity
      ∧ (∃ i, (Builder.new.run [.push ⟨.jump, [0], rfl⟩]).function.code[0]? = some i
          ∧ 0 < i.opcode.arity)
      ∧ requests "mul 1\n" = []
      ∧ ∃ op count, CodeError.arityMismatch .mul 1 = .arityMismatch op count
        ∧ count ≠ op.arity := by
  have hlines : Text.lines "top:\njump @top\n".toList = ["top:".toList, "jump @top".toList] := by
    decide +kernel
  have htop : Line.parse "top:".toList = .ok ⟨some "top", none⟩ := by decide +kernel
  have hdefine : State.obey {} 1 ⟨some "top", none⟩
      = .ok { labels := (∅ : Std.HashMap String Operand).insert "top" 0 } := by
    rw [State.obey_eq, State.obeyLabel, State.define, if_pos (by decide), if_neg (by simp)]
    rfl
  -- the line of the jump is read without a look at the labels
  have hjump : ∀ labels, readLines 2 ["jump @top".toList] { labels := labels }
      = .ok ⟨⟨{ code := #[⟨.jump, [0], rfl⟩] }, .building⟩, labels, #[⟨0, 0, "top", 2⟩]⟩ := by
    intro labels
    with_unfolding_all rfl
  have hread : readLines 1 ["top:".toList, "jump @top".toList] {} = _ :=
    bind_eq_ok_iff.mpr ⟨_, readLine_eq_ok_iff.mpr ⟨_, htop, hdefine⟩, hjump _⟩
  have hrequests : requests "top:\njump @top\n" = [.push ⟨.jump, [0], rfl⟩, .patch 0 0 0] := by
    simp only [requests, hlines, hread, lineRequests, htop, hdefine, patchRequests,
      Std.HashMap.getElem?_insert_self]
    with_unfolding_all rfl
  have hrefused : assemble "mul 1\n" = .error ⟨1, .code (.arityMismatch .mul 1)⟩ := by
    decide +kernel
  have hgranted := (requests_granted "top:\njump @top\n").1
  refine ⟨hrequests, ?_, ?_, by decide +kernel, (requests_granted _).2.2.2.1 1 _ hrefused⟩
  · exact (hgranted [] _ _ hrequests).1 .code rfl
  · exact (hgranted [_] (.patch 0 0 0) [] hrequests).2.1 0 0 0 rfl

end Assembly

end Wordcode
