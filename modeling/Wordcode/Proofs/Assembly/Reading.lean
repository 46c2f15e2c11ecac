/-
# Reading — one pass over the lines

The loop over the lines keeps one invariant, `Reflects`: whatever has been read
so far, the state holds what these lines say, each label of theirs at its
index, and every operand that names a label at zero and noted.

`exists_obey_iff` says when a line is carried out, `Reflects.obey` that the
invariant survives it, and the two theorems at the end say the same of all
lines: they are read to the end exactly if each can be parsed and together they
are `Readable`.
-/
import Wordcode.Proofs.Assembly.Placeholder

namespace Wordcode

namespace Assembly

/-! ## The invariant of the reading loop -/

/-- What has been read so far is what the lines read so far say, with every
label at zero. -/
structure State.Reflects (s : State) (done : Listing) : Prop where
  args : s.builder.function.args = done.args
  upvalues : s.builder.function.upvalues = done.upvalues
  ints : s.builder.function.ints.toList = done.ints
  strs : s.builder.function.strs.toList = done.strs
  code : List.Forall₂ (RawInstruction.Denotes unresolved) done.instructions
    s.builder.function.code.toList
  labels : ∀ name, s.labels[name]?.map UInt16.toNat = done.labelIndex? name
  fixups : s.fixups.toList = done.fixups

namespace State

variable {s s' : State} {done : Listing} {l : Line} {name : String}

theorem Reflects.nil : Reflects {} [] :=
  ⟨rfl, rfl, rfl, rfl, .nil, fun name => by rw [Std.HashMap.getElem?_empty]; rfl, rfl⟩

theorem Reflects.tableSize_eq (h : s.Reflects done) (t : Table) :
    s.builder.function.tableSize t = done.tableSize t := by
  cases t with
  | ints => rw [Listing.tableSize, ← h.ints]; rfl
  | strs => rw [Listing.tableSize, ← h.strs]; rfl
  | code => exact h.code.length_eq.symm

theorem Reflects.hasRoom_iff (h : s.Reflects done) (t : Table) :
    s.builder.HasRoom t ↔ done.tableSize t < capacity := by
  rw [← h.tableSize_eq]
  rfl

theorem Reflects.contains_iff (h : s.Reflects done) :
    s.labels.contains name ↔ name ∈ done.labels := by
  rw [← not_iff_not, ← Listing.labelIndex?_eq_none_iff, ← h.labels, Option.map_eq_none_iff,
    Std.HashMap.contains_eq_isSome_getElem?]
  cases s.labels[name]? <;> simp

/-! ## One line

A line is read in two steps, its label and its statement; `⟨label, none⟩` is
the part of the line that has been read between them. -/

theorem define_eq_ok_iff (h : s.Reflects done) :
    s.define name = .ok s' ↔ (done.tableSize .code < capacity ∧ name ∉ done.labels)
      ∧ s' = { s with labels := s.labels.insert name (s.builder.nextIndex .code) } := by
  unfold define
  split
  · next hroom =>
      split
      · next hold =>
          have hmem : name ∈ done.labels := h.contains_iff.mp hold
          simp [hmem]
      · next hnew =>
          have hnotMem : name ∉ done.labels := fun hmem => hnew (h.contains_iff.mpr hmem)
          simp [hnotMem, (h.hasRoom_iff .code).mp hroom, eq_comm]
  · next hfull =>
      have hnot : ¬ done.tableSize .code < capacity :=
        fun hlt => hfull ((h.hasRoom_iff .code).mpr hlt)
      simp [hnot]

/-- A line without a statement changes nothing but the labels. -/
theorem Reflects.append_label (h : s.Reflects done) {label : Option String}
    {labels : Std.HashMap String Operand}
    (hlabels : ∀ name, labels[name]?.map UInt16.toNat
      = Listing.labelIndex? (done ++ [⟨label, none⟩]) name) :
    Reflects { s with labels := labels } (done ++ [⟨label, none⟩]) where
  args := by simp [h.args, Listing.args, Line.directive?]
  upvalues := by simp [h.upvalues, Listing.upvalues, Line.directive?]
  ints := by simp [h.ints, Line.directive?]
  strs := by simp [h.strs, Line.directive?]
  code := by simpa [Line.instruction?] using h.code
  labels := hlabels
  fixups := by simp [h.fixups, Listing.fixups_append_singleton, Line.instruction?]

theorem Reflects.define (h : s.Reflects done) (hs : s.define name = .ok s') :
    s'.Reflects (done ++ [⟨some name, none⟩]) := by
  obtain ⟨⟨hroom, hnew⟩, rfl⟩ := (define_eq_ok_iff h).mp hs
  refine h.append_label fun other => ?_
  rw [Std.HashMap.getElem?_insert]
  by_cases hother : other = name
  · subst hother
    rw [Listing.labelIndex?_append_new hnew rfl, if_pos (beq_self_eq_true _), Option.map_some,
      Builder.toNat_nextIndex ((h.hasRoom_iff .code).mpr hroom), h.tableSize_eq]
  · rw [if_neg (by simpa using Ne.symm hother), h.labels, Listing.labelIndex?_append_singleton,
      if_neg (by simpa using Ne.symm hother), Option.or_none]

/-- A line without a label changes no label. -/
theorem Reflects.no_label (h : s.Reflects done) : s.Reflects (done ++ [⟨none, none⟩]) := by
  refine h.append_label fun name => ?_
  rw [h.labels, Listing.labelIndex?_append_singleton, if_neg (Option.some_ne_none _).symm,
    Option.or_none]

/-- The statement on a line does not move its label. -/
theorem labelIndex?_statement (label : Option String) (statement statement' : Option Statement) :
    Listing.labelIndex? (done ++ [⟨label, statement⟩])
      = Listing.labelIndex? (done ++ [⟨label, statement'⟩]) := by
  funext name
  rw [Listing.labelIndex?_append_singleton, Listing.labelIndex?_append_singleton]

theorem declare_eq_ok_iff {d : Directive} {label : Option String} :
    (∃ s', s.declare d = .ok s') ↔
      ∀ t, (Line.mk label (some (.directive d))).table? = some t → s.builder.HasRoom t := by
  cases d with
  | args count => exact ⟨fun _ => nofun, fun _ => ⟨_, rfl⟩⟩
  | upvalues count => exact ⟨fun _ => nofun, fun _ => ⟨_, rfl⟩⟩
  | int value => by_cases hroom : s.builder.HasRoom .ints <;> simp [declare, hroom, Line.table?]
  | str value => by_cases hroom : s.builder.HasRoom .strs <;> simp [declare, hroom, Line.table?]

/-- What a directive does to each part of the state. -/
theorem declare_spec {d : Directive} (hs : s.declare d = .ok s') :
    s'.builder.function.args = d.args?.getD s.builder.function.args
      ∧ s'.builder.function.upvalues = d.upvalues?.getD s.builder.function.upvalues
      ∧ s'.builder.function.ints.toList = s.builder.function.ints.toList ++ d.int?.toList
      ∧ s'.builder.function.strs.toList = s.builder.function.strs.toList ++ d.str?.toList
      ∧ s'.builder.function.code = s.builder.function.code
      ∧ s'.labels = s.labels ∧ s'.fixups = s.fixups := by
  cases d with
  | args count | upvalues count =>
      cases hs
      simp [Builder.setArgs, Builder.setUpvalues, Directive.args?, Directive.upvalues?,
        Directive.int?, Directive.str?]
  | int value | str value =>
      simp only [State.declare] at hs
      split at hs
      · cases hs
        simp [Builder.pushInt, Builder.pushStr, Directive.args?, Directive.upvalues?,
          Directive.int?, Directive.str?]
      · cases hs

theorem Reflects.declare {d : Directive} {label : Option String}
    (h : s.Reflects (done ++ [⟨label, none⟩])) (hs : s.declare d = .ok s') :
    s'.Reflects (done ++ [⟨label, some (.directive d)⟩]) := by
  obtain ⟨hargs, hupvalues, hints, hstrs, hcode, hlabels, hfixups⟩ := declare_spec hs
  refine ⟨?_, ?_, ?_, ?_, ?_, fun name => ?_, ?_⟩
  · rw [hargs, h.args, Listing.args_append_singleton, Listing.args_append_singleton]
    rfl
  · rw [hupvalues, h.upvalues, Listing.upvalues_append_singleton,
      Listing.upvalues_append_singleton]
    rfl
  · rw [hints, h.ints]
    simp [Line.directive?]
  · rw [hstrs, h.strs]
    simp [Line.directive?]
  · have hold := h.code
    rw [Listing.instructions_append, Listing.instructions_singleton] at hold ⊢
    rw [hcode]
    exact hold
  · rw [hlabels, h.labels, labelIndex?_statement]
  · rw [hfixups, h.fixups, Listing.fixups_append_singleton, Listing.fixups_append_singleton]
    rfl

/-- An instruction can be appended exactly if it keeps the rules and there is
room for it. -/
theorem emit_eq_ok_iff {line : Nat} {raw : RawInstruction} :
    s.emit line raw = .ok s' ↔ ∃ (room : s.builder.HasRoom .code) (i : Instruction),
      (raw.WellShaped ∧ raw.Denotes unresolved i) ∧ s' = { s with
        builder := s.builder.push i room
        fixups := s.fixups ++ waiting (s.builder.nextIndex .code) line raw } := by
  unfold emit
  split
  · next hroom =>
      simp only [bind_eq_ok_iff, placeholder_eq_ok_iff, pure_eq_ok_iff, hroom, exists_true_left]
      exact exists_congr fun i => and_congr_right fun _ => eq_comm
  · next hfull => exact ⟨nofun, fun ⟨hroom, _⟩ => absurd hroom hfull⟩

theorem Reflects.emit {raw : RawInstruction} {label : Option String}
    (h : s.Reflects (done ++ [⟨label, none⟩]))
    (hs : s.emit (done.length + 1) raw = .ok s') :
    s'.Reflects (done ++ [⟨label, some (.instruction raw)⟩]) := by
  obtain ⟨hroom, i, ⟨_, hdenotes⟩, rfl⟩ := emit_eq_ok_iff.mp hs
  refine ⟨?_, ?_, ?_, ?_, ?_, fun name => ?_, ?_⟩
  · rw [Listing.args_append_singleton]
    exact h.args.trans (Listing.args_append_singleton _ _)
  · rw [Listing.upvalues_append_singleton]
    exact h.upvalues.trans (Listing.upvalues_append_singleton _ _)
  · have hold := h.ints
    rw [Listing.ints_append, Listing.ints_singleton] at hold ⊢
    exact hold
  · have hold := h.strs
    rw [Listing.strs_append, Listing.strs_singleton] at hold ⊢
    exact hold
  · have hold := h.code
    rw [Listing.instructions_append, Listing.instructions_singleton] at hold ⊢
    simp only [Line.instruction?, Option.toList_none, List.append_nil] at hold
    simp only [Builder.push, Array.toList_push, Line.instruction?, Option.toList_some]
    exact List.rel_append hold (.cons hdenotes .nil)
  · rw [← labelIndex?_statement label none]
    exact h.labels name
  · have hfixups : s.fixups.toList = done.fixups := by
      simpa [Listing.fixups_append_singleton, Line.instruction?] using h.fixups
    have hsize : s.builder.function.tableSize .code = done.instructions.length := by
      rw [h.tableSize_eq]
      simp [Listing.tableSize, Line.instruction?]
    rw [Listing.fixups_append_singleton, ← hfixups, ← hsize]
    simp [Line.instruction?, Builder.nextIndex]

/-- Lets the label of a line, if it has one, name the next instruction. -/
def obeyLabel (s : State) : Option String → Except AssemblyFault State
  | none => .ok s
  | some name => s.define name

/-- Carries out the statement of a line, if it has one. -/
def obeyStatement (s : State) (line : Nat) : Option Statement → Except AssemblyFault State
  | none => .ok s
  | some (.directive d) => s.declare d
  | some (.instruction raw) => s.emit line raw

theorem obey_eq (line : Nat) :
    s.obey line l = s.obeyLabel l.label >>= fun s => s.obeyStatement line l.statement := by
  obtain ⟨label, statement⟩ := l
  rcases label with _ | name <;> rcases statement with _ | (_ | _) <;> rfl

theorem exists_obeyLabel_iff (h : s.Reflects done) {label : Option String} :
    (∃ s', s.obeyLabel label = .ok s') ↔
      ∀ name, label = some name → done.tableSize .code < capacity ∧ name ∉ done.labels := by
  cases label with
  | none => exact ⟨fun _ => nofun, fun _ => ⟨s, rfl⟩⟩
  | some name => simp [obeyLabel, define_eq_ok_iff h]

theorem Reflects.obeyLabel {label : Option String} (h : s.Reflects done)
    (hs : s.obeyLabel label = .ok s') : s'.Reflects (done ++ [⟨label, none⟩]) := by
  cases label with
  | none => cases hs; exact h.no_label
  | some name => exact h.define hs

theorem exists_obeyStatement_iff {label : Option String} {statement : Option Statement}
    (h : s.Reflects (done ++ [⟨label, none⟩])) {line : Nat} :
    (∃ s', s.obeyStatement line statement = .ok s') ↔
      (∀ t, (Line.mk label statement).table? = some t → done.tableSize t < capacity)
        ∧ ∀ raw, (Line.mk label statement).instruction? = some raw → raw.WellShaped := by
  have hroom : ∀ t, s.builder.HasRoom t ↔ done.tableSize t < capacity := by
    intro t
    rw [h.hasRoom_iff, Listing.tableSize_append, Listing.tableSize_singleton]
    rfl
  match statement with
  | none => exact ⟨fun _ => ⟨nofun, nofun⟩, fun _ => ⟨s, rfl⟩⟩
  | some (.directive d) =>
      simp only [← hroom]
      exact declare_eq_ok_iff.trans ⟨fun h => ⟨h, nofun⟩, fun h => h.1⟩
  | some (.instruction raw) =>
      simp only [State.obeyStatement, emit_eq_ok_iff, ← hroom]
      constructor
      · rintro ⟨_, room, i, ⟨hshape, _⟩, _⟩
        exact ⟨fun t ht => Option.some.inj ht ▸ room, fun _ hraw => Option.some.inj hraw ▸ hshape⟩
      · rintro ⟨room, hshape⟩
        obtain ⟨i, hi⟩ := exists_denotes_unresolved (hshape raw rfl)
        exact ⟨_, room .code rfl, i, ⟨hshape raw rfl, hi⟩, rfl⟩

theorem Reflects.obeyStatement {label : Option String} {statement : Option Statement}
    (h : s.Reflects (done ++ [⟨label, none⟩]))
    (hs : s.obeyStatement (done.length + 1) statement = .ok s') :
    s'.Reflects (done ++ [⟨label, statement⟩]) := by
  match statement with
  | none => cases hs; exact h
  | some (.directive d) => exact h.declare hs
  | some (.instruction raw) => exact h.emit hs

/-- A line is carried out exactly if it keeps the rules after those before it. -/
theorem exists_obey_iff (h : s.Reflects done) {line : Nat} :
    (∃ s', s.obey line l = .ok s') ↔ l.FitsAfter done := by
  simp only [obey_eq, bind_eq_ok_iff]
  constructor
  · rintro ⟨s', s₁, hlabel, hstatement⟩
    obtain ⟨hroom, hshape⟩ := (exists_obeyStatement_iff (h.obeyLabel hlabel)).mp ⟨s', hstatement⟩
    exact ⟨(exists_obeyLabel_iff h).mp ⟨s₁, hlabel⟩, hroom, hshape⟩
  · rintro ⟨hlabel, hroom, hshape⟩
    obtain ⟨s₁, hs₁⟩ := (exists_obeyLabel_iff h).mpr hlabel
    obtain ⟨s', hs'⟩ := (exists_obeyStatement_iff (h.obeyLabel hs₁)).mpr ⟨hroom, hshape⟩
    exact ⟨s', s₁, hs₁, hs'⟩

theorem Reflects.obey (h : s.Reflects done) (hs : s.obey (done.length + 1) l = .ok s') :
    s'.Reflects (done ++ [l]) := by
  rw [obey_eq, bind_eq_ok_iff] at hs
  obtain ⟨s₁, hlabel, hstatement⟩ := hs
  exact (h.obeyLabel hlabel).obeyStatement hstatement

end State

/-! ## All lines -/

theorem readLine_eq_ok_iff {s s' : State} {line : Nat} {text : List Char} :
    s.readLine line text = .ok s' ↔ ∃ l, Line.parse text = .ok l ∧ s.obey line l = .ok s' := by
  unfold State.readLine
  cases Line.parse text with
  | error e => exact ⟨nofun, nofun⟩
  | ok l =>
      cases hobey : s.obey line l with
      | error fault => simp [hobey]
      | ok s₁ => simp [hobey]

theorem readLines_cons {first : Nat} {text : List Char} {texts : List (List Char)} {s : State} :
    readLines first (text :: texts) s = s.readLine first text >>= readLines (first + 1) texts :=
  List.foldlM_cons ..

/-- Lines are read to the end exactly if each can be parsed and they keep the
rules that can be checked on the way. -/
theorem exists_readLines_iff {s : State} {done : Listing} (h : s.Reflects done)
    (hdone : done.Readable) (texts : List (List Char)) :
    (∃ s', readLines (done.length + 1) texts s = .ok s') ↔
      ∃ ls, Listing.Parses texts ls ∧ Listing.Readable (done ++ ls) := by
  -- over the lines still to be read: `done` grows by each of them, and the invariant with it
  induction texts generalizing s done with
  | nil =>
      constructor
      · intro _
        exact ⟨[], .nil, by rwa [List.append_nil]⟩
      · intro _
        exact ⟨s, rfl⟩
  | cons text texts ih =>
      simp only [readLines_cons, bind_eq_ok_iff, readLine_eq_ok_iff]
      constructor
      · rintro ⟨s', s₁, ⟨l, hparse, hobey⟩, hrest⟩
        have h₁ := h.obey hobey
        have hl := (State.exists_obey_iff h).mp ⟨s₁, hobey⟩
        have hdone₁ := Listing.readable_append_singleton.mpr ⟨hdone, hl⟩
        obtain ⟨ls, hls, hreadable⟩ := (ih h₁ hdone₁).mp ⟨s', by simpa using hrest⟩
        exact ⟨l :: ls, .cons hparse hls, List.append_cons done l ls ▸ hreadable⟩
      · rintro ⟨_, _ | @⟨_, l, _, ls, hparse, hls⟩, hreadable⟩
        rw [List.append_cons] at hreadable
        have hdone₁ := hreadable.of_append
        obtain ⟨_, hl⟩ := Listing.readable_append_singleton.mp hdone₁
        obtain ⟨s₁, hobey⟩ := (State.exists_obey_iff h).mpr hl
        obtain ⟨s', hrest⟩ := (ih (h.obey hobey) hdone₁).mpr ⟨ls, hls, hreadable⟩
        exact ⟨s', s₁, ⟨l, hparse, hobey⟩, by simpa using hrest⟩

theorem State.Reflects.readLines {s s' : State} {done ls : Listing} (h : s.Reflects done)
    {texts : List (List Char)} (hparse : Listing.Parses texts ls)
    (hs : readLines (done.length + 1) texts s = .ok s') : s'.Reflects (done ++ ls) := by
  induction hparse generalizing s done with
  | nil =>
      cases hs
      rwa [List.append_nil]
  | cons hl _ ih =>
      simp only [readLines_cons, bind_eq_ok_iff, readLine_eq_ok_iff] at hs
      obtain ⟨s₁, ⟨l, hl', hobey⟩, hrest⟩ := hs
      rw [hl] at hl'
      cases hl'
      rw [List.append_cons]
      exact ih (h.obey hobey) (by simpa using hrest)

/-- Lines that were read to the end are readable, and the state reflects them. -/
theorem exists_reflects_of_readLines {s : State} {texts : List (List Char)}
    (hs : readLines 1 texts {} = .ok s) :
    ∃ ls, Listing.Parses texts ls ∧ ls.Readable ∧ s.Reflects ls := by
  obtain ⟨ls, hls, hreadable⟩ := (exists_readLines_iff State.Reflects.nil .nil texts).mp ⟨s, hs⟩
  exact ⟨ls, hls, hreadable, State.Reflects.nil.readLines hls hs⟩

end Assembly

end Wordcode
