/-
# Inert edits — what a line may be changed in

Blanks between tokens, a comment at the end and the case of a mnemonic can be
changed in a line that is accepted, and it is still read as the same line
(`LineEdit.parse_eq_ok`).  Blanks may go wherever no token lies across the place;
inside a comment that is anywhere, inside a string nowhere.

The case of a label counts, and that of a directive does too.  A mnemonic is told
from a label that is defined by the colon that does not follow it.
-/
import Mathlib.Data.List.Induction
import Wordcode.Proofs.Listing.Grammar
import Wordcode.Proofs.Listing.Splitting

namespace Wordcode

open Text Lexeme

/-! ## Edits -/

/-- No lexeme lies across the place between two texts. -/
def Lexeme.TokenBoundary (before after : List Char) : Prop :=
  ∀ l ∈ scan 0 (before ++ after), l.stop ≤ byteLength before ∨ byteLength before ≤ l.start

/-- Two texts differ at most in the case of ASCII letters. -/
def Text.SameLetters (cs ds : List Char) : Prop := cs.map Char.toLower = ds.map Char.toLower

theorem Text.sameLetters_cons_iff {c d : Char} {cs ds : List Char} :
    SameLetters (c :: cs) (d :: ds) ↔ c.toLower = d.toLower ∧ SameLetters cs ds := by
  rw [SameLetters, List.map_cons, List.map_cons, List.cons.injEq, SameLetters]

theorem Text.SameLetters.all_eq {p : Char → Bool} {cs ds : List Char} (h : SameLetters cs ds)
    (hp : ∀ k : Fin 26, p (Char.ofNat (65 + k)).toLower = p (Char.ofNat (65 + k))) :
    cs.all p = ds.all p := by
  have hlower : p ∘ Char.toLower = p := funext (apply_toLower hp)
  rw [← hlower, ← List.all_map, h, List.all_map]

/-- One line is changed into another in what nobody reads. -/
inductive LineEdit : List Char → List Char → Prop where
  /-- Blanks are put between tokens, or before or after all of them. -/
  | blanks {before blanks after : List Char} (hblanks : ∀ c ∈ blanks, isBlank c)
      (hplace : TokenBoundary before after) :
      LineEdit (before ++ after) (before ++ (blanks ++ after))
  /-- A comment is put at the end. -/
  | comment {text comment : List Char} {mark : Char} (hmark : startsComment mark)
      (hline : '\n' ∉ comment) : LineEdit text (text ++ mark :: comment)
  /-- Letters of a mnemonic, a name before which there may be a label but after
  which there is no colon, are written in the other case. -/
  | mnemonic {before name name' after : List Char}
      (hname : ⟨byteLength before, name, some (.identifier (String.ofList name))⟩
        ∈ scan 0 (before ++ (name ++ after)))
      (hcolon : ∀ l ∈ (scan 0 after).head?, l.token? ≠ some .colon)
      (hcase : SameLetters name' name) :
      LineEdit (before ++ (name ++ after)) (before ++ (name' ++ after))

/-- No mnemonic goes on from a zero to a number in base sixteen. -/
theorem Opcode.mnemonic_not_hex (op : Opcode) : ∃ c d cs,
    op.mnemonic.toList = c :: d :: cs ∧ ¬ (c = 'x' ∧ d.isHexDigit) := by
  cases op <;> exact ⟨_, _, _, rfl, by decide⟩

namespace Lexeme

variable {before after blanks cs comment : List Char} {mark : Char} {ts : List Token}

/-! ## Blanks -/

theorem noLonger_blanks (hblanks : ∀ c ∈ blanks, isBlank c) (after : List Char) :
    NoLonger after (blanks ++ after) := by
  cases blanks with
  | nil => exact .refl after
  | cons c blanks =>
      exact (separated_of_isBlank (hblanks c (List.mem_cons_self ..))).noLonger after

theorem map_token?_scan_blanks (hblanks : ∀ c ∈ blanks, isBlank c) (start : Nat) :
    (scan start (blanks ++ cs)).map Lexeme.token? = (scan start cs).map Lexeme.token? := by
  induction blanks generalizing start with
  | nil => rfl
  | cons c blanks ih =>
      rw [List.forall_mem_cons] at hblanks
      rw [List.cons_append, scan, if_pos hblanks.1, ih hblanks.2]
      exact map_token?_scan ..

/-- Blanks between tokens are not read. -/
theorem Yields.insert_blanks (h : Yields (before ++ after) ts)
    (hblanks : ∀ c ∈ blanks, isBlank c) (hplace : TokenBoundary before after) :
    Yields (before ++ (blanks ++ after)) ts := by
  have hplace' : ∀ l ∈ scan 0 (before ++ after),
      l.stop ≤ 0 + byteLength before ∨ 0 + byteLength before ≤ l.start := by
    rwa [Nat.zero_add]
  rw [yields_iff, ← h 0]
  rcases splits_or_commented h.token?_ne_none hplace' with hsplits | hcommented
  · rw [hsplits _ (noLonger_blanks hblanks after), hsplits _ (.refl after), List.map_append,
      List.map_append, map_token?_scan_blanks hblanks]
  · have hafter := hcommented.newline_not_mem
    have hboth : '\n' ∉ blanks ++ after := by
      rw [List.mem_append, not_or]
      exact ⟨fun hmem => absurd (hblanks _ hmem) (by decide), hafter⟩
    rw [hcommented.scan_append hboth, hcommented.scan_append hafter]

/-! ## Comments -/

/-- A comment at the end is not read. -/
theorem Yields.append_comment (h : Yields cs ts) (hmark : startsComment mark)
    (hline : '\n' ∉ comment) : Yields (cs ++ mark :: comment) ts := by
  have htokens := h.token?_ne_none
  rw [← List.append_nil cs] at htokens
  have hplace : ∀ l ∈ scan 0 (cs ++ []), l.stop ≤ 0 + byteLength cs ∨ 0 + byteLength cs ≤ l.start := by
    intro l hl
    rw [List.append_nil] at hl
    exact .inl (bounds_of_mem_scan hl).2.2
  rw [yields_iff, ← h 0]
  rcases splits_or_commented htokens hplace with hsplits | hcommented
  · rw [hsplits _ ((separated_of_startsComment hmark).noLonger []),
      List.map_eq_nil_iff.mp (Yields.comment hmark hline _), List.append_nil]
  · have hnewline : '\n' ∉ mark :: comment := by
      rw [List.mem_cons, not_or]
      refine ⟨?_, hline⟩
      rintro rfl
      exact absurd hmark (by decide)
    rw [hcommented.scan_append hnewline]

/-! ## Mnemonics -/

variable {name name' : List Char}

theorem isName_of_sameLetters (h : SameLetters name' name) (hname : isName name) :
    isName name' := by
  cases name with
  | nil => cases hname
  | cons c tail =>
      cases name' with
      | nil => cases h
      | cons c' tail' =>
          obtain ⟨hc, htail⟩ := sameLetters_cons_iff.mp h
          rwa [isName, apply_eq_of_toLower_eq (p := startsName) (by decide) hc,
            htail.all_eq (p := continuesName) (by decide)]

theorem startsHex_mnemonic {op : Opcode} (h : name.map Char.toLower = op.mnemonic.toList)
    (after : List Char) : startsHex (name ++ after) = false := by
  obtain ⟨c, d, cs, hop, hnot⟩ := op.mnemonic_not_hex
  rw [hop] at h
  obtain ⟨c', tail, rfl, rfl, htail⟩ := List.map_eq_cons_iff.mp h
  obtain ⟨d', tail, rfl, rfl, _⟩ := List.map_eq_cons_iff.mp htail
  rw [List.cons_append, startsHex_cons, Bool.eq_false_iff]
  intro hboth
  obtain ⟨hx, hdigit⟩ := (Bool.and_eq_true _ _).mp hboth
  refine hnot ⟨?_, ?_⟩
  · rw [beq_iff_eq.mp hx]
    rfl
  · rw [apply_toLower (p := Char.isHexDigit) (by decide)]
    exact hdigit

/-- An identifier is a name, and no name goes on after it. -/
theorem isName_of_cut {c : Char} {tail : List Char} {ident : String}
    (h : cut c (tail ++ after) = ⟨tail.length, some (.identifier ident)⟩) :
    isName (c :: tail) ∧ ∀ d ∈ after.head?, continuesName d = false := by
  have hc : startsName c := startsToken_of_cut (congrArg Cut.token? h)
  rw [cut, if_pos hc] at h
  have hlength : ((tail ++ after).takeWhile continuesName).length = tail.length :=
    congrArg Cut.more h
  have htail : tail.all continuesName := takeWhile_append_of_length hlength ▸ List.all_takeWhile
  have hafter := head?_any_eq_false_of_length hlength
  refine ⟨?_, fun d hd => ?_⟩
  · rw [isName, hc, htail]
    rfl
  · rwa [Option.mem_def.mp hd] at hafter

/-- No token before a mnemonic goes on into it because its case is changed. -/
theorem noLonger_mnemonic {op : Opcode} (h : SameLetters name' name)
    (hop : name.map Char.toLower = op.mnemonic.toList) (after : List Char) :
    NoLonger (name ++ after) (name' ++ after) := by
  cases name with
  | nil =>
      rw [List.map_eq_nil_iff.mp h]
      exact .refl after
  | cons c tail =>
      cases name' with
      | nil => cases h
      | cons c' tail' =>
          have hhead : ∀ p : Char → Bool,
              (∀ k : Fin 26, p (Char.ofNat (65 + k)).toLower = p (Char.ofNat (65 + k))) →
              p c' → p c := by
            intro p hp hc'
            rwa [← apply_eq_of_toLower_eq hp (sameLetters_cons_iff.mp h).1]
          refine ⟨hhead continuesName (by decide), hhead Char.isDigit (by decide),
            hhead Char.isHexDigit (by decide), fun hhex => ?_⟩
          rw [startsHex_mnemonic (h.trans hop)] at hhex
          cases hhex

end Lexeme

/-! ## The grammar -/

theorem OperandExpr.ListSpelled.identifier_not_mem {ts : List Token} {es : List OperandExpr}
    (h : ListSpelled ts es) (name : String) : .identifier name ∉ ts := by
  induction ts using List.twoStepInduction generalizing es with
  | nil => exact List.not_mem_nil
  | singleton token =>
      obtain ⟨e, he, _⟩ := listSpelled_singleton_iff.mp h
      intro hmem
      cases List.mem_singleton.mp hmem
      cases he with
      | number hvalue => cases hvalue
  | cons_cons token token' ts ih =>
      obtain ⟨rfl, _, e, es', he, hes', _⟩ := listSpelled_cons_cons_iff.mp h
      rw [List.mem_cons, List.mem_cons, not_or, not_or]
      refine ⟨?_, ?_, ih hes'⟩
      · rintro rfl
        cases he with
        | number hvalue => cases hvalue
      · rintro ⟨⟩

theorem Directive.Spelled.identifier_not_mem {keyword : String} {ts : List Token} {d : Directive}
    (h : d.Spelled keyword ts) (name : String) : .identifier name ∉ ts := by
  intro hmem
  cases h with
  | args hvalue | upvalues hvalue | int hvalue =>
      cases List.mem_singleton.mp hmem
      cases hvalue
  | str => cases List.mem_singleton.mp hmem

/-- An identifier stands only where a statement starts. -/
theorem Statement.Spelled.identifier_not_mem {token : Token} {ts : List Token}
    {statement : Option Statement} (h : Statement.Spelled (token :: ts) statement) (name : String) :
    .identifier name ∉ ts := by
  cases h with
  | directive hd => exact hd.identifier_not_mem name
  | instruction _ hoperands => exact hoperands.identifier_not_mem name

variable {us vs : List Token} {name name' : String}

/-- The identifier in a statement is its mnemonic, in either case. -/
theorem Statement.Spelled.exists_mnemonic {statement : Option Statement}
    (h : Statement.Spelled (us ++ .identifier name :: vs) statement) :
    (∃ op : Opcode, name.map Char.toLower = op.mnemonic)
      ∧ ∀ name', name'.map Char.toLower = name.map Char.toLower →
        Statement.Spelled (us ++ .identifier name' :: vs) statement := by
  cases us with
  | nil =>
      cases h with
      | @instruction _ op _ _ hname hoperands =>
          exact ⟨⟨op, hname⟩, fun name' hcase => .instruction (hcase.trans hname) hoperands⟩
  | cons token us => exact (h.identifier_not_mem name (List.mem_append_cons_self ..)).elim

/-- The identifier in a line that no colon follows is its mnemonic, in either
case. -/
theorem Line.Spelled.exists_mnemonic {line : Line}
    (h : Line.Spelled (us ++ .identifier name :: vs) line) (hcolon : vs.head? ≠ some .colon) :
    (∃ op : Opcode, name.map Char.toLower = op.mnemonic)
      ∧ ∀ name', name'.map Char.toLower = name.map Char.toLower →
        Line.Spelled (us ++ .identifier name' :: vs) line := by
  generalize hts : us ++ .identifier name :: vs = ts at h
  cases h with
  | unlabelled hstatement =>
      subst hts
      obtain ⟨hop, hcase⟩ := hstatement.exists_mnemonic
      exact ⟨hop, fun name' h => .unlabelled (hcase name' h)⟩
  | labelled label hstatement =>
      rcases us with _ | ⟨_, _ | ⟨_, us⟩⟩
      · cases hts
        exact (hcolon rfl).elim
      · cases hts
      · cases hts
        obtain ⟨hop, hcase⟩ := hstatement.exists_mnemonic
        exact ⟨hop, fun name' h => .labelled label (hcase name' h)⟩

/-! ## Lines -/

/-- A line that is changed in what nobody reads is read as the same line. -/
theorem LineEdit.parse_eq_ok {text text' : List Char} {line : Line} (h : LineEdit text text')
    (hline : Line.parse text = .ok line) : Line.parse text' = .ok line := by
  obtain ⟨ts, hts, hspelled⟩ := Line.parse_eq_ok_iff_exists.mp hline
  cases h with
  | blanks hblanks hplace =>
      exact (Line.parse_eq_ok_iff (hts.insert_blanks hblanks hplace)).mpr hspelled
  | comment hmark hnewline =>
      exact (Line.parse_eq_ok_iff (hts.append_comment hmark hnewline)).mpr hspelled
  | @mnemonic before name name' after hname hcolon hcase =>
      obtain ⟨hsplits, c, tail, us, token, vs, htext, hcut, htoken, rfl, hbefore, hafter⟩ :=
        hts.exists_of_mem hname rfl
      cases htoken
      have hvs : vs.head? ≠ some .colon := by
        intro hhead
        obtain ⟨vs, rfl⟩ := List.head?_eq_some_iff.mp hhead
        obtain ⟨l, _, hscan, hl, _⟩ := List.map_eq_cons_iff.mp (hafter 0)
        rw [hscan] at hcolon
        exact hcolon l rfl hl
      obtain ⟨⟨op, hop⟩, hrecased⟩ := hspelled.exists_mnemonic hvs
      rw [← String.toList_inj, String.toList_map, String.toList_ofList] at hop
      obtain ⟨hname, hend⟩ := isName_of_cut hcut
      rw [← htext] at hname
      have hyields := hbefore.append hsplits (noLonger_mnemonic hcase hop after)
        (.name (isName_of_sameLetters hcase hname) hend hafter)
      refine (Line.parse_eq_ok_iff hyields).mpr (hrecased _ ?_)
      rw [← String.toList_inj, String.toList_map, String.toList_map, String.toList_ofList,
        String.toList_ofList]
      exact hcase

end Wordcode
