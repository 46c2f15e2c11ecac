/-
# Exact bytes — nothing is read but what would be written

The converse of what was written being taken back.  Whatever bytes a reader is
given, the value that it reads has these very bytes as its own, up to what it
hands on; so a function has one byte form and no bytes are read in two ways
(`Function.reader_eq_ok_iff`).  That a function can be read at all says that its
lengths can be counted.

Two more facts say what becomes of other bytes.  A reader is `Steady`: bytes
that come later change nothing, unless there were too few before them.  So a
part of a byte form is refused for want of bytes and for no other reason.  And
in the place of the instructions there may be any words (`bytesWith`): they are
read as a stream of words is, and refused with the error of the first one that
holds no instruction (`Function.reader_bytesWith`).  That a function is read back
is the case of its own words (`Function.takes_reader`).  How many entries a table
may have is nowhere asked.
-/
import Wordcode.Proofs.Bytes.Written
import Wordcode.Proofs.Word.Canonical

namespace Wordcode

namespace Bytes

variable {α β : Type}

namespace Reader

/-! ## Bytes that come later -/

/-- Bytes that come later change nothing, unless there were too few. -/
def Steady (read : Reader α) : Prop :=
  ∀ bytes more, read bytes = .error .unexpectedEnd
    ∨ read (bytes ++ more) = (read bytes).map fun (a, rest) => (a, rest ++ more)

namespace Steady

variable {first : Reader α} {next : α → Reader β}

theorem andThen (hfirst : first.Steady) (hnext : ∀ a, (next a).Steady) :
    (first.andThen next).Steady := by
  intro bytes more
  rcases hfirst bytes more with hshort | hsame
  · left
    rw [Reader.andThen, hshort]
  · rw [Reader.andThen, Reader.andThen, hsame]
    cases first bytes with
    | error e => exact .inr rfl
    | ok taken => exact hnext taken.1 taken.2 more

theorem map (h : first.Steady) (f : α → β) : (first.map f).Steady := by
  intro bytes more
  rcases h bytes more with hshort | hsame
  · left
    rw [Reader.map, hshort]
  · right
    rw [Reader.map, Reader.map, hsame]
    cases first bytes <;> rfl

/-- A proper part of what a reader takes has too few bytes. -/
theorem eq_unexpectedEnd {bytes part : List UInt8} {a : α} (h : first.Steady)
    (htakes : first.Takes bytes a) (hpart : part <+: bytes) (hne : part ≠ bytes) :
    first part = .error .unexpectedEnd := by
  obtain ⟨more, rfl⟩ := hpart
  rcases h part more with hshort | hsame
  · exact hshort
  · exfalso
    have hall := htakes []
    rw [List.append_nil, hsame] at hall
    cases hread : first part with
    | error e =>
        rw [hread] at hall
        cases hall
    | ok taken =>
        rw [hread] at hall
        have hrest : taken.2 ++ more = [] := congrArg Prod.snd (Except.ok.inj hall)
        rw [(List.append_eq_nil_iff.mp hrest).2, List.append_nil] at hne
        exact hne rfl

end Steady

/-! ## Two readers, one after another -/

variable {first : Reader α} {next : α → Reader β} {bytes rest : List UInt8} {b : β}

theorem andThen_eq_ok_iff : first.andThen next bytes = .ok (b, rest) ↔
    ∃ a mid, first bytes = .ok (a, mid) ∧ next a mid = .ok (b, rest) := by
  rw [andThen]
  cases first bytes with
  | error e => simp
  | ok taken =>
      obtain ⟨a, mid⟩ := taken
      simp

theorem map_eq_ok_iff {f : α → β} : first.map f bytes = .ok (b, rest) ↔
    ∃ a, first bytes = .ok (a, rest) ∧ f a = b := by
  rw [map]
  cases first bytes with
  | error e => simp
  | ok taken =>
      obtain ⟨a, mid⟩ := taken
      simp [and_comm]

/-- What is read is what would be written of the value, and the value can be
stored. -/
def Exact (read : Reader α) (write : α → List UInt8) (Storable : α → Prop) : Prop :=
  ∀ bytes a rest, read bytes = .ok (a, rest) → Storable a ∧ bytes = write a ++ rest

end Reader

/-! ## Numbers -/

theorem ofLittleEndian_lt (bytes : List UInt8) : ofLittleEndian bytes < 256 ^ bytes.length := by
  induction bytes with
  | nil => exact Nat.one_pos
  | cons b bytes ih =>
      have hb := b.toNat_lt
      have hcons : ofLittleEndian (b :: bytes) = b.toNat + 256 * ofLittleEndian bytes := rfl
      rw [hcons, List.length_cons, Nat.pow_succ']
      omega

theorem littleEndian_ofLittleEndian (bytes : List UInt8) :
    littleEndian bytes.length (ofLittleEndian bytes) = bytes := by
  induction bytes with
  | nil => rfl
  | cons b bytes ih =>
      have hb := b.toNat_lt
      have hcons : ofLittleEndian (b :: bytes) = b.toNat + 256 * ofLittleEndian bytes := rfl
      have hlow : UInt8.ofNat (ofLittleEndian (b :: bytes)) = b := by
        apply UInt8.toNat_inj.mp
        rw [UInt8.toNat_ofNat', hcons]
        omega
      have hhigh : ofLittleEndian (b :: bytes) / 256 = ofLittleEndian bytes := by
        rw [hcons]
        omega
      rw [List.length_cons, littleEndian, hlow, hhigh, ih]

theorem readBytes_eq_ok {count : Nat} {bytes content rest : List UInt8}
    (h : readBytes count bytes = .ok (content, rest)) :
    content.length = count ∧ bytes = content ++ rest := by
  simp only [readBytes] at h
  split at h
  · cases h
  · next henough =>
      cases h
      refine ⟨Nat.le_antisymm ?_ (Nat.le_of_not_lt henough), (List.take_append_drop _ _).symm⟩
      exact List.length_take_le _ _

theorem steady_readBytes (count : Nat) : (readBytes count).Steady := by
  intro bytes more
  by_cases hshort : bytes.length < count
  · left
    simp only [readBytes, List.length_take]
    rw [if_pos (by omega)]
  · right
    have hle : count ≤ bytes.length := Nat.le_of_not_lt hshort
    have henough : ¬ (bytes.take count).length < count := by
      rw [List.length_take]
      omega
    simp only [readBytes, List.take_append_of_le_length hle, List.drop_append_of_le_length hle,
      if_neg henough]
    rfl

theorem exact_readNat (width : Nat) :
    (readNat width).Exact (littleEndian width) (· < 256 ^ width) := by
  intro bytes n rest h
  obtain ⟨content, hcontent, rfl⟩ := Reader.map_eq_ok_iff.mp h
  obtain ⟨rfl, rfl⟩ := readBytes_eq_ok hcontent
  exact ⟨ofLittleEndian_lt content, by rw [littleEndian_ofLittleEndian]⟩

theorem steady_readNat (width : Nat) : (readNat width).Steady :=
  (steady_readBytes width).map ofLittleEndian

theorem exact_readUInt16 : readUInt16.Exact writeUInt16 fun _ => True := by
  intro bytes n rest h
  obtain ⟨value, hvalue, rfl⟩ := Reader.map_eq_ok_iff.mp h
  obtain ⟨hlt, rfl⟩ := exact_readNat 2 _ _ _ hvalue
  exact ⟨trivial, by rw [writeUInt16, UInt16.toNat_ofNat_of_lt' hlt]⟩

theorem exact_readInt32 : readInt32.Exact writeInt32 fun _ => True := by
  intro bytes n rest h
  obtain ⟨value, hvalue, rfl⟩ := Reader.map_eq_ok_iff.mp h
  obtain ⟨hlt, rfl⟩ := exact_readNat 4 _ _ _ hvalue
  exact ⟨trivial, by rw [writeInt32, UInt32.toUInt32_toInt32, UInt32.toNat_ofNat_of_lt' hlt]⟩

/-! ## Sequences and strings -/

theorem steady_readMany {read : Reader α} (h : read.Steady) (count : Nat) (done : Array α) :
    (readMany read count done).Steady := by
  intro bytes more
  induction count generalizing bytes done with
  | zero => exact .inr rfl
  | succ count ih =>
      rw [readMany, readMany]
      rcases h bytes more with hshort | hsame
      · left
        rw [hshort]
      · rw [hsame]
        cases read bytes with
        | error e => exact .inr rfl
        | ok taken => exact ih (done.push taken.1) taken.2

theorem steady_readSequence {read : Reader α} (h : read.Steady) : (readSequence read).Steady :=
  (steady_readNat 8).andThen fun count => steady_readMany h count #[]

theorem readMany_eq_ok {read : Reader α} {write : α → List UInt8} {Storable : α → Prop}
    (h : read.Exact write Storable) {count : Nat} {done values : Array α}
    {bytes rest : List UInt8} (hread : readMany read count done bytes = .ok (values, rest)) :
    ∃ more : List α, more.length = count ∧ (∀ a ∈ more, Storable a)
      ∧ values = done ++ more.toArray ∧ bytes = more.flatMap write ++ rest := by
  induction count generalizing done bytes with
  | zero =>
      cases hread
      exact ⟨[], rfl, nofun, by simp, rfl⟩
  | succ count ih =>
      rw [readMany] at hread
      cases hfirst : read bytes with
      | error e =>
          rw [hfirst] at hread
          cases hread
      | ok taken =>
          obtain ⟨a, mid⟩ := taken
          rw [hfirst] at hread
          obtain ⟨more, rfl, hmore, rfl, rfl⟩ := ih hread
          obtain ⟨ha, rfl⟩ := h _ _ _ hfirst
          exact ⟨a :: more, rfl, List.forall_mem_cons.mpr ⟨ha, hmore⟩, by simp, by simp⟩

theorem exact_readSequence {read : Reader α} {write : α → List UInt8} {Storable : α → Prop}
    (h : read.Exact write Storable) : (readSequence read).Exact (writeSequence write)
      fun values => values.size < 256 ^ 8 ∧ ∀ a ∈ values, Storable a := by
  intro bytes values rest hread
  obtain ⟨count, mid, hcount, hmany⟩ := Reader.andThen_eq_ok_iff.mp hread
  obtain ⟨hlt, rfl⟩ := exact_readNat 8 _ _ _ hcount
  obtain ⟨more, rfl, hmore, rfl, rfl⟩ := readMany_eq_ok h hmany
  exact ⟨by simpa using ⟨hlt, hmore⟩, by simp [writeSequence]⟩

theorem steady_readString : readString.Steady := by
  refine ((steady_readNat 8).andThen steady_readBytes).andThen fun content bytes more => .inr ?_
  cases decodeUtf8 content <;> rfl

theorem decodeUtf8_eq_ok {content : List UInt8} {s : String} (h : decodeUtf8 content = .ok s) :
    s.toByteArray.data.toList = content := by
  unfold decodeUtf8 at h
  split at h
  · next t ht =>
      cases h
      obtain ⟨_, hs⟩ := Option.dite_none_right_eq_some.mp ht
      cases hs
      rfl
  · cases h

theorem exact_readString : readString.Exact writeString fun s => s.toByteArray.size < 256 ^ 8 := by
  intro bytes s rest h
  obtain ⟨content, mid, hcontent, hs⟩ := Reader.andThen_eq_ok_iff.mp h
  obtain ⟨count, mid', hcount, hbytes⟩ := Reader.andThen_eq_ok_iff.mp hcontent
  obtain ⟨hlt, rfl⟩ := exact_readNat 8 _ _ _ hcount
  obtain ⟨rfl, rfl⟩ := readBytes_eq_ok hbytes
  cases hdecode : decodeUtf8 content with
  | error e =>
      rw [hdecode] at hs
      cases hs
  | ok t =>
      rw [hdecode] at hs
      cases hs
      have hdata := decodeUtf8_eq_ok hdecode
      have hsize : s.toByteArray.size = content.length := by
        rw [← hdata]
        rfl
      refine ⟨Nat.lt_of_le_of_lt (Nat.le_of_eq hsize) hlt, ?_⟩
      rw [writeString, hsize, hdata, List.append_assoc]

end Bytes

open Bytes

/-! ## Functions -/

namespace Instruction

theorem steady_reader : reader.Steady := by
  refine (steady_readNat 8).andThen fun n bytes more => .inr ?_
  cases decode (UInt64.ofNat n) <;> rfl

theorem exact_reader : reader.Exact toBytes fun _ => True := by
  intro bytes i rest h
  obtain ⟨n, mid, hn, hi⟩ := Reader.andThen_eq_ok_iff.mp h
  obtain ⟨hlt, rfl⟩ := exact_readNat 8 _ _ _ hn
  cases hdecode : decode (UInt64.ofNat n) with
  | error e =>
      rw [hdecode] at hi
      cases hi
  | ok j =>
      rw [hdecode] at hi
      cases hi
      exact ⟨trivial, by
        rw [toBytes, encode_of_decode hdecode, UInt64.toNat_ofNat_of_lt' hlt]⟩

/-- A word is read as what it holds. -/
theorem reader_word (w : Word) (rest : List UInt8) :
    reader (littleEndian 8 w.toNat ++ rest)
      = ((decode w).mapError .code).map fun i => (i, rest) := by
  have hlt : w.toNat < 256 ^ 8 := w.toNat_lt
  rw [reader, Reader.andThen, takes_readNat hlt]
  simp only [UInt64.ofNat_toNat]
  cases decode w <;> rfl

end Instruction

namespace Function

/-- The lengths in a function can be counted in eight bytes, as those of any function that
fits a memory can. -/
structure Storable (f : Function) : Prop where
  tableSize_lt : ∀ t : Table, f.tableSize t < 256 ^ 8
  byteSize_lt : ∀ s ∈ f.strs, s.toByteArray.size < 256 ^ 8

theorem steady_reader : reader.Steady := by
  have hcount := (steady_readNat 2).map UInt16.ofNat
  have hint := (steady_readNat 4).map fun n => (UInt32.ofNat n).toInt32
  refine hcount.andThen fun args => hcount.andThen fun upvalues => ?_
  refine (steady_readSequence hint).andThen fun ints => ?_
  refine (steady_readSequence steady_readString).andThen fun strs => ?_
  exact (steady_readSequence Instruction.steady_reader).map _

variable {f : Function} {bytes rest : List UInt8}

/-! ## Any words for instructions -/

/-- The bytes of a function with any words in the place of its instructions. -/
def bytesWith (f : Function) (words : List Word) : List UInt8 :=
  writeUInt16 f.args ++ writeUInt16 f.upvalues
    ++ writeSequence writeInt32 f.ints
    ++ writeSequence writeString f.strs
    ++ writeSequence (fun w : Word => littleEndian 8 w.toNat) words.toArray

theorem toBytes_eq_bytesWith (f : Function) : f.toBytes = f.bytesWith f.words := by
  have hcode : writeSequence Instruction.toBytes f.code
      = writeSequence (fun w : Word => littleEndian 8 w.toNat) f.words.toArray := by
    simp only [writeSequence, words, List.flatMap_map, List.size_toArray, List.length_map,
      Array.length_toList]
    rfl
  rw [toBytes, bytesWith, hcode]

theorem readMany_words (words : List Word) (done : Array Instruction) (rest : List UInt8) :
    readMany Instruction.reader words.length done
        (words.flatMap (fun w => littleEndian 8 w.toNat) ++ rest)
      = ((Word.decodeAll words).mapError .code).map fun is => (done ++ is.toArray, rest) := by
  induction words generalizing done with
  | nil =>
      have hnil : Word.decodeAll [] = .ok [] := rfl
      rw [hnil]
      exact congrArg (fun values => Except.ok (values, rest)) (Array.append_empty).symm
  | cons w words ih =>
      rw [List.length_cons, List.flatMap_cons, List.append_assoc, readMany,
        Instruction.reader_word, Word.decodeAll, List.mapM_cons, ← Word.decodeAll]
      cases Instruction.decode w with
      | error e => rfl
      | ok i =>
          refine (ih (done.push i)).trans ?_
          cases Word.decodeAll words with
          | error e => rfl
          | ok is =>
              have hdone : done.push i ++ is.toArray = done ++ (i :: is).toArray := by simp
              exact congrArg (fun values => Except.ok (values, rest)) hdone

/-- The words in the place of the instructions are read as a stream is. -/
theorem reader_bytesWith (h : f.Storable) {words : List Word} (hwords : words.length < 256 ^ 8)
    (rest : List UInt8) : reader (f.bytesWith words ++ rest)
      = ((Word.decodeAll words).mapError .code).map fun is =>
          ({ f with code := is.toArray }, rest) := by
  have hints := takes_readSequence (h.tableSize_lt .ints) fun n _ => takes_readInt32 n
  have hstrs := takes_readSequence (h.tableSize_lt .strs) fun s hs =>
    takes_readString (h.byteSize_lt s hs)
  have hcode : readSequence Instruction.reader
      (writeSequence (fun w : Word => littleEndian 8 w.toNat) words.toArray ++ rest)
      = ((Word.decodeAll words).mapError .code).map fun is => (is.toArray, rest) := by
    rw [readSequence, Reader.andThen, writeSequence, List.append_assoc, List.size_toArray,
      takes_readNat hwords]
    simpa using readMany_words words #[] rest
  simp only [reader, Reader.andThen, Reader.map, bytesWith, List.append_assoc,
    takes_readUInt16 _ _, hints _, hstrs _, hcode]
  cases Word.decodeAll words <;> rfl

/-! ## The words of its instructions -/

/-- With its own words in the place of its instructions a function is read as it
was written. -/
theorem takes_reader (h : f.Storable) : reader.Takes f.toBytes f := by
  intro rest
  have hwords : f.words.length < 256 ^ 8 := by
    rw [words, List.length_map, Array.length_toList]
    exact h.tableSize_lt .code
  have hdecode : Word.decodeAll f.words = .ok f.code.toList := Word.decodeAll_eq_ok_iff.mpr rfl
  rw [toBytes_eq_bytesWith, reader_bytesWith h hwords, hdecode]
  rfl

/-- A function is read exactly off its own bytes. -/
theorem reader_eq_ok_iff :
    reader bytes = .ok (f, rest) ↔ f.Storable ∧ bytes = f.toBytes ++ rest := by
  constructor
  · intro h
    obtain ⟨args, bytes₁, hargs, h⟩ := Reader.andThen_eq_ok_iff.mp h
    obtain ⟨upvalues, bytes₂, hupvalues, h⟩ := Reader.andThen_eq_ok_iff.mp h
    obtain ⟨ints, bytes₃, hints, h⟩ := Reader.andThen_eq_ok_iff.mp h
    obtain ⟨strs, bytes₄, hstrs, h⟩ := Reader.andThen_eq_ok_iff.mp h
    obtain ⟨code, hcode, rfl⟩ := Reader.map_eq_ok_iff.mp h
    obtain ⟨_, rfl⟩ := exact_readUInt16 _ _ _ hargs
    obtain ⟨_, rfl⟩ := exact_readUInt16 _ _ _ hupvalues
    obtain ⟨⟨hintsSize, _⟩, rfl⟩ := exact_readSequence exact_readInt32 _ _ _ hints
    obtain ⟨⟨hstrsSize, hbyteSize⟩, rfl⟩ := exact_readSequence exact_readString _ _ _ hstrs
    obtain ⟨⟨hcodeSize, _⟩, rfl⟩ := exact_readSequence Instruction.exact_reader _ _ _ hcode
    refine ⟨⟨fun t => ?_, hbyteSize⟩, by simp only [toBytes, List.append_assoc]⟩
    cases t with
    | ints => exact hintsSize
    | strs => exact hstrsSize
    | code => exact hcodeSize
  · rintro ⟨h, rfl⟩
    exact takes_reader h rest

/-! ## The byte form as a whole -/

/-- Functions and their bytes are in one-to-one correspondence.  A function is
read, with anything after it handed on, exactly off the bytes that are written
of it, and its instructions have the operands that their opcodes take and zero
in every other slot of their words; whatever words stand in the place of the
instructions, they are read as a stream of words is; and each proper part of the
bytes has too few of them. -/
theorem reader_exact :
    (∀ (f : Function) (bytes rest : List UInt8),
        reader bytes = .ok (f, rest) ↔ f.Storable ∧ bytes = f.toBytes ++ rest)
      ∧ (∀ (f : Function) (bytes rest : List UInt8), reader bytes = .ok (f, rest) →
          ∀ i ∈ f.code, i.operands.length = i.opcode.arity
            ∧ i.encode.slots = i.operands ++ List.replicate (3 - i.opcode.arity) 0)
      ∧ (∀ (f : Function) (words : List Word) (rest : List UInt8), f.Storable →
          words.length < 256 ^ 8 → reader (f.bytesWith words ++ rest)
            = ((Word.decodeAll words).mapError .code).map fun is =>
                ({ f with code := is.toArray }, rest))
      ∧ ∀ (f : Function) (part : List UInt8), f.Storable → part <+: f.toBytes →
          part ≠ f.toBytes → reader part = .error .unexpectedEnd := by
  refine ⟨fun f bytes rest => reader_eq_ok_iff, fun f bytes rest _ i _ => ?_,
    fun f words rest h hwords => reader_bytesWith h hwords rest, fun f part h hpart hne => ?_⟩
  · exact ⟨i.length_operands, i.slots_encode⟩
  · exact steady_reader.eq_unexpectedEnd (takes_reader h) hpart hne

/-- A function with a string of two bytes, a part of its bytes that ends within
that string, and a word without an opcode in the place of its jump. -/
theorem reader_exact_cut :
    let f : Function := ⟨1, 2, #[-5], #["é"], #[⟨.jump, [0], rfl⟩]⟩
    f.Storable ∧ reader (f.toBytes ++ [7]) = .ok (f, [7])
      ∧ reader (f.toBytes.take 33) = .error .unexpectedEnd
      ∧ reader (f.bytesWith [0xff] ++ [7]) = .error (.code (.unknownOpcode 0xff)) := by
  intro f
  have hstorable : f.Storable := by
    refine ⟨fun t => by cases t <;> decide, fun s hs => ?_⟩
    obtain rfl : s = "é" := by simpa [f] using hs
    decide
  obtain ⟨hread, _, hwords, hpart⟩ := reader_exact
  refine ⟨hstorable, (hread f _ _).mpr ⟨hstorable, rfl⟩, ?_, ?_⟩
  · exact hpart f _ hstorable (List.take_prefix _ _) (by decide)
  · exact (hwords f [0xff] [7] hstorable (by decide)).trans (by rfl)

end Function

end Wordcode
