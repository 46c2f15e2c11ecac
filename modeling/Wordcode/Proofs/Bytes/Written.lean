/-
# Written bytes — a reader takes what was written and nothing more

A reader `Takes` a value from bytes if it reads the value off their front and
hands on whatever follows them, so that takes can be put one after another
(`Takes.andThen`).  What the writers write is taken back: numbers that fit their
width, and sequences and strings that can be counted in eight bytes.
-/
import Mathlib.Algebra.Group.Nat.Defs
import Wordcode.Bytes.Form

namespace Wordcode

namespace Bytes

variable {α β : Type}

/-! ## One after another -/

/-- The reader reads the value off the bytes, whatever follows them. -/
def Reader.Takes (read : Reader α) (bytes : List UInt8) (a : α) : Prop :=
  ∀ rest, read (bytes ++ rest) = .ok (a, rest)

namespace Reader.Takes

variable {first : Reader α} {next : α → Reader β} {bytes bytes' : List UInt8} {a : α} {b : β}

theorem andThen (hfirst : first.Takes bytes a) (hnext : (next a).Takes bytes' b) :
    (first.andThen next).Takes (bytes ++ bytes') b := by
  intro rest
  rw [Reader.andThen, List.append_assoc, hfirst]
  exact hnext rest

theorem map (h : first.Takes bytes a) (f : α → β) : (first.map f).Takes bytes (f a) := by
  intro rest
  rw [Reader.map, h]

end Reader.Takes

/-! ## Numbers -/

theorem length_littleEndian (width n : Nat) : (littleEndian width n).length = width := by
  induction width generalizing n with
  | zero => rfl
  | succ width ih => rw [littleEndian, List.length_cons, ih]

theorem ofLittleEndian_littleEndian (width n : Nat) :
    ofLittleEndian (littleEndian width n) = n % 256 ^ width := by
  induction width generalizing n with
  | zero => rw [Nat.pow_zero, Nat.mod_one]; rfl
  | succ width ih =>
      have hcons : ofLittleEndian (littleEndian (width + 1) n)
          = n % 256 + 256 * ofLittleEndian (littleEndian width (n / 256)) := by
        rw [← UInt8.toNat_ofNat']
        rfl
      rw [hcons, ih, Nat.pow_succ', Nat.mod_mul]

theorem takes_readBytes (content : List UInt8) :
    (readBytes content.length).Takes content content := by
  intro rest
  simp only [readBytes, List.take_left, List.drop_left, Nat.lt_irrefl, if_false]

theorem takes_readNat {width n : Nat} (h : n < 256 ^ width) :
    (readNat width).Takes (littleEndian width n) n := by
  have hread := (takes_readBytes (littleEndian width n)).map ofLittleEndian
  rwa [length_littleEndian, ofLittleEndian_littleEndian, Nat.mod_eq_of_lt h] at hread

theorem takes_readUInt16 (n : UInt16) : readUInt16.Takes (writeUInt16 n) n := by
  have hlt : n.toNat < 256 ^ 2 := n.toNat_lt
  have hread := (takes_readNat hlt).map UInt16.ofNat
  rwa [UInt16.ofNat_toNat] at hread

theorem takes_readInt32 (n : Int32) : readInt32.Takes (writeInt32 n) n := by
  have hlt : n.toUInt32.toNat < 256 ^ 4 := n.toUInt32.toNat_lt
  have hread := (takes_readNat hlt).map fun n => (UInt32.ofNat n).toInt32
  rwa [UInt32.ofNat_toNat, Int32.toInt32_toUInt32] at hread

/-! ## Sequences and strings -/

theorem takes_readMany {read : Reader α} {write : α → List UInt8} {values : List α}
    (h : ∀ a ∈ values, read.Takes (write a) a) (done : Array α) :
    (readMany read values.length done).Takes (values.flatMap write) (done ++ values.toArray) := by
  intro rest
  induction values generalizing done with
  | nil => simp [readMany]
  | cons a values ih =>
      rw [List.forall_mem_cons] at h
      rw [List.length_cons, List.flatMap_cons, List.append_assoc, readMany, h.1]
      simp [ih h.2]

theorem takes_readSequence {read : Reader α} {write : α → List UInt8} {values : Array α}
    (hsize : values.size < 256 ^ 8) (h : ∀ a ∈ values, read.Takes (write a) a) :
    (readSequence read).Takes (writeSequence write values) values := by
  have hmany := takes_readMany (fun a ha => h a (Array.mem_toList_iff.mp ha)) #[]
  rw [Array.length_toList, Array.toArray_toList, Array.empty_append] at hmany
  exact (takes_readNat hsize).andThen hmany

theorem decodeUtf8_toByteArray (s : String) :
    decodeUtf8 s.toByteArray.data.toList = .ok s := by
  have hbytes : String.fromUTF8? s.toByteArray = some s := dif_pos s.isValidUTF8
  rw [decodeUtf8, Array.toArray_toList, hbytes]

theorem takes_readString {s : String} (hsize : s.toByteArray.size < 256 ^ 8) :
    readString.Takes (writeString s) s := by
  have hcontent : ((readNat 8).andThen readBytes).Takes (writeString s) s.toByteArray.data.toList :=
    (takes_readNat hsize).andThen (takes_readBytes s.toByteArray.data.toList)
  intro rest
  rw [readString, Reader.andThen, hcontent]
  simp only [decodeUtf8_toByteArray]

end Bytes

end Wordcode
