/-
# Readers — values from the front of a byte string

Numbers are little-endian with a fixed width.  A sequence is its length in
eight bytes and then its elements, a string its length in bytes and then its
UTF-8, and a value of an enumeration its place among the variants in four
bytes.  A reader takes bytes from the front, strictly in order, and hands on
the rest; a length is believed only as far as there are bytes, so an absurd one
ends in `unexpectedEnd` after the last byte.
-/
import Wordcode.Instruction

namespace Wordcode.Bytes

/-- Why bytes do not hold the value asked for. -/
inductive ReadError where
  /-- There are too few bytes. -/
  | unexpectedEnd
  /-- A string is not UTF-8. -/
  | invalidUtf8
  /-- A word holds no instruction. -/
  | code (e : CodeError)
  /-- An enumeration has no variant with this index. -/
  | noVariant (index count : Nat)
deriving DecidableEq

/-- What a value that does not fit is reported as; running out of bytes and bad
UTF-8 have no text of their own. -/
def ReadError.message? : ReadError → Option String
  | .unexpectedEnd | .invalidUtf8 => none
  | .code e => some e.message
  | .noVariant index count =>
    some s!"invalid value: integer `{index}`, expected variant index 0 <= i < {count}"

/-- Takes a value from the front of a byte string and hands on the rest. -/
abbrev Reader (α : Type) := List UInt8 → Except ReadError (α × List UInt8)

namespace Reader

/-- Reads one value and, depending on it, another. -/
def andThen {α β : Type} (first : Reader α) (next : α → Reader β) : Reader β := fun bytes =>
  match first bytes with
  | .ok (a, rest) => next a rest
  | .error e => .error e

/-- Reads a value and changes it. -/
def map {α β : Type} (f : α → β) (read : Reader α) : Reader β := fun bytes =>
  match read bytes with
  | .ok (a, rest) => .ok (f a, rest)
  | .error e => .error e

end Reader

/-! ## Numbers -/

/-- The number with the given little-endian bytes. -/
def ofLittleEndian (bytes : List UInt8) : Nat := bytes.foldr (fun b n => b.toNat + 256 * n) 0

/-- The lowest `width` little-endian bytes of a number. -/
def littleEndian : Nat → Nat → List UInt8
  | 0, _ => []
  | width + 1, n => UInt8.ofNat n :: littleEndian width (n / 256)

/-- Reads the next `count` bytes. -/
def readBytes (count : Nat) : Reader (List UInt8) := fun bytes =>
  let taken := bytes.take count
  if taken.length < count then .error .unexpectedEnd else .ok (taken, bytes.drop count)

/-- Reads a number of `width` bytes. -/
def readNat (width : Nat) : Reader Nat := (readBytes width).map ofLittleEndian

/-- Reads a 16-bit number. -/
def readUInt16 : Reader UInt16 := (readNat 2).map UInt16.ofNat

/-- The bytes of a 16-bit number. -/
def writeUInt16 (n : UInt16) : List UInt8 := littleEndian 2 n.toNat

/-- Reads a 32-bit number with a sign. -/
def readInt32 : Reader Int32 := (readNat 4).map fun n => (UInt32.ofNat n).toInt32

/-- The bytes of a 32-bit number with a sign. -/
def writeInt32 (n : Int32) : List UInt8 := littleEndian 4 n.toUInt32.toNat

/-! ## Sequences and strings -/

/-- Reads `count` values after those already read. -/
def readMany {α : Type} (read : Reader α) (count : Nat) (done : Array α) : Reader (Array α) :=
  fun bytes =>
    match count with
    | 0 => .ok (done, bytes)
    | count + 1 =>
      match read bytes with
      | .ok (a, rest) => readMany read count (done.push a) rest
      | .error e => .error e

/-- Reads a sequence. -/
def readSequence {α : Type} (read : Reader α) : Reader (Array α) :=
  (readNat 8).andThen fun count => readMany read count #[]

/-- The bytes of a sequence. -/
def writeSequence {α : Type} (write : α → List UInt8) (values : Array α) : List UInt8 :=
  littleEndian 8 values.size ++ values.toList.flatMap write

/-- The text that bytes hold in UTF-8. -/
def decodeUtf8 (bytes : List UInt8) : Except ReadError String :=
  match String.fromUTF8? ⟨bytes.toArray⟩ with
  | some s => .ok s
  | none => .error .invalidUtf8

/-- Reads a string. -/
def readString : Reader String :=
  ((readNat 8).andThen readBytes).andThen fun content bytes =>
    match decodeUtf8 content with
    | .ok s => .ok (s, bytes)
    | .error e => .error e

/-- The bytes of a string. -/
def writeString (s : String) : List UInt8 :=
  littleEndian 8 s.toByteArray.size ++ s.toByteArray.data.toList

/-! ## Enumerations -/

/-- Reads the place of a variant among `count` variants. -/
def readIndex (count : Nat) : Reader (Fin count) :=
  (readNat 4).andThen fun index bytes =>
    if h : index < count then .ok (⟨index, h⟩, bytes) else .error (.noVariant index count)

/-- Reads a value of an enumeration with the given variants. -/
def readVariant {α : Type} (variants : List α) : Reader α :=
  (readIndex variants.length).map variants.get

/-- The bytes of a value of an enumeration with the given variants. -/
def writeVariant {α : Type} [DecidableEq α] (variants : List α) (a : α) : List UInt8 :=
  littleEndian 4 (variants.idxOf a)

end Wordcode.Bytes
