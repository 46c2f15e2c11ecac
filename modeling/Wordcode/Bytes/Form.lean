/-
# Byte forms of the domain's types

A function is written field by field in the order of its declaration.  An
instruction is its word, so bytes that break the rules of words are refused and
no instruction with a wrong number of operands can be read.  The lengths of the
tables are not limited: a function read from bytes may be larger than a builder
would make it.
-/
import Wordcode.Bytes.Reader
import Wordcode.Function

namespace Wordcode

open Bytes

/-! ## Functions -/

namespace Instruction

/-- Reads an instruction. -/
def reader : Reader Instruction :=
  (readNat 8).andThen fun n bytes =>
    match decode (UInt64.ofNat n) with
    | .ok i => .ok (i, bytes)
    | .error e => .error (.code e)

/-- The bytes of an instruction. -/
def toBytes (i : Instruction) : List UInt8 := littleEndian 8 i.encode.toNat

end Instruction

namespace Function

/-- Reads a function. -/
def reader : Reader Function :=
  readUInt16.andThen fun args =>
  readUInt16.andThen fun upvalues =>
  (readSequence readInt32).andThen fun ints =>
  (readSequence readString).andThen fun strs =>
  (readSequence Instruction.reader).map fun code => ⟨args, upvalues, ints, strs, code⟩

/-- The bytes of a function. -/
def toBytes (f : Function) : List UInt8 :=
  writeUInt16 f.args ++ writeUInt16 f.upvalues
    ++ writeSequence writeInt32 f.ints
    ++ writeSequence writeString f.strs
    ++ writeSequence Instruction.toBytes f.code

end Function

/-! ## Roles

A role with a parameter is its variant and then the parameter.  The two kinds
of jump are variants of their own. -/

namespace Role

/-- Reads a role. -/
def reader : Reader Role :=
  (readIndex 7).andThen fun
    | 0 => fun bytes => .ok (.branch .unconditional, bytes)
    | 1 => fun bytes => .ok (.branch .conditional, bytes)
    | 2 => (readVariant Marker.all).map .marker
    | 3 => fun bytes => .ok (.value, bytes)
    | 4 => fun bytes => .ok (.mutator, bytes)
    | 5 => fun bytes => .ok (.terminal, bytes)
    | 6 => fun bytes => .ok (.effect, bytes)

/-- The bytes of a role. -/
def toBytes : Role → List UInt8
  | .branch .unconditional => littleEndian 4 0
  | .branch .conditional => littleEndian 4 1
  | .marker kind => littleEndian 4 2 ++ writeVariant Marker.all kind
  | .value => littleEndian 4 3
  | .mutator => littleEndian 4 4
  | .terminal => littleEndian 4 5
  | .effect => littleEndian 4 6

end Role

/-! ## Numbers of operands

The number of operands of an opcode is written as an enumeration of the four
possible numbers. -/

namespace Opcode

/-- The possible numbers of operands. -/
def arities : List Nat := List.range 4

/-- Reads a number of operands. -/
def arityReader : Reader Nat := readVariant arities

/-- The bytes of a number of operands. -/
def arityToBytes (count : Nat) : List UInt8 := writeVariant arities count

end Opcode

end Wordcode
