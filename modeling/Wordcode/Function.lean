/-
# Functions — the unit of compilation

A function declares how many arguments and captured values it takes and holds
two pools of constants and a stream of instructions.  Operands address pools
and stream with 16 bits, so entries past `capacity` could not be named; the
builder keeps every table within it, while a function read back from bytes is
taken as it is.
-/
import Wordcode.Word

namespace Wordcode

/-- The number of entries that 16-bit operands can address in one table. -/
def capacity : Nat := 65536

/-- A function: its declarations, its constants and its code. -/
structure Function where
  /-- The number of positional arguments. -/
  args : UInt16 := 0
  /-- The number of captured values. -/
  upvalues : UInt16 := 0
  /-- The integer pool. -/
  ints : Array Int32 := #[]
  /-- The string pool. -/
  strs : Array String := #[]
  /-- The instruction stream, in program order. -/
  code : Array Instruction := #[]
deriving DecidableEq

namespace Function

/-- The function that declares and holds nothing. -/
def empty : Function := {}

/-- The number of instructions. -/
def length (f : Function) : Nat := f.code.size

/-- The words of the instruction stream. -/
def words (f : Function) : List Word := f.code.toList.map Instruction.encode

/-- What a function holds, at a glance. -/
def summary (f : Function) : String :=
  "SCRAP Function\n"
    ++ s!"  Positional args: {f.args.toNat}\n"
    ++ s!"  Upvalues:        {f.upvalues.toNat}\n"
    ++ s!"  Int constants:   {f.ints.size}\n"
    ++ s!"  Str constants:   {f.strs.size}\n"
    ++ s!"  Instructions:    {f.code.size}\n"

end Function

end Wordcode
