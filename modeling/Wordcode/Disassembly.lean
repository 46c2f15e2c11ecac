/-
# Disassembly — from functions to listings

A listing of a function is text that assembles to the function again: the
declared counts and both pools are directives, operands stay numbers, and each
instruction is followed by a comment with its index and a note on what its
operands refer to.  Whatever a note says, it stands in a comment.

A stream of words is listed the same way, without declarations; a word that
holds no instruction takes a line of comment, so it hides nothing after it.
-/
import Wordcode.Function
import Wordcode.Text.Escape
import Wordcode.Text.Layout

namespace Wordcode

/-- The line that opens every listing. -/
def listingTitle : String := "; SCRAP IR Disassembly"

/-- Where the comment after an instruction starts. -/
def commentColumn : Nat := 24

/-- How wide the entries of a pool are written. -/
def poolWidth : Nat := 18

/-- The text that consists of the given lines. -/
def joinLines (lines : List String) : String := String.join (lines.map (· ++ "\n"))

/-- An instruction, filled up to where its comment starts, with its index. -/
def Instruction.listed (i : Instruction) (index : Nat) : String :=
  Text.padRight commentColumn ("    " ++ i.text) ++ "; " ++ Text.decimal 4 index

/-! ## Functions -/

namespace Function

/-- What an operand refers to, if it refers to anything that the function
holds. -/
def note? (f : Function) : OperandKind × Operand → Option String
  | (.intConst, index) =>
    match f.ints[index.toNat]? with
    | some value => some (String.ofList (Text.signed value.toInt))
    | none => some s!"int #{index.toNat} out of range"
  | (.strConst, index) =>
    match f.strs[index.toNat]? with
    | some value => some (Text.literal value)
    | none => some s!"str #{index.toNat} out of range"
  | (.target, index) =>
    match f.code[index.toNat]? with
    | some i => some s!"-> {i.opcode.mnemonic}"
    | none => some s!"-> #{index.toNat} out of range"
  | (.value, _) | (.typeConst, _) | (.literal, _) => none

/-- What the operands of an instruction refer to. -/
def annotate (f : Function) (i : Instruction) : Option String :=
  match i.typedOperands.filterMap f.note? with
  | [] => none
  | notes => some (", ".intercalate notes)

/-- The line of an integer constant. -/
def intLine (value : Int32) (index : Nat) : String :=
  ".int " ++ Text.padRight poolWidth (String.ofList (Text.signed value.toInt)) ++ s!"; #{index}"

/-- The line of a string constant. -/
def strLine (value : String) (index : Nat) : String :=
  ".str " ++ Text.padRight poolWidth (Text.literal value) ++ s!"; #{index}"

/-- The line of an instruction. -/
def codeLine (f : Function) (i : Instruction) (index : Nat) : String :=
  match f.annotate i with
  | none => i.listed index
  | some note => i.listed index ++ "  " ++ note

/-- The listing of a function, line by line. -/
def listingLines (f : Function) : List String :=
  [listingTitle,
    s!"; {f.code.size} instructions, {f.ints.size} int constants, {f.strs.size} str constants",
    "",
    s!".args {f.args.toNat}",
    s!".upvalues {f.upvalues.toNat}"]
  ++ f.ints.toList.zipIdx.map (fun (value, index) => intLine value index)
  ++ f.strs.toList.zipIdx.map (fun (value, index) => strLine value index)
  ++ [""]
  ++ f.code.toList.zipIdx.map (fun (i, index) => f.codeLine i index)

/-- The listing of a function. -/
def disassemble (f : Function) : String := joinLines f.listingLines

end Function

/-! ## Words -/

/-- Why a word holds no instruction. -/
inductive WordError where
  | invalidEncoding (w : Word)
  | unknownOpcode (code : UInt8)
deriving DecidableEq

namespace WordError

/-- The error of decoding a word. -/
def ofCodeError (w : Word) : CodeError → WordError
  | .unknownOpcode code => .unknownOpcode code
  | _ => .invalidEncoding w

/-- The error as it is reported. -/
def message : WordError → String
  | .invalidEncoding w => "Invalid instruction encoding: 0x" ++ Text.hexCapital 16 w.toNat
  | .unknownOpcode code => "Unknown opcode: 0x" ++ Text.hexCapital 2 code.toNat

end WordError

namespace Word

/-- The instruction that a word holds. -/
def read (w : Word) : Except WordError Instruction :=
  match Instruction.decode w with
  | .ok i => .ok i
  | .error e => .error (.ofCodeError w e)

/-- The line of a word. -/
def listed (w : Word) (index : Nat) : String :=
  match w.read with
  | .ok i => i.listed index ++ "  " ++ Text.hexCapital 16 w.toNat
  | .error e =>
    "; ERROR: " ++ Text.decimal 4 index ++ "  " ++ Text.hexCapital 16 w.toNat ++ "  " ++ e.message

/-- The listing of a stream of words. -/
def disassembleAll (words : List Word) : String :=
  joinLines ([listingTitle, s!"; {words.length} instructions", ""]
    ++ words.zipIdx.map fun (w, index) => w.listed index)

end Word

end Wordcode
