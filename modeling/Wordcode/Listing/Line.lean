/-
# Lines of a listing

A line is an optional label definition (`name:`) followed by at most one
statement: a directive, or a mnemonic with its operands and a comma between
each two.  `Line.parse` reads a line.  It cuts the whole line into tokens
first, so a piece that is no token is reported before anything else; a
statement that goes wrong is reported at the first token that cannot stand
where it does.

An error does not know which line it is about; whoever reads a listing line by
line does.
-/
import Wordcode.Listing.Lexeme
import Wordcode.Instruction

namespace Wordcode

/-! ## What a line says -/

/-- An operand as a listing writes it. -/
inductive OperandExpr where
  /-- A number, whose range is checked when the instruction is built. -/
  | number (value : Int)
  /-- The instruction that a label names. -/
  | label (name : String)
deriving DecidableEq

/-- A declaration. -/
inductive Directive where
  /-- The number of positional arguments. -/
  | args (count : UInt16)
  /-- The number of captured values. -/
  | upvalues (count : UInt16)
  /-- The next integer constant. -/
  | int (value : Int32)
  /-- The next string constant. -/
  | str (value : String)
deriving DecidableEq

/-- An instruction whose operands are not resolved yet. -/
structure RawInstruction where
  opcode : Opcode
  operands : List OperandExpr
deriving DecidableEq

/-- What a line says after its label. -/
inductive Statement where
  | directive (d : Directive)
  | instruction (i : RawInstruction)
deriving DecidableEq

/-- A line of a listing. -/
structure Line where
  /-- The label it defines. -/
  label : Option String
  /-- What else it says. -/
  statement : Option Statement
deriving DecidableEq

/-! ## Errors -/

/-- What stands where it cannot stand. -/
inductive Misplaced where
  /-- Characters that are no token. -/
  | unexpectedInput (text : String)
  /-- A token that starts no statement. -/
  | expectedStatement (found : Token)
  /-- A token that is no operand. -/
  | expectedOperand (found : Token)
  /-- A token after an operand that is no comma. -/
  | expectedComma (found : Token)
  /-- A comma after the last operand. -/
  | trailingComma
  /-- Anything but one instruction, where one instruction is asked for. -/
  | expectedInstruction
deriving DecidableEq

/-- The fault as it is reported. -/
def Misplaced.message : Misplaced → String
  | .unexpectedInput text => "Unexpected input '" ++ text ++ "'"
  | .expectedStatement found => "Expected instruction or directive, found " ++ found.text
  | .expectedOperand found => "Expected operand, found " ++ found.text
  | .expectedComma found => "Expected ',', found " ++ found.text
  | .trailingComma => "Trailing ','"
  | .expectedInstruction => "Expected a single instruction"

/-- Why a directive is refused. -/
inductive DirectiveError where
  /-- A declared count does not fit 16 bits. -/
  | countOutOfRange (name : String) (value : Int)
  /-- An integer constant does not fit 32 bits with a sign. -/
  | intOutOfRange (value : Int)
  /-- The directive at this column takes one argument of another sort. -/
  | wrongArgument (name : String) (column : Nat)
  /-- There is no such directive. -/
  | unknown (name : String)
deriving DecidableEq

/-- The error as it is reported. -/
def DirectiveError.message : DirectiveError → String
  | .countOutOfRange name value =>
    "." ++ name ++ " count out of range: " ++ String.ofList (Text.signed value)
  | .intOutOfRange value => "integer constant out of range: " ++ String.ofList (Text.signed value)
  | .wrongArgument name column =>
    let sort := if name = "str" then "string" else "numeric"
    s!".{name} expects a single {sort} argument (column {column})"
  | .unknown name => "unknown directive ." ++ name

/-- Why a line is refused. -/
inductive LineError where
  /-- Something stands where it cannot stand. -/
  | malformed (column : Nat) (fault : Misplaced)
  /-- No opcode has this mnemonic. -/
  | unknownInstruction (mnemonic : String)
  /-- A directive is refused. -/
  | invalidDirective (e : DirectiveError)
deriving DecidableEq

/-! ## Tokens of a line -/

/-- A token and the column where it starts. -/
abbrev PlacedToken := Token × Nat

namespace Line

/-- The token that a lexeme is. -/
def placed (l : Lexeme) : Except LineError PlacedToken :=
  match l.token? with
  | some token => .ok (token, l.column)
  | none => .error (.malformed l.column (.unexpectedInput (String.ofList l.text)))

/-- The tokens of a line. -/
def tokens (text : List Char) : Except LineError (List PlacedToken) :=
  (Lexeme.scan 0 text).mapM placed

end Line

/-! ## Operands -/

/-- The operand that a token writes. -/
def OperandExpr.ofToken? : Token → Option OperandExpr
  | .number value | .hex value => some (.number value)
  | .labelRef name => some (.label name)
  | _ => none

/-- Reads operands with a comma between each two. -/
def OperandExpr.parseList : List PlacedToken → Except LineError (List OperandExpr)
  | [] => .ok []
  | (token, column) :: rest =>
    match ofToken? token with
    | none => .error (.malformed column (.expectedOperand token))
    | some operand =>
      match rest with
      | [] => .ok [operand]
      | (.comma, commaColumn) :: rest' =>
        if rest'.isEmpty then .error (.malformed commaColumn .trailingComma)
        else (parseList rest').map (operand :: ·)
      | (token', column') :: _ => .error (.malformed column' (.expectedComma token'))

/-! ## Directives -/

namespace Directive

/-- The one numeric argument of the directive `name` at `column`. -/
def numericArgument (name : String) (column : Nat) : List Token → Except DirectiveError Int
  | [token] =>
    match token.numeral? with
    | some value => .ok value
    | none => .error (.wrongArgument name column)
  | _ => .error (.wrongArgument name column)

/-- The one argument of the directive `name` at `column`, which declares a
count. -/
def countArgument (name : String) (column : Nat) (arguments : List Token) :
    Except DirectiveError UInt16 := do
  let value ← numericArgument name column arguments
  match Text.uint16? value with
  | some count => return count
  | none => throw (.countOutOfRange name value)

/-- The directive `name` at `column` with the given arguments. -/
def parse (name : String) (column : Nat) (arguments : List Token) :
    Except DirectiveError Directive :=
  if name = "args" then (countArgument name column arguments).map .args
  else if name = "upvalues" then (countArgument name column arguments).map .upvalues
  else if name = "int" then do
    let value ← numericArgument name column arguments
    match Text.int32? value with
    | some constant => return .int constant
    | none => throw (.intOutOfRange value)
  else if name = "str" then
    match arguments with
    | [.str value] => .ok (.str value)
    | _ => .error (.wrongArgument name column)
  else .error (.unknown name)

end Directive

/-! ## Lines -/

/-- Reads at most one statement. -/
def Statement.parse : List PlacedToken → Except LineError (Option Statement)
  | [] => .ok none
  | (.directive name, column) :: arguments =>
    match Directive.parse name column (arguments.map Prod.fst) with
    | .ok d => .ok (some (.directive d))
    | .error e => .error (.invalidDirective e)
  | (.identifier mnemonic, _) :: operands =>
    match Opcode.ofMnemonic? mnemonic with
    | none => .error (.unknownInstruction mnemonic)
    | some op => (OperandExpr.parseList operands).map fun es => some (.instruction ⟨op, es⟩)
  | (token, column) :: _ => .error (.malformed column (.expectedStatement token))

namespace Line

/-- Reads a line from its tokens. -/
def ofTokens : List PlacedToken → Except LineError Line
  | (.identifier name, _) :: (.colon, _) :: rest =>
    (Statement.parse rest).map fun statement => ⟨some name, statement⟩
  | rest => (Statement.parse rest).map fun statement => ⟨none, statement⟩

/-- Reads a line. -/
def parse (text : List Char) : Except LineError Line := tokens text >>= ofTokens

end Line

/-- Reads a line that is one instruction and nothing else. -/
def RawInstruction.parse (text : List Char) : Except LineError RawInstruction :=
  match Line.parse text with
  | .ok ⟨none, some (.instruction i)⟩ => .ok i
  | .ok _ => .error (.malformed 1 .expectedInstruction)
  | .error e => .error e

end Wordcode
