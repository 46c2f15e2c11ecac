/-
# Tokens of a listing

A listing is read line by line, and a line is a sequence of tokens.  Numbers
are those of 64-bit signed arithmetic; a longer literal is no token.
-/
import Wordcode.Text.Quoted

namespace Wordcode

/-- A token of a listing. -/
inductive Token where
  /-- A mnemonic, or the name of a label where it is defined. -/
  | identifier (name : String)
  /-- `@name`: the instruction that a label names. -/
  | labelRef (name : String)
  /-- A number in base ten. -/
  | number (value : Int)
  /-- A number in base sixteen. -/
  | hex (value : Int)
  /-- A string, without its quotes and with its escapes resolved. -/
  | str (value : String)
  /-- `.name`: a declaration. -/
  | directive (name : String)
  | comma
  | colon
deriving DecidableEq

namespace Token

/-- The token as messages show it. -/
def text : Token → String
  | .identifier name => "Identifier(" ++ Text.quoted name ++ ")"
  | .labelRef name => "LabelRef(" ++ Text.quoted name ++ ")"
  | .number value => "Number(" ++ String.ofList (Text.signed value) ++ ")"
  | .hex value => "Hex(" ++ String.ofList (Text.signed value) ++ ")"
  | .str value => "Str(" ++ Text.quoted value ++ ")"
  | .directive name => "Directive(" ++ Text.quoted name ++ ")"
  | .comma => "Comma"
  | .colon => "Colon"

/-- The value of a numeric token, in either base. -/
def numeral? : Token → Option Int
  | .number value | .hex value => some value
  | _ => none

end Token

end Wordcode
