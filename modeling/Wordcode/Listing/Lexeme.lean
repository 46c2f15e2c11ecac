/-
# Lexemes — how a text is cut into tokens

`Lexeme.scan` cuts a text from the left.  Blanks and comments separate lexemes
and are dropped; at any other place the longest token that the text begins with
is a lexeme.  Where no token begins there, the lexeme is one character, or for
a string that does not end, its opening quote with all that could belong to it.
A literal that has the shape of a token but no value (a number beyond 64 bits,
a string with a bad escape) is a lexeme without a token as well, so scanning
never stops early and never drops a character that matters.

Positions are counted in bytes, as editors count them.
-/
import Wordcode.Listing.Token
import Wordcode.Text.Layout

namespace Wordcode

/-! ## Characters -/

namespace Lexeme

/-- Blanks separate tokens. -/
def isBlank (c : Char) : Bool := c == ' ' || c == '\t' || c == '\r'

/-- A comment runs from one of these to the end of the line. -/
def startsComment (c : Char) : Bool := c == ';' || c == '#'

/-- Names start with an ASCII letter or an underscore. -/
def startsName (c : Char) : Bool := c.isAlpha || c == '_'

/-- Names go on with ASCII letters, digits and underscores. -/
def continuesName (c : Char) : Bool := c.isAlphanum || c == '_'

/-! ## Values of literals -/

/-- The token of a number in base ten, given its sign and its digits. -/
def number? (negative : Bool) (digits : List Char) : Option Token :=
  let size : Int := Text.ofDigits 10 digits
  let value := if negative then -size else size
  if Text.fitsInt64 value then some (.number value) else none

/-- The token of a number in base sixteen, given its digits. -/
def hex? (digits : List Char) : Option Token :=
  let value : Int := Text.ofDigits 16 digits
  if Text.fitsInt64 value then some (.hex value) else none

/-- The token of a string, given what stands between its quotes. -/
def str? (body : List Char) : Option Token :=
  (Text.unescape body).map fun cs => .str (String.ofList cs)

/-- The number of characters that belong to a string before its closing quote:
anything but a quote, a backslash and a newline, and any character but a
newline after a backslash. -/
def bodyLength : List Char → Nat
  | '\\' :: c :: rest => if c = '\n' then 0 else bodyLength rest + 2
  | c :: rest => if c = '"' || c = '\\' || c = '\n' then 0 else bodyLength rest + 1
  | [] => 0

/-! ## One lexeme -/

/-- What a lexeme is, apart from its first character: how many more characters
belong to it, and the token it is, if it is one. -/
structure Cut where
  more : Nat
  token? : Option Token

/-- A lexeme of one character that is no token. -/
def Cut.stray : Cut := ⟨0, none⟩

/-- Cuts a name that starts with `c`. -/
def cutName (c : Char) (rest : List Char) (token : String → Token) : Cut :=
  let tail := rest.takeWhile continuesName
  ⟨tail.length, some (token (String.ofList (c :: tail)))⟩

/-- Cuts a name after the sign that marks what it names. -/
def cutMarkedName (rest : List Char) (token : String → Token) : Cut :=
  match rest with
  | [] => .stray
  | c :: rest' =>
    if startsName c then
      let name := cutName c rest' token
      ⟨name.more + 1, name.token?⟩
    else .stray

/-- Cuts a number that starts with the digit `c`. -/
def cutDecimal (negative : Bool) (c : Char) (rest : List Char) : Cut :=
  let tail := rest.takeWhile Char.isDigit
  ⟨tail.length, number? negative (c :: tail)⟩

/-- Cuts a number that starts with the digit `c`, in base sixteen if it starts
with `0x` and a digit of that base. -/
def cutNumber (c : Char) (rest : List Char) : Cut :=
  match rest with
  | 'x' :: rest' =>
    let digits := rest'.takeWhile Char.isHexDigit
    if c = '0' && !digits.isEmpty then ⟨digits.length + 1, hex? digits⟩
    else cutDecimal false c rest
  | _ => cutDecimal false c rest

/-- Cuts a number after a minus sign. -/
def cutNegative (rest : List Char) : Cut :=
  match rest with
  | [] => .stray
  | c :: rest' =>
    if c.isDigit then
      let number := cutDecimal true c rest'
      ⟨number.more + 1, number.token?⟩
    else .stray

/-- Cuts a string after its opening quote. -/
def cutString (rest : List Char) : Cut :=
  let length := bodyLength rest
  if (rest.drop length).head? = some '"' then ⟨length + 1, str? (rest.take length)⟩
  else ⟨length, none⟩

/-- Cuts the lexeme that starts with `c`. -/
def cut (c : Char) (rest : List Char) : Cut :=
  if startsName c then cutName c rest .identifier
  else if c = '@' then cutMarkedName rest .labelRef
  else if c = '.' then cutMarkedName rest .directive
  else if c.isDigit then cutNumber c rest
  else if c = '-' then cutNegative rest
  else if c = '"' then cutString rest
  else if c = ',' then ⟨0, some .comma⟩
  else if c = ':' then ⟨0, some .colon⟩
  else .stray

end Lexeme

/-! ## All lexemes -/

/-- A piece of a text. -/
structure Lexeme where
  /-- The number of bytes before it. -/
  start : Nat
  /-- Its characters. -/
  text : List Char
  /-- The token it is, if it is one. -/
  token? : Option Token
deriving DecidableEq

namespace Lexeme

/-- The number of bytes up to its end. -/
def stop (l : Lexeme) : Nat := l.start + Text.byteLength l.text

/-- The column of a lexeme, counted in bytes from one. -/
def column (l : Lexeme) : Nat := l.start + 1

/-- The lexemes of a text that has `start` bytes before it. -/
def scan (start : Nat) (cs : List Char) : List Lexeme :=
  match cs with
  | [] => []
  | c :: rest =>
    if isBlank c then scan (start + 1) rest
    else if startsComment c then
      scan (start + 1 + Text.byteLength (rest.takeWhile (· ≠ '\n'))) (rest.dropWhile (· ≠ '\n'))
    else
      let next := cut c rest
      let text := c :: rest.take next.more
      ⟨start, text, next.token?⟩ :: scan (start + Text.byteLength text) (rest.drop next.more)
termination_by cs.length
decreasing_by
  · exact Nat.lt_succ_self _
  · exact Nat.lt_succ_of_le (List.dropWhile_sublist _).length_le
  · exact Nat.lt_succ_of_le (by rw [List.length_drop]; exact Nat.sub_le _ _)

end Lexeme

end Wordcode
