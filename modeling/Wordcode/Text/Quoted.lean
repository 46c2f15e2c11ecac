/-
# Quoted texts in messages

How a message shows a text it found.  This is not the string literal of a
listing: printable characters beyond ASCII and the single quote stay as they
are, and NUL is written `\0`.
-/
import Wordcode.Text.Escape
import Wordcode.Text.Printable

namespace Wordcode.Text

/-- How a quoted text writes one character. -/
def quoteChar (c : Char) : List Char :=
  if c = '\x00' then ['\\', '0']
  else if c = '\t' then ['\\', 't']
  else if c = '\r' then ['\\', 'r']
  else if c = '\n' then ['\\', 'n']
  else if c = '"' || c = '\\' then ['\\', c]
  else if isPrintable c then [c]
  else codePointEscape c

/-- A text between quotes, on one line. -/
def quoted (s : String) : String :=
  "\"" ++ String.ofList (s.toList.flatMap quoteChar) ++ "\""

end Wordcode.Text
