/-
# Lines and columns

How a listing is cut into lines, and how a column is filled up.
-/
namespace Wordcode.Text

/-- A text filled up with blanks on the right to `width` characters.  A longer
text is kept whole. -/
def padRight (width : Nat) (s : String) : String :=
  String.ofList (s.toList.rightpad width ' ')

/-- A line without the carriage return that ends it. -/
def dropReturn (line : List Char) : List Char :=
  if line.getLast? = some '\r' then line.dropLast else line

/-- The lines of a text.  A line ends at a newline, together with one carriage
return right before it; what follows the last newline is a line only if it is
not empty, and it keeps its carriage returns. -/
def lines (text : List Char) : List (List Char) :=
  let pieces := text.splitOn '\n'
  pieces.dropLast.map dropReturn ++ pieces.getLast?.toList.filter (!·.isEmpty)

/-- The number of bytes that a text takes in UTF-8. -/
def byteLength (cs : List Char) : Nat := cs.foldl (fun n c => n + c.utf8Size) 0

end Wordcode.Text
