/-
# Escapes in string literals

What stands between the quotes of a string literal.  Writing uses `\t`, `\r`,
`\n`, `\'`, `\"` and `\\`, leaves the other characters from the blank to the
tilde as they are, and gives every other character by its code point in
`\u{…}`, so the written form is ASCII on one line.  Reading accepts more: `\0`
as well, and any code point in `\u{…}` with any number of leading zeros and
one leading `+`.  Every other use of the backslash is refused.
-/
import Wordcode.Text.Numeral

namespace Wordcode.Text

/-! ## Writing -/

/-- A character given by its code point. -/
def codePointEscape (c : Char) : List Char :=
  ['\\', 'u', '{'] ++ Nat.toDigits 16 c.toNat ++ ['}']

/-- How a string literal writes one character. -/
def escapeChar (c : Char) : List Char :=
  if c = '\t' then ['\\', 't']
  else if c = '\r' then ['\\', 'r']
  else if c = '\n' then ['\\', 'n']
  else if c = '\'' || c = '"' || c = '\\' then ['\\', c]
  else if ' ' ≤ c ∧ c ≤ '~' then [c]
  else codePointEscape c

/-- The body of the string literal for a text. -/
def escape (cs : List Char) : List Char := cs.flatMap escapeChar

/-- The string literal for a text. -/
def literal (s : String) : String := "\"" ++ String.ofList (escape s.toList) ++ "\""

/-! ## Reading -/

/-- The character with the code point that hexadecimal digits denote. -/
def ofCodePoint? (digits : List Char) : Option Char :=
  let n := ofDigits 16 digits
  if !digits.isEmpty && digits.all Char.isHexDigit && n.isValidChar then some (Char.ofNat n)
  else none

/-- The code point between braces, where one leading `+` is allowed. -/
def readCodePoint (cs : List Char) : Option (Char × List Char) :=
  match cs.dropWhile (· ≠ '}') with
  | [] => none
  | _ :: rest =>
    let digits := match cs.takeWhile (· ≠ '}') with
      | '+' :: digits => digits
      | digits => digits
    (ofCodePoint? digits).map (·, rest)

/-- Reads one escape from what follows its backslash: the character it stands
for and the text after it. -/
def readEscape : List Char → Option (Char × List Char)
  | 'n' :: rest => some ('\n', rest)
  | 't' :: rest => some ('\t', rest)
  | 'r' :: rest => some ('\r', rest)
  | '0' :: rest => some ('\x00', rest)
  | '\\' :: rest => some ('\\', rest)
  | '"' :: rest => some ('"', rest)
  | '\'' :: rest => some ('\'', rest)
  | 'u' :: '{' :: rest => readCodePoint rest
  | _ => none

theorem length_readCodePoint {cs rest : List Char} {c : Char}
    (h : readCodePoint cs = some (c, rest)) : rest.length < cs.length := by
  unfold readCodePoint at h
  have hle := (List.dropWhile_sublist (l := cs) (· ≠ '}')).length_le
  split at h
  · cases h
  · next hd _ heq =>
      obtain ⟨_, _, hpair⟩ := Option.map_eq_some_iff.mp h
      rw [heq, List.length_cons] at hle
      obtain ⟨_, rfl⟩ := Prod.mk.inj hpair
      exact hle

/-- Reading an escape leaves less text than there was. -/
theorem length_readEscape {cs rest : List Char} {c : Char}
    (h : readEscape cs = some (c, rest)) : rest.length < cs.length := by
  unfold readEscape at h
  split at h
  case h_8 =>
      have := length_readCodePoint h
      simp only [List.length_cons]
      omega
  case h_9 => cases h
  all_goals
      obtain ⟨_, rfl⟩ := Prod.mk.inj (Option.some.inj h)
      exact Nat.lt_succ_self _

/-- The text that the body of a string literal stands for. -/
def unescape (body : List Char) : Option (List Char) :=
  match body with
  | [] => some []
  | c :: rest =>
    if c = '\\' then
      match h : readEscape rest with
      | none => none
      | some (d, rest') =>
        have : rest'.length < rest.length + 1 := Nat.lt_succ_of_lt (length_readEscape h)
        (unescape rest').map (d :: ·)
    else (unescape rest).map (c :: ·)
termination_by body.length

end Wordcode.Text
