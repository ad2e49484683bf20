import TreeSelect.Text.Hexadecimal
import TreeSelect.Text.Visible

namespace TreeSelect.Text

/-- A letter as it stands inside a double-quoted literal: short escapes for NUL, tab, line feed,
carriage return, the double quote and the backslash, and a code point in braces for every other
letter that does not show itself. -/
def literalLetter (letter : Char) : List Char :=
  match letter with
  | '\x00' => ['\\', '0']
  | '\t' => ['\\', 't']
  | '\n' => ['\\', 'n']
  | '\r' => ['\\', 'r']
  | '"' => ['\\', '"']
  | '\\' => ['\\', '\\']
  | _ =>
      if isVisible letter then [letter]
      else ['\\', 'u', '\x7b'] ++ hexadecimal letter.toNat ++ ['\x7d']

/-- A text between double quotes. -/
def literal (text : List Char) : List Char :=
  '"' :: text.flatMap literalLetter ++ ['"']

end TreeSelect.Text
