import TreeSelect.Text.Blank
import TreeSelect.Text.Hexadecimal

/-! Quoted values: matching quotes are taken off and escapes resolved. -/

namespace TreeSelect.Text

/-- Where the reader of a quoted value stands. -/
inductive EscapeState where
  | outside
  /-- Behind a backslash. -/
  | begun
  /-- Behind `count` hexadecimal digits of the number `code`. -/
  | digits (count code : Nat)
  deriving DecidableEq, Repr

/-- The letter with a code point; the replacement character stands for zero, surrogates and
numbers that are too large. -/
def letterOfCode (code : Nat) : Char :=
  if code = 0 then '\uFFFD' else (scalar? code).getD '\uFFFD'

/-- An escaped line end disappears. Up to six hexadecimal digits, which one blank may follow, are a
code point. Any other escaped letter stands for itself. -/
def unescape : EscapeState → List Char → List Char
  | .outside, [] => []
  | .begun, [] => ['\\']
  | .digits _ code, [] => [letterOfCode code]
  | .outside, letter :: rest =>
      if letter = '\\' then unescape .begun rest else letter :: unescape .outside rest
  | .begun, '\r' :: '\n' :: rest => unescape .outside rest
  | .begun, letter :: rest =>
      if letter = '\n' ∨ letter = '\r' then unescape .outside rest
      else match hexDigit? letter with
        | some digit => unescape (.digits 1 digit) rest
        | none => letter :: unescape .outside rest
  | .digits count code, letter :: rest =>
      match hexDigit? letter with
      | some digit =>
          if count < 6 then unescape (.digits (count + 1) (16 * code + digit)) rest
          else letterOfCode code :: letter :: unescape .outside rest
      | none =>
          letterOfCode code ::
            (if isBlank letter then unescape .outside rest
            else if letter = '\\' then unescape .begun rest
            else letter :: unescape .outside rest)

/-- A text that does not begin and end with the same quote is left as it is. -/
def unquote : List Char → List Char
  | [] => []
  | quote :: rest =>
      if (quote = '"' ∨ quote = '\'') ∧ rest.getLast? = some quote then
        unescape .outside rest.dropLast
      else quote :: rest

end TreeSelect.Text
