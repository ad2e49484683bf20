import TreeSelect.Text.Hexadecimal

/-! JSON values and their text. A string keeps the 16-bit units it was written with, since half of
a surrogate pair is harmless until the string is used. -/

namespace TreeSelect

namespace Json

/-- Part of a string: a letter, or a 16-bit unit written with four hexadecimal digits. -/
inductive Mark where
  | plain (letter : Char)
  | unit (code : Nat)
  deriving DecidableEq, Repr

end Json

inductive Json where
  | null
  | boolean (value : Bool)
  | number (text : List Char)
  | string (marks : List Json.Mark)
  | array (items : List Json)
  | object (members : List (List Json.Mark × Json))

namespace Json
open TreeSelect.Text

/-- The letters of a string. Every half of a surrogate pair needs its other half. -/
def Mark.decode : List Mark → Option (List Char)
  | [] => some []
  | .plain letter :: rest => (decode rest).map (letter :: ·)
  | .unit high :: .unit low :: rest =>
      if 0xD800 ≤ high ∧ high < 0xDC00 then
        if 0xDC00 ≤ low ∧ low < 0xE000 then do
          let letter ← scalar? (0x10000 + (high - 0xD800) * 0x400 + (low - 0xDC00))
          (decode rest).map (letter :: ·)
        else none
      else do
        let letter ← scalar? high
        (decode (.unit low :: rest)).map (letter :: ·)
  | .unit code :: rest => do
      let letter ← scalar? code
      (decode rest).map (letter :: ·)

inductive Token where
  | openBrace
  | closeBrace
  | openBracket
  | closeBracket
  | colon
  | comma
  | scalar (value : Json)
  | string (marks : List Mark)

def isSpace (letter : Char) : Bool :=
  letter = ' ' || letter = '\n' || letter = '\t' || letter = '\r'

/-- The letter that a short escape stands for. -/
def shortEscape? : Char → Option Char
  | '"' => some '"'
  | '\\' => some '\\'
  | '/' => some '/'
  | 'b' => some '\x08'
  | 'f' => some '\x0c'
  | 'n' => some '\n'
  | 'r' => some '\r'
  | 't' => some '\t'
  | _ => none

/-- A string up to its closing quote. Control characters must be escaped. -/
def stringBody : List Char → Option (List Mark × List Char)
  | [] => none
  | '\\' :: 'u' :: first :: second :: third :: fourth :: rest =>
      match hexNumber? [first, second, third, fourth] with
      | some code => (stringBody rest).map fun (marks, after) => (.unit code :: marks, after)
      | none => none
  | '\\' :: selector :: rest =>
      match shortEscape? selector with
      | some letter => (stringBody rest).map fun (marks, after) => (.plain letter :: marks, after)
      | none => none
  | letter :: rest =>
      if letter = '"' then some ([], rest)
      else if letter.toNat < 0x20 ∨ letter = '\\' then none
      else (stringBody rest).map fun (marks, after) => (.plain letter :: marks, after)

/-- One or more digits. -/
def digits? (text : List Char) : Option (List Char × List Char) :=
  let found := text.takeWhile Char.isDigit
  if found.isEmpty then none else some (found, text.dropWhile Char.isDigit)

/-- A zero, or digits that do not begin with one. -/
def integer? : List Char → Option (List Char × List Char)
  | '0' :: rest => some (['0'], rest)
  | text => digits? text

def fraction? : List Char → Option (List Char × List Char)
  | '.' :: rest => (digits? rest).map fun (digits, after) => ('.' :: digits, after)
  | text => some ([], text)

def signed? : List Char → Option (List Char × List Char)
  | '+' :: rest => (digits? rest).map fun (digits, after) => ('+' :: digits, after)
  | '-' :: rest => (digits? rest).map fun (digits, after) => ('-' :: digits, after)
  | text => digits? text

def exponent? : List Char → Option (List Char × List Char)
  | [] => some ([], [])
  | letter :: rest =>
      if letter = 'e' ∨ letter = 'E' then
        (signed? rest).map fun (digits, after) => (letter :: digits, after)
      else some ([], letter :: rest)

def unsigned? (text : List Char) : Option (List Char × List Char) := do
  let (whole, rest) ← integer? text
  let (part, rest) ← fraction? rest
  let (power, rest) ← exponent? rest
  some (whole ++ part ++ power, rest)

def number? : List Char → Option (List Char × List Char)
  | '-' :: rest => (unsigned? rest).map fun (digits, after) => ('-' :: digits, after)
  | text => unsigned? text

/-- A value that is one word, or a number. -/
def scalarToken? : List Char → Option (Json × List Char)
  | 'n' :: 'u' :: 'l' :: 'l' :: rest => some (.null, rest)
  | 't' :: 'r' :: 'u' :: 'e' :: rest => some (.boolean true, rest)
  | 'f' :: 'a' :: 'l' :: 's' :: 'e' :: rest => some (.boolean false, rest)
  | text => (number? text).map fun (digits, after) => (.number digits, after)

def punctuation? : Char → Option Token
  | '\x7b' => some .openBrace
  | '\x7d' => some .closeBrace
  | '[' => some .openBracket
  | ']' => some .closeBracket
  | ':' => some .colon
  | ',' => some .comma
  | _ => none

/-- The tokens of a text; space between them is dropped. Each takes a letter off the text, so
`fuel` need not exceed its length. -/
def tokens? : (fuel : Nat) → List Char → Option (List Token)
  | _, [] => some []
  | 0, _ :: _ => none
  | fuel + 1, letter :: rest =>
      if isSpace letter then tokens? fuel rest
      else match punctuation? letter with
        | some token => (tokens? fuel rest).map (token :: ·)
        | none =>
            if letter = '"' then do
              let (marks, after) ← stringBody rest
              let others ← tokens? fuel after
              some (.string marks :: others)
            else do
              let (value, after) ← scalarToken? (letter :: rest)
              let others ← tokens? fuel after
              some (.scalar value :: others)

mutual

/-- A value at the start of the tokens. Each call takes a token off, so `fuel` need not exceed
twice their number. -/
def value? : (fuel : Nat) → List Token → Option (Json × List Token)
  | 0, _ => none
  | _ + 1, .scalar value :: rest => some (value, rest)
  | _ + 1, .string marks :: rest => some (.string marks, rest)
  | _ + 1, .openBracket :: .closeBracket :: rest => some (.array [], rest)
  | fuel + 1, .openBracket :: rest => do
      let (items, after) ← elements? fuel rest
      some (.array items, after)
  | _ + 1, .openBrace :: .closeBrace :: rest => some (.object [], rest)
  | fuel + 1, .openBrace :: rest => do
      let (members, after) ← members? fuel rest
      some (.object members, after)
  | _ + 1, _ => none

/-- One or more values up to the closing bracket. -/
def elements? : (fuel : Nat) → List Token → Option (List Json × List Token)
  | 0, _ => none
  | fuel + 1, tokens => do
      let (value, after) ← value? fuel tokens
      match after with
      | .closeBracket :: rest => some ([value], rest)
      | .comma :: rest => do
          let (values, after) ← elements? fuel rest
          some (value :: values, after)
      | _ => none

/-- One or more named values up to the closing brace. -/
def members? : (fuel : Nat) → List Token → Option (List (List Mark × Json) × List Token)
  | fuel + 1, .string name :: .colon :: tokens => do
      let (value, after) ← value? fuel tokens
      match after with
      | .closeBrace :: rest => some ([(name, value)], rest)
      | .comma :: rest => do
          let (members, after) ← members? fuel rest
          some ((name, value) :: members, after)
      | _ => none
  | _, _ => none

end

/-- The value that a whole text stands for. -/
def parse? (text : List Char) : Option Json := do
  let tokens ← tokens? text.length text
  match ← value? (2 * tokens.length) tokens with
  | (value, []) => some value
  | (_, _ :: _) => none

/-- A letter inside a string. Only quotes, backslashes and control characters are escaped. -/
def writeLetter (letter : Char) : List Char :=
  match letter with
  | '"' => ['\\', '"']
  | '\\' => ['\\', '\\']
  | '\x08' => ['\\', 'b']
  | '\t' => ['\\', 't']
  | '\n' => ['\\', 'n']
  | '\x0c' => ['\\', 'f']
  | '\r' => ['\\', 'r']
  | _ =>
      if letter.toNat < 0x10 then '\\' :: 'u' :: '0' :: '0' :: '0' :: hexadecimal letter.toNat
      else if letter.toNat < 0x20 then '\\' :: 'u' :: '0' :: '0' :: hexadecimal letter.toNat
      else [letter]

def writeString (text : List Char) : List Char := '"' :: text.flatMap writeLetter ++ ['"']

end Json
end TreeSelect
