import TreeSelect.Json

/-! What a JSON text may look like, said without its reader. A value is a sequence of tokens, each
token is spelled by letters, and white space may stand in front of every token and at the end. -/

namespace TreeSelect.Json

/-- One or more digits. -/
def Digits (text : List Char) : Prop := text ≠ [] ∧ ∀ letter ∈ text, letter.isDigit = true

/-- A zero, or digits that do not begin with one. -/
def Whole (text : List Char) : Prop := text = ['0'] ∨ (Digits text ∧ text.head? ≠ some '0')

/-- Nothing, or a point with digits behind it. -/
def Fraction (text : List Char) : Prop := text = [] ∨ ∃ digits, text = '.' :: digits ∧ Digits digits

/-- Digits that may have a sign in front. -/
def Signed (text : List Char) : Prop :=
  Digits text ∨ ∃ sign digits, text = sign :: digits ∧ (sign = '+' ∨ sign = '-') ∧ Digits digits

/-- Nothing, or a power of ten. -/
def Exponent (text : List Char) : Prop :=
  text = [] ∨ ∃ mark power, text = mark :: power ∧ (mark = 'e' ∨ mark = 'E') ∧ Signed power

def Unsigned (text : List Char) : Prop :=
  ∃ whole fraction exponent, text = whole ++ fraction ++ exponent ∧ Whole whole ∧
    Fraction fraction ∧ Exponent exponent

def Number (text : List Char) : Prop :=
  Unsigned text ∨ ∃ unsigned, text = '-' :: unsigned ∧ Unsigned unsigned

/-- The letters between the quotes of a string. -/
inductive Body : List Mark → List Char → Prop
  | nothing : Body [] []
  | plain {letter : Char} {marks : List Mark} {text : List Char} (visible : 0x20 ≤ letter.toNat)
      (quote : letter ≠ '"') (backslash : letter ≠ '\\') (rest : Body marks text) :
      Body (.plain letter :: marks) (letter :: text)
  | short {selector letter : Char} {marks : List Mark} {text : List Char}
      (known : shortEscape? selector = some letter) (rest : Body marks text) :
      Body (.plain letter :: marks) ('\\' :: selector :: text)
  | unit {first second third fourth : Char} {code : Nat} {marks : List Mark} {text : List Char}
      (value : Text.hexNumber? [first, second, third, fourth] = some code) (rest : Body marks text) :
      Body (.unit code :: marks) ('\\' :: 'u' :: first :: second :: third :: fourth :: text)

/-- The letters of a token. -/
inductive Spelled : Token → List Char → Prop
  | openBrace : Spelled .openBrace ['\x7b']
  | closeBrace : Spelled .closeBrace ['\x7d']
  | openBracket : Spelled .openBracket ['[']
  | closeBracket : Spelled .closeBracket [']']
  | colon : Spelled .colon [':']
  | comma : Spelled .comma [',']
  | nullWord : Spelled (.scalar .null) ['n', 'u', 'l', 'l']
  | trueWord : Spelled (.scalar (.boolean true)) ['t', 'r', 'u', 'e']
  | falseWord : Spelled (.scalar (.boolean false)) ['f', 'a', 'l', 's', 'e']
  | number {text : List Char} (number : Number text) : Spelled (.scalar (.number text)) text
  | string {marks : List Mark} {text : List Char} (body : Body marks text) :
      Spelled (.string marks) ('"' :: (text ++ ['"']))

/-- The tokens in their order, with white space between them as it comes. -/
inductive Written : List Token → List Char → Prop
  | nothing : Written [] []
  | space {letter : Char} {tokens : List Token} {text : List Char} (white : isSpace letter = true)
      (rest : Written tokens text) : Written tokens (letter :: text)
  | token {token : Token} {tokens : List Token} {word text : List Char} (spelled : Spelled token word)
      (rest : Written tokens text) : Written (token :: tokens) (word ++ text)

mutual

/-- The tokens of a value. -/
def tokens : Json → List Token
  | .string marks => [.string marks]
  | .array items => .openBracket :: (elementTokens items ++ [.closeBracket])
  | .object members => .openBrace :: (memberTokens members ++ [.closeBrace])
  | .null => [.scalar .null]
  | .boolean value => [.scalar (.boolean value)]
  | .number text => [.scalar (.number text)]

/-- The values of an array with a comma between every two. -/
def elementTokens : List Json → List Token
  | [] => []
  | [value] => value.tokens
  | value :: next :: rest => value.tokens ++ .comma :: elementTokens (next :: rest)

/-- The members of an object with a comma between every two. -/
def memberTokens : List (List Mark × Json) → List Token
  | [] => []
  | [(name, value)] => .string name :: .colon :: value.tokens
  | (name, value) :: next :: rest =>
      .string name :: .colon :: (value.tokens ++ .comma :: memberTokens (next :: rest))

end

/-- The text is one way to write the value. -/
def Spells (value : Json) (text : List Char) : Prop := Written value.tokens text

end TreeSelect.Json
