import TreeSelect.Selector.Token
import TreeSelect.Text.Unquote
import TreeSelect.Pattern

/-! Derivations of the selector grammar, one type for each of its rules. A derivation knows the
text that it derives, every blank of it included, and the selectors that the text means. -/

namespace TreeSelect.Derivation
open TreeSelect.Text

theorem range_contains_iff (letter other : Char) :
    (ClassItem.range letter letter).contains other = true ↔ other = letter := by
  simp only [ClassItem.contains, Bool.and_eq_true, decide_eq_true_eq]
  constructor
  · rintro ⟨above, below⟩
    exact Char.le_antisymm below above
  · rintro rfl
    exact ⟨Char.le_refl _, Char.le_refl _⟩

/-- A run of letters that all satisfy one condition. -/
structure Run (admits : Char → Bool) where
  text : List Char
  admitted : ∀ letter ∈ text, admits letter = true

/-- `\s*` -/
abbrev Blanks := Run isBlank

/-- `[a-zA-Z_\u{A0}-\u{10FFFF}]` -/
def nameStart : CharClass :=
  ⟨false, [.range 'a' 'z', .range 'A' 'Z', .range '_' '_',
    .range '\u00A0' (Char.ofNat 0x10FFFF)]⟩

/-- `[a-zA-Z0-9_\-\u{A0}-\u{10FFFF}]` -/
def nameLetter : CharClass :=
  ⟨false, [.range 'a' 'z', .range 'A' 'Z', .range '0' '9', .range '_' '_', .range '-' '-',
    .range '\u00A0' (Char.ofNat 0x10FFFF)]⟩

/-- The rule `Identifier`: `-?` and a letter that starts a name, then letters of names. -/
structure Name where
  dash : Option Unit
  first : Char
  starts : nameStart.contains first = true
  more : Run nameLetter.contains

namespace Name

def text (name : Name) : List Char :=
  (if name.dash.isSome then ['-'] else []) ++ name.first :: name.more.text

def string (name : Name) : String := String.ofList name.text

end Name

/-- `[^\\"\r\n]`, and the same with the other quote. -/
def quotedLetter (mark : Char) : CharClass :=
  ⟨true, [.range '\\' '\\', .range mark mark, .range '\r' '\r', .range '\n' '\n']⟩

/-- What may stand between two quotes: `[^\\"\r\n]`, `\\\r\n` or `\\.` -/
inductive QuotedItem (mark : Char) where
  | plain (letter : Char) (ordinary : (quotedLetter mark).contains letter = true)
  | lineEnd
  | escaped (letter : Char)

def QuotedItem.text {mark : Char} : QuotedItem mark → List Char
  | .plain letter _ => [letter]
  | .lineEnd => ['\\', '\r', '\n']
  | .escaped letter => ['\\', letter]

/-- The rule `QuotedString`, with double or single quotes. -/
inductive Quoted where
  | double (items : List (QuotedItem '"'))
  | single (items : List (QuotedItem '\''))

def Quoted.text : Quoted → List Char
  | .double items => '"' :: items.flatMap QuotedItem.text ++ ['"']
  | .single items => '\'' :: items.flatMap QuotedItem.text ++ ['\'']

/-- The rule `AttributeValue`. -/
inductive Value where
  | name (word : Name)
  | quoted (string : Quoted)

namespace Value

def text : Value → List Char
  | .name word => word.text
  | .quoted string => string.text

/-- Without its quotes, and with its escapes resolved. -/
def literal (value : Value) : String := String.ofList (unquote value.text)

end Value

/-- The operator of an attribute selector with its value, and blanks before each. -/
structure AttributeTest where
  before : Blanks
  operator : Comparison
  between : Blanks
  value : Value

def AttributeTest.text (test : AttributeTest) : List Char :=
  test.before.text ++ (test.operator.token.toList ++ (test.between.text ++ test.value.text))

/-- The rule `AttributeSelector`. -/
structure Attribute where
  before : Blanks
  name : Name
  test : Option AttributeTest
  after : Blanks

def Attribute.text (brackets : Attribute) : List Char :=
  '[' :: (brackets.before.text ++ (brackets.name.text ++
    ((brackets.test.map AttributeTest.text).getD [] ++ (brackets.after.text ++ [']']))))

/-- `[^)'"]` -/
def argumentLetter : CharClass :=
  ⟨true, [.range ')' ')', .range '\'' '\'', .range '"' '"']⟩

inductive Argument where
  | quoted (string : Quoted)
  | plain (letter : Char) (ordinary : argumentLetter.contains letter = true)

def Argument.text : Argument → List Char
  | .quoted string => string.text
  | .plain letter _ => [letter]

/-- The rule `PseudoArgs`. -/
structure Arguments where
  items : List Argument

namespace Arguments

/-- What stands between the outer parentheses. -/
def inner (arguments : Arguments) : List Char := arguments.items.flatMap Argument.text

def text (arguments : Arguments) : List Char := '(' :: arguments.inner ++ [')']

end Arguments

/-- The rule `SimpleSelector`, with the rules for its three kinds. -/
inductive Condition where
  | attribute (brackets : Attribute)
  | id (name : Name)
  | pseudo (name : Name) (arguments : Option Arguments)

namespace Condition

def text : Condition → List Char
  | .attribute brackets => brackets.text
  | .id name => '#' :: name.text
  | .pseudo name arguments => ':' :: (name.text ++ (arguments.map Arguments.text).getD [])

def reading : Condition → SimpleSelector
  | .attribute brackets =>
      .attribute brackets.name.string
        (brackets.test.map fun test => (test.operator, test.value.literal))
  | .id name => .id name.string
  | .pseudo name arguments =>
      .pseudo name.string (arguments.map fun arguments => String.ofList arguments.inner)

end Condition

/-- The rules `TypeSelector` and `UniversalSelector`. -/
inductive Head where
  | type (name : Name)
  | universal

namespace Head

def text : Head → List Char
  | .type name => name.text
  | .universal => ['*']

def reading : Head → SimpleSelector
  | .type name => .type name.string
  | .universal => .universal

end Head

/-- The rule `SimpleSelectorSeq`. -/
inductive Sequence where
  | headed (head : Head) (conditions : List Condition)
  | bare (first : Condition) (more : List Condition)

namespace Sequence

def text : Sequence → List Char
  | .headed head conditions => head.text ++ conditions.flatMap Condition.text
  | .bare first more => first.text ++ more.flatMap Condition.text

def reading : Sequence → Compound
  | .headed head conditions => head.reading :: conditions.map Condition.reading
  | .bare first more => first.reading :: more.map Condition.reading

end Sequence

/-- `[\s>+~]` -/
def combinatorLetter : CharClass :=
  ⟨false, [.blank, .range '>' '>', .range '+' '+', .range '~' '~']⟩

/-- The rule `Combinator`. -/
structure Token where
  letter : Char
  valid : combinatorLetter.contains letter = true

/-- Any blank means a descendant. -/
def Token.reading (token : Token) : Combinator :=
  match token.letter with
  | '>' => .child
  | '+' => .nextSibling
  | '~' => .laterSibling
  | _ => .descendant

theorem Token.reading_of_blank {token : Token} (blank : isBlank token.letter = true) :
    token.reading = .descendant := by
  unfold Token.reading
  split
  next same => exact absurd (same ▸ blank) (by decide)
  next same => exact absurd (same ▸ blank) (by decide)
  next same => exact absurd (same ▸ blank) (by decide)
  next => rfl

/-- The rule `CombinatorSeq`. -/
structure Joint where
  before : Blanks
  token : Token
  after : Blanks
  sequence : Sequence

def Joint.text (joint : Joint) : List Char :=
  joint.before.text ++ (joint.token.letter :: (joint.after.text ++ joint.sequence.text))

/-- The rule `Selector`, with the rule `PseudoElement` at its end. -/
structure Selector where
  first : Sequence
  joints : List Joint
  pseudoElement : Option Name

namespace Selector

def text (selector : Selector) : List Char :=
  selector.first.text ++ (selector.joints.flatMap Joint.text ++
    (selector.pseudoElement.map fun name => ':' :: ':' :: name.text).getD [])

def reading (selector : Selector) : ComplexSelector where
  compounds := selector.first.reading :: selector.joints.map fun joint => joint.sequence.reading
  combinators := selector.joints.map fun joint => joint.token.reading
  pseudoElement := selector.pseudoElement.map Name.string

end Selector

/-- A selector behind a comma. -/
structure Alternative where
  before : Blanks
  after : Blanks
  selector : Selector

def Alternative.text (alternative : Alternative) : List Char :=
  alternative.before.text ++ (',' :: (alternative.after.text ++ alternative.selector.text))

/-- The rule `GroupOfSelectors`. -/
structure Group where
  before : Blanks
  first : Selector
  more : List Alternative
  after : Blanks

namespace Group

def text (group : Group) : List Char :=
  group.before.text ++ (group.first.text ++ (group.more.flatMap Alternative.text ++ group.after.text))

def reading (group : Group) : SelectorGroup where
  alternatives := group.first.reading :: group.more.map fun more => more.selector.reading

end Group

end TreeSelect.Derivation
