import TreeSelect.Grammar.Error
import TreeSelect.Pattern
import TreeSelect.Text.Hexadecimal
import TreeSelect.Text.Slice

/-! Pattern text: literal letters, `.`, `^`, `$`, escapes, classes in brackets, groups, `|`, and the
quantifiers `*`, `+`, `?`. Groups opened with `(?<name>` or `(?P<name>` capture; plain ones and
those opened with `(?:` only group. Braces are ordinary letters. -/

namespace TreeSelect.Pattern
open TreeSelect.Text

/-- A fault, with what is left of the text from the place it is reported for. -/
structure Rejection where
  fault : PatternFault
  remaining : List Char
  deriving DecidableEq, Repr

/-- A reader of a value returns it with the rest of the text. -/
abbrev Reading := Except Rejection

def expect (letter : Char) : List Char → Reading (List Char)
  | [] => .error ⟨.expected letter, []⟩
  | found :: rest =>
      if found = letter then .ok rest else .error ⟨.expected letter, found :: rest⟩

/-- The letter written between the braces of a code point escape: hexadecimal digits, which one
plus sign may precede. -/
def codePoint? (digits : List Char) : Option Char :=
  match digits with
  | '+' :: unsigned => (hexNumber? unsigned).bind scalar?
  | _ => (hexNumber? digits).bind scalar?

/-- The letter that an escape stands for. `start` is the text from the backslash on, `selector`
the letter behind it and `after` the text behind that. -/
def escapedLetter (start : List Char) (selector : Char) (after : List Char) :
    Reading (Char × List Char) :=
  match selector with
  | 't' => .ok ('\t', after)
  | 'r' => .ok ('\r', after)
  | 'n' => .ok ('\n', after)
  | 'u' => do
      let body ← expect '\x7b' after
      let rest ← expect '\x7d' (body.dropWhile (· ≠ '\x7d'))
      match codePoint? (body.takeWhile (· ≠ '\x7d')) with
      | some letter => .ok (letter, rest)
      | none => .error ⟨.invalidCodePoint, start⟩
  | _ =>
      if selector.isAlphanum then .error ⟨.unknownEscape selector, start⟩
      else .ok (selector, after)

/-- A letter of a class, plain or escaped. -/
def classLetter : List Char → Reading (Char × List Char)
  | [] => .error ⟨.unterminatedClass, []⟩
  | ['\\'] => .error ⟨.danglingEscape, ['\\']⟩
  | '\\' :: selector :: after => escapedLetter ('\\' :: selector :: after) selector after
  | letter :: after => .ok (letter, after)

/-- The item that a letter begins: a range if a dash follows it and is neither the last letter of the
text nor the last of the class. -/
def itemFrom (first : Char) (after : List Char) : Reading (ClassItem × List Char) :=
  match after with
  | '-' :: next :: rest =>
      if next = ']' then .ok (.range first first, after)
      else do
        let (last, behind) ← classLetter (next :: rest)
        if last < first then .error ⟨.rangeOutOfOrder, next :: rest⟩
        else .ok (.range first last, behind)
  | _ => .ok (.range first first, after)

def classItem : List Char → Reading (ClassItem × List Char)
  | '\\' :: 's' :: after => .ok (.blank, after)
  | '\\' :: 'd' :: after => .ok (.digit, after)
  | '\\' :: 'w' :: after => .ok (.word, after)
  | text => do
      let (first, after) ← classLetter text
      itemFrom first after

/-- The items up to the closing bracket. The bracket stands for itself in the first place. Each
item takes a letter off the text, so `fuel` need not exceed its length. -/
def classItems : (fuel : Nat) → (atFirst : Bool) → List Char →
    Reading (List ClassItem × List Char)
  | 0, _, _ => .error ⟨.unterminatedClass, []⟩
  | _ + 1, _, [] => .error ⟨.unterminatedClass, []⟩
  | fuel + 1, atFirst, letter :: rest =>
      if letter = ']' ∧ atFirst = false then .ok ([], rest)
      else do
        let (item, after) ← classItem (letter :: rest)
        let (items, behind) ← classItems fuel false after
        .ok (item :: items, behind)

/-- The class whose opening bracket stood before the text. -/
def classBody (text : List Char) : Reading (CharClass × List Char) := do
  let (negated, body) := match text with
    | '^' :: rest => (true, rest)
    | _ => (false, text)
  let (items, after) ← classItems (body.length + 1) true body
  .ok (⟨negated, items⟩, after)

def isNameLetter (letter : Char) : Bool := letter.isAlphanum || letter = '_'

/-- The name of a group up to its closing angle bracket. -/
def groupName (text : List Char) : Reading (String × List Char) :=
  match text.dropWhile isNameLetter with
  | [] => .error ⟨.expected '>', []⟩
  | '>' :: after =>
      if (text.takeWhile isNameLetter).isEmpty then .error ⟨.emptyName, text⟩
      else .ok (String.ofList (text.takeWhile isNameLetter), after)
  | other => .error ⟨.invalidNameCharacter, other⟩

/-- What follows an opening parenthesis: the name of a capturing group, or nothing. -/
def groupHeader : List Char → Reading (Option String × List Char)
  | '?' :: ':' :: after => .ok (none, after)
  | '?' :: 'P' :: after => do
      let (name, body) ← groupName (← expect '<' after)
      .ok (some name, body)
  | '?' :: after => do
      let (name, body) ← groupName (← expect '<' after)
      .ok (some name, body)
  | text => .ok (none, text)

/-- The pattern of an escape outside a class; the backslash stood before the text. -/
def escape : List Char → Reading (Pattern × List Char)
  | [] => .error ⟨.danglingEscape, ['\\']⟩
  | 's' :: after => .ok (.oneOf ⟨false, [.blank]⟩, after)
  | 'S' :: after => .ok (.oneOf ⟨true, [.blank]⟩, after)
  | 'd' :: after => .ok (.oneOf ⟨false, [.digit]⟩, after)
  | 'D' :: after => .ok (.oneOf ⟨true, [.digit]⟩, after)
  | 'w' :: after => .ok (.oneOf ⟨false, [.word]⟩, after)
  | 'W' :: after => .ok (.oneOf ⟨true, [.word]⟩, after)
  | selector :: after => do
      let (letter, rest) ← escapedLetter ('\\' :: selector :: after) selector after
      .ok (.char letter, rest)

/-- A group that is still open: its name, the alternatives it already has and the items of the
current one, both latest first. -/
structure Level where
  name : Option String
  alternatives : List Pattern
  items : List Pattern

namespace Level

def opened (name : Option String) : Level := ⟨name, [], []⟩

def push (level : Level) (item : Pattern) : Level := { level with items := item :: level.items }

def alternate (level : Level) : Level :=
  { level with alternatives := sequenceOf level.items.reverse :: level.alternatives, items := [] }

/-- The alternatives of the level, the current one last. -/
def content (level : Level) : Pattern :=
  choiceOf (sequenceOf level.items.reverse :: level.alternatives).reverse

def closed (level : Level) : Pattern :=
  match level.name with
  | some name => .capture name level.content
  | none => level.content

end Level

def quantifier? : Char → Option Quantifier
  | '*' => some .star
  | '+' => some .plus
  | '?' => some .optional
  | _ => none

/-- Reads one item after another into the innermost open group. A quantifier applies to the item
before it. Each round takes a letter off the text, so `fuel` need not exceed its length. -/
def readFrom : (fuel : Nat) → Level → List Level → List Char → Reading Pattern
  | _, level, [], [] => .ok level.closed
  | _, _, _ :: _, [] => .error ⟨.expected ')', []⟩
  | 0, _, _, text => .error ⟨.unmatchedParenthesis, text⟩
  | fuel + 1, level, outer, letter :: rest =>
      match letter with
      | '(' => do
          let (name, body) ← groupHeader rest
          readFrom fuel (.opened name) (level :: outer) body
      | ')' =>
          match outer with
          | [] => .error ⟨.unmatchedParenthesis, letter :: rest⟩
          | enclosing :: further => readFrom fuel (enclosing.push level.closed) further rest
      | '|' => readFrom fuel level.alternate outer rest
      | '[' => do
          let (set, after) ← classBody rest
          readFrom fuel (level.push (.oneOf set)) outer after
      | '.' => readFrom fuel (level.push .anyChar) outer rest
      | '^' => readFrom fuel (level.push .atStart) outer rest
      | '$' => readFrom fuel (level.push .atEnd) outer rest
      | '\\' => do
          let (item, after) ← escape rest
          readFrom fuel (level.push item) outer after
      | _ =>
          match quantifier? letter, level.items with
          | none, _ => readFrom fuel (level.push (.char letter)) outer rest
          | some _, [] => .error ⟨.nothingToRepeat, letter :: rest⟩
          | some quantifier, item :: items =>
              readFrom fuel { level with items := .repeated item quantifier :: items } outer rest

/-- Reads a whole text as one pattern. Faults are reported at byte offsets of the text. -/
def parse (text : List Char) : Except GrammarError Pattern :=
  match readFrom text.length (.opened none) [] text with
  | .ok pattern => .ok pattern
  | .error rejection =>
      .error (.pattern (width text - width rejection.remaining) rejection.fault)

end TreeSelect.Pattern
