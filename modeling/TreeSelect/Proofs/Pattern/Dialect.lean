import TreeSelect.Grammar.RuleTable
import TreeSelect.Pattern.Reading

/-! The dialect that templates are written in, as a grammar: which texts are patterns, with
references to rules as one more kind of atom, and the tree that each of them stands for. -/

namespace TreeSelect

/-- The tree of a template: a pattern in which a reference keeps the place of the pattern that its
rule stands for. -/
inductive Template where
  | fixed (pattern : Pattern)
  | reference (rule : List Char)
  | sequence (items : List Template)
  | choice (alternatives : List Template)
  | repeated (inner : Template) (quantifier : Quantifier)
  | capture (name : String) (inner : Template)
  deriving Repr

namespace Template

/-- One template after another; a single one stands for itself. -/
def sequenceOf : List Template → Template
  | [] => fixed .empty
  | [item] => item
  | items => sequence items

/-- Earlier alternatives are preferred; a single one stands for itself. -/
def choiceOf : List Template → Template
  | [] => fixed .empty
  | [alternative] => alternative
  | alternatives => choice alternatives

/-- A group reports its extent if it has a name. -/
def grouped : Option String → Template → Template
  | some name, inner => capture name inner
  | none, inner => inner

mutual

/-- The pattern in which every reference is replaced by a capture, named after the rule, of the
tree of the rule. -/
def fill (trees : List Char → Pattern) : Template → Pattern
  | fixed pattern => pattern
  | reference rule => .capture (String.ofList rule) (trees rule)
  | sequence items => .sequence (fillAll trees items)
  | choice alternatives => .choice (fillAll trees alternatives)
  | repeated inner quantifier => .repeated (fill trees inner) quantifier
  | capture name inner => .capture name (fill trees inner)

def fillAll (trees : List Char → Pattern) : List Template → List Pattern
  | [] => []
  | first :: rest => fill trees first :: fillAll trees rest

end

theorem fillAll_eq_map (trees : List Char → Pattern) (templates : List Template) :
    fillAll trees templates = templates.map (fill trees) := by
  induction templates with
  | nil => rfl
  | cons first rest ih => rw [fillAll, ih, List.map_cons]

theorem fill_sequenceOf (trees : List Char → Pattern) :
    ∀ items : List Template,
      (sequenceOf items).fill trees = Pattern.sequenceOf (items.map (fill trees))
  | [] => rfl
  | [_] => rfl
  | first :: second :: rest =>
      congrArg Pattern.sequence (fillAll_eq_map trees (first :: second :: rest))

theorem fill_choiceOf (trees : List Char → Pattern) :
    ∀ alternatives : List Template,
      (choiceOf alternatives).fill trees = Pattern.choiceOf (alternatives.map (fill trees))
  | [] => rfl
  | [_] => rfl
  | preferred :: other :: further =>
      congrArg Pattern.choice (fillAll_eq_map trees (preferred :: other :: further))

end Template

namespace Dialect

/-- The letters that stand for themselves outside classes. -/
def ordinary (letter : Char) : Bool :=
  letter ∉ ['(', ')', '[', '.', '^', '$', '\\', '|', '*', '+', '?']

/-- What may follow a backslash, and the letter meant by it. -/
inductive EscapedLetter : List Char → Char → Prop
  | tab : EscapedLetter ['t'] '\t'
  | carriageReturn : EscapedLetter ['r'] '\r'
  | newline : EscapedLetter ['n'] '\n'
  | codePoint {digits : List Char} {letter : Char} (inside : '\x7d' ∉ digits)
      (value : Pattern.codePoint? digits = some letter) :
      EscapedLetter ('u' :: '\x7b' :: digits ++ ['\x7d']) letter
  | itself {letter : Char} (other : letter.isAlphanum = false) : EscapedLetter [letter] letter

/-- The classes that have a letter of their own inside brackets. -/
def namedItem? : Char → Option ClassItem
  | 's' => some .blank
  | 'd' => some .digit
  | 'w' => some .word
  | _ => none

/-- The classes that have a letter of their own outside brackets; the capital one negates. -/
def namedClass? : Char → Option CharClass
  | 's' => some ⟨false, [.blank]⟩
  | 'S' => some ⟨true, [.blank]⟩
  | 'd' => some ⟨false, [.digit]⟩
  | 'D' => some ⟨true, [.digit]⟩
  | 'w' => some ⟨false, [.word]⟩
  | 'W' => some ⟨true, [.word]⟩
  | _ => none

/-- A single letter of a class. -/
inductive ClassLetter : List Char → Char → Prop
  | plain {letter : Char} (unescaped : letter ≠ '\\') : ClassLetter [letter] letter
  | escaped {text : List Char} {letter : Char} (meant : EscapedLetter text letter) :
      ClassLetter ('\\' :: text) letter

/-- Whether the letter in front of the text begins a range: a dash follows it, and something other
than the closing bracket follows the dash. -/
def beginsRange : List Char → Bool
  | '-' :: next :: _ => next ≠ ']'
  | _ => false

/-- The items of a class with its closing bracket. A bracket in the first place stands for
itself. -/
inductive ClassItems : (atFirst : Bool) → List Char → List ClassItem → Prop
  | close : ClassItems false [']'] []
  | named {atFirst : Bool} {letter : Char} {item : ClassItem} {text : List Char}
      {items : List ClassItem} (known : namedItem? letter = some item)
      (rest : ClassItems false text items) :
      ClassItems atFirst ('\\' :: letter :: text) (item :: items)
  | single {atFirst : Bool} {written text : List Char} {letter : Char} {items : List ClassItem}
      (meant : ClassLetter written letter) (inside : atFirst = true ∨ written ≠ [']'])
      (alone : beginsRange text = false) (rest : ClassItems false text items) :
      ClassItems atFirst (written ++ text) (.range letter letter :: items)
  | range {atFirst : Bool} {low high text : List Char} {first last : Char}
      {items : List ClassItem} (lower : ClassLetter low first)
      (inside : atFirst = true ∨ low ≠ [']']) (upper : ClassLetter high last)
      (further : high ≠ [']']) (ordered : first ≤ last) (rest : ClassItems false text items) :
      ClassItems atFirst (low ++ '-' :: (high ++ text)) (.range first last :: items)

/-- What follows the opening bracket of a class. -/
inductive ClassText : List Char → CharClass → Prop
  | positive {text : List Char} {items : List ClassItem} (unmarked : text.head? ≠ some '^')
      (inside : ClassItems true text items) : ClassText text ⟨false, items⟩
  | negated {text : List Char} {items : List ClassItem} (inside : ClassItems true text items) :
      ClassText ('^' :: text) ⟨true, items⟩

/-- What follows a backslash outside brackets. -/
inductive Escape : List Char → Pattern → Prop
  | named {letter : Char} {set : CharClass} (known : namedClass? letter = some set) :
      Escape [letter] (.oneOf set)
  | letter {text : List Char} {letter : Char} (meant : EscapedLetter text letter) :
      Escape text (.char letter)

/-- Names of groups: ASCII letters, digits and underscores, at least one. -/
def isName (name : List Char) : Bool := !name.isEmpty && name.all Pattern.isNameLetter

/-- What follows the opening parenthesis of a group, and the name that the group reports. -/
inductive GroupHeader : List Char → Option String → Prop
  | bare : GroupHeader [] none
  | unnamed : GroupHeader ['?', ':'] none
  | named {name : List Char} (valid : isName name = true) :
      GroupHeader ('?' :: '<' :: name ++ ['>']) (some (String.ofList name))
  | marked {name : List Char} (valid : isName name = true) :
      GroupHeader ('?' :: 'P' :: '<' :: name ++ ['>']) (some (String.ofList name))

/-- What a stretch of a template stands for: one atom with its quantifiers, items one after
another, or alternatives. -/
inductive Phrase where
  | item (tree : Template)
  | sequence (items : List Template)
  | alternation (alternatives : List Template)

def letters (text : List Char) : List Piece := text.map .plain

inductive Derives : List Piece → Phrase → Prop
  | letter {letter : Char} (itself : ordinary letter = true) :
      Derives [.plain letter] (.item (.fixed (.char letter)))
  | anyChar : Derives [.plain '.'] (.item (.fixed .anyChar))
  | atStart : Derives [.plain '^'] (.item (.fixed .atStart))
  | atEnd : Derives [.plain '$'] (.item (.fixed .atEnd))
  | oneOf {text : List Char} {set : CharClass} (inside : ClassText text set) :
      Derives (.plain '[' :: letters text) (.item (.fixed (.oneOf set)))
  | escape {text : List Char} {pattern : Pattern} (meant : Escape text pattern) :
      Derives (.plain '\\' :: letters text) (.item (.fixed pattern))
  | reference (rule : List Char) : Derives [.reference rule] (.item (.reference rule))
  | group {header : List Char} {name : Option String} {body : List Piece}
      {alternatives : List Template} (opened : GroupHeader header name)
      (inner : Derives body (.alternation alternatives)) :
      Derives (.plain '(' :: (letters header ++ body ++ [.plain ')']))
        (.item (.grouped name (.choiceOf alternatives)))
  | repeated {text : List Piece} {tree : Template} {letter : Char} {quantifier : Quantifier}
      (inner : Derives text (.item tree))
      (meant : Pattern.quantifier? letter = some quantifier) :
      Derives (text ++ [.plain letter]) (.item (.repeated tree quantifier))
  | nothing : Derives [] (.sequence [])
  | item {text rest : List Piece} {tree : Template} {items : List Template}
      (first : Derives text (.item tree)) (further : Derives rest (.sequence items)) :
      Derives (text ++ rest) (.sequence (tree :: items))
  | only {text : List Piece} {items : List Template} (inner : Derives text (.sequence items)) :
      Derives text (.alternation [.sequenceOf items])
  | alternative {text rest : List Piece} {items alternatives : List Template}
      (first : Derives text (.sequence items))
      (further : Derives rest (.alternation alternatives)) :
      Derives (text ++ .plain '|' :: rest) (.alternation (.sequenceOf items :: alternatives))

end Dialect
end TreeSelect
