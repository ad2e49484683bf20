import TreeSelect.Proofs.Derivation.Spelling

/-! The patterns of the rules of the selector grammar. -/

namespace TreeSelect.Derivation
open TreeSelect.Text Pattern

namespace Rules

def blanks : Pattern := .repeated (.oneOf ⟨false, [.blank]⟩) .star

def name : Pattern :=
  .capture Rule.identifier (sequenceOf
    [.repeated (.char '-') .optional, .oneOf nameStart, .repeated (.oneOf nameLetter) .star])

def quotedItem (mark : Char) : Pattern :=
  choiceOf [.oneOf (quotedLetter mark), sequenceOf [.char '\\', .char '\r', .char '\n'],
    sequenceOf [.char '\\', .anyChar]]

def quotedBy (mark : Char) : Pattern :=
  sequenceOf [.char mark, .repeated (quotedItem mark) .star, .char mark]

def quoted : Pattern := .capture Rule.quotedString (choiceOf [quotedBy '"', quotedBy '\''])

def value : Pattern := .capture Rule.attributeValue (choiceOf [name, quoted])

/-- `[~^$*|!]` -/
def operatorLetter : CharClass :=
  ⟨false, [.range '~' '~', .range '^' '^', .range '$' '$', .range '*' '*', .range '|' '|',
    .range '!' '!']⟩

def operator : Pattern :=
  .capture Rule.comparisonOp
    (sequenceOf [.repeated (.oneOf operatorLetter) .optional, .char '='])

def test : Pattern := sequenceOf [blanks, operator, blanks, value]

def brackets : Pattern :=
  .capture Rule.attributeSelector
    (sequenceOf [.char '[', blanks, name, .repeated test .optional, blanks, .char ']'])

def argument : Pattern := choiceOf [quoted, .oneOf argumentLetter]

def arguments : Pattern :=
  .capture Rule.pseudoArgs (sequenceOf [.char '(', .repeated argument .star, .char ')'])

def condition : Pattern :=
  .capture Rule.simpleSelector (choiceOf
    [brackets, .capture Rule.idSelector (sequenceOf [.char '#', name]),
      .capture Rule.pseudoSelector
        (sequenceOf [.char ':', name, .repeated arguments .optional])])

def head : Pattern :=
  choiceOf [.capture Rule.typeSelector name, .capture Rule.universalSelector (.char '*')]

def sequence : Pattern :=
  .capture Rule.simpleSelectorSeq (choiceOf
    [sequenceOf [head, .repeated condition .star], .repeated condition .plus])

def joint : Pattern :=
  .capture Rule.combinatorSeq (sequenceOf
    [blanks, .capture Rule.combinator (.oneOf combinatorLetter), blanks, sequence])

def element : Pattern :=
  .capture Rule.pseudoElement (sequenceOf [.char ':', .char ':', name])

def selector : Pattern :=
  .capture Rule.selector
    (sequenceOf [sequence, .repeated joint .star, .repeated element .optional])

def alternative : Pattern := sequenceOf [blanks, .char ',', blanks, selector]

def group : Pattern :=
  sequenceOf [.atStart, blanks, selector, .repeated alternative .star, blanks, .atEnd]

end Rules

end TreeSelect.Derivation
