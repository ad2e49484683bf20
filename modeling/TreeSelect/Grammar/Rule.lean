/-! Names of the rules that selectors are read from. -/

namespace TreeSelect.Rule

/-- Alternatives separated by commas. -/
def groupOfSelectors : String := "GroupOfSelectors"
/-- One alternative. -/
def selector : String := "Selector"
/-- A combinator with the sequence to its right. -/
def combinatorSeq : String := "CombinatorSeq"
/-- Conditions on one node. -/
def simpleSelectorSeq : String := "SimpleSelectorSeq"
/-- A condition on attributes, or a pseudo-class. -/
def simpleSelector : String := "SimpleSelector"
def typeSelector : String := "TypeSelector"
def universalSelector : String := "UniversalSelector"
def attributeSelector : String := "AttributeSelector"
def idSelector : String := "IdSelector"
def pseudoSelector : String := "PseudoSelector"
def pseudoElement : String := "PseudoElement"
def pseudoArgs : String := "PseudoArgs"
def comparisonOp : String := "ComparisonOp"
def combinator : String := "Combinator"
def identifier : String := "Identifier"
def attributeValue : String := "AttributeValue"
def quotedString : String := "QuotedString"

end TreeSelect.Rule
