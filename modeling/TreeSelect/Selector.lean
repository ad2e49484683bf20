/-! Selectors: conditions on the elements of a tree. A group offers alternatives; each is a chain
of compounds, the last of which describes the elements that are looked for. -/

namespace TreeSelect

/-- How an element stands to another one that is named before it. Siblings are counted among the
elements only. -/
inductive Combinator where
  | descendant
  | child
  | nextSibling
  | laterSibling
  deriving DecidableEq, Repr

/-- How the value of an attribute compares with a literal. A value includes its words. -/
inductive Comparison where
  | equals
  | includes
  /-- The value is the literal, or continues it with a dash. -/
  | dashMatch
  | startsWith
  | endsWith
  | contains
  | lacks
  deriving DecidableEq, Repr

inductive SimpleSelector where
  | type (tag : String)
  | universal
  | id (name : String)
  | attribute (name : String) (comparison : Option (Comparison × String))
  /-- A pseudo-class never filters. -/
  | pseudo (name : String) (arguments : Option String)
  deriving DecidableEq, Repr

/-- Conditions that all apply to one element, in the order of the text. -/
abbrev Compound := List SimpleSelector

/-- In a selector read from text there is one combinator between every two neighbouring
compounds. A pseudo-element never filters. -/
structure ComplexSelector where
  compounds : List Compound
  combinators : List Combinator
  pseudoElement : Option String
  deriving DecidableEq, Repr

structure SelectorGroup where
  alternatives : List ComplexSelector
  deriving DecidableEq, Repr

end TreeSelect
