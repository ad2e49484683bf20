import TreeSelect.Selector.Token
import TreeSelect.Text.Literal

/-! Selectors written back as text, with one space around a combinator other than the descendant
one, which is a space itself. -/

namespace TreeSelect
open TreeSelect.Text

def SimpleSelector.print : SimpleSelector → List Char
  | .type tag => tag.toList
  | .universal => ['*']
  | .id name => '#' :: name.toList
  | .attribute name none => '[' :: name.toList ++ [']']
  | .attribute name (some (comparison, value)) =>
      '[' :: name.toList ++ comparison.token.toList ++ literal value.toList ++ [']']
  | .pseudo name none => ':' :: name.toList
  | .pseudo name (some arguments) => ':' :: name.toList ++ '(' :: arguments.toList ++ [')']

def printCompound (compound : Compound) : List Char := compound.flatMap SimpleSelector.print

/-- What stands between two compounds. A combinator that is missing is taken for a descendant. -/
def Combinator.print : Option Combinator → List Char
  | none | some descendant => [' ']
  | some combinator => ' ' :: combinator.token.toList ++ [' ']

/-- Each compound with the combinator in front of it. -/
def printChain : List Compound → List Combinator → List Char
  | [], _ => []
  | compound :: compounds, combinators =>
      Combinator.print combinators.head? ++ printCompound compound ++
        printChain compounds combinators.tail

namespace ComplexSelector

def printCompounds (selector : ComplexSelector) : List Char :=
  match selector.compounds with
  | [] => []
  | first :: others => printCompound first ++ printChain others selector.combinators

def print (selector : ComplexSelector) : List Char :=
  selector.printCompounds ++
    match selector.pseudoElement with
    | some name => ':' :: ':' :: name.toList
    | none => []

end ComplexSelector
end TreeSelect
