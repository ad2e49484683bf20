import TreeSelect.Selector
import TreeSelect.Text.Blank

namespace TreeSelect.Comparison
open TreeSelect.Text

/-- The literal begins at some letter of the text, or at its end. -/
def occurs (literal : List Char) : List Char → Bool
  | [] => literal.isEmpty
  | letter :: rest => literal.isPrefixOf (letter :: rest) || occurs literal rest

def holds (comparison : Comparison) (value literal : List Char) : Bool :=
  match comparison with
  | equals => value == literal
  | includes => !literal.isEmpty && (words value).contains literal
  | dashMatch => value == literal || (literal ++ ['-']).isPrefixOf value
  | startsWith => literal.isPrefixOf value
  | endsWith => literal.isSuffixOf value
  | contains => occurs literal value
  | lacks => !occurs literal value

end TreeSelect.Comparison
