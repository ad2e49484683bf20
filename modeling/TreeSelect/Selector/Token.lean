import TreeSelect.Selector
import TreeSelect.Text.Blank

/-! The tokens that combinators and comparisons are written with. -/

namespace TreeSelect

namespace Combinator

def token : Combinator → String
  | descendant => " "
  | child => ">"
  | nextSibling => "+"
  | laterSibling => "~"

def ofToken? (text : String) : Option Combinator :=
  [descendant, child, nextSibling, laterSibling].find? (·.token = text)

/-- Any run of blank letters means a descendant. -/
def ofText? (text : List Char) : Option Combinator :=
  if !text.isEmpty && text.all Text.isBlank then some descendant
  else ofToken? (String.ofList text)

theorem ofToken?_token (combinator : Combinator) :
    ofToken? combinator.token = some combinator := by
  cases combinator <;> decide

end Combinator

namespace Comparison

def token : Comparison → String
  | equals => "="
  | includes => "~="
  | dashMatch => "|="
  | startsWith => "^="
  | endsWith => "$="
  | contains => "*="
  | lacks => "!="

def ofToken? (text : String) : Option Comparison :=
  [equals, includes, dashMatch, startsWith, endsWith, contains, lacks].find? (·.token = text)

theorem ofToken?_token (comparison : Comparison) :
    ofToken? comparison.token = some comparison := by
  cases comparison <;> decide

end Comparison
end TreeSelect
