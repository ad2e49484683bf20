import TreeSelect.Grammar.RuleTable
import TreeSelect.Machine
import TreeSelect.Pattern.Reading
import TreeSelect.Selector.Error

/-! Rule tables compiled from a start rule, ready to be matched against texts. -/

namespace TreeSelect

structure Grammar where
  start : String
  /-- The expanded pattern text. -/
  source : List Char
  program : Program
  deriving DecidableEq

def RuleTable.compile (table : RuleTable) (start : String) : Except GrammarError Grammar := do
  let source ← table.expand start
  let pattern ← Pattern.parse source
  .ok ⟨start, source, pattern.compile⟩

/-- Matches the whole text and collects every capture on the way. -/
def Grammar.matchAll (grammar : Grammar) (text : List Char) : Except SelectError MatchedText :=
  match Machine.matchAll grammar.program text with
  | .matched history => .ok ⟨text, Capture.ofBoundaries history⟩
  | .noMatch => .error (.noMatch (String.ofList text))
  | .exhausted => .error (.tooComplex (String.ofList text))

end TreeSelect
