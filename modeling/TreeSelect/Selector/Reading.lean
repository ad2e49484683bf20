import TreeSelect.Grammar
import TreeSelect.Grammar.Rule
import TreeSelect.Selector.Token
import TreeSelect.Text.Unquote

/-! Selectors read from the captures of a matched text. What belongs to a selector, a compound or
an attribute condition lies within its extent. -/

namespace TreeSelect
open TreeSelect.Text

namespace MatchedText

def stringOf (matched : MatchedText) (capture : Capture) : String :=
  String.ofList (matched.textOf capture)

/-- The first identifier within a region that the rule matched. -/
def identifier (matched : MatchedText) (region : Capture) (rule : String) :
    Except SelectError String :=
  match matched.firstInside? Rule.identifier region with
  | some capture => .ok (matched.stringOf capture)
  | none => .error (.notUnderstood rule (matched.stringOf region))

/-- The text strictly between an opening parenthesis at the start and a closing one at the end. -/
def withoutParentheses (text : List Char) : List Char :=
  match text with
  | '(' :: rest => if rest.getLast? = some ')' then rest.dropLast else text
  | _ => text

def comparison (matched : MatchedText) (region : Capture) :
    Except SelectError (Option (Comparison × String)) :=
  match matched.firstInside? Rule.comparisonOp region,
      matched.firstInside? Rule.attributeValue region with
  | none, _ => .ok none
  | some _, none => .error (.missingValue (matched.stringOf region))
  | some operator, some value =>
      match Comparison.ofToken? (matched.stringOf operator) with
      | some comparison =>
          .ok (some (comparison, String.ofList (unquote (matched.textOf value))))
      | none => .error (.notUnderstood Rule.comparisonOp (matched.stringOf operator))

/-- The condition that a capture stands for, if its rule is one of a condition. -/
def condition? (matched : MatchedText) (capture : Capture) :
    Except SelectError (Option SimpleSelector) :=
  if capture.rule = Rule.typeSelector then .ok (some (.type (matched.stringOf capture)))
  else if capture.rule = Rule.universalSelector then .ok (some .universal)
  else if capture.rule = Rule.idSelector then do
    let name ← matched.identifier capture Rule.idSelector
    .ok (some (.id name))
  else if capture.rule = Rule.attributeSelector then do
    let name ← matched.identifier capture Rule.attributeSelector
    let comparison ← matched.comparison capture
    .ok (some (.attribute name comparison))
  else if capture.rule = Rule.pseudoSelector then do
    let name ← matched.identifier capture Rule.pseudoSelector
    let arguments := (matched.firstInside? Rule.pseudoArgs capture).map fun arguments =>
      String.ofList (withoutParentheses (matched.textOf arguments))
    .ok (some (.pseudo name arguments))
  else .ok none

def conditions (matched : MatchedText) : List Capture → Except SelectError Compound
  | [] => .ok []
  | capture :: rest => do
      let first ← matched.condition? capture
      let others ← conditions matched rest
      .ok (first.toList ++ others)

def compound (matched : MatchedText) (region : Capture) : Except SelectError Compound :=
  matched.conditions (Capture.within matched.captures region)

def combinator (matched : MatchedText) (region : Capture) : Except SelectError Combinator :=
  match Combinator.ofText? (matched.textOf region) with
  | some combinator => .ok combinator
  | none => .error (.notUnderstood Rule.combinator (matched.stringOf region))

def pseudoElement? (matched : MatchedText) (region : Capture) :
    Except SelectError (Option String) :=
  match matched.firstInside? Rule.pseudoElement region with
  | none => .ok none
  | some element => do
      let name ← matched.identifier element Rule.pseudoElement
      .ok (some name)

/-- One alternative. It needs a compound, and a combinator between every two neighbours. -/
def complex (matched : MatchedText) (region : Capture) : Except SelectError ComplexSelector := do
  let compounds ← (matched.inside Rule.simpleSelectorSeq region).mapM matched.compound
  let combinators ← (matched.inside Rule.combinator region).mapM matched.combinator
  if compounds.isEmpty ∨ combinators.length + 1 ≠ compounds.length then
    .error (.notUnderstood Rule.selector (matched.stringOf region))
  else do
    let pseudoElement ← matched.pseudoElement? region
    .ok ⟨compounds, combinators, pseudoElement⟩

/-- All alternatives; a text with none is no selector. -/
def group (matched : MatchedText) : Except SelectError SelectorGroup := do
  let alternatives ← (matched.all Rule.selector).mapM matched.complex
  if alternatives.isEmpty then .error (.noMatch (String.ofList matched.text))
  else .ok ⟨alternatives⟩

end MatchedText

def SelectorGroup.read (grammar : Grammar) (text : String) : Except SelectError SelectorGroup := do
  let matched ← grammar.matchAll text.toList
  matched.group

end TreeSelect
