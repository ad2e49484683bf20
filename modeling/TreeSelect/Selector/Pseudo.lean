import TreeSelect.Selector.Error
import TreeSelect.Selector.Printer
import TreeSelect.Warnings

/-! Pseudo-classes and pseudo-elements are read, but never filter. -/

namespace TreeSelect

inductive PseudoPolicy where
  /-- They are accepted with a warning. -/
  | ignore
  /-- They are errors. -/
  | reject
  deriving DecidableEq, Repr

namespace PseudoPolicy

def name : PseudoPolicy → String
  | ignore => "ignore"
  | reject => "reject"

def ofName? (text : String) : Option PseudoPolicy := [ignore, reject].find? (·.name = text)

def describe : PseudoPolicy → String
  | ignore => "Ignore"
  | reject => "Reject"

end PseudoPolicy

def SimpleSelector.pseudoText? : SimpleSelector → Option String
  | .pseudo name arguments => some (String.ofList (SimpleSelector.pseudo name arguments).print)
  | _ => none

/-- The pseudo-classes in their order, then the pseudo-element. -/
def ComplexSelector.pseudoTexts (selector : ComplexSelector) : List String :=
  selector.compounds.flatten.filterMap SimpleSelector.pseudoText? ++
    selector.pseudoElement.toList.map ("::" ++ ·)

namespace SelectorGroup

def pseudoTexts (group : SelectorGroup) : List String :=
  group.alternatives.flatMap ComplexSelector.pseudoTexts

def ignoredMessage (pseudo : String) : String :=
  "pseudo selector `" ++ pseudo ++ "` has no matching semantics; ignored"

/-- Fails on the first pseudo selector if the policy rejects them, and warns of each otherwise. -/
def applyPolicy (group : SelectorGroup) (policy : PseudoPolicy) (warnings : Warnings) :
    Except SelectError Warnings :=
  match policy, group.pseudoTexts with
  | .reject, first :: _ => .error (.unsupported first)
  | .reject, [] => .ok warnings
  | .ignore, components => .ok
      (components.foldl (fun given text => (given.issue "select" (ignoredMessage text)).2)
        warnings)

end SelectorGroup
end TreeSelect
