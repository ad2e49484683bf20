import TreeSelect.Capture
import TreeSelect.Grammar.Rule
import TreeSelect.Proofs.Derivation.Basic

/-! The captures that a derivation makes from a byte position on, in the order in which they are
closed: those of its parts, and then its own. -/

namespace TreeSelect.Derivation
open TreeSelect.Text

/-- The capture of a whole derivation behind those of its parts. -/
def closing (rule : String) (start : Nat) (text : List Char) (parts : List Capture) :
    List Capture :=
  parts ++ [⟨rule, start, start + width text⟩]

/-- The captures of derivations that stand one behind the other. -/
def spread {Tree : Type} (text : Tree → List Char) (captures : Nat → Tree → List Capture) :
    (start : Nat) → List Tree → List Capture
  | _, [] => []
  | start, tree :: trees =>
      captures start tree ++ spread text captures (start + width (text tree)) trees

/-- The captures of a derivation that may be missing. -/
def optional {Tree : Type} (captures : Nat → Tree → List Capture) (start : Nat) :
    Option Tree → List Capture
  | none => []
  | some tree => captures start tree

def Name.captures (start : Nat) (name : Name) : List Capture :=
  closing Rule.identifier start name.text []

def Quoted.captures (start : Nat) (string : Quoted) : List Capture :=
  closing Rule.quotedString start string.text []

def Value.captures (start : Nat) (value : Value) : List Capture :=
  closing Rule.attributeValue start value.text
    (match value with
    | .name word => word.captures start
    | .quoted string => string.captures start)

def AttributeTest.captures (start : Nat) (test : AttributeTest) : List Capture :=
  closing Rule.comparisonOp (start + width test.before.text) test.operator.token.toList [] ++
    test.value.captures (start + width test.before.text + width test.operator.token.toList +
      width test.between.text)

def Attribute.captures (start : Nat) (brackets : Attribute) : List Capture :=
  closing Rule.attributeSelector start brackets.text
    (brackets.name.captures (start + 1 + width brackets.before.text) ++
      optional AttributeTest.captures
        (start + 1 + width brackets.before.text + width brackets.name.text) brackets.test)

def Argument.captures (start : Nat) : Argument → List Capture
  | .quoted string => string.captures start
  | .plain _ _ => []

def Arguments.captures (start : Nat) (arguments : Arguments) : List Capture :=
  closing Rule.pseudoArgs start arguments.text
    (spread Argument.text Argument.captures (start + 1) arguments.items)

/-- The capture of the kind of condition, without the one of the rule for all kinds. -/
def Condition.kindCaptures (start : Nat) : Condition → List Capture
  | .attribute brackets => brackets.captures start
  | .id name => closing Rule.idSelector start ('#' :: name.text) (name.captures (start + 1))
  | .pseudo name arguments =>
      closing Rule.pseudoSelector start (Condition.pseudo name arguments).text
        (name.captures (start + 1) ++
          optional Arguments.captures (start + 1 + width name.text) arguments)

def Condition.captures (start : Nat) (condition : Condition) : List Capture :=
  closing Rule.simpleSelector start condition.text (condition.kindCaptures start)

def Head.captures (start : Nat) : Head → List Capture
  | .type name => closing Rule.typeSelector start name.text (name.captures start)
  | .universal => closing Rule.universalSelector start ['*'] []

def Sequence.captures (start : Nat) (sequence : Sequence) : List Capture :=
  closing Rule.simpleSelectorSeq start sequence.text
    (match sequence with
    | .headed head conditions =>
        head.captures start ++
          spread Condition.text Condition.captures (start + width head.text) conditions
    | .bare first more =>
        first.captures start ++
          spread Condition.text Condition.captures (start + width first.text) more)

def Joint.captures (start : Nat) (joint : Joint) : List Capture :=
  closing Rule.combinatorSeq start joint.text
    (closing Rule.combinator (start + width joint.before.text) [joint.token.letter] [] ++
      joint.sequence.captures (start + width joint.before.text +
        width [joint.token.letter] + width joint.after.text))

/-- The captures of the rule `PseudoElement`. -/
def elementCaptures (start : Nat) (name : Name) : List Capture :=
  closing Rule.pseudoElement start (':' :: ':' :: name.text) (name.captures (start + 2))

def Selector.captures (start : Nat) (selector : Selector) : List Capture :=
  closing Rule.selector start selector.text
    (selector.first.captures start ++
      (spread Joint.text Joint.captures (start + width selector.first.text) selector.joints ++
        optional elementCaptures
          (start + width selector.first.text + width (selector.joints.flatMap Joint.text))
          selector.pseudoElement))

def Alternative.captures (start : Nat) (alternative : Alternative) : List Capture :=
  alternative.selector.captures
    (start + width alternative.before.text + 1 + width alternative.after.text)

/-- The start rule itself is not captured. -/
def Group.captures (group : Group) : List Capture :=
  group.first.captures (width group.before.text) ++
    spread Alternative.text Alternative.captures
      (width group.before.text + width group.first.text) group.more

end TreeSelect.Derivation
