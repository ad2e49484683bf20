import TreeSelect.Text.Slice

/-! Named regions of a matched text. Their nesting is read off their extents: what lies within a
region was matched inside it. -/

namespace TreeSelect

/-- A rule, and the byte positions between which it matched. -/
structure Capture where
  rule : String
  start : Nat
  stop : Nat
  deriving DecidableEq, Repr

/-- A group begins or ends at a byte position. -/
inductive Boundary where
  | opened (rule : String) (position : Nat)
  | closed (position : Nat)
  deriving DecidableEq, Repr

namespace Capture

def contains (region other : Capture) : Bool :=
  region.start ≤ other.start && other.stop ≤ region.stop

/-- The captures that lie within the region, in their order. -/
def within (captures : List Capture) (region : Capture) : List Capture :=
  captures.filter region.contains

/-- Pairs each end with the latest beginning that is still open. `pending` holds the beginnings
still open, latest first; the captures come in the order of their ends. -/
def pair (pending : List (String × Nat)) : List Boundary → List Capture
  | [] => []
  | .opened rule position :: rest => pair ((rule, position) :: pending) rest
  | .closed position :: rest =>
      match pending with
      | [] => pair [] rest
      | (rule, start) :: outer => ⟨rule, start, position⟩ :: pair outer rest

/-- An earlier start comes first, and of two captures with one start the longer. -/
def before (first second : Capture) : Bool :=
  first.start < second.start || (first.start == second.start && second.stop < first.stop)

/-- Puts a capture into a list that is sorted backwards, in front of those it does not precede. -/
def place (capture : Capture) : List Capture → List Capture
  | [] => [capture]
  | last :: earlier =>
      if capture.before last then last :: place capture earlier else capture :: last :: earlier

/-- Captures by start, enclosing ones first; those of one extent keep their order. -/
def sorted (captures : List Capture) : List Capture :=
  (captures.foldl (fun placed capture => place capture placed) []).reverse

def ofBoundaries (boundaries : List Boundary) : List Capture := sorted (pair [] boundaries)

end Capture

/-- A text that a grammar matched as a whole, with all captures on the way. -/
structure MatchedText where
  text : List Char
  captures : List Capture
  deriving DecidableEq, Repr

namespace MatchedText

def all (matched : MatchedText) (rule : String) : List Capture :=
  matched.captures.filter (·.rule = rule)

/-- Captures of the rule that lie within the region. -/
def inside (matched : MatchedText) (rule : String) (region : Capture) : List Capture :=
  matched.captures.filter fun capture => region.contains capture && decide (capture.rule = rule)

def firstInside? (matched : MatchedText) (rule : String) (region : Capture) : Option Capture :=
  matched.captures.find? fun capture => region.contains capture && decide (capture.rule = rule)

def textOf (matched : MatchedText) (capture : Capture) : List Char :=
  Text.slice capture.start capture.stop matched.text

end MatchedText
end TreeSelect
