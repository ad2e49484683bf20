import TreeSelect.Evaluation
import TreeSelect.Text.Record

namespace TreeSelect

/-- The answer to a group of selectors, worked out one alternative at a time: the alternatives not
yet looked at, and the ordinals of the current one not yet handed out. -/
structure Matches where
  pending : List ComplexSelector
  buffered : List Nat
  deriving DecidableEq, Repr

namespace Matches
variable {Node : Type} [DecidableEq Node]

def ofGroup (group : SelectorGroup) : Matches := ⟨group.alternatives, []⟩

/-- The first known element among the ordinals, with those behind it. -/
def firstKnown (index : Index Node) : List Nat → Option (Node × List Nat)
  | [] => none
  | ordinal :: rest =>
      match index.node? ordinal with
      | some node => some (node, rest)
      | none => firstKnown index rest

/-- Alternatives without a match are passed over. -/
def nextFrom (index : Index Node) (tree : Tree Node) :
    (pending : List ComplexSelector) → (buffered : List Nat) → Option Node × Matches
  | pending, buffered =>
      match firstKnown index buffered with
      | some (node, rest) => (some node, ⟨pending, rest⟩)
      | none =>
          match pending with
          | [] => (none, ⟨[], []⟩)
          | selector :: further => nextFrom index tree further (index.evaluate tree selector).toList

/-- The next element, if there is one, and what is left then. -/
def next (index : Index Node) (tree : Tree Node) (found : Matches) : Option Node × Matches :=
  nextFrom index tree found.pending found.buffered

/-- All elements of a group, those of each alternative in document order. -/
def collect (index : Index Node) (tree : Tree Node) (group : SelectorGroup) : List Node :=
  group.alternatives.flatMap fun selector => index.resolve (index.evaluate tree selector)

def describe (found : Matches) : String :=
  Text.openRecord "Matches"
    [("pending", toString found.pending.length), ("buffered", toString found.buffered.length)]

end Matches
end TreeSelect
