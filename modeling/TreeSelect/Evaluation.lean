import TreeSelect.Index
import TreeSelect.Selector.Comparison

/-! The elements of an index that a selector describes. -/

namespace TreeSelect.Index
variable {Node : Type} [DecidableEq Node]

/-- The members of a look-up among those known so far, where `none` stands for no restriction. A
look-up without an answer leaves nothing. -/
def narrow (known found : Option Ordinals) : Ordinals :=
  match known, found with
  | _, none => .empty
  | none, some found => found
  | some known, some found => known.inter found

/-- Whether the attribute of an element has a value that the comparison admits. -/
def compares (index : Index Node) (tree : Tree Node) (name : String)
    (comparison : Comparison) (literal : String) (ordinal : Nat) : Bool :=
  match (index.node? ordinal).bind fun node => tree.attribute? node name with
  | some value => comparison.holds value.toList literal.toList
  | none => false

/-- What remains of the known elements under one more condition; `none` if the condition filters
nothing. -/
def restrict? (index : Index Node) (tree : Tree Node) (known : Option Ordinals) :
    SimpleSelector → Option Ordinals
  | .universal | .pseudo _ _ => none
  | .id name => some (narrow known (some (.ofOption (index.byId? name))))
  | .type tag => some (narrow known (index.byType? tag))
  | .attribute name none => some (narrow known (index.byAttribute? name))
  | .attribute name (some (comparison, literal)) =>
      some ((narrow known (index.byAttribute? name)).filter
        (index.compares tree name comparison literal))

/-- The known elements that satisfy all conditions. Nothing is looked up once none is left. -/
def candidatesAmong (index : Index Node) (tree : Tree Node) :
    (known : Option Ordinals) → Compound → Ordinals
  | known, [] => known.getD index.all
  | known, condition :: rest =>
      match index.restrict? tree known condition with
      | none => candidatesAmong index tree known rest
      | some remaining =>
          if remaining.isEmpty then remaining
          else candidatesAmong index tree (some remaining) rest

/-- The elements that satisfy a compound; all of them if nothing filters. -/
def candidates (index : Index Node) (tree : Tree Node) (compound : Compound) : Ordinals :=
  index.candidatesAmong tree none compound

/-- Whether a node is one of the elements with the given ordinals. -/
def isMember (index : Index Node) (set : Ordinals) (node : Node) : Bool :=
  match index.ordinal? node with
  | some ordinal => set.contains ordinal
  | none => false

/-- Whether the node stands in the relation to some member of the set. -/
def isRelated (index : Index Node) (tree : Tree Node) (combinator : Combinator) (node : Node)
    (left : Ordinals) : Bool :=
  match combinator with
  | .descendant => (tree.ancestors node).any (index.isMember left)
  | .child => (tree.parent? node).any (index.isMember left)
  | .nextSibling => (tree.previousElementSibling? node).any (index.isMember left)
  | .laterSibling => (tree.precedingElements node).any (index.isMember left)

/-- Keeps the elements that are related to a match of each compound on the left. -/
def keepRelated (index : Index Node) (tree : Tree Node) :
    List (Compound × Combinator) → (found : Ordinals) → Ordinals
  | [], found => found
  | (compound, combinator) :: further, found =>
      if found.isEmpty then found
      else
        let left := index.candidates tree compound
        keepRelated index tree further (found.filter fun ordinal =>
          match index.node? ordinal with
          | some node => index.isRelated tree combinator node left
          | none => false)

/-- The elements that match the last compound, each related to a match of every compound to its
left by the combinator that follows that compound, without regard to what stands further left. -/
def evaluate (index : Index Node) (tree : Tree Node) (selector : ComplexSelector) : Ordinals :=
  match selector.compounds.getLast? with
  | none => .empty
  | some anchor =>
      index.keepRelated tree (selector.compounds.dropLast.zip selector.combinators).reverse
        (index.candidates tree anchor)

end TreeSelect.Index
