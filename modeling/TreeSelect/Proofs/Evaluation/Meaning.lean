import TreeSelect.Conventions.IdConvention
import TreeSelect.Proofs.Tree.Navigation
import TreeSelect.Selector.Comparison

/-! What a selector says about the elements below a root, without an index: which conditions an
element satisfies, and to which elements it has to be related. -/

namespace TreeSelect.Tree
variable {Node : Type}

/-- The node carries the identifier in an attribute that the convention accepts. -/
def Bears (tree : Tree Node) (convention : IdConvention) (id : String) (node : Node) : Prop :=
  ∃ name, convention.accepts name = true ∧ (name, id) ∈ tree.attributes node

/-- The node is the last one in the list with the property. -/
def IsLast (holds : Node → Prop) (list : List Node) (node : Node) : Prop :=
  ∃ before after, list = before ++ node :: after ∧ holds node ∧ ∀ later ∈ after, ¬ holds later

/-- Whether one of the elements satisfies a condition. An identifier means the last element that
carries it; a pseudo-class means nothing. -/
def Satisfies (tree : Tree Node) (convention : IdConvention) (elements : List Node) (node : Node)
    (condition : SimpleSelector) : Prop :=
  match condition with
  | .type tag => tree.tag? node = some tag
  | .universal | .pseudo _ _ => True
  | .id name => IsLast (tree.Bears convention name) elements node
  | .attribute name none => (tree.attribute? node name).isSome = true
  | .attribute name (some (comparison, literal)) => ∃ value,
      tree.attribute? node name = some value ∧
        comparison.holds value.toList literal.toList = true

def SatisfiesAll (tree : Tree Node) (convention : IdConvention) (elements : List Node)
    (node : Node) (compound : Compound) : Prop :=
  ∀ condition ∈ compound, tree.Satisfies convention elements node condition

/-- The element satisfies the last compound, and for each combinator it is itself related to some
element that satisfies the compound in front of the combinator. -/
structure Selected (tree : Tree Node) (convention : IdConvention) (elements : List Node)
    (selector : ComplexSelector) (node : Node) : Prop where
  last : ∃ anchor, selector.compounds.getLast? = some anchor ∧
    tree.SatisfiesAll convention elements node anchor
  related : ∀ (place : Nat) (compound : Compound) (combinator : Combinator),
    selector.compounds[place]? = some compound →
    selector.combinators[place]? = some combinator → ∃ other ∈ elements,
      tree.SatisfiesAll convention elements other compound ∧ tree.Relates combinator node other

end TreeSelect.Tree
