import TreeSelect.Proofs.Tree.Listing

/-! One tree seen as another. Where a map of nodes carries each single way to move about in a tree to
that of another one, it carries the walks and the document order as well. -/

namespace TreeSelect.Tree
variable {Node Image : Type} {tree : Tree Node} {other : Tree Image} {Has : Node → Prop}
  {Shown : Image → Prop} {image : Node → Image}

/-- The nodes of a tree have distinct images in the other tree, which are labelled alike and lie to
each other in the same ways. -/
structure Mirrors (tree : Tree Node) (Has : Node → Prop) (other : Tree Image)
    (image : Node → Image) : Prop where
  apart : ∀ first second, Has first → Has second → image first = image second → first = second
  tag? : ∀ node, Has node → other.tag? (image node) = tree.tag? node
  attributes : ∀ node, Has node → other.attributes (image node) = tree.attributes node
  attribute? : ∀ node, Has node → ∀ name,
    other.attribute? (image node) name = tree.attribute? node name
  parent? : ∀ node, Has node → other.parent? (image node) = (tree.parent? node).map image
  children : ∀ node, Has node → other.children (image node) = (tree.children node).map image
  previousSibling? : ∀ node, Has node →
    other.previousSibling? (image node) = (tree.previousSibling? node).map image

/-- Moreover the ways to move about in each of the trees agree with each other, so that its walks are
long enough. -/
structure Likeness (tree : Tree Node) (Has : Node → Prop) (other : Tree Image)
    (Shown : Image → Prop) (image : Node → Image) : Prop extends Mirrors tree Has other image where
  climbs : ∀ node above, tree.parent? node = some above → Has above
  shows : ∀ node, Has node → Shown (image node)
  consistent : tree.Consistent Has
  bounded : tree.Bounded Has
  consistentImage : other.Consistent Shown
  boundedImage : other.Bounded Shown

theorem Line.carry {next : Node → Option Node} {beyond : Image → Option Image} {node : Node}
    {line : List Node} (lined : Line next node line)
    (carried : ∀ first ∈ node :: line, beyond (image first) = (next first).map image) :
    Line beyond (image node) (line.map image) := by
  induction lined with
  | done last => exact .done (by rw [carried _ (List.mem_cons_self ..), last]; rfl)
  | more step _ ih =>
    exact .more (by rw [carried _ (List.mem_cons_self ..), step]; rfl)
      (ih fun first member => carried first (List.mem_cons_of_mem _ member))

theorem Listing.carry {children : Node → List Node} {below : Image → List Image}
    {nodes order : List Node} (listing : Listing children nodes order)
    (closed : ∀ node child, child ∈ children node → Has child)
    (carried : ∀ node, Has node → below (image node) = (children node).map image)
    (each : ∀ node ∈ nodes, Has node) : Listing below (nodes.map image) (order.map image) := by
  induction listing with
  | nil => exact .nil
  | @cons node nodes _ _ _ _ deeper further =>
    rw [List.map_cons, List.map_cons, List.map_append]
    refine .cons ?_ (further fun other member => each other (List.mem_cons_of_mem _ member))
    rw [carried node (each node (List.mem_cons_self ..))]
    exact deeper fun child member => closed node child member

namespace Likeness
variable (likeness : Likeness tree Has other Shown image) {node : Node}
include likeness

theorem isElement (has : Has node) : other.isElement (image node) = tree.isElement node := by
  rw [Tree.isElement, likeness.tag? node has, Tree.isElement]

theorem has_of_line {line : List Node} (lined : Line tree.parent? node line) (has : Has node) :
    ∀ above ∈ node :: line, Has above := by
  induction lined with
  | done => exact fun above member => List.mem_singleton.mp member ▸ has
  | more step _ ih =>
    intro above member
    rcases List.mem_cons.mp member with rfl | further
    · exact has
    · exact ih (likeness.climbs _ _ step) above further

theorem has_of_ancestor (has : Has node) : ∀ above ∈ tree.ancestors node, Has above := by
  obtain ⟨line, lined, _, enough⟩ := likeness.bounded.lines node has
  rw [Tree.ancestors, walk_of_line lined enough]
  exact fun above member => likeness.has_of_line lined has above (List.mem_cons_of_mem _ member)

theorem ancestors (has : Has node) :
    other.ancestors (image node) = (tree.ancestors node).map image := by
  obtain ⟨line, lined, _, enough⟩ := likeness.bounded.lines node has
  obtain ⟨others, linedImage, _, enoughImage⟩ :=
    likeness.boundedImage.lines (image node) (likeness.shows node has)
  rw [Tree.ancestors, walk_of_line linedImage enoughImage, Tree.ancestors,
    walk_of_line lined enough]
  exact linedImage.unique (lined.carry fun above member =>
    likeness.parent? above (likeness.has_of_line lined has above member))

theorem precedingSiblings (has : Has node) :
    other.precedingSiblings (image node) = (tree.precedingSiblings node).map image ∧
      ∀ sibling ∈ tree.precedingSiblings node, Has sibling := by
  have carried := likeness.parent? node has
  cases above : tree.parent? node with
  | none =>
    rw [above] at carried
    rw [precedingSiblings_top likeness.consistent has above,
      precedingSiblings_top likeness.consistentImage (likeness.shows node has) carried]
    exact ⟨rfl, fun sibling member => absurd member List.not_mem_nil⟩
  | some parent =>
    obtain ⟨before, after, children⟩ :=
      List.append_of_mem (likeness.consistent.lists node parent has above)
    have images : other.children (image parent) =
        before.map image ++ image node :: after.map image := by
      rw [likeness.children parent (likeness.climbs node parent above), children]
      simp
    rw [precedingSiblings_eq likeness.consistent likeness.bounded children,
      precedingSiblings_eq likeness.consistentImage likeness.boundedImage images]
    refine ⟨List.map_reverse.symm, fun sibling member => ?_⟩
    exact (likeness.consistent.listed parent sibling (by simp_all)).1

theorem precedingElements (has : Has node) :
    other.precedingElements (image node) = (tree.precedingElements node).map image := by
  obtain ⟨siblings, known⟩ := likeness.precedingSiblings has
  rw [Tree.precedingElements, siblings, Tree.precedingElements, List.filter_map]
  congr 1
  exact List.filter_congr fun sibling member => likeness.isElement (known sibling member)

theorem previousElementSibling? (has : Has node) :
    other.previousElementSibling? (image node) =
      (tree.previousElementSibling? node).map image := by
  have elements := likeness.precedingElements has
  unfold Tree.precedingElements at elements
  rw [Tree.previousElementSibling?, ← List.head?_filter, elements, Tree.previousElementSibling?,
    ← List.head?_filter, List.head?_map]

theorem preorder (has : Has node) : other.preorder (image node) = (tree.preorder node).map image := by
  have listing := exists_preorder (low_root likeness.consistent likeness.bounded has)
  have carried := listing.carry
    (fun parent child member => (likeness.consistent.listed parent child member).1)
    likeness.children fun top member => List.mem_singleton.mp member ▸ has
  have listingImage := exists_preorder
    (low_root likeness.consistentImage likeness.boundedImage (likeness.shows node has))
  exact listingImage.unique carried

end Likeness
end TreeSelect.Tree
