import Mathlib.Data.List.Induction
import TreeSelect.Proofs.Tree.Lines
import TreeSelect.Selector

/-! What it means that the ways to move about in a tree agree with each other, and that the walks
of a tree then find the relatives of a node. -/

namespace TreeSelect.Tree
variable {Node : Type} {tree : Tree Node} {Has : Node → Prop}

/-- The parent of a node is said by `parent?`. -/
def Above (tree : Tree Node) (node above : Node) : Prop := tree.parent? node = some above

/-- Every node is listed at most once, among the children of exactly its parent, and its previous
sibling is the entry before it. -/
structure Consistent (tree : Tree Node) (Has : Node → Prop) : Prop where
  listed : ∀ node child, child ∈ tree.children node → Has child ∧ tree.parent? child = some node
  lists : ∀ node parent, Has node → tree.parent? node = some parent → node ∈ tree.children parent
  once : ∀ node, (tree.children node).Nodup
  previous : ∀ parent before node after, tree.children parent = before ++ node :: after →
    tree.previousSibling? node = before.getLast?
  first : ∀ node, Has node → tree.parent? node = none → tree.previousSibling? node = none

/-- The tree is not higher than its depth, and no walk is longer than its reach. -/
structure Bounded (tree : Tree Node) (Has : Node → Prop) : Prop where
  lines : ∀ node, Has node → ∃ line, Line tree.parent? node line ∧ line.length < tree.depth ∧
    line.length ≤ tree.reach node
  siblings : ∀ parent before node after, tree.children parent = before ++ node :: after →
    before.length ≤ tree.reach node

/-- How another node stands to an anchor. Both siblings are elements, and between the closest ones
there is no element. -/
def Relates (tree : Tree Node) (combinator : Combinator) (anchor other : Node) : Prop :=
  match combinator with
  | .descendant => Relation.TransGen tree.Above anchor other
  | .child => tree.parent? anchor = some other
  | .nextSibling => tree.isElement other = true ∧ ∃ parent before between after,
      tree.parent? anchor = some parent ∧
        tree.children parent = before ++ other :: (between ++ anchor :: after) ∧
          ∀ node ∈ between, tree.isElement node = false
  | .laterSibling => tree.isElement other = true ∧ ∃ parent before between after,
      tree.parent? anchor = some parent ∧
        tree.children parent = before ++ other :: (between ++ anchor :: after)

theorem Consistent.line_siblings (consistent : tree.Consistent Has) {parent node : Node}
    {before after : List Node} (children : tree.children parent = before ++ node :: after) :
    Line tree.previousSibling? node before.reverse := by
  induction before using List.reverseRecOn generalizing node after with
  | nil => exact .done (consistent.previous parent [] node after children)
  | append_singleton before last ih =>
    have earlier : tree.children parent = before ++ last :: (node :: after) := by
      simpa using children
    rw [List.reverse_append, List.reverse_singleton, List.singleton_append]
    refine .more ?_ (ih earlier)
    rw [consistent.previous parent _ node after children, List.getLast?_append]
    rfl

section Walks
variable (consistent : tree.Consistent Has) (bounded : tree.Bounded Has)
include consistent bounded

/-- The walk through previous siblings meets all children of the parent in front of the node. -/
theorem precedingSiblings_eq {parent node : Node} {before after : List Node}
    (children : tree.children parent = before ++ node :: after) :
    tree.precedingSiblings node = before.reverse :=
  walk_of_line (consistent.line_siblings children)
    (by simpa using bounded.siblings parent before node after children)

omit bounded in
theorem precedingSiblings_top {node : Node} (has : Has node) (top : tree.parent? node = none) :
    tree.precedingSiblings node = [] :=
  walk_of_line (.done (consistent.first node has top)) (Nat.zero_le _)

omit consistent in
theorem mem_ancestors {node : Node} (has : Has node) (other : Node) :
    other ∈ tree.ancestors node ↔ tree.Relates .descendant node other := by
  obtain ⟨line, lined, _, enough⟩ := bounded.lines node has
  rw [ancestors, walk_of_line lined enough]
  exact lined.mem_iff other

/-- The children in front of a node, if it has a parent. -/
theorem mem_precedingElements {node : Node} (has : Has node) (other : Node) :
    other ∈ tree.precedingElements node ↔ tree.Relates .laterSibling node other := by
  rw [precedingElements, List.mem_filter]
  constructor
  · rintro ⟨member, element⟩
    cases above : tree.parent? node with
    | none =>
      rw [precedingSiblings_top consistent has above] at member
      cases member
    | some parent =>
      obtain ⟨before, after, children⟩ :=
        List.append_of_mem (consistent.lists node parent has above)
      rw [precedingSiblings_eq consistent bounded children, List.mem_reverse] at member
      obtain ⟨front, between, rfl⟩ := List.append_of_mem member
      exact ⟨element, parent, front, between, after, above, by simpa using children⟩
  · rintro ⟨element, parent, before, between, after, _, children⟩
    have whole : tree.children parent = (before ++ other :: between) ++ node :: after := by
      simpa using children
    rw [precedingSiblings_eq consistent bounded whole]
    exact ⟨by simp, element⟩

theorem previousElementSibling?_eq_some {node : Node} (has : Has node) (other : Node) :
    tree.previousElementSibling? node = some other ↔ tree.Relates .nextSibling node other := by
  rw [previousElementSibling?, List.find?_eq_some_iff_append]
  constructor
  · rintro ⟨element, front, back, siblings, skipped⟩
    cases above : tree.parent? node with
    | none =>
      rw [precedingSiblings_top consistent has above] at siblings
      simp at siblings
    | some parent =>
      obtain ⟨before, after, children⟩ :=
        List.append_of_mem (consistent.lists node parent has above)
      rw [precedingSiblings_eq consistent bounded children] at siblings
      have whole : before = back.reverse ++ other :: front.reverse := by
        have reversed := congrArg List.reverse siblings
        simpa using reversed
      refine ⟨element, parent, back.reverse, front.reverse, after, above, ?_, ?_⟩
      · rw [children, whole]
        simp
      · intro between member
        simpa using skipped between (List.mem_reverse.mp member)
  · rintro ⟨element, parent, before, between, after, _, children, skipped⟩
    have whole : tree.children parent = (before ++ other :: between) ++ node :: after := by
      simpa using children
    refine ⟨element, between.reverse, before.reverse, ?_, ?_⟩
    · rw [precedingSiblings_eq consistent bounded whole]
      simp
    · intro sibling member
      simp [skipped sibling (List.mem_reverse.mp member)]

end Walks
end TreeSelect.Tree
