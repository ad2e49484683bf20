import TreeSelect.Proofs.Evaluation.Candidates
import TreeSelect.Proofs.Tree.Kinds

/-! The answer of an index to a selector: the elements that are selected, in document order. -/

namespace TreeSelect.Index
open TreeSelect.Tree
variable {Node : Type} [DecidableEq Node] {tree : Tree Node} {convention : IdConvention}
  {elements : List Node} {index : Index Node} {Has : Node → Prop}

theorem isMember_iff (reflects : Reflects tree convention elements index) (set : Ordinals)
    (node : Node) :
    index.isMember set node = true ↔ ∃ place, elements[place]? = some node ∧ place ∈ set := by
  rw [isMember]
  cases found : index.ordinal? node with
  | none =>
    refine ⟨fun never => absurd never (by simp), fun ⟨place, listed, _⟩ => ?_⟩
    rw [(reflects.ordinals node place).mpr listed] at found
    cases found
  | some ordinal =>
    rw [Ordinals.contains_iff]
    constructor
    · exact fun member => ⟨ordinal, (reflects.ordinals node ordinal).mp found, member⟩
    · rintro ⟨place, listed, member⟩
      rw [(reflects.ordinals node place).mpr listed] at found
      cases found
      exact member

/-- The walks of the tree meet exactly the relatives of a node. -/
theorem isRelated_iff (consistent : tree.Consistent Has) (bounded : tree.Bounded Has) {node : Node}
    (has : Has node) (combinator : Combinator) (left : Ordinals) :
    index.isRelated tree combinator node left = true ↔
      ∃ other, index.isMember left other = true ∧ tree.Relates combinator node other := by
  cases combinator with
  | descendant =>
    simp only [isRelated, List.any_eq_true, ← mem_ancestors bounded has, and_comm]
  | child => simp [isRelated, Relates, Option.any_eq_true, and_comm]
  | nextSibling =>
    simp only [isRelated, Option.any_eq_true,
      previousElementSibling?_eq_some consistent bounded has, and_comm]
  | laterSibling =>
    simp only [isRelated, List.any_eq_true, mem_precedingElements consistent bounded has, and_comm]

omit [DecidableEq Node] in
/-- The ordinals of a set stand for distinct elements in document order. -/
theorem exists_members (elements : List Node) (set : Ordinals)
    (inside : ∀ place ∈ set, place < elements.length) :
    ∃ found : List Node, set.toList.map (fun place => elements[place]?) = found.map some ∧
      found.Sublist elements ∧
        ∀ node, node ∈ found ↔ ∃ place ∈ set, elements[place]? = some node := by
  have increasing := set.increasing
  obtain ⟨places, listed⟩ : ∃ places : List (Fin elements.length),
      set.toList = places.map Fin.val := ⟨List.pmap Fin.mk _ inside, by simp [List.map_pmap]⟩
  rw [listed, List.pairwise_map] at increasing
  refine ⟨places.map (elements[·]), ?_, List.map_getElem_sublist increasing, fun node => ?_⟩
  · rw [listed, List.map_map, List.map_map]
    exact List.map_congr_left fun place _ => List.getElem?_eq_getElem place.isLt
  · simp only [Ordinals.mem_def, listed, List.mem_map]
    constructor
    · rintro ⟨place, member, rfl⟩
      exact ⟨place, ⟨place, member, rfl⟩, List.getElem?_eq_getElem place.isLt⟩
    · rintro ⟨_, ⟨place, member, rfl⟩, found⟩
      rw [List.getElem?_eq_getElem place.isLt] at found
      exact ⟨place, member, Option.some.inj found⟩

/-- The anchor at the place is related to an element that satisfies the compound. -/
def Attached (tree : Tree Node) (convention : IdConvention) (elements : List Node) (place : Nat)
    (pair : Compound × Combinator) : Prop :=
  ∃ node, elements[place]? = some node ∧ ∃ other ∈ elements,
    tree.SatisfiesAll convention elements other pair.1 ∧ tree.Relates pair.2 node other

section Answer
variable (reflects : Reflects tree convention elements index) (distinct : elements.Nodup)
  (plain : Plain tree) (consistent : tree.Consistent Has) (bounded : tree.Bounded Has)
  (known : ∀ node ∈ elements, Has node)
include reflects distinct plain consistent bounded known

theorem related_iff (pair : Compound × Combinator) (place : Nat) :
    (match index.node? place with
      | some node => index.isRelated tree pair.2 node (index.candidates tree pair.1)
      | none => false) = true ↔ Attached tree convention elements place pair := by
  rw [node?_eq reflects, Attached]
  cases found : elements[place]? with
  | none => simp
  | some node =>
    have has := known node (List.mem_of_getElem? found)
    simp only [isRelated_iff consistent bounded has, isMember_iff reflects,
      mem_candidates reflects distinct plain, Option.some.injEq, exists_eq_left']
    constructor
    · rintro ⟨other, ⟨position, listed, again, found, satisfied⟩, related⟩
      cases listed.symm.trans found
      exact ⟨other, List.mem_of_getElem? listed, satisfied, related⟩
    · rintro ⟨other, member, satisfied, related⟩
      obtain ⟨position, listed⟩ := List.mem_iff_getElem?.mp member
      exact ⟨other, ⟨position, listed, other, listed, satisfied⟩, related⟩

theorem mem_keepRelated (pairs : List (Compound × Combinator)) (found : Ordinals) (place : Nat) :
    place ∈ index.keepRelated tree pairs found ↔
      place ∈ found ∧ ∀ pair ∈ pairs, Attached tree convention elements place pair := by
  induction pairs generalizing found with
  | nil => simp [keepRelated]
  | cons pair pairs ih =>
    rw [keepRelated, List.forall_mem_cons]
    split
    next empty =>
      have nothing := (Ordinals.isEmpty_iff found).mp empty
      exact ⟨fun member => absurd member (nothing place),
        fun kept => absurd kept.1 (nothing place)⟩
    next =>
      have attached := related_iff reflects distinct plain consistent bounded known pair place
      rw [ih, Ordinals.mem_filter, and_assoc]
      exact and_congr_right' (and_congr_left' attached)

omit [DecidableEq Node] reflects distinct plain consistent bounded known in
/-- The compounds in front of the last one are paired with the combinators behind them. -/
theorem mem_pairs {selector : ComplexSelector}
    (fitting : selector.combinators.length + 1 = selector.compounds.length)
    (pair : Compound × Combinator) :
    pair ∈ (selector.compounds.dropLast.zip selector.combinators).reverse ↔
      ∃ place : Nat, selector.compounds[place]? = some pair.1 ∧
        selector.combinators[place]? = some pair.2 := by
  rw [List.mem_reverse, List.mem_iff_getElem?]
  refine exists_congr fun place => ?_
  rw [List.getElem?_zip_eq_some, List.getElem?_dropLast]
  constructor
  · rintro ⟨front, back⟩
    split at front
    next => exact ⟨front, back⟩
    next => cases front
  · rintro ⟨front, back⟩
    have inside := (List.getElem?_eq_some_iff.mp back).1
    exact ⟨by rw [if_pos (by omega), front], back⟩

/-- The places of the selected elements. -/
theorem mem_evaluate (selector : ComplexSelector)
    (fitting : selector.combinators.length + 1 = selector.compounds.length) (place : Nat) :
    place ∈ index.evaluate tree selector ↔ ∃ node, elements[place]? = some node ∧
      tree.Selected convention elements selector node := by
  obtain ⟨anchor, last⟩ : ∃ anchor, selector.compounds.getLast? = some anchor := by
    rw [← Option.isSome_iff_exists, List.getLast?_isSome]
    exact List.ne_nil_of_length_pos (by omega)
  rw [evaluate, last]
  simp only
  rw [mem_keepRelated reflects distinct plain consistent bounded known,
    mem_candidates reflects distinct plain]
  constructor
  · rintro ⟨⟨node, found, satisfied⟩, attached⟩
    refine ⟨node, found, ⟨anchor, last, satisfied⟩, fun position compound combinator front back => ?_⟩
    obtain ⟨same, again, related⟩ :=
      attached (compound, combinator) ((mem_pairs fitting _).mpr ⟨position, front, back⟩)
    cases found.symm.trans again
    exact related
  · rintro ⟨node, found, ⟨same, again, satisfied⟩, related⟩
    cases last.symm.trans again
    refine ⟨⟨node, found, satisfied⟩, fun pair member => ⟨node, found, ?_⟩⟩
    obtain ⟨position, front, back⟩ := (mem_pairs fitting pair).mp member
    exact related position pair.1 pair.2 front back

theorem exists_found (selector : ComplexSelector)
    (fitting : selector.combinators.length + 1 = selector.compounds.length) :
    ∃ found : List Node, (index.evaluate tree selector).toList.map index.node? = found.map some ∧
      found.Sublist elements ∧ ∀ node, node ∈ found ↔
        node ∈ elements ∧ tree.Selected convention elements selector node := by
  have members := mem_evaluate reflects distinct plain consistent bounded known selector fitting
  have inside : ∀ place ∈ index.evaluate tree selector, place < elements.length := by
    intro place member
    obtain ⟨node, found, _⟩ := (members place).mp member
    exact (List.getElem?_eq_some_iff.mp found).1
  obtain ⟨found, listed, ordered, stand⟩ := exists_members elements _ inside
  refine ⟨found, ?_, ordered, fun node => ?_⟩
  · rw [← listed]
    exact List.map_congr_left fun place _ => node?_eq reflects place
  · rw [stand node]
    constructor
    · rintro ⟨place, member, listed⟩
      obtain ⟨other, again, selected⟩ := (members place).mp member
      cases listed.symm.trans again
      exact ⟨List.mem_of_getElem? listed, selected⟩
    · rintro ⟨member, selected⟩
      obtain ⟨place, listed⟩ := List.mem_iff_getElem?.mp member
      exact ⟨place, (members place).mpr ⟨node, listed, selected⟩, listed⟩

end Answer

/-- What an index of the nodes below the root answers: `order` has these nodes in document order,
and `found` the elements among them that are selected. -/
structure Answers (tree : Tree Node) (convention : IdConvention) (root : Node)
    (selector : ComplexSelector) (order found : List Node) : Prop where
  listed : Listing tree.children [root] order
  once : order.Nodup
  resolved : ((build tree root convention).evaluate tree selector).toList.map
    (build tree root convention).node? = found.map some
  ordered : found.Sublist (order.filter tree.isElement)
  selected : ∀ node, node ∈ found ↔ node ∈ order.filter tree.isElement ∧
    tree.Selected convention (order.filter tree.isElement) selector node

/-- Nothing is known of a node that does not exist. -/
structure Vacant (tree : Tree Node) (node : Node) : Prop where
  leaf : tree.children node = []
  inert : tree.isElement node = false

omit [DecidableEq Node] in
theorem preorder_of_vacant {root : Node} (vacant : Vacant tree root) :
    tree.preorder root = [root] := by
  have alone : visits tree.children tree.depth root = 1 := by
    cases tree.depth <;> simp [visits, vacant.leaf]
  rw [preorder, alone, sweep, vacant.leaf]
  rfl

theorem exists_answers (plain : Plain tree) (consistent : tree.Consistent Has)
    (bounded : tree.Bounded Has) (vacant : ∀ node, ¬ Has node → Vacant tree node)
    (convention : IdConvention) (root : Node) (selector : ComplexSelector)
    (fitting : selector.combinators.length + 1 = selector.compounds.length) :
    ∃ order found, Answers tree convention root selector order found := by
  obtain ⟨listed, once, known⟩ : Listing tree.children [root] (tree.preorder root) ∧
      (tree.preorder root).Nodup ∧ ∀ node ∈ (tree.preorder root).filter tree.isElement, Has node := by
    by_cases has : Has root
    · exact ⟨exists_preorder (low_root consistent bounded has),
        nodup_preorder consistent bounded has, fun node member =>
          has_of_mem_preorder consistent bounded has (List.mem_of_mem_filter member)⟩
    · have nothing := vacant root has
      rw [preorder_of_vacant nothing]
      refine ⟨?_, List.nodup_singleton root, fun node member => ?_⟩
      · have below : Listing tree.children (tree.children root) [] := by
          rw [nothing.leaf]
          exact .nil
        exact .cons below .nil
      · simp [nothing.inert] at member
  have elements := once.sublist (List.filter_sublist (p := tree.isElement))
  obtain ⟨found, resolved, ordered, selected⟩ := exists_found (reflects_build once) elements plain
    consistent bounded known selector fitting
  exact ⟨tree.preorder root, found, listed, once, resolved, ordered, selected⟩

theorem arena_plain (arena : Arena) : Plain arena.tree := by
  intro node name
  cases found : arena.element? node with
  | none => simp [Arena.tree, found, Association.find]
  | some element => simp [Arena.tree, found, Association.get?]

theorem arena_vacant {arena : Arena} {id : Nat} (absent : ¬ arena.Has id) :
    Vacant arena.tree id := by
  have missing : arena.nodes[id]? = none := Array.getElem?_eq_none (Nat.le_of_not_lt absent)
  constructor
  · show arena.children id = []
    rw [Arena.children, Arena.get?, missing]
  · show ((arena.element? id).map Element.tag).isSome = false
    rw [Arena.element?, Arena.get?, missing]
    rfl

theorem outline_vacant {outline : Outline} {path : List Nat} (absent : ¬ outline.Has path) :
    Vacant outline.tree path := by
  have missing : outline.locate path = none := Option.not_isSome_iff_eq_none.mp absent
  constructor
  · show outline.children path = []
    rw [Outline.children, missing]
  · show ((outline.entry? path).bind OutlineEntry.label).isSome = false
    rw [Outline.entry?, missing]
    rfl

/-- Below any root of an arena whose navigation agrees, and of any outline, the index answers with
the selected elements, each once and in document order. -/
theorem evaluate_selects :
    (∀ arena : Arena, arena.tree.Consistent arena.Has →
      (∀ id, ¬ Relation.TransGen arena.tree.Above id id) →
        ∀ (convention : IdConvention) (root : Nat) (selector : ComplexSelector),
          selector.combinators.length + 1 = selector.compounds.length →
            ∃ order found, Answers arena.tree convention root selector order found) ∧
      ∀ (outline : Outline) (convention : IdConvention) (root : List Nat)
        (selector : ComplexSelector),
        selector.combinators.length + 1 = selector.compounds.length →
          ∃ order found, Answers outline.tree convention root selector order found := by
  constructor
  · intro arena consistent acyclic convention root selector fitting
    exact exists_answers (arena_plain arena) consistent (arena.bounded consistent acyclic)
      (fun _ absent => arena_vacant absent) convention root selector fitting
  · intro outline convention root selector fitting
    exact exists_answers (fun _ _ => rfl) outline.consistent outline.bounded
      (fun _ absent => outline_vacant absent) convention root selector fitting

/-- A document with a heading, a text and a paragraph. -/
def page : Arena := ⟨#[
  ⟨.document, none, [1, 2, 3], none⟩,
  ⟨.element (.ofList "h1" []), some 0, [], none⟩,
  ⟨.text "on", some 0, [], some 1⟩,
  ⟨.element (.ofList "p" []), some 0, [], some 2⟩]⟩

def pageOutline : Outline := ⟨[⟨none, [], 0⟩, ⟨some "h1", [], 0⟩, ⟨none, [], 0⟩, ⟨some "p", [], 0⟩]⟩

/-- A paragraph right after a heading. -/
def headed : ComplexSelector := ⟨[[.type "h1"], [.type "p"]], [.nextSibling], none⟩

theorem page_children {node child : Nat} (member : child ∈ page.tree.children node) :
    node = 0 ∧ child ∈ [1, 2, 3] := by
  have few : ∀ node < 4, ∀ child ∈ page.tree.children node, node = 0 ∧ child ∈ [1, 2, 3] := by
    decide
  exact few node (Arena.has_of_children member) child member

theorem page_parent {node parent : Nat} (above : page.tree.parent? node = some parent) :
    parent = 0 ∧ node ∈ [1, 2, 3] := by
  have few : ∀ node < 4, ∀ parent ∈ page.tree.parent? node, parent = 0 ∧ node ∈ [1, 2, 3] := by
    decide
  exact few node (Arena.has_of_parent above) parent above

theorem page_consistent : page.tree.Consistent page.Has := by
  constructor
  · intro node child member
    obtain ⟨rfl, listed⟩ := page_children member
    have each : ∀ child ∈ [1, 2, 3], child < 4 ∧ page.tree.parent? child = some 0 := by decide
    exact each child listed
  · intro node parent _ above
    obtain ⟨rfl, listed⟩ := page_parent above
    exact listed
  · intro node
    by_cases top : node = 0
    · subst top
      decide
    · have nothing : page.tree.children node = [] :=
        List.eq_nil_iff_forall_not_mem.mpr fun child member => top (page_children member).1
      rw [nothing]
      exact List.nodup_nil
  · intro parent before node after children
    have member : node ∈ page.tree.children parent := by simp [children]
    obtain ⟨rfl, _⟩ := page_children member
    have whole : [1, 2, 3] = before ++ node :: after := children
    rcases before with _ | ⟨first, _ | ⟨second, _ | ⟨third, rest⟩⟩⟩
    all_goals simp at whole
    · obtain ⟨rfl, _⟩ := whole
      rfl
    · obtain ⟨rfl, rfl, _⟩ := whole
      rfl
    · obtain ⟨rfl, rfl, rfl, _⟩ := whole
      rfl
  · have few : ∀ node < 4, page.tree.parent? node = none →
        page.tree.previousSibling? node = none := by decide
    exact fun node has top => few node has top

theorem page_acyclic (id : Nat) : ¬ Relation.TransGen page.tree.Above id id := by
  intro cycle
  obtain ⟨above, step, _⟩ := Relation.TransGen.head'_iff.mp cycle
  obtain ⟨last, _, back⟩ := Relation.TransGen.tail'_iff.mp cycle
  obtain ⟨_, listed⟩ := page_parent step
  obtain ⟨rfl, _⟩ := page_parent back
  exact absurd listed (by decide)

theorem evaluate_selects_page :
    (∃ order, Answers page.tree .standard 0 headed order [3]) ∧
      ∃ order, Answers pageOutline.tree .standard [] headed order [[2]] := by
  constructor
  · obtain ⟨order, found, answers⟩ :=
      evaluate_selects.1 page page_consistent page_acyclic .standard 0 headed rfl
    have computed : ((build page.tree 0 .standard).evaluate page.tree headed).toList.map
        (build page.tree 0 .standard).node? = [some 3] := by decide +kernel
    have paragraph : [3] = found :=
      List.map_injective_iff.mpr (Option.some_injective Nat) (computed.symm.trans answers.resolved)
    exact ⟨order, paragraph ▸ answers⟩
  · obtain ⟨order, found, answers⟩ :=
      evaluate_selects.2 pageOutline .standard [] headed rfl
    have computed : ((build pageOutline.tree [] .standard).evaluate pageOutline.tree headed).toList.map
        (build pageOutline.tree [] .standard).node? = [some [2]] := by decide +kernel
    have paragraph : [[2]] = found :=
      List.map_injective_iff.mpr (Option.some_injective _) (computed.symm.trans answers.resolved)
    exact ⟨order, paragraph ▸ answers⟩

end TreeSelect.Index
