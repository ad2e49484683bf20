import TreeSelect.Proofs.Index.Reflection
import TreeSelect.Proofs.Tree.Kinds

/-! What the look-ups of an index answer. The elements stand in document order, their ordinals are
their places, and each table answers with exactly the places of the elements that have the key; for
an identifier, with the greatest of these. -/

namespace TreeSelect

namespace Ordinals
variable {Node : Type}

/-- The places of the elements with a property. -/
def places (elements : List Node) (holds : Node → Bool) : Ordinals :=
  (below elements.length).filter fun place => elements[place]?.any holds

/-- A look-up has no answer in place of the empty set. -/
def nonempty? (set : Ordinals) : Option Ordinals := if set.isEmpty then none else some set

@[simp] theorem mem_places (elements : List Node) (holds : Node → Bool) (place : Nat) :
    place ∈ places elements holds ↔ ∃ node, elements[place]? = some node ∧ holds node = true := by
  rw [places, mem_filter, mem_below, Option.any_eq_true]
  constructor
  · exact And.right
  · rintro ⟨node, found, satisfied⟩
    exact ⟨(List.getElem?_eq_some_iff.mp found).1, node, found, satisfied⟩

end Ordinals

namespace Tree
variable {Node : Type} {children : Node → List Node} {nodes order : List Node}

/-- Below a node there are not more levels than listed nodes that have children. -/
theorem low_of_listing (listing : Listing children nodes order) :
    ∀ node ∈ nodes, Low children (order.countP fun node => !(children node).isEmpty) node := by
  induction listing with
  | nil => exact fun node member => absurd member List.not_mem_nil
  | @cons first nodes below later _ _ deeper further =>
    intro node member
    rw [List.countP_cons, List.countP_append]
    rcases List.mem_cons.mp member with rfl | behind
    · cases leaf : (children node).isEmpty with
      | true => exact low_of_leaf (List.isEmpty_iff.mp leaf) _
      | false =>
        have levels : Low children
            ((below.countP fun node => !(children node).isEmpty) + 1) node :=
          fun child listed => deeper child listed
        exact levels.mono (by simp)
    · exact (further node behind).mono (by omega)

end Tree

namespace Index
open TreeSelect.Tree
variable {Node : Type}

/-- No set of the table is empty. -/
def Filled (table : Association String Ordinals) : Prop :=
  ∀ key set, table.get? key = some set → ∃ ordinal, ordinal ∈ set

theorem filled_enlist {table : Association String Ordinals} (filled : Filled table) (key : String)
    (ordinal : Nat) : Filled (enlist table key ordinal) := by
  intro other set found
  rw [enlist, Association.get?_alter] at found
  split at found
  next =>
    cases found
    exact ⟨ordinal, (Ordinals.mem_insert _ _ _).mpr (.inl rfl)⟩
  next => exact filled other set found

/-- A table with the given members under a key answers with the set of them. -/
theorem get?_eq_nonempty? {table : Association String Ordinals} (filled : Filled table)
    {key : String} {set : Ordinals} (members : ∀ place, Enlisted table key place ↔ place ∈ set) :
    table.get? key = set.nonempty? := by
  cases found : table.get? key with
  | none =>
    have nothing : ∀ place, place ∉ set := by
      intro place member
      obtain ⟨known, present, _⟩ := (members place).mpr member
      rw [found] at present
      cases present
    rw [Ordinals.nonempty?, if_pos (set.isEmpty_iff.mpr nothing)]
  | some known =>
    have same : known = set := by
      refine Ordinals.ext _ _ fun place => ⟨fun member => (members place).mp ⟨known, found, member⟩,
        fun member => ?_⟩
      obtain ⟨again, present, inside⟩ := (members place).mpr member
      cases found.symm.trans present
      exact inside
    obtain ⟨ordinal, member⟩ := filled key known found
    subst same
    rw [Ordinals.nonempty?, if_neg fun empty => known.isEmpty_iff.mp empty ordinal member]

section Filling
variable [DecidableEq Node] {tree : Tree Node} {convention : IdConvention}

omit [DecidableEq Node] in
theorem filled_attributes_foldl (ordinal : Nat) (list : List (String × String))
    {index : Index Node} (filled : Filled index.attributes) :
    Filled (list.foldl (addAttribute convention ordinal) index).attributes := by
  induction list generalizing index with
  | nil => exact filled
  | cons entry rest ih => exact ih (filled_enlist filled entry.1 ordinal)

theorem filled_add {index : Index Node} (types : Filled index.types)
    (attributes : Filled index.attributes) (node : Node) :
    Filled (index.add tree convention node).types ∧
      Filled (index.add tree convention node).attributes := by
  cases tagged : tree.tag? node with
  | none => simpa only [add, tagged] using ⟨types, attributes⟩
  | some tag =>
    simp only [add, tagged]
    exact ⟨filled_enlist types tag _, filled_attributes_foldl _ _ attributes⟩

theorem filled_build (tree : Tree Node) (root : Node) (convention : IdConvention) :
    Filled (build tree root convention).types ∧ Filled (build tree root convention).attributes := by
  have nothing : Filled .empty := fun key set found => by cases found
  rw [build]
  exact List.foldlRecOn (tree.preorder root) _
    (motive := fun index : Index Node => Filled index.types ∧ Filled index.attributes)
    ⟨nothing, nothing⟩ fun index filled node _ => filled_add filled.1 filled.2 node

end Filling

/-- What an index tells of the elements it was made from. -/
structure Tells [DecidableEq Node] (tree : Tree Node) (convention : IdConvention)
    (elements : List Node) (index : Index Node) : Prop where
  nodes : index.nodes.toList = elements
  inverse : ∀ node ordinal, index.ordinal? node = some ordinal ↔ index.node? ordinal = some node
  absent : ∀ node, node ∉ elements → index.ordinal? node = none
  types : ∀ tag, index.byType? tag =
    (Ordinals.places elements fun node => tree.tag? node == some tag).nonempty?
  attributes : ∀ name, index.byAttribute? name =
    (Ordinals.places elements fun node =>
      (tree.attributes node).any fun entry => entry.1 == name).nonempty?
  /-- Of all elements that carry an identifier the last one has it. -/
  ids : ∀ id, index.byId? id =
    (Ordinals.places elements fun node => (tree.attributes node).any fun entry =>
      convention.accepts entry.1 && entry.2 == id).toList.max?
  ordinals_below : ∀ node ordinal, index.ordinal? node = some ordinal → ordinal < index.size
  types_below : ∀ tag set, index.byType? tag = some set → ∀ ordinal ∈ set, ordinal < index.size
  attributes_below : ∀ name set, index.byAttribute? name = some set →
    ∀ ordinal ∈ set, ordinal < index.size
  ids_below : ∀ id ordinal, index.byId? id = some ordinal → ordinal < index.size

section Reflection
variable [DecidableEq Node] {tree : Tree Node} {convention : IdConvention} {elements : List Node}
  {index : Index Node}

theorem ids_eq_max? (reflects : Reflects tree convention elements index) (id : String) :
    index.byId? id = (Ordinals.places elements fun node => (tree.attributes node).any fun entry =>
      convention.accepts entry.1 && entry.2 == id).toList.max? := by
  have bears : ∀ node, ((tree.attributes node).any fun entry =>
      convention.accepts entry.1 && entry.2 == id) = true ↔ tree.Bears convention id node := by
    intro node
    simp only [List.any_eq_true, Bool.and_eq_true, beq_iff_eq, Prod.exists, Bears]
    constructor
    · rintro ⟨name, _, member, accepted, rfl⟩
      exact ⟨name, accepted, member⟩
    · rintro ⟨name, accepted, member⟩
      exact ⟨name, id, member, accepted, rfl⟩
  ext place
  rw [reflects.ids, List.max?_eq_some_iff]
  simp only [← Ordinals.mem_def, Ordinals.mem_places, bears]
  refine and_congr_right fun _ => ⟨?_, ?_⟩
  · rintro last other ⟨node, found, satisfied⟩
    by_contra behind
    exact last other node (Nat.lt_of_not_le behind) found satisfied
  · intro greatest later node behind found satisfied
    exact absurd (greatest later ⟨node, found, satisfied⟩) (Nat.not_le.mpr behind)

/-- An index that reflects its elements, with no empty set in its tables, tells all of them. -/
theorem Reflects.tells (reflects : Reflects tree convention elements index)
    (types : Filled index.types) (attributes : Filled index.attributes) :
    Tells tree convention elements index := by
  have size : index.size = elements.length := by
    rw [← reflects.nodes, Array.length_toList, Index.size]
  have node : ∀ place, index.node? place = elements[place]? := by
    intro place
    rw [← reflects.nodes, Array.getElem?_toList, Index.node?]
  have inside : ∀ place found, elements[place]? = some found → place < index.size := by
    intro place found listed
    rw [size]
    exact (List.getElem?_eq_some_iff.mp listed).1
  have enlisted : ∀ (table : Association String Ordinals) key set place,
      table.get? key = some set → place ∈ set → Enlisted table key place :=
    fun _ _ set _ found member => ⟨set, found, member⟩
  constructor
  · exact reflects.nodes
  · intro other place
    rw [reflects.ordinals, node]
  · intro other unlisted
    cases found : index.ordinal? other with
    | none => rfl
    | some place =>
      exact absurd (List.mem_of_getElem? ((reflects.ordinals other place).mp found)) unlisted
  · intro tag
    apply get?_eq_nonempty? types
    intro place
    rw [reflects.types, Ordinals.mem_places]
    simp only [beq_iff_eq]
  · intro name
    apply get?_eq_nonempty? attributes
    intro place
    rw [reflects.attributes, Ordinals.mem_places]
    simp only [List.any_eq_true, beq_iff_eq, Prod.exists, exists_and_right, exists_eq_right]
  · exact ids_eq_max? reflects
  · intro other place found
    exact inside place other ((reflects.ordinals other place).mp found)
  · intro tag set found place member
    obtain ⟨other, listed, _⟩ := (reflects.types tag place).mp (enlisted _ _ _ _ found member)
    exact inside place other listed
  · intro name set found place member
    obtain ⟨other, listed, _⟩ := (reflects.attributes name place).mp (enlisted _ _ _ _ found member)
    exact inside place other listed
  · intro id place found
    obtain ⟨⟨other, listed, _⟩, _⟩ := (reflects.ids id place).mp found
    exact inside place other listed

/-- Where the depth of a tree is right and no node is met twice, the index of a root tells the
elements from there on in document order. -/
theorem tells_build {root : Node} {order : List Node}
    (low : Low tree.children tree.depth root) (listing : Listing tree.children [root] order)
    (once : order.Nodup) (convention : IdConvention) :
    Tells tree convention (order.filter tree.isElement) (build tree root convention) := by
  have same := (exists_preorder low).unique listing
  have reflects : Reflects tree convention ((tree.preorder root).filter tree.isElement)
      (build tree root convention) := reflects_build (same ▸ once)
  obtain ⟨types, attributes⟩ := filled_build tree root convention
  exact (same ▸ reflects).tells types attributes

end Reflection

theorem arena_low {arena : Arena} {root : Nat} {order : List Nat}
    (listing : Listing arena.children [root] order) (once : order.Nodup) :
    Low arena.children arena.size root := by
  have levels := low_of_listing listing root (List.mem_singleton_self root)
  refine levels.mono ?_
  rw [List.countP_eq_length_filter]
  refine length_le_of_nodup (once.sublist List.filter_sublist) fun id member => ?_
  have parent := (List.mem_filter.mp member).2
  obtain ⟨child, listed⟩ := List.exists_mem_of_ne_nil (arena.children id) (by simpa using parent)
  exact Arena.has_of_children listed

theorem outline_low (outline : Outline) (root : List Nat) :
    Low outline.tree.children outline.tree.depth root := by
  by_cases has : outline.Has root
  · exact low_root outline.consistent outline.bounded has
  · have missing : outline.locate root = none := Option.not_isSome_iff_eq_none.mp has
    have leaf : outline.children root = [] := by rw [Outline.children, missing]
    exact low_of_leaf leaf _

/-- If from the root down no node of a tree is met twice, the index of the root tells the elements
from there on in document order: of an arena, of an outline, and of any tree that is not higher
than its depth says. -/
theorem build_tells :
    (∀ (arena : Arena) (root : Nat) (order : List Nat) (convention : IdConvention),
      Listing arena.tree.children [root] order → order.Nodup →
        Tells arena.tree convention (order.filter arena.tree.isElement)
          (build arena.tree root convention)) ∧
    (∀ (outline : Outline) (root : List Nat) (order : List (List Nat)) (convention : IdConvention),
      Listing outline.tree.children [root] order → order.Nodup →
        Tells outline.tree convention (order.filter outline.tree.isElement)
          (build outline.tree root convention)) ∧
    ∀ (Node : Type) [DecidableEq Node] (tree : Tree Node) (root : Node) (order : List Node)
      (convention : IdConvention), Low tree.children tree.depth root →
        Listing tree.children [root] order → order.Nodup →
          Tells tree convention (order.filter tree.isElement) (build tree root convention) := by
  refine ⟨?_, ?_, ?_⟩
  · intro arena root order convention listing once
    exact tells_build (arena_low listing once) listing once convention
  · intro outline root order convention listing once
    exact tells_build (outline_low outline root) listing once convention
  · intro Node _ tree root order convention low listing once
    exact tells_build low listing once convention

/-- A top without a label, two paragraphs one below the other, and a quotation. The identifier "x"
is given three times, once by a second attribute of one name. -/
def repeating : Outline := ⟨[
  ⟨none, [("id", "x")], 0⟩,
  ⟨some "p", [("id", "x"), ("Name", "y")], 0⟩,
  ⟨some "p", [("id", "z"), ("id", "x")], 1⟩,
  ⟨some "q", [("name", "y"), ("class", "x")], 0⟩]⟩

theorem listing_repeating :
    Listing repeating.tree.children [[]] [[], [0], [0, 0], [1]] := by
  have order : repeating.tree.preorder [] = [[], [0], [0, 0], [1]] := by decide
  exact order ▸ exists_preorder (outline_low repeating [])

theorem build_tells_repeating :
    Low repeating.tree.children repeating.tree.depth [] ∧ [[], [0], [0, 0], [1]].Nodup ∧
      (build repeating.tree [] .standard).nodes.toList = [[0], [0, 0], [1]] ∧
      (build repeating.tree [] .standard).byId? "x" = some 1 ∧
      (build repeating.tree [] .standard).byId? "y" = some 2 ∧
      (build repeating.tree [] .standard).byType? "p" = some (.below 2) ∧
      (build repeating.tree [] .standard).byAttribute? "Class" = none := by
  have low := outline_low repeating []
  have once : ([[], [0], [0, 0], [1]] : List (List Nat)).Nodup := by decide
  have tells :=
    build_tells.2.2 (List Nat) repeating.tree [] _ .standard low listing_repeating once
  exact ⟨low, once, tells.nodes.trans (by decide), (tells.ids "x").trans (by decide),
    (tells.ids "y").trans (by decide), (tells.types "p").trans (by decide),
    (tells.attributes "Class").trans (by decide)⟩

end Index
end TreeSelect
