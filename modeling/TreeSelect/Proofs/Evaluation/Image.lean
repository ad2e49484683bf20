import TreeSelect.Evaluation
import TreeSelect.Proofs.Index.Lookup
import TreeSelect.Proofs.Tree.Image

/-! Selectors in a tree and in its image. The indexes of a root and of its image have the same
tables, with the image of a node wherever the one has the node; so every selector describes the same
ordinals in both. -/

namespace TreeSelect.Index
open TreeSelect.Tree

variable {Node Image : Type} [DecidableEq Node] [DecidableEq Image] {tree : Tree Node}
  {other : Tree Image} {Has : Node → Prop} {Shown : Image → Prop} {image : Node → Image}

/-- The one index has the image of every node in the place of the node. -/
structure Alike (Has : Node → Prop) (image : Node → Image) (index : Index Node)
    (shown : Index Image) : Prop where
  node? : ∀ ordinal, shown.node? ordinal = (index.node? ordinal).map image
  known : ∀ ordinal node, index.node? ordinal = some node → Has node
  ordinal? : ∀ node, Has node → shown.ordinal? (image node) = index.ordinal? node
  size : shown.size = index.size
  byId? : shown.byId? = index.byId?
  byType? : shown.byType? = index.byType?
  byAttribute? : shown.byAttribute? = index.byAttribute?

omit [DecidableEq Node] [DecidableEq Image] in
theorem places_map (elements : List Node) {holds : Node → Bool} {seen : Image → Bool}
    (same : ∀ node ∈ elements, seen (image node) = holds node) :
    Ordinals.places (elements.map image) seen = Ordinals.places elements holds := by
  apply Ordinals.ext
  intro place
  rw [Ordinals.mem_places, Ordinals.mem_places, List.getElem?_map]
  cases found : elements[place]? with
  | none => simp
  | some node => simp [same node (List.mem_of_getElem? found)]

theorem alike_build (likeness : Likeness tree Has other Shown image) {root : Node}
    (has : Has root) (convention : IdConvention) :
    Alike Has image (build tree root convention) (build other (image root) convention) := by
  let elements := (tree.preorder root).filter tree.isElement
  have known : ∀ node ∈ elements, Has node := fun node member =>
    has_of_mem_preorder likeness.consistent likeness.bounded has (List.mem_of_mem_filter member)
  have low := low_root likeness.consistent likeness.bounded has
  have lowImage := low_root likeness.consistentImage likeness.boundedImage
    (likeness.shows root has)
  have once := nodup_preorder likeness.consistent likeness.bounded has
  have onceImage := nodup_preorder likeness.consistentImage likeness.boundedImage
    (likeness.shows root has)
  have tells := tells_build low (exists_preorder low) once convention
  have tellsImage := tells_build lowImage (exists_preorder lowImage) onceImage convention
  have images : (other.preorder (image root)).filter other.isElement = elements.map image := by
    rw [likeness.preorder has, List.filter_map]
    congr 1
    exact List.filter_congr fun node member => likeness.isElement
      (has_of_mem_preorder likeness.consistent likeness.bounded has member)
  change Tells tree convention elements _ at tells
  rw [images] at tellsImage
  have nodes (ordinal : Nat) : (build tree root convention).node? ordinal = elements[ordinal]? := by
    rw [Index.node?, ← tells.nodes, Array.getElem?_toList]
  have nodesImage (ordinal : Nat) : (build other (image root) convention).node? ordinal =
      (elements[ordinal]?).map image := by
    rw [Index.node?, ← Array.getElem?_toList, tellsImage.nodes, List.getElem?_map]
  have attributes : ∀ node ∈ elements, other.attributes (image node) = tree.attributes node :=
    fun node member => likeness.attributes node (known node member)
  constructor
  · exact fun ordinal => by rw [nodes, nodesImage]
  · exact fun ordinal node found => known node (List.mem_of_getElem? (nodes ordinal ▸ found))
  · intro node has
    ext ordinal
    rw [tellsImage.inverse, tells.inverse, nodes, nodesImage, Option.map_eq_some_iff]
    constructor
    · rintro ⟨first, found, same⟩
      rw [← likeness.apart first node (known first (List.mem_of_getElem? found)) has same]
      exact found
    · exact fun found => ⟨node, found, rfl⟩
  · rw [Index.size, ← Array.length_toList, tellsImage.nodes, List.length_map, ← tells.nodes]
    rfl
  · funext id
    rw [tellsImage.ids, tells.ids,
      places_map elements fun node member => by rw [attributes node member]]
  · funext tag
    rw [tellsImage.types, tells.types,
      places_map elements fun node member => by rw [likeness.tag? node (known node member)]]
  · funext name
    rw [tellsImage.attributes, tells.attributes,
      places_map elements fun node member => by rw [attributes node member]]

section Alike
variable {index : Index Node} {shown : Index Image}
  (likeness : Likeness tree Has other Shown image) (alike : Alike Has image index shown)
include likeness alike

theorem compares_image (name : String) (comparison : Comparison) (literal : String) :
    shown.compares other name comparison literal = index.compares tree name comparison literal := by
  funext ordinal
  rw [compares, alike.node?, compares]
  cases found : index.node? ordinal with
  | none => rfl
  | some node =>
    simp only [Option.map_some, Option.bind_some]
    rw [likeness.attribute? node (alike.known ordinal node found)]

theorem restrict?_image (known : Option Ordinals) (condition : SimpleSelector) :
    shown.restrict? other known condition = index.restrict? tree known condition := by
  rcases condition with tag | _ | name | ⟨name, _ | _⟩ | _
  · rw [restrict?, alike.byType?, restrict?]
  · rfl
  · rw [restrict?, alike.byId?, restrict?]
  · rw [restrict?, alike.byAttribute?, restrict?]
  · rw [restrict?, alike.byAttribute?, compares_image likeness alike, restrict?]
  · rfl

theorem candidatesAmong_image (compound : Compound) (known : Option Ordinals) :
    shown.candidatesAmong other known compound = index.candidatesAmong tree known compound := by
  induction compound generalizing known with
  | nil => rw [candidatesAmong, Index.all, alike.size, candidatesAmong, Index.all]
  | cons condition rest ih =>
    rw [candidatesAmong, restrict?_image likeness alike, candidatesAmong]
    simp only [ih]

theorem candidates_image (compound : Compound) :
    shown.candidates other compound = index.candidates tree compound :=
  candidatesAmong_image likeness alike compound none

omit likeness in
theorem isMember_image (set : Ordinals) {node : Node} (has : Has node) :
    shown.isMember set (image node) = index.isMember set node := by
  rw [isMember, alike.ordinal? node has, isMember]

omit likeness in
theorem any_image (set : Ordinals) {nodes : List Node} (each : ∀ node ∈ nodes, Has node) :
    (nodes.map image).any (shown.isMember set) = nodes.any (index.isMember set) := by
  induction nodes with
  | nil => rfl
  | cons node nodes ih =>
    rw [List.map_cons, List.any_cons, List.any_cons,
      isMember_image alike set (each node (List.mem_cons_self ..)),
      ih fun later member => each later (List.mem_cons_of_mem _ member)]

theorem isRelated_image (combinator : Combinator) {node : Node} (has : Has node)
    (left : Ordinals) :
    shown.isRelated other combinator (image node) left =
      index.isRelated tree combinator node left := by
  cases combinator with
  | descendant =>
    rw [isRelated, likeness.ancestors has, isRelated,
      any_image alike left (likeness.has_of_ancestor has)]
  | child =>
    rw [isRelated, likeness.parent? node has, isRelated]
    cases above : tree.parent? node with
    | none => rfl
    | some parent => exact isMember_image alike left (likeness.climbs node parent above)
  | nextSibling =>
    rw [isRelated, likeness.previousElementSibling? has, isRelated]
    cases found : tree.previousElementSibling? node with
    | none => rfl
    | some sibling =>
      exact isMember_image alike left
        ((likeness.precedingSiblings has).2 sibling (List.mem_of_find?_eq_some found))
  | laterSibling =>
    rw [isRelated, likeness.precedingElements has, isRelated]
    exact any_image alike left fun sibling member =>
      (likeness.precedingSiblings has).2 sibling (List.mem_of_mem_filter member)

theorem keepRelated_image (pairs : List (Compound × Combinator)) (found : Ordinals) :
    shown.keepRelated other pairs found = index.keepRelated tree pairs found := by
  induction pairs generalizing found with
  | nil => rfl
  | cons pair pairs ih =>
    rcases pair with ⟨compound, combinator⟩
    rw [keepRelated, keepRelated]
    split
    · rfl
    · refine (ih _).trans (congrArg (fun keep => index.keepRelated tree pairs (found.filter keep)) ?_)
      funext ordinal
      rw [alike.node?]
      cases found : index.node? ordinal with
      | none => rfl
      | some node =>
        rw [candidates_image likeness alike]
        exact isRelated_image likeness alike combinator (alike.known ordinal node found) _

/-- A selector describes the same ordinals. -/
theorem evaluate_image (selector : ComplexSelector) :
    shown.evaluate other selector = index.evaluate tree selector := by
  rw [evaluate, evaluate]
  cases selector.compounds.getLast? with
  | none => rfl
  | some anchor =>
    simp only [keepRelated_image likeness alike, candidates_image likeness alike]

end Alike
end TreeSelect.Index
