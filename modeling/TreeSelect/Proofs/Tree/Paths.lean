import Mathlib.Data.List.Nodup
import TreeSelect.Proofs.Tree.Image
import TreeSelect.Proofs.Tree.Links
import TreeSelect.Ordinals

/-! An arena that grew by appending new nodes is an outline. Its nodes, in the order in which they
were made, are the entries; and the path of a node, the places among the children that lead to it,
carries every way to move about in the arena to that of the outline. -/

namespace TreeSelect

/-- Only elements have a label and attributes. -/
def Content.label? : Content → Option String
  | .element content => some content.tag
  | _ => none

def Content.attributes : Content → List (String × String)
  | .element content => content.attributes.entries
  | _ => []

namespace Arena
open TreeSelect.Tree

variable {arena later : Arena} {parent child : Nat}

/-- The entries are the nodes. -/
def outline (arena : Arena) : Outline :=
  ⟨arena.nodes.toList.map fun node =>
    ⟨node.content.label?, node.content.attributes, node.parent.getD 0⟩⟩

/-- The places among the children that lead to a node from `limit` nodes above it at most. -/
def pathFrom (arena : Arena) : (limit : Nat) → Nat → List Nat
  | 0, _ => []
  | limit + 1, id =>
      match arena.parent? id with
      | none => []
      | some parent => arena.pathFrom limit parent ++ [(arena.children parent).idxOf id]

def path (arena : Arena) (id : Nat) : List Nat := arena.pathFrom arena.size id

/-- Every node but the document was appended to an older one. -/
structure Grown (arena : Arena) : Prop where
  linked : arena.Linked
  forest : arena.Forest
  rooted : 0 < arena.size
  older : ∀ id parent, arena.parent? id = some parent → parent < id
  top : ∀ id, id < arena.size → arena.parent? id = none → id = 0
  increasing : ∀ id, (arena.children id).Pairwise (· < ·)

theorem grown_new : new.Grown := by
  refine ⟨linked_new, forest_new, Nat.one_pos, fun id parent above => ?_, fun id small _ => ?_,
    fun id => ?_⟩
  · simp [bare_new] at above
  · exact Nat.lt_one_iff.mp small
  · simp [bare_new]

theorem Grown.append_new (grown : arena.Grown) {content : Content} (above : parent < arena.size)
    (appended : Appended (arena.alloc content).2 parent arena.size later) : later.Grown := by
  have size : later.size = arena.size + 1 := appended.size.trans (size_alloc arena content)
  have parents := appended.parents
  have lists := appended.lists
  rw [parent?_alloc] at parents
  rw [children_alloc] at lists
  refine ⟨grown.linked.append_new above appended,
    grown.forest.append_new grown.linked above appended, by omega, fun id parent above => ?_,
    fun id small alone => ?_, fun id => ?_⟩
  · rw [parents] at above
    split at above
    next own =>
      cases above
      omega
    next => exact grown.older id parent above
  · rw [parents] at alone
    split at alone
    next => cases alone
    next other => exact grown.top id (by omega) alone
  · rw [lists]
    split
    next =>
      refine List.pairwise_append.mpr ⟨grown.increasing parent, List.pairwise_singleton .., ?_⟩
      intro older member newest new
      rw [List.mem_singleton.mp new]
      exact grown.linked.children_lt parent older member
    next => exact grown.increasing id

theorem Grown.run (grown : arena.Grown) {commands : List Command}
    (appends : ∀ command ∈ commands, command.appends = true)
    (known : Known arena.size commands) :
    ∃ last, commands.foldlM perform? arena = some last ∧ last.Grown := by
  induction commands generalizing arena with
  | nil => exact ⟨arena, rfl, grown⟩
  | cons command commands ih =>
    obtain ⟨parent, above, content, later, performed, size, appended⟩ :=
      exists_perform (appends command (List.mem_cons_self ..)) known.1
    obtain ⟨last, ran, kept⟩ := ih (grown.append_new above appended)
      (fun other member => appends other (List.mem_cons_of_mem _ member)) (size ▸ known.2)
    exact ⟨last, by rw [List.foldlM_cons, performed]; exact ran, kept⟩

theorem path_top {id : Nat} (top : arena.parent? id = none) : arena.path id = [] := by
  unfold path
  cases arena.size with
  | zero => rfl
  | succ limit => rw [pathFrom, top]

theorem entries_outline (arena : Arena) (id : Nat) :
    arena.outline.entries[id]? = (arena.get? id).map fun node =>
      ⟨node.content.label?, node.content.attributes, node.parent.getD 0⟩ := by
  simp [outline, Arena.get?]

section Outline
variable (grown : arena.Grown)
include grown

/-- As parents are older, a node has at most as many nodes above it as its number. -/
theorem Grown.pathFrom_eq {id limit : Nat} (enough : id ≤ limit) :
    arena.pathFrom limit id = arena.pathFrom id id := by
  induction id using Nat.strong_induction_on generalizing limit with
  | h id ih =>
    cases above : arena.parent? id with
    | none => cases limit <;> cases id <;> simp [pathFrom, above]
    | some parent =>
      have older := grown.older id parent above
      obtain ⟨limit, rfl⟩ := Nat.exists_eq_add_one_of_ne_zero (by omega : limit ≠ 0)
      obtain ⟨id, rfl⟩ := Nat.exists_eq_add_one_of_ne_zero (by omega : id ≠ 0)
      simp only [pathFrom, above]
      rw [ih parent older (by omega : parent ≤ limit), ih parent older (by omega : parent ≤ id)]

theorem Grown.path_under {id parent : Nat} (above : arena.parent? id = some parent) :
    arena.path id = arena.path parent ++ [(arena.children parent).idxOf id] := by
  have older := grown.older id parent above
  have known : id < arena.size := has_of_parent above
  unfold path
  obtain ⟨limit, more⟩ := Nat.exists_eq_add_one_of_ne_zero (by omega : arena.size ≠ 0)
  rw [grown.pathFrom_eq (by omega : parent ≤ arena.size), more, pathFrom, above]
  exact congrArg (· ++ _) (grown.pathFrom_eq (by omega))

/-- The entries that belong to one are its children. -/
theorem Grown.belonging_outline (owner : Nat) :
    arena.outline.belonging owner = arena.children owner := by
  have ordered : (arena.outline.belonging owner).Pairwise (· < ·) := by
    refine List.Pairwise.sublist (List.filter_sublist.map Prod.snd) ?_
    rw [List.zipIdx_map_snd]
    exact List.pairwise_lt_range'
  refine congrArg Ordinals.toList
    (Ordinals.ext ⟨_, ordered⟩ ⟨_, grown.increasing owner⟩ fun child => ?_)
  rw [Ordinals.mem_def, Ordinals.mem_def, grown.forest.listed, Outline.mem_belonging,
    entries_outline, Arena.parent?]
  cases found : arena.get? child with
  | none => simp
  | some node =>
    have above : arena.parent? child = node.parent := by rw [Arena.parent?, found]; rfl
    cases parent : node.parent with
    | none =>
      have first := grown.top child (Array.getElem?_eq_some_iff.mp found).1 (above.trans parent)
      simp [first, parent]
    | some other =>
      have older := grown.older child other (above.trans parent)
      simp [parent]
      omega

/-- The path of a node leads to its entry. -/
theorem Grown.locate_path {id : Nat} (known : arena.Has id) :
    arena.outline.locate (arena.path id) = some id := by
  induction id using Nat.strong_induction_on with
  | h id ih =>
    cases above : arena.parent? id with
    | none =>
      rw [path_top above, grown.top id known above]
      have full : arena.nodes ≠ #[] := Array.size_pos_iff.mp grown.rooted
      exact if_neg (by simp [outline, full])
    | some parent =>
      have leads := ih parent (grown.older id parent above)
        (grown.linked.parent_lt id parent above)
      rw [grown.path_under above, Outline.locate_append, leads, Option.bind_some,
        grown.belonging_outline]
      exact List.getElem?_idxOf ((grown.forest.listed parent id).mpr above)

theorem Grown.path_injective {first second : Nat} (known : arena.Has first)
    (other : arena.Has second) (same : arena.path first = arena.path second) : first = second := by
  have located := grown.locate_path known
  rw [same, grown.locate_path other] at located
  exact (Option.some.inj located).symm

theorem Grown.children_path {id : Nat} (known : arena.Has id) :
    arena.outline.children (arena.path id) = (arena.children id).map arena.path := by
  rw [Outline.children, grown.locate_path known]
  simp only [grown.belonging_outline]
  refine List.ext_getElem (by simp) fun place first second => ?_
  have low : place < (arena.children id).length := by simpa using second
  have above := (grown.forest.listed id _).mp (List.getElem_mem low)
  simp [grown.path_under above, (grown.forest.once id).idxOf_getElem]

/-- Only the paths of nodes lead somewhere. -/
theorem Grown.exists_path {path : List Nat} (leads : arena.outline.Has path) :
    ∃ id, arena.Has id ∧ arena.path id = path := by
  induction path using List.reverseRecOn with
  | nil =>
    have top : arena.parent? 0 = none := Option.eq_none_iff_forall_ne_some.mpr
      fun parent above => Nat.not_lt_zero parent (grown.older 0 parent above)
    exact ⟨0, grown.rooted, path_top top⟩
  | append_singleton path position ih =>
    obtain ⟨entry, located, low⟩ := (Outline.has_append_iff ..).mp leads
    obtain ⟨id, known, rfl⟩ := ih (by rw [Outline.Has, located]; rfl)
    have same : id = entry := Option.some.inj ((grown.locate_path known).symm.trans located)
    subst same
    rw [grown.belonging_outline] at low
    have member := List.getElem_mem low
    refine ⟨_, grown.linked.children_lt id _ member, ?_⟩
    rw [grown.path_under ((grown.forest.listed id _).mp member),
      (grown.forest.once id).idxOf_getElem]

/-- The paths of nodes lie to each other as the nodes do. -/
theorem Grown.mirrors : Mirrors arena.tree arena.Has arena.outline.tree arena.path := by
  have reads : ∀ id, arena.Has id → arena.outline.entry? (arena.path id) =
      (arena.get? id).map fun node =>
        ⟨node.content.label?, node.content.attributes, node.parent.getD 0⟩ := by
    intro id known
    rw [Outline.entry?, grown.locate_path known, Option.bind_some, entries_outline]
  have attributes : ∀ id, arena.Has id →
      arena.outline.tree.attributes (arena.path id) = arena.tree.attributes id := by
    intro id known
    simp only [Outline.tree, reads id known, tree, Arena.element?]
    rcases arena.get? id with _ | ⟨_ | _ | _, _, _, _⟩ <;> rfl
  constructor
  · exact fun first second => grown.path_injective
  · intro id known
    simp only [Outline.tree, reads id known, tree, Arena.element?]
    rcases arena.get? id with _ | ⟨_ | _ | _, _, _, _⟩ <;> rfl
  · exact attributes
  · intro id known name
    show Association.find name (arena.outline.tree.attributes (arena.path id)) = _
    rw [attributes id known]
    simp only [tree]
    cases arena.element? id <;> rfl
  · intro id known
    show Outline.parent? _ = (arena.parent? id).map _
    cases above : arena.parent? id with
    | none => rw [path_top above]; rfl
    | some parent => rw [grown.path_under above, Outline.parent?_append]; rfl
  · exact fun id known => grown.children_path known
  · intro id known
    show Outline.previousSibling? _ = (arena.previousSibling? id).map _
    cases above : arena.parent? id with
    | none =>
      rw [path_top above, (grown.linked.detached id above).2]
      rfl
    | some parent =>
      obtain ⟨before, after, split, _, sibling⟩ := grown.linked.attached id parent above
      have images := grown.children_path (grown.linked.parent_lt id parent above)
      rw [split, List.map_append, List.map_cons] at images
      rw [sibling, ← List.getLast?_map]
      exact arena.outline.consistent.previous _ _ _ _ images

theorem Grown.likeness :
    Likeness arena.tree arena.Has arena.outline.tree arena.outline.Has arena.path := by
  have consistent := grown.linked.consistent grown.forest.listed grown.forest.once
  refine ⟨grown.mirrors, grown.linked.parent_lt, fun id known => ?_, consistent,
    arena.bounded consistent grown.forest.acyclic, arena.outline.consistent, arena.outline.bounded⟩
  rw [Outline.Has, grown.locate_path known]
  rfl

end Outline

end Arena
end TreeSelect
