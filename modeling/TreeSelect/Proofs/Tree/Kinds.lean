import Mathlib.Data.Finset.Card
import TreeSelect.Proofs.Tree.Listing
import TreeSelect.Tree.Arena
import TreeSelect.Tree.Outline

/-! The two kinds of trees. In an arena whose navigation agrees, the numbers of the nodes bound
every line. The nodes of an outline are located paths; their navigation always agrees, since the
entries on the way to a node are distinct. -/

namespace TreeSelect
open Relation TreeSelect.Tree

/-- Distinct numbers below a bound are not more than the bound. -/
theorem length_le_of_nodup {numbers : List Nat} {bound : Nat} (distinct : numbers.Nodup)
    (below : ∀ number ∈ numbers, number < bound) : numbers.length ≤ bound := by
  have subset : numbers.toFinset ⊆ Finset.range bound := fun number member =>
    Finset.mem_range.mpr (below number (List.mem_toFinset.mp member))
  have count := Finset.card_le_card subset
  rwa [List.toFinset_card_of_nodup distinct, Finset.card_range] at count

namespace Arena
variable {arena : Arena}

/-- The nodes that have been made. -/
def Has (arena : Arena) (id : Nat) : Prop := id < arena.size

theorem has_of_parent {id above : Nat} (parent : arena.parent? id = some above) :
    arena.Has id := by
  cases found : arena.nodes[id]? with
  | none => simp [Arena.parent?, Arena.get?, found] at parent
  | some node => exact (Array.getElem?_eq_some_iff.mp found).1

theorem has_of_children {id child : Nat} (listed : child ∈ arena.children id) : arena.Has id := by
  cases found : arena.nodes[id]? with
  | none => simp [Arena.children, Arena.get?, found] at listed
  | some node => exact (Array.getElem?_eq_some_iff.mp found).1

/-- Numbers bound the lines of an arena in which no node is above itself. -/
theorem bounded (consistent : arena.tree.Consistent arena.Has)
    (acyclic : ∀ id, ¬ TransGen arena.tree.Above id id) : arena.tree.Bounded arena.Has := by
  have parents : ∀ node other, TransGen arena.tree.Above node other → arena.Has other := by
    intro node other reached
    obtain ⟨last, _, step⟩ := TransGen.tail'_iff.mp reached
    exact has_of_children (consistent.lists last other (has_of_parent step) step)
  constructor
  · intro node has
    have distinct := nodup_walk acyclic arena.size node
    have few : (walk arena.tree.parent? arena.size node).length < arena.size := by
      refine length_le_of_nodup distinct fun other member => ?_
      rcases List.mem_cons.mp member with rfl | deeper
      · exact has
      · exact parents node other (reached_of_mem_walk deeper)
    exact ⟨_, line_of_walk few, few, Nat.le_of_lt few⟩
  · intro parent before node after children
    have few : (arena.tree.children parent).length ≤ arena.size :=
      length_le_of_nodup (consistent.once parent) fun child member =>
        (consistent.listed parent child member).1
    rw [children, List.length_append] at few
    show before.length ≤ arena.size
    omega

end Arena

namespace Outline
variable {outline : Outline}

/-- The paths that lead to an entry. -/
def Has (outline : Outline) (path : List Nat) : Prop := (outline.locate path).isSome = true

theorem mem_belonging {owner child : Nat} : child ∈ outline.belonging owner ↔
    0 < child ∧ ∃ entry, outline.entries[child]? = some entry ∧ entry.parent = owner := by
  simp only [belonging, List.mem_map, List.mem_filter, Bool.and_eq_true, decide_eq_true_eq,
    List.mem_zipIdx_iff_getElem?, Prod.exists]
  constructor
  · rintro ⟨entry, index, ⟨listed, positive, owned⟩, rfl⟩
    exact ⟨positive, entry, listed, owned⟩
  · rintro ⟨positive, entry, listed, owned⟩
    exact ⟨entry, child, ⟨listed, positive, owned⟩, rfl⟩

theorem locateFrom_append (outline : Outline) (entry : Nat) (path : List Nat) (position : Nat) :
    outline.locateFrom entry (path ++ [position]) =
      (outline.locateFrom entry path).bind fun last => (outline.belonging last)[position]? := by
  induction path generalizing entry with
  | nil => cases found : (outline.belonging entry)[position]? <;> simp [locateFrom, found]
  | cons first rest ih =>
    rw [List.cons_append, locateFrom, locateFrom]
    cases (outline.belonging entry)[first]? with
    | none => rfl
    | some child => exact ih child

theorem locate_append (outline : Outline) (path : List Nat) (position : Nat) :
    outline.locate (path ++ [position]) =
      (outline.locate path).bind fun last => (outline.belonging last)[position]? := by
  rw [locate, locate]
  split
  · rfl
  · exact outline.locateFrom_append 0 path position

theorem has_append_iff (outline : Outline) (path : List Nat) (position : Nat) :
    outline.Has (path ++ [position]) ↔ ∃ entry, outline.locate path = some entry ∧
      position < (outline.belonging entry).length := by
  unfold Has
  rw [locate_append]
  cases located : outline.locate path with
  | none => simp
  | some entry => simp

theorem mem_children {path child : List Nat} :
    child ∈ outline.children path ↔
      ∃ position, child = path ++ [position] ∧ outline.Has (path ++ [position]) := by
  simp only [has_append_iff, children]
  cases located : outline.locate path with
  | none => simp
  | some entry =>
    simp only [List.mem_map, List.mem_range, Option.some.injEq]
    constructor
    · rintro ⟨position, low, rfl⟩
      exact ⟨position, rfl, entry, rfl, low⟩
    · rintro ⟨position, rfl, _, rfl, low⟩
      exact ⟨position, low, rfl⟩

/-- A child's place among the children is the last number of its path. -/
theorem children_split {path node : List Nat} {before after : List (List Nat)}
    (split : outline.children path = before ++ node :: after) :
    node = path ++ [before.length] ∧ before = (List.range before.length).map (path ++ [·]) := by
  rw [children] at split
  cases located : outline.locate path with
  | none => simp [located] at split
  | some entry =>
    simp only [located] at split
    have few : before.length < (outline.belonging entry).length := by
      have count := congrArg List.length split
      simp only [List.length_map, List.length_range, List.length_append, List.length_cons] at count
      omega
    constructor
    · have place := congrArg (·[before.length]?) split
      simpa [few] using place.symm
    · have front := congrArg (List.take before.length) split
      rw [List.take_left, ← List.map_take, List.take_range, Nat.min_eq_left (Nat.le_of_lt few)]
        at front
      exact front.symm

/-- The entry that another one belongs to. -/
def owner? (outline : Outline) (entry : Nat) : Option Nat :=
  if entry = 0 then none else outline.entries[entry]?.map OutlineEntry.parent

/-- The owners of the entry that a path leads to are as many as the steps of the path. -/
theorem line_of_locate {path : List Nat} {entry : Nat} (located : outline.locate path = some entry) :
    ∃ line, Line outline.owner? entry line ∧ line.length = path.length ∧
      ∀ other ∈ entry :: line, other < outline.entries.length := by
  induction path using List.reverseRecOn generalizing entry with
  | nil =>
    unfold locate at located
    split at located
    next => cases located
    next full =>
      cases located
      refine ⟨[], .done rfl, rfl, fun other member => ?_⟩
      rw [List.mem_singleton.mp member]
      exact List.length_pos_iff.mpr (by simpa using full)
  | append_singleton path position ih =>
    rw [locate_append, Option.bind_eq_some_iff] at located
    obtain ⟨last, leads, found⟩ := located
    obtain ⟨positive, content, listed, owner⟩ := mem_belonging.mp (List.mem_of_getElem? found)
    obtain ⟨line, lined, count, small⟩ := ih leads
    have step : outline.owner? entry = some last := by
      simp [owner?, Nat.ne_of_gt positive, listed, owner]
    refine ⟨last :: line, .more step lined, by simp [count], fun other member => ?_⟩
    rcases List.mem_cons.mp member with rfl | deeper
    · exact (List.getElem?_eq_some_iff.mp listed).1
    · exact small other deeper

theorem length_lt_of_has {path : List Nat} (has : outline.Has path) :
    path.length < outline.entries.length := by
  obtain ⟨entry, located⟩ := Option.isSome_iff_exists.mp has
  obtain ⟨line, lined, count, small⟩ := line_of_locate located
  have few := length_le_of_nodup lined.nodup small
  rw [List.length_cons, count] at few
  exact few

theorem parent?_append (path : List Nat) (position : Nat) :
    Outline.parent? (path ++ [position]) = some path := by
  simp [Outline.parent?]

theorem line_of_path (path : List Nat) :
    ∃ line, Line Outline.parent? path line ∧ line.length = path.length := by
  induction path using List.reverseRecOn with
  | nil => exact ⟨[], .done rfl, rfl⟩
  | append_singleton path position ih =>
    obtain ⟨line, lined, count⟩ := ih
    exact ⟨path :: line, .more (parent?_append path position) lined, by simp [count]⟩

theorem previousSibling?_append (path : List Nat) (position : Nat) :
    Outline.previousSibling? (path ++ [position]) =
      ((List.range position).map (path ++ [·])).getLast? := by
  cases position with
  | zero => simp [Outline.previousSibling?]
  | succ position => simp [Outline.previousSibling?, List.range_succ]

theorem nodup_children (outline : Outline) (path : List Nat) : (outline.children path).Nodup := by
  rw [children]
  cases outline.locate path with
  | none => exact List.nodup_nil
  | some entry =>
    refine List.nodup_range.map fun first second same => ?_
    exact (List.cons.inj (List.append_cancel_left same)).1

/-- However the entries of an outline belong to each other, its paths form a tree. -/
theorem consistent (outline : Outline) : outline.tree.Consistent outline.Has := by
  constructor
  · intro node child member
    obtain ⟨position, rfl, has⟩ := mem_children.mp member
    exact ⟨has, parent?_append node position⟩
  · intro node parent has above
    cases node using List.reverseRecOn with
    | nil => cases above
    | append_singleton path position =>
      cases (parent?_append path position).symm.trans above
      exact mem_children.mpr ⟨position, rfl, has⟩
  · exact outline.nodup_children
  · intro parent before node after split
    obtain ⟨rfl, whole⟩ := children_split split
    show Outline.previousSibling? _ = _
    rw [previousSibling?_append, ← whole]
  · intro node _ top
    cases node using List.reverseRecOn with
    | nil => rfl
    | append_singleton path position =>
      cases (parent?_append path position).symm.trans top

theorem bounded (outline : Outline) : outline.tree.Bounded outline.Has := by
  constructor
  · intro node has
    obtain ⟨line, lined, count⟩ := line_of_path node
    exact ⟨line, lined, count ▸ length_lt_of_has has, by
      rw [count]
      exact Nat.le_add_right ..⟩
  · intro parent before node after split
    have place := (children_split split).1
    subst place
    show before.length ≤ _ + _
    simp

end Outline
end TreeSelect
