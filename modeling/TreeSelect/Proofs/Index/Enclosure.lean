import TreeSelect.Proofs.Index.Reflection

/-! Every ordinal that an index knows is the one of an element. This holds of any index that is
built, even where the tree leads to a node twice. -/

namespace TreeSelect.Index
variable {Node : Type} {tree : Tree Node} {convention : IdConvention} {index : Index Node}

/-- No table holds an ordinal that is not below the number of elements. -/
structure Enclosed (index : Index Node) : Prop where
  ids : ∀ id ordinal, index.byId? id = some ordinal → ordinal < index.size
  types : ∀ tag ordinal, Enlisted index.types tag ordinal → ordinal < index.size
  attributes : ∀ name ordinal, Enlisted index.attributes name ordinal → ordinal < index.size

theorem enclosed_empty : Enclosed (empty : Index Node) := by
  constructor
  · intro id ordinal found
    cases found
  · rintro tag ordinal ⟨set, found, -⟩
    cases found
  · rintro name ordinal ⟨set, found, -⟩
    cases found

theorem node?_of_lt {place : Nat} (inside : place < index.size) :
    ∃ node, index.node? place = some node :=
  ⟨_, Array.getElem?_eq_getElem inside⟩

variable [DecidableEq Node]

theorem Enclosed.add (enclosed : Enclosed index) (node : Node) :
    Enclosed (index.add tree convention node) := by
  cases tagged : tree.tag? node with
  | none => simpa only [Index.add, tagged] using enclosed
  | some tag =>
    have grown : (index.add tree convention node).size = index.size + 1 := by
      simp [Index.add, tagged, Index.size]
    -- what was known stays below, and the new element comes right behind
    have below (ordinal : Nat) : ordinal = index.size ∨ ordinal < index.size →
        ordinal < index.size + 1 := by omega
    constructor
    · intro id ordinal found
      simp only [Index.add, tagged, Index.byId?, ids_foldl] at found
      rw [grown]
      exact below ordinal (found.imp And.right fun old => enclosed.ids id ordinal old.2)
    · intro key ordinal found
      simp only [Index.add, tagged, enlisted_enlist] at found
      rw [grown]
      exact below ordinal (found.imp And.right (enclosed.types key ordinal))
    · intro name ordinal found
      simp only [Index.add, tagged, attributes_foldl] at found
      rw [grown]
      exact below ordinal (found.symm.imp And.left (enclosed.attributes name ordinal))

theorem enclosed_build (tree : Tree Node) (root : Node) (convention : IdConvention) :
    Enclosed (build tree root convention) :=
  List.foldlRecOn (tree.preorder root) _ enclosed_empty fun _ enclosed node _ => enclosed.add node

section Reflection
variable {elements : List Node} (reflects : Reflects tree convention elements index)
include reflects

theorem Reflects.size_eq : index.size = elements.length := by
  rw [← reflects.nodes, Array.length_toList]
  rfl

/-- The elements from which an index was made enclose its tables. -/
theorem Reflects.enclosed : Enclosed index := by
  constructor
  · intro id ordinal found
    obtain ⟨⟨node, listed, _⟩, _⟩ := (reflects.ids id ordinal).mp found
    exact reflects.size_eq ▸ (List.getElem?_eq_some_iff.mp listed).1
  · intro tag ordinal found
    obtain ⟨node, listed, _⟩ := (reflects.types tag ordinal).mp found
    exact reflects.size_eq ▸ (List.getElem?_eq_some_iff.mp listed).1
  · intro name ordinal found
    obtain ⟨node, listed, _⟩ := (reflects.attributes name ordinal).mp found
    exact reflects.size_eq ▸ (List.getElem?_eq_some_iff.mp listed).1

end Reflection
end TreeSelect.Index
