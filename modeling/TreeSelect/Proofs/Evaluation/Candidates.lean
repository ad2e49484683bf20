import TreeSelect.Proofs.Evaluation.Narrowing

/-! The elements that satisfy a compound are found by narrowing sets of ordinals: the ordinals that
a condition admits are the places of the elements that satisfy it. -/

namespace TreeSelect.Index
variable {Node : Type} {tree : Tree Node} {convention : IdConvention} {elements : List Node}

/-- Look-ups by name find the first attribute with the name. -/
def Plain (tree : Tree Node) : Prop :=
  ∀ node name, tree.attribute? node name = Association.find name (tree.attributes node)

theorem isSome_find_iff (name : String) (entries : List (String × String)) :
    (Association.find name entries).isSome = true ↔ ∃ value, (name, value) ∈ entries := by
  induction entries with
  | nil => simp [Association.find]
  | cons entry rest ih =>
    rcases entry with ⟨key, value⟩
    by_cases same : key = name
    · subst same
      simp [Association.find]
    · simp [Association.find, same, ih, Ne.symm same]

theorem lastAt_iff {holds : Node → Prop} (distinct : elements.Nodup) (place : Nat) :
    LastAt holds elements place ↔
      ∃ node, elements[place]? = some node ∧ Tree.IsLast holds elements node := by
  constructor
  · rintro ⟨⟨node, found, satisfied⟩, last⟩
    obtain ⟨inside, rfl⟩ := List.getElem?_eq_some_iff.mp found
    refine ⟨_, found, elements.take place, elements.drop (place + 1), ?_, satisfied, ?_⟩
    · rw [List.getElem_cons_drop, List.take_append_drop]
    · intro later member
      obtain ⟨offset, listed⟩ := List.mem_iff_getElem?.mp member
      rw [List.getElem?_drop] at listed
      exact last _ later (by omega) listed
  · rintro ⟨node, found, before, after, rfl, satisfied, last⟩
    have inside := (List.getElem?_eq_some_iff.mp found).1
    have here : place = before.length := by
      refine (List.getElem?_inj inside distinct).mp ?_
      rw [found]
      simp
    subst here
    refine ⟨⟨node, found, satisfied⟩, fun later other behind listed => ?_⟩
    obtain ⟨offset, rfl⟩ := Nat.exists_eq_add_of_lt behind
    have offset_eq : before.length + offset + 1 - before.length = offset + 1 := by omega
    rw [List.getElem?_append_right (by omega), offset_eq, List.getElem?_cons_succ] at listed
    exact last other (List.mem_of_getElem? listed)

section Conditions
variable [DecidableEq Node] {index : Index Node}
  (reflects : Reflects tree convention elements index) (distinct : elements.Nodup)
  (plain : Plain tree)
include reflects

theorem node?_eq (place : Nat) : index.node? place = elements[place]? := by
  rw [← reflects.nodes, Array.getElem?_toList]
  rfl

section Element
variable {place : Nat} {node : Node} (found : elements[place]? = some node)
include found

include plain in
theorem attribute_admits (name : String) :
    Enlisted index.attributes name place ↔ (tree.attribute? node name).isSome = true := by
  rw [reflects.attributes, plain node name, isSome_find_iff]
  simp [found]

theorem compares_iff (name : String) (comparison : Comparison) (literal : String) :
    index.compares tree name comparison literal place = true ↔ ∃ value,
      tree.attribute? node name = some value ∧
        comparison.holds value.toList literal.toList = true := by
  rw [compares, node?_eq reflects, found, Option.bind_some]
  cases tree.attribute? node name with
  | none => simp
  | some carried => simp

include distinct plain in
/-- The place of an element is admitted by the conditions that the element satisfies. -/
theorem admits_iff (condition : SimpleSelector) :
    index.Admits tree condition place ↔ tree.Satisfies convention elements node condition := by
  rcases condition with tag | _ | id | ⟨name, _ | ⟨comparison, literal⟩⟩ | ⟨_, _⟩
  · rw [Admits, Tree.Satisfies, reflects.types]
    simp [found]
  · rfl
  · rw [Admits, Tree.Satisfies, reflects.ids, lastAt_iff distinct]
    simp [found]
  · exact attribute_admits reflects plain found name
  · rw [Admits, Tree.Satisfies, attribute_admits reflects plain found,
      compares_iff reflects found]
    refine ⟨And.right, fun compared => ⟨?_, compared⟩⟩
    obtain ⟨value, carried, _⟩ := compared
    exact Option.isSome_iff_exists.mpr ⟨value, carried⟩
  · rfl

end Element

include distinct plain

/-- The candidates are the elements that satisfy all conditions of the compound. -/
theorem mem_candidates (compound : Compound) (place : Nat) :
    place ∈ index.candidates tree compound ↔
      ∃ node, elements[place]? = some node ∧
        tree.SatisfiesAll convention elements node compound := by
  rw [mem_candidates_iff reflects.enclosed, reflects.size_eq]
  constructor
  · rintro ⟨inside, admitted⟩
    have found := List.getElem?_eq_getElem inside
    exact ⟨_, found, fun condition member =>
      (admits_iff reflects distinct plain found condition).mp (admitted condition member)⟩
  · rintro ⟨node, found, satisfied⟩
    exact ⟨(List.getElem?_eq_some_iff.mp found).1, fun condition member =>
      (admits_iff reflects distinct plain found condition).mpr (satisfied condition member)⟩

end Conditions
end TreeSelect.Index
