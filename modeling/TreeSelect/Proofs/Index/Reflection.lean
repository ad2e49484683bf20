import TreeSelect.Index
import TreeSelect.Proofs.Evaluation.Meaning

/-! An index reflects the elements it was made from: their places are the ordinals, and each table
holds under every key the ordinals of exactly the elements with the key. Entering one more element
keeps it so. -/

namespace TreeSelect.Index
variable {Node : Type} {tree : Tree Node} {convention : IdConvention} {elements : List Node}
  {index : Index Node}

/-- The set that a table has for the key holds the ordinal. -/
def Enlisted (table : Association String Ordinals) (key : String) (ordinal : Nat) : Prop :=
  ∃ set, table.get? key = some set ∧ ordinal ∈ set

theorem not_enlisted_empty (key : String) (place : Nat) :
    ¬Enlisted Association.empty key place := by
  rw [Enlisted, Association.get?_empty]
  simp

theorem enlisted_enlist (table : Association String Ordinals) (key other : String)
    (ordinal place : Nat) :
    Enlisted (enlist table key ordinal) other place ↔
      (other = key ∧ place = ordinal) ∨ Enlisted table other place := by
  unfold Enlisted enlist
  rw [Association.get?_alter]
  by_cases same : other = key
  · subst same
    cases found : table.get? other with
    | none => simp
    | some set => simp
  · simp [same]

/-- The element at a place is the last one with the property. -/
def LastAt (holds : Node → Prop) (elements : List Node) (place : Nat) : Prop :=
  (∃ node, elements[place]? = some node ∧ holds node) ∧
    ∀ later node, place < later → elements[later]? = some node → ¬ holds node

section Attributes
variable (convention) (ordinal : Nat) (list : List (String × String)) (index : Index Node)

/-- Attributes are entered into their table and into that of the identifiers. -/
theorem attributes_foldl (name : String) (place : Nat) :
    Enlisted (list.foldl (addAttribute convention ordinal) index).attributes name place ↔
      Enlisted index.attributes name place ∨
        place = ordinal ∧ ∃ value, (name, value) ∈ list := by
  induction list generalizing index with
  | nil => simp
  | cons entry rest ih =>
    rcases entry with ⟨key, value⟩
    rw [List.foldl_cons, ih, addAttribute, enlisted_enlist]
    simp only [List.mem_cons, Prod.mk.injEq, exists_or, exists_eq_right]
    constructor
    · rintro ((⟨rfl, rfl⟩ | old) | ⟨rfl, later⟩)
      · exact .inr ⟨rfl, .inl rfl⟩
      · exact .inl old
      · exact .inr ⟨rfl, .inr later⟩
    · rintro (old | ⟨rfl, rfl | later⟩)
      · exact .inl (.inr old)
      · exact .inl (.inl ⟨rfl, rfl⟩)
      · exact .inr ⟨rfl, later⟩

/-- An identifier that is met again belongs to the later element. -/
theorem ids_foldl (id : String) (place : Nat) :
    (list.foldl (addAttribute convention ordinal) index).ids.get? id = some place ↔
      ((∃ name, convention.accepts name = true ∧ (name, id) ∈ list) ∧ place = ordinal) ∨
        ((¬ ∃ name, convention.accepts name = true ∧ (name, id) ∈ list) ∧
          index.ids.get? id = some place) := by
  induction list generalizing index with
  | nil => simp
  | cons entry rest ih =>
    rcases entry with ⟨key, value⟩
    have entered : (addAttribute convention ordinal index (key, value)).ids.get? id = some place ↔
        (convention.accepts key = true ∧ id = value) ∧ place = ordinal ∨
          ¬ (convention.accepts key = true ∧ id = value) ∧ index.ids.get? id = some place := by
      cases accepted : convention.accepts key with
      | false => simp [addAttribute, accepted]
      | true =>
        by_cases same : id = value
        · simp [addAttribute, accepted, Association.get?_insert, same, eq_comm]
        · simp [addAttribute, accepted, Association.get?_insert, same]
    have first : (∃ name, convention.accepts name = true ∧ (name, id) ∈ (key, value) :: rest) ↔
        (convention.accepts key = true ∧ id = value) ∨
          ∃ name, convention.accepts name = true ∧ (name, id) ∈ rest := by
      simp only [List.mem_cons, Prod.mk.injEq]
      constructor
      · rintro ⟨name, accepted, ⟨rfl, rfl⟩ | later⟩
        · exact .inl ⟨accepted, rfl⟩
        · exact .inr ⟨name, accepted, later⟩
      · rintro (⟨accepted, rfl⟩ | ⟨name, accepted, later⟩)
        · exact ⟨key, accepted, .inl ⟨rfl, rfl⟩⟩
        · exact ⟨name, accepted, .inr later⟩
    rw [List.foldl_cons, ih, entered, first]
    by_cases later : ∃ name, convention.accepts name = true ∧ (name, id) ∈ rest
    · simp only [later, or_true, not_true_eq_false, false_and, or_false]
    · simp only [later, or_false, false_and, false_or, not_false_eq_true, true_and]

theorem rest_foldl :
    (list.foldl (addAttribute convention ordinal) index).nodes = index.nodes ∧
      (list.foldl (addAttribute convention ordinal) index).ordinals = index.ordinals ∧
        (list.foldl (addAttribute convention ordinal) index).types = index.types := by
  induction list generalizing index with
  | nil => exact ⟨rfl, rfl, rfl⟩
  | cons entry rest ih => exact ih (addAttribute convention ordinal index entry)

end Attributes

section Append
variable (elements) (node other : Node) (place : Nat)

theorem getElem?_append_singleton :
    (elements ++ [node])[place]? = some other ↔
      elements[place]? = some other ∨ place = elements.length ∧ other = node := by
  rw [List.getElem?_append]
  split
  next inside => simp [Nat.ne_of_lt inside]
  next outside =>
    have absent : elements[place]? = none := List.getElem?_eq_none (Nat.le_of_not_lt outside)
    rw [absent, List.getElem?_singleton]
    constructor
    · intro found
      split at found
      next first =>
        cases found
        exact .inr ⟨by omega, rfl⟩
      next => cases found
    · rintro (found | ⟨rfl, rfl⟩)
      · cases found
      · simp

theorem exists_append_singleton (holds : Node → Prop) :
    (∃ other, (elements ++ [node])[place]? = some other ∧ holds other) ↔
      (∃ other, elements[place]? = some other ∧ holds other) ∨
        place = elements.length ∧ holds node := by
  simp only [getElem?_append_singleton]
  constructor
  · rintro ⟨other, found | ⟨rfl, rfl⟩, satisfied⟩
    · exact .inl ⟨other, found, satisfied⟩
    · exact .inr ⟨rfl, satisfied⟩
  · rintro (⟨other, found, satisfied⟩ | ⟨rfl, satisfied⟩)
    · exact ⟨other, .inl found, satisfied⟩
    · exact ⟨node, .inr ⟨rfl, rfl⟩, satisfied⟩

theorem lastAt_append_singleton (holds : Node → Prop) :
    LastAt holds (elements ++ [node]) place ↔
      holds node ∧ place = elements.length ∨ ¬ holds node ∧ LastAt holds elements place := by
  have inside : (∃ other, elements[place]? = some other ∧ holds other) →
      place < elements.length := by
    rintro ⟨other, found, _⟩
    exact (List.getElem?_eq_some_iff.mp found).1
  rw [LastAt, exists_append_singleton]
  simp only [getElem?_append_singleton]
  constructor
  · rintro ⟨found | ⟨rfl, satisfied⟩, last⟩
    · have fails : ¬ holds node := last elements.length node (inside found) (.inr ⟨rfl, rfl⟩)
      exact .inr ⟨fails, found, fun later other behind listed => last later other behind (.inl listed)⟩
    · exact .inl ⟨satisfied, rfl⟩
  · rintro (⟨satisfied, rfl⟩ | ⟨fails, found, last⟩)
    · refine ⟨.inr ⟨rfl, satisfied⟩, fun later other behind listed => ?_⟩
      rcases listed with old | ⟨rfl, _⟩
      · have low := (List.getElem?_eq_some_iff.mp old).1
        omega
      · omega
    · refine ⟨.inl found, fun later other behind listed => ?_⟩
      rcases listed with old | ⟨_, rfl⟩
      · exact last later other behind old
      · exact fails

end Append

variable [DecidableEq Node]

/-- The index is the one of these elements. -/
structure Reflects (tree : Tree Node) (convention : IdConvention) (elements : List Node)
    (index : Index Node) : Prop where
  nodes : index.nodes.toList = elements
  ordinals : ∀ node place, index.ordinal? node = some place ↔ elements[place]? = some node
  types : ∀ tag place, Enlisted index.types tag place ↔
    ∃ node, elements[place]? = some node ∧ tree.tag? node = some tag
  attributes : ∀ name place, Enlisted index.attributes name place ↔
    ∃ node, elements[place]? = some node ∧ ∃ value, (name, value) ∈ tree.attributes node
  ids : ∀ id place, index.byId? id = some place ↔
    LastAt (tree.Bears convention id) elements place

theorem reflects_empty : Reflects tree convention [] (empty : Index Node) := by
  constructor
  · rfl
  · intro node place
    rw [Index.ordinal?, Index.empty, Association.get?_empty]
    simp
  · intro tag place
    simp [not_enlisted_empty, Index.empty]
  · intro name place
    simp [not_enlisted_empty, Index.empty]
  · intro id place
    rw [Index.byId?, Index.empty, Association.get?_empty]
    simp [LastAt]

/-- A node that is no element is passed over. -/
theorem add_of_not_element {node : Node} (inert : tree.isElement node = false)
    (index : Index Node) : index.add tree convention node = index := by
  cases tagged : tree.tag? node with
  | none => simp [add, tagged]
  | some tag => simp [Tree.isElement, tagged] at inert

theorem reflects_add {node : Node} (reflects : Reflects tree convention elements index)
    (fresh : node ∉ elements) (element : tree.isElement node = true) :
    Reflects tree convention (elements ++ [node]) (index.add tree convention node) := by
  cases tagged : tree.tag? node with
  | none => simp [Tree.isElement, tagged] at element
  | some tag =>
    have size : index.nodes.size = elements.length := by
      rw [← reflects.nodes, Array.length_toList]
    obtain ⟨nodes, ordinals, types⟩ :=
      rest_foldl convention index.nodes.size (tree.attributes node) index
    constructor
    · simp [add, tagged, reflects.nodes]
    · intro other place
      rw [getElem?_append_singleton, ← reflects.ordinals]
      simp only [add, tagged, Index.ordinal?, Association.get?_insert, size]
      by_cases same : other = node
      · subst same
        have absent : index.ordinals.get? other = none := by
          cases found : index.ordinals.get? other with
          | none => rfl
          | some place =>
            have listed := (reflects.ordinals other place).mp found
            exact absurd (List.mem_of_getElem? listed) fresh
        simp [absent, eq_comm]
      · simp [same]
    · intro key place
      rw [exists_append_singleton, ← reflects.types]
      simp only [add, tagged, enlisted_enlist, size, Option.some.injEq]
      tauto
    · intro name place
      rw [exists_append_singleton, ← reflects.attributes]
      simp only [add, tagged, attributes_foldl, size]
    · intro id place
      rw [lastAt_append_singleton, ← reflects.ids]
      simp only [add, tagged, Index.byId?, ids_foldl, size]
      rfl

/-- The index of a root reflects the elements from there on in document order. -/
theorem reflects_foldl (reflects : Reflects tree convention elements index) (nodes : List Node)
    (distinct : (elements ++ nodes.filter tree.isElement).Nodup) :
    Reflects tree convention (elements ++ nodes.filter tree.isElement)
      (nodes.foldl (add tree convention) index) := by
  induction nodes generalizing elements index with
  | nil => simpa using reflects
  | cons node nodes ih =>
    rw [List.foldl_cons]
    cases element : tree.isElement node with
    | false =>
      rw [add_of_not_element element]
      rw [List.filter_cons_of_neg (by simp [element])] at distinct ⊢
      exact ih reflects distinct
    | true =>
      rw [List.filter_cons_of_pos element, List.append_cons] at distinct ⊢
      have fresh : node ∉ elements := by
        have both := (List.nodup_append.mp distinct).1
        have ⟨_, _, apart⟩ := List.nodup_append.mp both
        exact fun member => apart node member node (List.mem_singleton_self node) rfl
      exact ih (reflects_add reflects fresh element) distinct

theorem reflects_build {root : Node} (distinct : (tree.preorder root).Nodup) :
    Reflects tree convention ((tree.preorder root).filter tree.isElement)
      (build tree root convention) := by
  have elements := distinct.sublist (List.filter_sublist (p := tree.isElement))
  exact reflects_foldl reflects_empty (tree.preorder root) elements

end TreeSelect.Index
