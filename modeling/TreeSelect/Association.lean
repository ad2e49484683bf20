/-! Finite maps that keep their keys in the order of first insertion. -/

namespace TreeSelect

structure Association (Key Value : Type) where
  entries : List (Key × Value)
  distinct : (entries.map Prod.fst).Nodup

namespace Association
variable {Key Value : Type} [DecidableEq Key]

/-- The value of the first entry with the key. -/
def find (key : Key) : List (Key × Value) → Option Value
  | [] => none
  | (name, value) :: rest => if name = key then some value else find key rest

/-- The value of the first entry with the key becomes `f (some value)`; without such an entry, one
with `f none` is added at the end. -/
def amend (key : Key) (f : Option Value → Value) : List (Key × Value) → List (Key × Value)
  | [] => [(key, f none)]
  | (name, value) :: rest =>
      if name = key then (name, f (some value)) :: rest else (name, value) :: amend key f rest

theorem mem_keys_amend (key other : Key) (f : Option Value → Value) (list : List (Key × Value)) :
    other ∈ (amend key f list).map Prod.fst ↔ other = key ∨ other ∈ list.map Prod.fst := by
  induction list with
  | nil => simp [amend]
  | cons entry rest ih =>
    rcases entry with ⟨name, value⟩
    by_cases same : name = key
    · simp [amend, same]
    · rw [amend, if_neg same, List.map_cons, List.mem_cons, ih, List.map_cons, List.mem_cons]
      exact or_left_comm

theorem nodup_amend (key : Key) (f : Option Value → Value) (list : List (Key × Value))
    (distinct : (list.map Prod.fst).Nodup) : ((amend key f list).map Prod.fst).Nodup := by
  induction list with
  | nil => simp [amend]
  | cons entry rest ih =>
    rcases entry with ⟨name, value⟩
    simp only [List.map_cons, List.nodup_cons] at distinct
    by_cases same : name = key
    · simpa only [amend, if_pos same, List.map_cons, List.nodup_cons] using distinct
    · rw [amend, if_neg same, List.map_cons, List.nodup_cons, mem_keys_amend]
      exact ⟨fun found => found.elim same distinct.1, ih distinct.2⟩

theorem find_amend (key other : Key) (f : Option Value → Value) (list : List (Key × Value)) :
    find other (amend key f list) =
      if other = key then some (f (find key list)) else find other list := by
  induction list with
  | nil =>
    by_cases same : other = key
    · simp [amend, find, same]
    · simp [amend, find, same, Ne.symm same]
  | cons entry rest ih =>
    rcases entry with ⟨name, value⟩
    by_cases first : name = key
    · subst first
      by_cases same : other = name
      · simp [amend, find, same]
      · simp [amend, find, same, Ne.symm same]
    · rw [amend, if_neg first, find, ih, find, find]
      by_cases same : other = key
      · subst same
        simp [first]
      · simp [same]

theorem length_amend_of_absent (key : Key) (f : Option Value → Value) (list : List (Key × Value))
    (absent : find key list = none) : (amend key f list).length = list.length + 1 := by
  induction list with
  | nil => rfl
  | cons entry rest ih =>
    rcases entry with ⟨name, value⟩
    rw [find] at absent
    split at absent
    next => cases absent
    next other => rw [amend, if_neg other, List.length_cons, ih absent, List.length_cons]

def empty : Association Key Value := ⟨[], List.nodup_nil⟩

def keys (map : Association Key Value) : List Key := map.entries.map Prod.fst

def size (map : Association Key Value) : Nat := map.entries.length

def isEmpty (map : Association Key Value) : Bool := map.entries.isEmpty

def get? (map : Association Key Value) (key : Key) : Option Value := find key map.entries

def contains (map : Association Key Value) (key : Key) : Bool := (map.get? key).isSome

def alter (map : Association Key Value) (key : Key) (f : Option Value → Value) :
    Association Key Value :=
  ⟨amend key f map.entries, nodup_amend key f map.entries map.distinct⟩

/-- A key that is present keeps its place. -/
def insert (map : Association Key Value) (key : Key) (value : Value) : Association Key Value :=
  map.alter key fun _ => value

def erase (map : Association Key Value) (key : Key) : Association Key Value :=
  ⟨map.entries.filter fun entry => decide (entry.1 ≠ key),
    map.distinct.sublist (List.filter_sublist.map Prod.fst)⟩

/-- Inserts from left to right. -/
def ofList (list : List (Key × Value)) : Association Key Value :=
  list.foldl (fun map entry => map.insert entry.1 entry.2) empty

theorem get?_empty (key : Key) : (empty : Association Key Value).get? key = none := rfl

theorem get?_alter (map : Association Key Value) (key other : Key) (f : Option Value → Value) :
    (map.alter key f).get? other =
      if other = key then some (f (map.get? key)) else map.get? other :=
  find_amend key other f map.entries

theorem get?_insert (map : Association Key Value) (key other : Key) (value : Value) :
    (map.insert key value).get? other = if other = key then some value else map.get? other :=
  get?_alter map key other fun _ => value

theorem find_filter (key other : Key) (list : List (Key × Value)) :
    find other (list.filter fun entry => decide (entry.1 ≠ key)) =
      if other = key then none else find other list := by
  induction list with
  | nil => simp [find]
  | cons entry rest ih =>
    rcases entry with ⟨name, value⟩
    by_cases first : name = key
    · subst first
      by_cases same : other = name
      · simpa [find, same] using ih
      · simpa [find, same, Ne.symm same] using ih
    · by_cases same : other = key
      · subst same
        simpa [find, first] using ih
      · by_cases hit : name = other
        · simp [find, same, hit]
        · simpa [find, first, same, hit] using ih

theorem get?_erase (map : Association Key Value) (key other : Key) :
    (map.erase key).get? other = if other = key then none else map.get? other :=
  find_filter key other map.entries

theorem length_filter_of_find {key : Key} {list : List (Key × Value)} {value : Value}
    (distinct : (list.map Prod.fst).Nodup) (found : find key list = some value) :
    (list.filter fun entry => decide (entry.1 ≠ key)).length + 1 = list.length := by
  induction list with
  | nil => cases found
  | cons entry rest ih =>
    rcases entry with ⟨name, first⟩
    simp only [List.map_cons, List.nodup_cons] at distinct
    rw [find] at found
    split at found
    next same =>
      subst same
      have others : rest.filter (fun entry => decide (entry.1 ≠ name)) = rest := by
        refine List.filter_eq_self.mpr fun entry member => decide_eq_true fun same => ?_
        exact distinct.1 (same ▸ List.mem_map_of_mem member)
      rw [List.filter_cons_of_neg (by simp), others, List.length_cons]
    next other =>
      rw [List.filter_cons_of_pos (by simpa using other), List.length_cons, ih distinct.2 found,
        List.length_cons]

theorem size_insert_of_absent (map : Association Key Value) {key : Key} (value : Value)
    (absent : map.get? key = none) : (map.insert key value).size = map.size + 1 :=
  length_amend_of_absent key _ map.entries absent

theorem size_erase_of_present (map : Association Key Value) {key : Key} {value : Value}
    (found : map.get? key = some value) : (map.erase key).size + 1 = map.size :=
  length_filter_of_find map.distinct found

end Association
end TreeSelect
