namespace TreeSelect

/-- A finite set of positions in document order. -/
structure Ordinals where
  toList : List Nat
  increasing : toList.Pairwise (· < ·)
  deriving DecidableEq, Repr

namespace Ordinals

/-- Puts a number into its place, unless it is there already. -/
def put (ordinal : Nat) : List Nat → List Nat
  | [] => [ordinal]
  | first :: rest =>
      if ordinal < first then ordinal :: first :: rest
      else if ordinal = first then first :: rest
      else first :: put ordinal rest

theorem mem_put (ordinal other : Nat) (list : List Nat) :
    other ∈ put ordinal list ↔ other = ordinal ∨ other ∈ list := by
  induction list with
  | nil => simp [put]
  | cons first rest ih =>
    by_cases below : ordinal < first
    · simp [put, below]
    · by_cases same : ordinal = first
      · simp [put, same]
      · rw [put, if_neg below, if_neg same, List.mem_cons, ih, List.mem_cons]
        exact or_left_comm

theorem put_increasing (ordinal : Nat) (list : List Nat) (increasing : list.Pairwise (· < ·)) :
    (put ordinal list).Pairwise (· < ·) := by
  induction list with
  | nil => simp [put]
  | cons first rest ih =>
    have ⟨above, later⟩ := List.pairwise_cons.mp increasing
    by_cases below : ordinal < first
    · rw [put, if_pos below]
      refine List.pairwise_cons.mpr ⟨fun other found => ?_, increasing⟩
      rcases List.mem_cons.mp found with same | deeper
      · omega
      · exact Nat.lt_trans below (above other deeper)
    · by_cases same : ordinal = first
      · rw [put, if_neg below, if_pos same]
        exact increasing
      · rw [put, if_neg below, if_neg same]
        refine List.pairwise_cons.mpr ⟨fun other found => ?_, ih later⟩
        rcases (mem_put ordinal other rest).mp found with new | old
        · omega
        · exact above other old

def empty : Ordinals := ⟨[], List.Pairwise.nil⟩

def isEmpty (set : Ordinals) : Bool := set.toList.isEmpty

def size (set : Ordinals) : Nat := set.toList.length

def contains (set : Ordinals) (ordinal : Nat) : Bool := set.toList.contains ordinal

def insert (set : Ordinals) (ordinal : Nat) : Ordinals :=
  ⟨put ordinal set.toList, put_increasing ordinal set.toList set.increasing⟩

def ofList (list : List Nat) : Ordinals := list.foldl insert empty

def ofOption : Option Nat → Ordinals
  | none => empty
  | some ordinal => empty.insert ordinal

/-- The numbers below the bound. -/
def below (bound : Nat) : Ordinals := ⟨List.range bound, List.pairwise_lt_range⟩

def filter (set : Ordinals) (keep : Nat → Bool) : Ordinals :=
  ⟨set.toList.filter keep, set.increasing.sublist List.filter_sublist⟩

def inter (set other : Ordinals) : Ordinals := set.filter other.contains

instance : Membership Nat Ordinals := ⟨fun set ordinal => ordinal ∈ set.toList⟩

theorem mem_def (set : Ordinals) (ordinal : Nat) : ordinal ∈ set ↔ ordinal ∈ set.toList := Iff.rfl

@[simp] theorem contains_iff (set : Ordinals) (ordinal : Nat) :
    set.contains ordinal = true ↔ ordinal ∈ set := by
  simp [contains, mem_def]

@[simp] theorem not_mem_empty (ordinal : Nat) : ordinal ∉ empty := by
  simp [mem_def, empty]

@[simp] theorem mem_insert (set : Ordinals) (ordinal other : Nat) :
    other ∈ set.insert ordinal ↔ other = ordinal ∨ other ∈ set :=
  mem_put ordinal other set.toList

@[simp] theorem mem_below (bound ordinal : Nat) : ordinal ∈ below bound ↔ ordinal < bound := by
  simp [mem_def, below]

@[simp] theorem mem_filter (set : Ordinals) (keep : Nat → Bool) (ordinal : Nat) :
    ordinal ∈ set.filter keep ↔ ordinal ∈ set ∧ keep ordinal = true := by
  simp [mem_def, filter]

@[simp] theorem mem_inter (set other : Ordinals) (ordinal : Nat) :
    ordinal ∈ set.inter other ↔ ordinal ∈ set ∧ ordinal ∈ other := by
  simp [inter]

theorem isEmpty_iff (set : Ordinals) : set.isEmpty = true ↔ ∀ ordinal, ordinal ∉ set := by
  rw [isEmpty, List.isEmpty_iff, List.eq_nil_iff_forall_not_mem]
  rfl

private theorem eq_of_increasing (first second : List Nat) (firstOrder : first.Pairwise (· < ·))
    (secondOrder : second.Pairwise (· < ·)) (same : ∀ ordinal, ordinal ∈ first ↔ ordinal ∈ second) :
    first = second := by
  induction first generalizing second with
  | nil =>
    cases second with
    | nil => rfl
    | cons least rest => exact absurd ((same least).mpr (List.mem_cons_self ..)) List.not_mem_nil
  | cons lowest higher ih =>
    cases second with
    | nil => exact absurd ((same lowest).mp (List.mem_cons_self ..)) List.not_mem_nil
    | cons least rest =>
      have ⟨aboveLowest, higherOrder⟩ := List.pairwise_cons.mp firstOrder
      have ⟨aboveLeast, restOrder⟩ := List.pairwise_cons.mp secondOrder
      have heads : lowest = least := by
        rcases List.mem_cons.mp ((same lowest).mp (List.mem_cons_self ..)) with equal | later
        · exact equal
        · rcases List.mem_cons.mp ((same least).mpr (List.mem_cons_self ..)) with equal | deeper
          · exact equal.symm
          · exact absurd (aboveLeast lowest later) (Nat.lt_asymm (aboveLowest least deeper))
      subst heads
      have tails := ih rest higherOrder restOrder fun ordinal => by
        have both := same ordinal
        rw [List.mem_cons, List.mem_cons] at both
        constructor
        · intro found
          rcases both.mp (Or.inr found) with equal | later
          · exact absurd (aboveLowest ordinal found) (equal ▸ Nat.lt_irrefl _)
          · exact later
        · intro found
          rcases both.mpr (Or.inr found) with equal | later
          · exact absurd (aboveLeast ordinal found) (equal ▸ Nat.lt_irrefl _)
          · exact later
      rw [tails]

/-- A set is determined by its members. -/
theorem ext (first second : Ordinals) (same : ∀ ordinal, ordinal ∈ first ↔ ordinal ∈ second) :
    first = second := by
  rcases first with ⟨firstList, firstOrder⟩
  rcases second with ⟨secondList, secondOrder⟩
  have lists := eq_of_increasing firstList secondList firstOrder secondOrder same
  subst lists
  rfl

end Ordinals
end TreeSelect
