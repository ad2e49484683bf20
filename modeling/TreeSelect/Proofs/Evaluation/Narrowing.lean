import TreeSelect.Evaluation
import TreeSelect.Proofs.Index.Enclosure

/-! The candidates of a compound, narrowed from condition to condition. Each condition admits
certain ordinals, whatever is known when its turn comes, and the candidates are the ordinals that
all of them admit. -/

namespace TreeSelect.Index
variable {Node : Type} {index : Index Node} {tree : Tree Node}

/-- What the tables of the index and the values in the tree say of an ordinal. -/
def Admits (index : Index Node) (tree : Tree Node) (condition : SimpleSelector) (ordinal : Nat) :
    Prop :=
  match condition with
  | .universal | .pseudo _ _ => True
  | .id name => index.byId? name = some ordinal
  | .type tag => Enlisted index.types tag ordinal
  | .attribute name none => Enlisted index.attributes name ordinal
  | .attribute name (some (comparison, literal)) =>
      Enlisted index.attributes name ordinal ∧
        index.compares tree name comparison literal ordinal = true

theorem mem_ofOption (ordinal : Nat) (option : Option Nat) :
    ordinal ∈ Ordinals.ofOption option ↔ option = some ordinal := by
  cases option with
  | none => simp [Ordinals.ofOption]
  | some known => simp [Ordinals.ofOption, eq_comm]

@[simp] theorem mem_all (ordinal : Nat) : ordinal ∈ index.all ↔ ordinal < index.size :=
  Ordinals.mem_below index.size ordinal

theorem mem_narrow {known found : Option Ordinals} {ordinal : Nat}
    (inside : ∀ set ∈ found, ordinal ∈ set → ordinal < index.size) :
    ordinal ∈ narrow known found ↔
      ordinal ∈ known.getD index.all ∧ ∃ set, found = some set ∧ ordinal ∈ set := by
  cases found with
  | none => cases known <;> simp [narrow]
  | some set =>
    cases known with
    | some known => simp [narrow]
    | none => simpa [narrow] using inside set rfl

/-- A condition that is not looked up admits every ordinal. -/
theorem admits_of_unrestricted {known : Option Ordinals} {condition : SimpleSelector}
    (unrestricted : index.restrict? tree known condition = none) (ordinal : Nat) :
    index.Admits tree condition ordinal := by
  rcases condition with tag | _ | id | ⟨name, _ | ⟨comparison, literal⟩⟩ | ⟨_, _⟩
  · cases unrestricted
  · trivial
  · cases unrestricted
  · cases unrestricted
  · cases unrestricted
  · trivial

section Enclosed
variable (enclosed : Enclosed index)
include enclosed

/-- A look-up leaves those of the known ordinals that the condition admits. -/
theorem mem_restrict? {known : Option Ordinals} {condition : SimpleSelector} {remaining : Ordinals}
    (restricted : index.restrict? tree known condition = some remaining) (ordinal : Nat) :
    ordinal ∈ remaining ↔
      ordinal ∈ known.getD index.all ∧ index.Admits tree condition ordinal := by
  have listed (name : String) : ordinal ∈ narrow known (index.byAttribute? name) ↔
      ordinal ∈ known.getD index.all ∧ Enlisted index.attributes name ordinal :=
    mem_narrow fun set found member => enclosed.attributes name ordinal ⟨set, found, member⟩
  rcases condition with tag | _ | id | ⟨name, _ | ⟨comparison, literal⟩⟩ | ⟨_, _⟩
  · cases restricted
    exact mem_narrow fun set found member => enclosed.types tag ordinal ⟨set, found, member⟩
  · cases restricted
  · cases restricted
    have inside : ∀ set ∈ some (Ordinals.ofOption (index.byId? id)), ordinal ∈ set →
        ordinal < index.size := by
      rintro set ⟨⟩ member
      exact enclosed.ids id ordinal ((mem_ofOption ordinal _).mp member)
    rw [mem_narrow inside]
    simp [Admits, mem_ofOption]
  · cases restricted
    exact listed name
  · cases restricted
    rw [Ordinals.mem_filter, listed name, and_assoc, Admits]
  · cases restricted

theorem mem_candidatesAmong (compound : Compound) (known : Option Ordinals) (ordinal : Nat) :
    ordinal ∈ index.candidatesAmong tree known compound ↔
      ordinal ∈ known.getD index.all ∧
        ∀ condition ∈ compound, index.Admits tree condition ordinal := by
  induction compound generalizing known with
  | nil => simp [candidatesAmong]
  | cons condition rest ih =>
    rw [candidatesAmong, List.forall_mem_cons]
    cases restricted : index.restrict? tree known condition with
    | none => simp only [ih known, admits_of_unrestricted restricted, true_and]
    | some remaining =>
      have left := mem_restrict? enclosed restricted ordinal
      simp only
      split
      next empty =>
        have nothing := (Ordinals.isEmpty_iff remaining).mp empty ordinal
        rw [left] at nothing
        rw [left]
        tauto
      next => rw [ih, Option.getD_some, left, and_assoc]

/-- The candidates are the ordinals that every condition admits. -/
theorem mem_candidates_iff (compound : Compound) (ordinal : Nat) :
    ordinal ∈ index.candidates tree compound ↔ ordinal < index.size ∧
      ∀ condition ∈ compound, index.Admits tree condition ordinal := by
  rw [candidates, mem_candidatesAmong enclosed, Option.getD_none, mem_all]

end Enclosed

section Evaluation
variable [DecidableEq Node]

theorem mem_of_mem_keepRelated {pairs : List (Compound × Combinator)} {found : Ordinals}
    {ordinal : Nat} (kept : ordinal ∈ index.keepRelated tree pairs found) : ordinal ∈ found := by
  induction pairs generalizing found with
  | nil => exact kept
  | cons pair pairs ih =>
    rw [keepRelated] at kept
    split at kept
    next => exact kept
    next => exact ((Ordinals.mem_filter ..).mp (ih kept)).1

/-- A selector is answered with ordinals of elements. -/
theorem lt_of_mem_evaluate (enclosed : Enclosed index) {selector : ComplexSelector} {ordinal : Nat}
    (member : ordinal ∈ index.evaluate tree selector) : ordinal < index.size := by
  rw [evaluate] at member
  split at member
  next => exact absurd member (Ordinals.not_mem_empty ordinal)
  next => exact ((mem_candidates_iff enclosed ..).mp (mem_of_mem_keepRelated member)).1

end Evaluation
end TreeSelect.Index
