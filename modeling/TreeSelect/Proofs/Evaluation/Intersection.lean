import TreeSelect.Proofs.Evaluation.Narrowing
import TreeSelect.Tree.Outline

/-! Compounds are intersections: what satisfies two lists of conditions together satisfies each of
them. So neither the order of conditions nor their number matters, nor where narrowing stops. -/

namespace TreeSelect.Index
variable {Node : Type} {index : Index Node} {tree : Tree Node}

/-- The known elements that satisfy all conditions, with every condition looked up, even when no
element is left. -/
def candidatesThroughout (index : Index Node) (tree : Tree Node) (known : Option Ordinals)
    (compound : Compound) : Ordinals :=
  (compound.foldl (fun known condition => (index.restrict? tree known condition).or known)
    known).getD index.all

section Enclosed
variable (enclosed : Enclosed index)
include enclosed

theorem candidates_append (first second : Compound) :
    index.candidates tree (first ++ second) =
      (index.candidates tree first).inter (index.candidates tree second) := by
  apply Ordinals.ext
  intro ordinal
  simp only [Ordinals.mem_inter, mem_candidates_iff enclosed, List.forall_mem_append]
  tauto

theorem candidates_congr {first second : Compound}
    (same : ∀ condition, condition ∈ first ↔ condition ∈ second) :
    index.candidates tree first = index.candidates tree second := by
  apply Ordinals.ext
  intro ordinal
  simp only [mem_candidates_iff enclosed, same]

theorem candidates_flatten (groups : List Compound) :
    index.candidates tree groups.flatten =
      groups.foldr (fun group set => (index.candidates tree group).inter set) index.all := by
  induction groups with
  | nil => rfl
  | cons group groups ih =>
    rw [List.flatten_cons, candidates_append enclosed, ih, List.foldr_cons]

/-- Looking up the remaining conditions narrows as the conditions admit. -/
theorem mem_candidatesThroughout (compound : Compound) (known : Option Ordinals) (ordinal : Nat) :
    ordinal ∈ index.candidatesThroughout tree known compound ↔
      ordinal ∈ known.getD index.all ∧
        ∀ condition ∈ compound, index.Admits tree condition ordinal := by
  induction compound generalizing known with
  | nil => simp [candidatesThroughout]
  | cons condition rest ih =>
    have step : index.candidatesThroughout tree known (condition :: rest) =
        index.candidatesThroughout tree ((index.restrict? tree known condition).or known) rest :=
      rfl
    rw [step, ih, List.forall_mem_cons]
    cases restricted : index.restrict? tree known condition with
    | none => simp only [Option.none_or, admits_of_unrestricted restricted, true_and]
    | some remaining =>
      rw [Option.some_or, Option.getD_some, mem_restrict? enclosed restricted, and_assoc]

theorem candidatesAmong_eq_throughout (known : Option Ordinals) (compound : Compound) :
    index.candidatesAmong tree known compound =
      index.candidatesThroughout tree known compound := by
  apply Ordinals.ext
  intro ordinal
  rw [mem_candidatesAmong enclosed, mem_candidatesThroughout enclosed]

end Enclosed

/-- In the index of any root, the candidates of two lists of conditions together are those that the
two have in common. So lists of the same conditions have the same candidates, a list can be looked
up in parts, and it makes no difference that nothing is looked up once no candidate is left. -/
theorem candidates_intersect {Node : Type} [DecidableEq Node] (tree : Tree Node) (root : Node)
    (convention : IdConvention) :
    (∀ first second : Compound,
      (build tree root convention).candidates tree (first ++ second) =
        ((build tree root convention).candidates tree first).inter
          ((build tree root convention).candidates tree second)) ∧
    (∀ first second : Compound, (∀ condition, condition ∈ first ↔ condition ∈ second) →
      (build tree root convention).candidates tree first =
        (build tree root convention).candidates tree second) ∧
    (∀ groups : List Compound,
      (build tree root convention).candidates tree groups.flatten =
        groups.foldr (fun group set => ((build tree root convention).candidates tree group).inter set)
          (build tree root convention).all) ∧
    ∀ (known : Option Ordinals) (compound : Compound),
      (build tree root convention).candidatesAmong tree known compound =
        (build tree root convention).candidatesThroughout tree known compound := by
  have enclosed := enclosed_build tree root convention
  exact ⟨candidates_append enclosed, fun _ _ => candidates_congr enclosed,
    candidates_flatten enclosed, candidatesAmong_eq_throughout enclosed⟩

/-- A paragraph with a class, and one without. -/
def paragraphs : Outline := ⟨[⟨none, [], 0⟩, ⟨some "p", [("class", "a")], 0⟩, ⟨some "p", [], 0⟩]⟩

def classed : Compound := [.pseudo "hover" none, .type "p", .attribute "class" none]

/-- The same conditions in another order, one of them twice. -/
def reclassed : Compound := [.attribute "class" none, .type "p", .pseudo "hover" none, .type "p"]

theorem candidates_intersect_paragraphs :
    (∀ condition, condition ∈ classed ↔ condition ∈ reclassed) ∧
      (build paragraphs.tree [] .standard).candidates paragraphs.tree classed =
        (build paragraphs.tree [] .standard).candidates paragraphs.tree reclassed := by
  have same (condition : SimpleSelector) : condition ∈ classed ↔ condition ∈ reclassed := by
    simp only [classed, reclassed, List.mem_cons, List.not_mem_nil, or_false]
    tauto
  exact ⟨same, (candidates_intersect paragraphs.tree [] .standard).2.1 _ _ same⟩

end TreeSelect.Index
