import Mathlib.Logic.Relation
import TreeSelect.Tree

/-! Lines of nodes: what lies behind a node along a chain of parents or of previous siblings, up to
where the chain ends. A walk that is allowed enough steps follows the whole line. -/

namespace TreeSelect.Tree
variable {Node : Type} {next : Node → Option Node} {node other : Node} {line : List Node}

/-- The nodes behind one, the closest first, up to a node with none behind it. -/
inductive Line (next : Node → Option Node) : Node → List Node → Prop where
  | done {first : Node} (last : next first = none) : Line next first []
  | more {first second : Node} {rest : List Node} (step : next first = some second)
      (further : Line next second rest) : Line next first (second :: rest)

theorem Line.unique {others : List Node} (first : Line next node line)
    (second : Line next node others) : line = others := by
  induction first generalizing others with
  | done last =>
    cases second with
    | done => rfl
    | more step => rw [last] at step; cases step
  | more step _ ih =>
    cases second with
    | done last => rw [last] at step; cases step
    | more again further =>
      rw [step] at again
      cases again
      rw [ih further]

/-- Behind each node of a line lies a part of the line that is shorter. -/
theorem Line.of_mem (lined : Line next node line) (member : other ∈ line) :
    ∃ rest, Line next other rest ∧ rest.length < line.length := by
  induction lined with
  | done => cases member
  | more step further ih =>
    rcases List.mem_cons.mp member with rfl | deeper
    · exact ⟨_, further, Nat.lt_succ_self _⟩
    · obtain ⟨found, lined, shorter⟩ := ih deeper
      exact ⟨found, lined, Nat.lt_succ_of_lt shorter⟩

theorem Line.not_mem (lined : Line next node line) : node ∉ line := by
  intro member
  obtain ⟨rest, again, shorter⟩ := lined.of_mem member
  rw [lined.unique again] at shorter
  exact Nat.lt_irrefl _ shorter

theorem Line.nodup (lined : Line next node line) : (node :: line).Nodup := by
  induction lined with
  | done => exact List.pairwise_singleton ..
  | more step further ih => exact List.nodup_cons.mpr ⟨(Line.more step further).not_mem, ih⟩

theorem Line.mem_iff (lined : Line next node line) (other : Node) :
    other ∈ line ↔ Relation.TransGen (fun node above => next node = some above) node other := by
  induction lined with
  | done last =>
    refine ⟨fun member => absurd member List.not_mem_nil, fun reached => ?_⟩
    obtain ⟨above, step, _⟩ := Relation.TransGen.head'_iff.mp reached
    rw [last] at step
    cases step
  | more step _ ih =>
    rw [List.mem_cons, ih]
    constructor
    · rintro (rfl | deeper)
      · exact .single step
      · exact .head step deeper
    · intro reached
      obtain ⟨above, again, reached⟩ := Relation.TransGen.head'_iff.mp reached
      rw [step] at again
      cases again
      rcases Relation.reflTransGen_iff_eq_or_transGen.mp reached with same | deeper
      · exact .inl same
      · exact .inr deeper

/-- A walk that may take enough steps follows the line to its end. -/
theorem walk_of_line (lined : Line next node line) {limit : Nat} (enough : line.length ≤ limit) :
    walk next limit node = line := by
  induction lined generalizing limit with
  | done last =>
    cases limit with
    | zero => rfl
    | succ limit => simp [walk, last]
  | more step _ ih =>
    cases limit with
    | zero => cases enough
    | succ limit => simp [walk, step, ih (Nat.le_of_succ_le_succ enough)]

/-- A walk that stops before its limit has come to the end of the line. -/
theorem line_of_walk {limit : Nat} (short : (walk next limit node).length < limit) :
    Line next node (walk next limit node) := by
  induction limit generalizing node with
  | zero => cases short
  | succ limit ih =>
    cases step : next node with
    | none => simpa [walk, step] using Line.done step
    | some other =>
      simp only [walk, step] at short ⊢
      exact .more step (ih (Nat.lt_of_succ_lt_succ short))

/-- Every node of a walk is reached from where the walk begins. -/
theorem reached_of_mem_walk {limit : Nat} (member : other ∈ walk next limit node) :
    Relation.TransGen (fun node above => next node = some above) node other := by
  induction limit generalizing node with
  | zero => cases member
  | succ limit ih =>
    cases step : next node with
    | none => simp [walk, step] at member
    | some above =>
      simp only [walk, step, List.mem_cons] at member
      rcases member with rfl | deeper
      · exact .single step
      · exact .head step (ih deeper)

/-- Where no node is reached from itself, a walk meets no node twice. -/
theorem nodup_walk (forward : ∀ node,
      ¬ Relation.TransGen (fun node above => next node = some above) node node) (limit : Nat)
    (node : Node) : (node :: walk next limit node).Nodup := by
  induction limit generalizing node with
  | zero => simp [walk]
  | succ limit ih =>
    refine List.nodup_cons.mpr ⟨fun member => forward node (reached_of_mem_walk member), ?_⟩
    cases step : next node with
    | none => simp [walk, step]
    | some other => simpa [walk, step] using ih other

end TreeSelect.Tree
