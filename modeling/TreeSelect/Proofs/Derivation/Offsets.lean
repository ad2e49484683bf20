import TreeSelect.Proofs.Derivation.Captures
import TreeSelect.Proofs.Pattern.Relocation

/-! The captures of a derivation keep their places relative to its start. -/

namespace TreeSelect.Derivation
open TreeSelect.Text

/-- A derivation that begins so many bytes further on makes the same captures further on. -/
def Shifts {Tree : Type} (captures : Nat → Tree → List Capture) : Prop :=
  ∀ start distance tree,
    captures (start + distance) tree = (captures start tree).map (Capture.shift distance)

theorem closing_shift (rule : String) (start distance : Nat) (text : List Char)
    (parts : List Capture) :
    closing rule (start + distance) text (parts.map (Capture.shift distance)) =
      (closing rule start text parts).map (Capture.shift distance) := by
  simp [closing, Capture.shift, Nat.add_right_comm]

/-- A rule without captures inside it. -/
theorem shifts_plain {Tree : Type} (rule : String) (text : Tree → List Char) :
    Shifts fun start tree => closing rule start (text tree) [] :=
  fun start distance tree => closing_shift rule start distance (text tree) []

namespace Shifts
variable {Tree : Type} {captures : Nat → Tree → List Capture}

theorem spread (shifts : Shifts captures) (text : Tree → List Char) :
    Shifts (Derivation.spread text captures) := by
  intro start distance trees
  induction trees generalizing start with
  | nil => rfl
  | cons tree trees ih =>
    rw [Derivation.spread, Derivation.spread, shifts, Nat.add_right_comm, ih, List.map_append]

theorem optional (shifts : Shifts captures) : Shifts (Derivation.optional captures) := by
  intro start distance tree
  cases tree with
  | none => rfl
  | some tree => exact shifts start distance tree

end Shifts

theorem shifts_name : Shifts Name.captures := shifts_plain Rule.identifier Name.text

theorem shifts_quoted : Shifts Quoted.captures := shifts_plain Rule.quotedString Quoted.text

theorem shifts_value : Shifts Value.captures := by
  intro start distance value
  cases value with
  | name word => simp only [Value.captures, shifts_name _ distance, closing_shift]
  | quoted string => simp only [Value.captures, shifts_quoted _ distance, closing_shift]

theorem shifts_test : Shifts AttributeTest.captures := by
  intro start distance test
  unfold AttributeTest.captures
  rw [List.map_append, ← closing_shift, Nat.add_right_comm, Nat.add_right_comm _ distance,
    Nat.add_right_comm _ distance, shifts_value]
  rfl

theorem shifts_brackets : Shifts Attribute.captures := by
  intro start distance brackets
  unfold Attribute.captures
  simp only [← closing_shift, List.map_append, Nat.add_right_comm _ distance,
    shifts_name _ distance, shifts_test.optional _ distance]

theorem shifts_argument : Shifts Argument.captures := by
  intro start distance argument
  cases argument with
  | quoted string => exact shifts_quoted start distance string
  | plain => rfl

theorem shifts_arguments : Shifts Arguments.captures := by
  intro start distance arguments
  unfold Arguments.captures
  rw [← closing_shift, Nat.add_right_comm, shifts_argument.spread]

theorem shifts_condition : Shifts Condition.captures := by
  intro start distance condition
  have kind : condition.kindCaptures (start + distance) =
      (condition.kindCaptures start).map (Capture.shift distance) := by
    rcases condition with brackets | name | ⟨name, arguments⟩
    · exact shifts_brackets start distance brackets
    · simp only [Condition.kindCaptures, Nat.add_right_comm _ distance, shifts_name _ distance,
        closing_shift]
    · simp only [Condition.kindCaptures, ← closing_shift, List.map_append,
        Nat.add_right_comm _ distance, shifts_name _ distance, shifts_arguments.optional _ distance]
  unfold Condition.captures
  rw [← closing_shift, kind]

theorem shifts_head : Shifts Head.captures := by
  intro start distance head
  cases head with
  | type name => simp only [Head.captures, shifts_name _ distance, closing_shift]
  | universal => exact closing_shift Rule.universalSelector start distance ['*'] []

theorem shifts_sequence : Shifts Sequence.captures := by
  intro start distance sequence
  unfold Sequence.captures
  rw [← closing_shift]
  cases sequence with
  | headed head conditions =>
    simp only [List.map_append, Nat.add_right_comm _ distance, shifts_head _ distance,
      shifts_condition.spread _ _ distance]
  | bare first more =>
    simp only [List.map_append, Nat.add_right_comm _ distance, shifts_condition _ distance,
      shifts_condition.spread _ _ distance]

theorem shifts_joint : Shifts Joint.captures := by
  intro start distance joint
  unfold Joint.captures
  simp only [← closing_shift, List.map_append, List.map_nil, Nat.add_right_comm _ distance,
    shifts_sequence _ distance]

theorem shifts_element : Shifts elementCaptures := by
  intro start distance name
  unfold elementCaptures
  rw [← closing_shift, Nat.add_right_comm, shifts_name]

theorem shifts_selector : Shifts Selector.captures := by
  intro start distance selector
  unfold Selector.captures
  simp only [← closing_shift, List.map_append, Nat.add_right_comm _ distance,
    shifts_sequence _ distance, shifts_joint.spread _ _ distance,
    shifts_element.optional _ distance]

theorem shifts_alternative : Shifts Alternative.captures := by
  intro start distance alternative
  unfold Alternative.captures
  simp only [Nat.add_right_comm _ distance, shifts_selector _ distance]

end TreeSelect.Derivation
