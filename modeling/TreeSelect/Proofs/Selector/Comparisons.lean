import TreeSelect.Proofs.Text.Words
import TreeSelect.Selector.Comparison

/-! Comparisons of a value with a literal, by the ways to take the value apart. -/

namespace TreeSelect.Comparison
open TreeSelect.Text

/-- What a comparison says of a value and a literal. -/
def Relates (value literal : List Char) : Comparison → Prop
  | equals => value = literal
  | includes => literal ≠ [] ∧ BlankFree literal ∧ ∃ front back,
      value = front ++ literal ++ back ∧ EndsBlank front ∧ StartsBlank back
  | dashMatch => value = literal ∨ ∃ back, value = literal ++ '-' :: back
  | startsWith => ∃ back, value = literal ++ back
  | endsWith => ∃ front, value = front ++ literal
  | contains => ∃ front back, value = front ++ literal ++ back
  | lacks => ¬∃ front back, value = front ++ literal ++ back

theorem occurs_iff {literal value : List Char} :
    occurs literal value = true ↔ ∃ front back, value = front ++ literal ++ back := by
  have infix_iff : occurs literal value = true ↔ literal <:+: value := by
    induction value with
    | nil => rw [occurs, List.isEmpty_iff, List.infix_nil]
    | cons letter rest ih =>
      rw [occurs, Bool.or_eq_true, ih, List.isPrefixOf_iff_prefix, List.infix_cons_iff]
  rw [infix_iff]
  exact exists₂_congr fun front back => eq_comm

theorem isPrefixOf_iff {literal value : List Char} :
    literal.isPrefixOf value = true ↔ ∃ back, value = literal ++ back := by
  rw [List.isPrefixOf_iff_prefix]
  exact exists_congr fun back => eq_comm

theorem isSuffixOf_iff {literal value : List Char} :
    literal.isSuffixOf value = true ↔ ∃ front, value = front ++ literal := by
  rw [List.isSuffixOf_iff_suffix]
  exact exists_congr fun front => eq_comm

/-- Whatever the value and the literal, one of them or both possibly empty. -/
theorem holds_iff_relates (comparison : Comparison) (value literal : List Char) :
    comparison.holds value literal = true ↔ comparison.Relates value literal := by
  cases comparison with
  | equals => exact beq_iff_eq
  | includes =>
    rw [holds, Relates, Bool.and_eq_true, List.contains_iff_mem, mem_words_iff,
      Bool.not_eq_true', List.isEmpty_eq_false_iff]
    exact and_iff_right_of_imp And.left
  | dashMatch =>
    rw [holds, Relates, Bool.or_eq_true, beq_iff_eq, isPrefixOf_iff]
    simp only [List.append_assoc, List.singleton_append]
  | startsWith => exact isPrefixOf_iff
  | endsWith => exact isSuffixOf_iff
  | contains => exact occurs_iff
  | lacks => rw [holds, Relates, Bool.not_eq_true', ← Bool.not_eq_true, occurs_iff]

end TreeSelect.Comparison
