/-! Sets of code points as lists of ranges. -/

namespace TreeSelect.Text

/-- Closed ranges of code points, to be given in increasing order. -/
abbrev Ranges := List (Nat × Nat)

namespace Ranges

/-- The search stops at the first range that lies above the code point. -/
def covers : Ranges → Nat → Bool
  | [], _ => false
  | (first, last) :: higher, code =>
      if code < first then false else code ≤ last || covers higher code

/-- Every range begins at `least` or above and behind the end of the range before it. -/
def orderedFrom (least : Nat) : Ranges → Bool
  | [] => true
  | (first, last) :: higher =>
      decide (least ≤ first) && decide (first ≤ last) && orderedFrom (last + 1) higher

def ordered (ranges : Ranges) : Bool := ranges.orderedFrom 0

theorem le_of_orderedFrom (ranges : Ranges) (least : Nat)
    (ordered : ranges.orderedFrom least = true) (range : Nat × Nat) (member : range ∈ ranges) :
    least ≤ range.1 := by
  induction ranges generalizing least with
  | nil => cases member
  | cons lowest higher ih =>
    rcases lowest with ⟨first, last⟩
    simp only [orderedFrom, Bool.and_eq_true, decide_eq_true_eq] at ordered
    rcases List.mem_cons.mp member with same | later
    · subst same
      exact ordered.1.1
    · have above := ih (last + 1) ordered.2 later
      omega

theorem covers_iff_from (ranges : Ranges) (least code : Nat)
    (ordered : ranges.orderedFrom least = true) :
    ranges.covers code = true ↔ ∃ range ∈ ranges, range.1 ≤ code ∧ code ≤ range.2 := by
  induction ranges generalizing least with
  | nil => simp [covers]
  | cons lowest higher ih =>
    rcases lowest with ⟨first, last⟩
    simp only [orderedFrom, Bool.and_eq_true, decide_eq_true_eq] at ordered
    have later := ih (last + 1) ordered.2
    by_cases below : code < first
    · rw [covers, if_pos below]
      constructor
      · intro covered
        cases covered
      · rintro ⟨range, member, start, _⟩
        rcases List.mem_cons.mp member with same | deeper
        · subst same
          exact absurd below (Nat.not_lt.mpr start)
        · have above := le_of_orderedFrom higher (last + 1) ordered.2 range deeper
          omega
    · rw [covers, if_neg below, Bool.or_eq_true, decide_eq_true_eq, later]
      constructor
      · rintro (inside | ⟨range, member, bounds⟩)
        · exact ⟨(first, last), List.mem_cons_self .., Nat.not_lt.mp below, inside⟩
        · exact ⟨range, List.mem_cons_of_mem _ member, bounds⟩
      · rintro ⟨range, member, bounds⟩
        rcases List.mem_cons.mp member with same | deeper
        · subst same
          exact Or.inl bounds.2
        · exact Or.inr ⟨range, deeper, bounds⟩

/-- Stopping early loses nothing where the ranges are in order. -/
theorem covers_iff (ranges : Ranges) (code : Nat) (ordered : ranges.ordered = true) :
    ranges.covers code = true ↔ ∃ range ∈ ranges, range.1 ≤ code ∧ code ≤ range.2 :=
  covers_iff_from ranges 0 code ordered

end Ranges
end TreeSelect.Text
