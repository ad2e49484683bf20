import TreeSelect.Text.Slice
import TreeSelect.Text.Unquote

/-! Slices that may fail. A slice between byte positions is possible only if the first does not lie
behind the second and both lie between letters; a place inside a letter has no text. -/

namespace TreeSelect.Text

/-- A letter begins at the byte position, or the text ends there. -/
def isBoundary : (position : Nat) → List Char → Bool
  | position, [] => position == 0
  | position, letter :: rest =>
      position == 0 || letter.utf8Size ≤ position && isBoundary (position - letter.utf8Size) rest

/-- The slice between two byte positions, if it is possible. -/
def slice? (start stop : Nat) (text : List Char) : Option (List Char) :=
  if start ≤ stop ∧ isBoundary start text = true ∧ isBoundary stop text = true then
    some (slice start stop text)
  else none

theorem isBoundary_width (front back : List Char) : isBoundary (width front) (front ++ back) = true := by
  induction front with
  | nil => cases back <;> rfl
  | cons letter front ih =>
    rw [List.cons_append, isBoundary, width, Nat.add_sub_cancel_left, ih]
    simp

theorem slice?_append (front middle back : List Char) :
    slice? (width front) (width front + width middle) (front ++ (middle ++ back)) = some middle := by
  have stop := isBoundary_width (front ++ middle) back
  rw [width_append, List.append_assoc] at stop
  rw [slice?, if_pos ⟨Nat.le_add_right .., isBoundary_width front _, stop⟩, slice_append]

/-- The text behind a place. -/
theorem slice?_rest (front back : List Char) :
    slice? (width front) (width (front ++ back)) (front ++ back) = some back := by
  have whole := slice?_append front back []
  rwa [List.append_nil, ← width_append] at whole

/-- Takes the quotes off by a slice that may fail. -/
def unquote? : List Char → Option (List Char)
  | [] => some []
  | quote :: rest =>
      let raw := quote :: rest
      if (quote = '"' ∨ quote = '\'') ∧ 2 ≤ width raw ∧ raw.getLast? = some quote then
        (slice? 1 (width raw - 1) raw).map (unescape .outside)
      else some raw

/-- Both quotes are one byte wide, so what is between them is always a slice. -/
theorem unquote?_eq (text : List Char) : unquote? text = some (unquote text) := by
  rcases text with _ | ⟨quote, rest⟩
  · rfl
  by_cases quotes : quote = '"' ∨ quote = '\''
  · have narrow : quote.utf8Size = 1 := by rcases quotes with rfl | rfl <;> rfl
    rcases List.eq_nil_or_concat rest with rfl | ⟨inner, last, rfl⟩
    · simp [unquote?, unquote, width, narrow]
    · rw [List.concat_eq_append]
      have ends : (quote :: (inner ++ [last])).getLast? = some last :=
        List.getLast?_concat (l := quote :: inner)
      by_cases same : last = quote
      · subst same
        have wide : width (last :: (inner ++ [last])) = width inner + 2 := by
          simp only [width, width_append, narrow]
          omega
        have stop : width [last] + width inner = width (last :: (inner ++ [last])) - 1 := by
          rw [wide, width, narrow, width_nil]
          omega
        have sliced : slice? 1 (width (last :: (inner ++ [last])) - 1) (last :: (inner ++ [last])) =
            some inner := by
          have between := slice?_append [last] inner [last]
          rwa [stop, width, narrow] at between
        simp only [unquote?]
        rw [if_pos ⟨quotes, by omega, ends⟩, sliced]
        simp [unquote, quotes]
      · simp [unquote?, unquote, ends, same]
  · simp [unquote?, unquote, quotes]

end TreeSelect.Text
