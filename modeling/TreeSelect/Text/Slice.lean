/-! Positions in a text are counted in bytes of its UTF-8 form. -/

namespace TreeSelect.Text

/-- The number of bytes of a text in UTF-8. -/
def width : List Char → Nat
  | [] => 0
  | letter :: rest => letter.utf8Size + width rest

/-- Letters that start before the given byte are left out. -/
def dropBytes : Nat → List Char → List Char
  | _, [] => []
  | bytes, letter :: rest =>
      if bytes = 0 then letter :: rest else dropBytes (bytes - letter.utf8Size) rest

/-- Letters that start before the given byte. -/
def takeBytes : Nat → List Char → List Char
  | _, [] => []
  | bytes, letter :: rest =>
      if bytes = 0 then [] else letter :: takeBytes (bytes - letter.utf8Size) rest

/-- The letters between two byte positions, each the start of a letter or the end of the text. -/
def slice (start stop : Nat) (text : List Char) : List Char :=
  takeBytes (stop - start) (dropBytes start text)

@[simp] theorem width_nil : width [] = 0 := rfl

@[simp] theorem width_append (front back : List Char) :
    width (front ++ back) = width front + width back := by
  induction front with
  | nil => simp
  | cons letter front ih => simp [width, ih, Nat.add_assoc]

theorem utf8Size_pos (letter : Char) : 0 < letter.utf8Size := Char.utf8Size_pos letter

theorem dropBytes_width_append (front back : List Char) :
    dropBytes (width front) (front ++ back) = back := by
  induction front with
  | nil => cases back <;> simp [dropBytes]
  | cons letter front ih =>
    have positive := utf8Size_pos letter
    simp only [List.cons_append, width, dropBytes]
    rw [if_neg (by omega), Nat.add_sub_cancel_left]
    exact ih

theorem takeBytes_width_append (front back : List Char) :
    takeBytes (width front) (front ++ back) = front := by
  induction front with
  | nil => cases back <;> simp [takeBytes]
  | cons letter front ih =>
    have positive := utf8Size_pos letter
    simp only [List.cons_append, width, takeBytes]
    rw [if_neg (by omega), Nat.add_sub_cancel_left, ih]

/-- A slice between two letter boundaries is what stands between them. -/
theorem slice_append (front middle back : List Char) :
    slice (width front) (width front + width middle) (front ++ (middle ++ back)) = middle := by
  rw [slice, dropBytes_width_append, Nat.add_sub_cancel_left, takeBytes_width_append]

end TreeSelect.Text
