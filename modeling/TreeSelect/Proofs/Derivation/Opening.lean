import TreeSelect.Proofs.Derivation.Settling

/-! The letters that the parts of a selector begin with. -/

namespace TreeSelect.Derivation
open TreeSelect.Text

/-- The text begins with an admitted letter. -/
def Opens (admits : Char → Bool) (text : List Char) : Prop :=
  ∃ letter rest, text = letter :: rest ∧ admits letter = true

theorem Opens.append {admits : Char → Bool} {text : List Char} (opens : Opens admits text)
    (rest : List Char) : Opens admits (text ++ rest) := by
  obtain ⟨letter, more, rfl, admitted⟩ := opens
  exact ⟨letter, more ++ rest, rfl, admitted⟩

theorem Opens.weaken {admits others : Char → Bool} {text : List Char} (opens : Opens admits text)
    (covers : ∀ letter, admits letter = true → others letter = true) : Opens others text := by
  obtain ⟨letter, rest, same, admitted⟩ := opens
  exact ⟨letter, rest, same, covers letter admitted⟩

theorem Opens.not_bars {admits : Char → Bool} {text : List Char} (opens : Opens admits text) :
    ¬ Bars admits text := by
  obtain ⟨letter, rest, rfl, admitted⟩ := opens
  simp [admitted]

theorem Opens.ne_cons {admits : Char → Bool} {text : List Char} (opens : Opens admits text)
    {letter : Char} (excluded : admits letter = false) (rest : List Char) :
    text ≠ letter :: rest := by
  rintro rfl
  exact opens.not_bars ((bars_cons admits letter rest).mpr excluded)

theorem Opens.bars {admits others : Char → Bool} {text : List Char} (opens : Opens admits text)
    (disjoint : ∀ letter ∈ text, admits letter = true → others letter = false) :
    Bars others text := by
  obtain ⟨letter, rest, rfl, admitted⟩ := opens
  exact (bars_cons _ _ _).mpr (disjoint letter (List.mem_cons_self ..) admitted)

/-- A property of the letters below U+00A0 can be checked. -/
theorem of_code (holds : Char → Prop) (checked : ∀ code < 0xA0, holds (Char.ofNat code))
    {letter : Char} (small : letter.toNat < 0xA0) : holds letter := by
  have known := checked letter.toNat small
  rwa [Char.ofNat_toNat] at known

theorem nameLetter_of_nameStart {letter : Char} (starts : nameStart.contains letter = true) :
    nameLetter.contains letter = true := by
  simp only [CharClass.contains, nameStart, nameLetter, List.any_cons, List.any_nil,
    Bool.or_false, Bool.bne_false, Bool.or_eq_true] at starts ⊢
  rcases starts with lower | upper | line | high
  · exact .inl lower
  · exact .inr (.inl upper)
  · exact .inr (.inr (.inr (.inl line)))
  · exact .inr (.inr (.inr (.inr (.inr high))))

theorem Name.letters (name : Name) : ∀ letter ∈ name.text, nameLetter.contains letter = true := by
  intro letter member
  have parts : letter = '-' ∨ letter = name.first ∨ letter ∈ name.more.text := by
    rcases List.mem_append.mp member with dash | further
    · split at dash
      · exact .inl (List.mem_singleton.mp dash)
      · exact absurd dash List.not_mem_nil
    · exact .inr (List.mem_cons.mp further)
  rcases parts with rfl | rfl | more
  · decide
  · exact nameLetter_of_nameStart name.starts
  · exact name.more.admitted letter more

theorem Name.opens (name : Name) : Opens nameLetter.contains name.text := by
  have letters := name.letters
  have long : name.text ≠ [] := by simp [Name.text]
  cases text : name.text with
  | nil => exact absurd text long
  | cons letter rest =>
    exact ⟨letter, rest, rfl, letters letter (text ▸ List.mem_cons_self ..)⟩

/-- The letters that a value begins with. -/
def valueLetter (letter : Char) : Bool :=
  nameLetter.contains letter || letter == '"' || letter == '\''

/-- The letters that a condition begins with. -/
def conditionLetter (letter : Char) : Bool := letter == '[' || letter == '#' || letter == ':'

/-- The letters that a sequence of conditions begins with. -/
def sequenceLetter (letter : Char) : Bool :=
  nameLetter.contains letter || letter == '*' || conditionLetter letter

theorem small_of_combinatorLetter {letter : Char}
    (admitted : combinatorLetter.contains letter = true)
    (narrow : isBlank letter = true → letter.toNat < 0xA0) : letter.toNat < 0xA0 := by
  simp only [CharClass.contains, combinatorLetter, List.any_cons, List.any_nil, Bool.or_false,
    Bool.bne_false, Bool.or_eq_true, range_contains_iff] at admitted
  rcases admitted with blank | rfl | rfl | rfl
  · exact narrow blank
  all_goals decide

theorem combinatorLetter_of_blank {letter : Char} (blank : isBlank letter = true) :
    combinatorLetter.contains letter = true := by
  simp [CharClass.contains, combinatorLetter, ClassItem.contains, blank]

/-- Where no letter is of both kinds, what begins a sequence of conditions is no combinator. -/
theorem not_combinatorLetter {letter : Char}
    (narrow : isBlank letter = true → letter.toNat < 0xA0)
    (begins : sequenceLetter letter = true) : combinatorLetter.contains letter = false := by
  rw [← Bool.not_eq_true]
  intro joins
  have disjoint := of_code
    (fun letter => combinatorLetter.contains letter = true → sequenceLetter letter = false)
    (by decide +kernel) (small_of_combinatorLetter joins narrow) joins
  rw [begins] at disjoint
  cases disjoint

theorem not_blank_of_sequenceLetter {letter : Char}
    (narrow : isBlank letter = true → letter.toNat < 0xA0)
    (begins : sequenceLetter letter = true) : isBlank letter = false := by
  rw [← Bool.not_eq_true]
  intro blank
  have joins := not_combinatorLetter narrow begins
  rw [combinatorLetter_of_blank blank] at joins
  cases joins

theorem not_blank_of_valueLetter {letter : Char}
    (narrow : isBlank letter = true → letter.toNat < 0xA0)
    (begins : valueLetter letter = true) : isBlank letter = false := by
  rw [← Bool.not_eq_true]
  intro blank
  have disjoint := of_code (fun letter => isBlank letter = true → valueLetter letter = false)
    (by decide +kernel) (narrow blank) blank
  rw [begins] at disjoint
  cases disjoint

end TreeSelect.Derivation
