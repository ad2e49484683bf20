import Mathlib.Data.Nat.Digits.Defs
import Mathlib.Tactic.Ring
import TreeSelect.Text.Hexadecimal

/-! Hexadecimal digits as the numbers that they write, the first digit worth most, and the letters
with these numbers. -/

namespace TreeSelect.Text

theorem hexNumberFrom_eq_some_iff {known value : Nat} {text : List Char} :
    hexNumberFrom known text = some value ↔ ∃ digits : List Nat,
      text.map hexDigit? = digits.map some ∧
        value = 16 ^ digits.length * known + Nat.ofDigits 16 digits.reverse := by
  induction text generalizing known with
  | nil =>
    rw [hexNumberFrom]
    constructor
    · rintro ⟨⟩
      exact ⟨[], rfl, by simp⟩
    · rintro ⟨digits, same, rfl⟩
      cases digits with
      | nil => simp
      | cons digit digits => cases same
  | cons letter rest ih =>
    rw [hexNumberFrom]
    cases found : hexDigit? letter with
    | none =>
      constructor
      · intro same
        cases same
      · rintro ⟨digits, same, -⟩
        cases digits with
        | nil => cases same
        | cons digit digits => cases found.symm.trans (List.cons.inj same).1
    | some digit =>
      have value_cons (digits : List Nat) :
          16 ^ digits.length * (16 * known + digit) + Nat.ofDigits 16 digits.reverse =
            16 ^ (digit :: digits).length * known + Nat.ofDigits 16 (digit :: digits).reverse := by
        rw [List.reverse_cons, Nat.ofDigits_append, Nat.ofDigits_singleton, List.length_reverse,
          List.length_cons]
        ring
      rw [ih]
      constructor
      · rintro ⟨digits, same, rfl⟩
        exact ⟨digit :: digits, by simp [found, same], value_cons digits⟩
      · rintro ⟨digits, same, rfl⟩
        cases digits with
        | nil => cases same
        | cons first digits =>
          obtain ⟨head, tail⟩ := List.cons.inj same
          cases found.symm.trans head
          exact ⟨digits, tail, (value_cons digits).symm⟩

theorem scalar?_eq_some_iff {code : Nat} {letter : Char} :
    scalar? code = some letter ↔ code = letter.toNat := by
  by_cases valid : code.isValidChar
  · rw [scalar?, dif_pos valid, Option.some_inj]
    constructor
    · intro same
      exact congrArg Char.toNat same
    · intro same
      subst same
      rfl
  · rw [scalar?, dif_neg valid]
    constructor
    · intro same
      cases same
    · intro same
      exact absurd (same ▸ letter.valid) valid

end TreeSelect.Text
