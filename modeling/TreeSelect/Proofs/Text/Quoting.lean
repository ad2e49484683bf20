import TreeSelect.Text.Literal
import TreeSelect.Text.Unquote

/-! Literals that are read back. They are written in one notation for escapes and read in another;
the two agree on the quote and on the backslash, and on no other letter that has to be escaped. So
a text comes back as it was if and only if all of its letters are visible. -/

namespace TreeSelect.Text

theorem unescape_plain {letter : Char} (plain : letter ≠ '\\') (rest : List Char) :
    unescape .outside (letter :: rest) = letter :: unescape .outside rest := by
  rw [unescape, if_neg plain]

/-- A letter that is no digit, and no line end, stands for itself behind a backslash. -/
theorem unescape_escaped {letter : Char} (digit : hexDigit? letter = none) (line : letter ≠ '\n')
    (carriage : letter ≠ '\r') (rest : List Char) :
    unescape .outside ('\\' :: letter :: rest) = letter :: unescape .outside rest := by
  rw [unescape, if_pos rfl]
  rw [unescape, if_neg (by simp [line, carriage]), digit]
  exact fun _ same => absurd same carriage

theorem literalLetter_of_visible {letter : Char} (visible : isVisible letter = true)
    (quote : letter ≠ '"') (backslash : letter ≠ '\\') : literalLetter letter = [letter] := by
  unfold literalLetter
  split
  next => exact absurd visible (by decide)
  next => exact absurd visible (by decide)
  next => exact absurd visible (by decide)
  next => exact absurd visible (by decide)
  next => exact absurd rfl quote
  next => exact absurd rfl backslash
  next => rw [if_pos visible]

/-- A visible letter is read as itself. -/
theorem unescape_literalLetter {letter : Char} (visible : isVisible letter = true)
    (rest : List Char) :
    unescape .outside (literalLetter letter ++ rest) = letter :: unescape .outside rest := by
  by_cases quote : letter = '"'
  · subst quote
    exact unescape_escaped rfl (by decide) (by decide) rest
  by_cases backslash : letter = '\\'
  · subst backslash
    exact unescape_escaped rfl (by decide) (by decide) rest
  rw [literalLetter_of_visible visible quote backslash]
  exact unescape_plain backslash rest

theorem letterOfCode_ne_zero (code : Nat) : letterOfCode code ≠ '\x00' := by
  by_cases zero : code = 0
  · rw [letterOfCode, if_pos zero]
    decide
  · rw [letterOfCode, if_neg zero]
    by_cases valid : code.isValidChar
    · rw [scalar?, dif_pos valid]
      exact fun same => zero (congrArg Char.toNat same)
    · rw [scalar?, dif_neg valid]
      decide

/-- Digits behind a backslash are read as one letter, which is not the letter zero. -/
theorem exists_unescape_digits (count code : Nat) (text : List Char) :
    ∃ letter rest, unescape (.digits count code) text = letter :: rest ∧ letter ≠ '\x00' := by
  induction text generalizing count code with
  | nil => exact ⟨_, _, rfl, letterOfCode_ne_zero code⟩
  | cons letter text ih =>
    rw [unescape]
    split
    next digit found =>
      split
      next => exact ih _ _
      next => exact ⟨_, _, rfl, letterOfCode_ne_zero code⟩
    next => exact ⟨_, _, rfl, letterOfCode_ne_zero code⟩

/-- A letter that is not visible is read as something else. -/
theorem exists_unescape_literalLetter {letter : Char} (hidden : isVisible letter = false)
    (rest : List Char) :
    ∃ first others, unescape .outside (literalLetter letter ++ rest) = first :: others ∧
      first ≠ letter := by
  unfold literalLetter
  split
  next => exact exists_unescape_digits 1 0 rest
  next => exact ⟨'t', _, unescape_escaped rfl (by decide) (by decide) rest, by decide⟩
  next => exact ⟨'n', _, unescape_escaped rfl (by decide) (by decide) rest, by decide⟩
  next => exact ⟨'r', _, unescape_escaped rfl (by decide) (by decide) rest, by decide⟩
  next => exact absurd hidden (by decide)
  next => exact absurd hidden (by decide)
  next =>
    rw [if_neg (by rw [hidden]; exact Bool.false_ne_true)]
    refine ⟨'u', _, unescape_escaped rfl (by decide) (by decide) _, ?_⟩
    rintro rfl
    exact absurd hidden (by decide)

theorem unquote_literal (text : List Char) :
    unquote (literal text) = unescape .outside (text.flatMap literalLetter) := by
  rw [literal, List.cons_append, unquote, if_pos ⟨.inl rfl, List.getLast?_concat ..⟩,
    List.dropLast_concat]

/-- A literal is read as the text it was written for exactly if every letter of this is visible. -/
theorem unquote_literal_eq_iff (text : List Char) :
    unquote (literal text) = text ↔ ∀ letter ∈ text, isVisible letter = true := by
  rw [unquote_literal]
  induction text with
  | nil => exact ⟨fun _ => List.forall_mem_nil _, fun _ => rfl⟩
  | cons letter text ih =>
    rw [List.flatMap_cons, List.forall_mem_cons]
    cases visible : isVisible letter with
    | true => simp only [unescape_literalLetter visible, List.cons.injEq, ih, true_and]
    | false =>
      obtain ⟨first, others, read, different⟩ :=
        exists_unescape_literalLetter visible (text.flatMap literalLetter)
      simp [read, different]

/-- Of the blank letters only the space is visible. -/
theorem small_of_visible_blank {letter : Char} (visible : isVisible letter = true)
    (blank : isBlank letter = true) : letter.toNat < 0xA0 := by
  -- every range of blank letters that reaches U+00A0 lies in a range of unseen ones
  have inside : ∀ range ∈ blankRanges, 0xA0 ≤ range.2 →
      ∃ unseen ∈ unseenRanges, unseen.1 ≤ range.1 ∧ range.2 ≤ unseen.2 := by decide +kernel
  refine Nat.lt_of_not_le fun large => ?_
  obtain ⟨range, member, first, last⟩ :=
    (Ranges.covers_iff blankRanges letter.toNat blankRanges_ordered).mp blank
  obtain ⟨unseen, found, below, above⟩ := inside range member (Nat.le_trans large last)
  have covered : unseenRanges.covers letter.toNat = true :=
    (Ranges.covers_iff unseenRanges letter.toNat unseenRanges_ordered).mpr
      ⟨unseen, found, Nat.le_trans below first, Nat.le_trans last above⟩
  simp [isVisible, covered] at visible

theorem exists_digit_of_mem_hexadecimal (code : Nat) :
    ∀ letter ∈ hexadecimal code, ∃ digit < 16, letter = Nat.digitChar digit := by
  induction code using Nat.strongRecOn with
  | ind code ih =>
    by_cases small : code < 16
    · rw [hexadecimal, Nat.toDigits_of_lt_base small]
      exact List.forall_mem_singleton.mpr ⟨code, small, rfl⟩
    · have last : code % 16 < 16 := Nat.mod_lt _ (by decide)
      have split : hexadecimal code = hexadecimal (code / 16) ++ [Nat.digitChar (code % 16)] := by
        rw [hexadecimal, hexadecimal, ← Nat.toDigits_of_lt_base last,
          Nat.toDigits_append_toDigits (by decide) (by omega) last, Nat.div_add_mod]
      rw [split, List.forall_mem_append]
      exact ⟨ih (code / 16) (by omega), List.forall_mem_singleton.mpr ⟨code % 16, last, rfl⟩⟩

end TreeSelect.Text
