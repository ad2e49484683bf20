import TreeSelect.Proofs.Text.Hexadecimal
import TreeSelect.Proofs.Text.Quoting

/-! The notation for escapes in quoted values. A text can be written in many ways, and whichever is
chosen, it is read as that text. -/

namespace TreeSelect.Text

/-- One to six hexadecimal digits, of either case and with any zeros in front, that write the
number of the letter. -/
structure WritesNumber (written : List Char) (letter : Char) : Prop where
  long : written ≠ []
  short : written.length ≤ 6
  value : ∃ digits : List Nat, written.map hexDigit? = digits.map some ∧
    Nat.ofDigits 16 digits.reverse = letter.toNat

/-- A number of `count` digits in front of the text needs no blank behind it: what comes next is
not blank, and no further digit unless there are six already. -/
def EndsNumber (count : Nat) (text : List Char) : Prop :=
  ∀ next ∈ text.head?, isBlank next = false ∧ (count < 6 → isHexDigit next = false)

instance (count : Nat) : (text : List Char) → Decidable (EndsNumber count text)
  | [] => .isTrue nofun
  | next :: _ =>
      decidable_of_iff (isBlank next = false ∧ (count < 6 → isHexDigit next = false)) (by
        simp [EndsNumber])

/-- What may stand between two quotes for a text: each letter as itself, behind a backslash or as
its number, and escaped line ends wherever a letter may begin. -/
inductive Writes : (body text : List Char) → Prop
  | nothing : Writes [] []
  | plain {letter : Char} {body text : List Char} (ordinary : letter ≠ '\\')
      (rest : Writes body text) : Writes (letter :: body) (letter :: text)
  | escaped {letter : Char} {body text : List Char} (digit : isHexDigit letter = false)
      (feed : letter ≠ '\n') (carriage : letter ≠ '\r') (rest : Writes body text) :
      Writes ('\\' :: letter :: body) (letter :: text)
  | terminated {written : List Char} {letter blank : Char} {body text : List Char}
      (number : WritesNumber written letter) (positive : letter ≠ '\x00')
      (white : isBlank blank = true) (rest : Writes body text) :
      Writes ('\\' :: (written ++ blank :: body)) (letter :: text)
  | unterminated {written : List Char} {letter : Char} {body text : List Char}
      (number : WritesNumber written letter) (positive : letter ≠ '\x00')
      (ends : EndsNumber written.length body) (rest : Writes body text) :
      Writes ('\\' :: (written ++ body)) (letter :: text)
  | lineFeed {body text : List Char} (rest : Writes body text) : Writes ('\\' :: '\n' :: body) text
  | carriageReturn {body text : List Char} (alone : body.head? ≠ some '\n')
      (rest : Writes body text) : Writes ('\\' :: '\r' :: body) text
  | carriageLine {body text : List Char} (rest : Writes body text) :
      Writes ('\\' :: '\r' :: '\n' :: body) text

theorem letterOfCode_toNat {letter : Char} (positive : letter ≠ '\x00') :
    letterOfCode letter.toNat = letter := by
  have code : letter.toNat ≠ 0 := fun zero => positive (Char.toNat_inj.mp zero)
  rw [letterOfCode, if_neg code, scalar?_eq_some_iff.mpr rfl]
  rfl

theorem digit_range {letter : Char} {digit : Nat} (found : hexDigit? letter = some digit) :
    48 ≤ letter.toNat ∧ letter.toNat ≤ 102 := by
  have order (low high : Char) : low ≤ high ↔ low.toNat ≤ high.toNat := Iff.rfl
  simp only [hexDigit?, order] at found
  have bounds : '0'.toNat = 48 ∧ '9'.toNat = 57 ∧ 'a'.toNat = 97 ∧ 'f'.toNat = 102 ∧
      'A'.toNat = 65 ∧ 'F'.toNat = 70 := by decide
  split at found
  next => omega
  split at found
  next => omega
  split at found
  next => omega
  next => cases found

theorem hexDigit?_of_blank {letter : Char} (blank : isBlank letter = true) :
    hexDigit? letter = none := by
  -- no range of blanks reaches into the range from the first digit to the last
  have apart : ∀ range ∈ blankRanges, range.2 < 48 ∨ 102 < range.1 := by decide
  obtain ⟨range, member, first, last⟩ :=
    (Ranges.covers_iff blankRanges letter.toNat blankRanges_ordered).mp blank
  have outside := apart range member
  cases found : hexDigit? letter with
  | none => rfl
  | some digit =>
    have inside := digit_range found
    omega

section Numbers
variable {letter : Char} {written : List Char} (rest : List Char)

theorem unescape_first {digit : Nat} (found : hexDigit? letter = some digit) :
    unescape .begun (letter :: rest) = unescape (.digits 1 digit) rest := by
  have range := digit_range found
  have line : ¬ (letter = '\n' ∨ letter = '\r') := by
    rintro (rfl | rfl)
    · exact absurd range.1 (by decide)
    · exact absurd range.1 (by decide)
  rw [unescape, if_neg line, found]
  exact fun _ carriage => absurd (.inr carriage) line

/-- Digits are read as long as there are no more than six. -/
theorem unescape_digits {count known number : Nat} (short : count + written.length ≤ 6)
    (value : hexNumberFrom known written = some number) :
    unescape (.digits count known) (written ++ rest) =
      unescape (.digits (count + written.length) number) rest := by
  induction written generalizing count known with
  | nil =>
    cases value
    rfl
  | cons letter written ih =>
    rw [List.length_cons] at short
    rw [hexNumberFrom] at value
    cases found : hexDigit? letter with
    | none =>
      rw [found] at value
      cases value
    | some digit =>
      rw [found] at value
      rw [List.cons_append, unescape, found]
      simp only
      rw [if_pos (by omega), ih (by omega) value, List.length_cons, Nat.add_right_comm,
        Nat.add_assoc]

theorem unescape_number (number : WritesNumber written letter) :
    unescape .outside ('\\' :: (written ++ rest)) =
      unescape (.digits written.length letter.toNat) rest := by
  obtain ⟨digits, same, value⟩ := number.value
  have whole : hexNumberFrom 0 written = some letter.toNat :=
    hexNumberFrom_eq_some_iff.mpr ⟨digits, same, by rw [value, Nat.mul_zero, Nat.zero_add]⟩
  rw [unescape, if_pos rfl]
  cases written with
  | nil => exact absurd rfl number.long
  | cons first others =>
    rw [hexNumberFrom] at whole
    cases found : hexDigit? first with
    | none =>
      rw [found] at whole
      cases whole
    | some digit =>
      simp only [found, Nat.mul_zero, Nat.zero_add] at whole
      have short := number.short
      rw [List.length_cons] at short
      rw [List.cons_append, unescape_first _ found, unescape_digits _ (by omega) whole,
        List.length_cons, Nat.add_comm]

/-- One blank behind digits belongs to them. -/
theorem unescape_blank {blank : Char} (white : isBlank blank = true) (count code : Nat) :
    unescape (.digits count code) (blank :: rest) = letterOfCode code :: unescape .outside rest := by
  rw [unescape, hexDigit?_of_blank white]
  simp only
  rw [if_pos white]

/-- Digits that end by themselves take nothing of what comes behind them. -/
theorem unescape_ended {count : Nat} (ends : EndsNumber count rest) (code : Nat) :
    unescape (.digits count code) rest = letterOfCode code :: unescape .outside rest := by
  cases rest with
  | nil => rfl
  | cons next rest =>
    obtain ⟨dark, further⟩ := ends next rfl
    conv_lhs => rw [unescape]
    cases found : hexDigit? next with
    | none =>
      simp only [dark, Bool.false_eq_true, if_false]
      rw [unescape]
    | some digit =>
      have six : ¬ count < 6 := by
        intro fewer
        simp [isHexDigit, found] at further
        omega
      have plain : next ≠ '\\' := by
        rintro rfl
        cases found
      simp only
      rw [if_neg six, unescape_plain plain]

end Numbers

/-- A line end behind a backslash disappears. -/
theorem unescape_carriage {body : List Char} (alone : body.head? ≠ some '\n') :
    unescape .outside ('\\' :: '\r' :: body) = unescape .outside body := by
  rw [unescape, if_pos rfl, unescape, if_pos (.inr rfl)]
  rintro rest - rfl
  exact alone rfl

/-- Whatever is chosen to write a text, the text is read. -/
theorem unescape_of_writes {body text : List Char} (writes : Writes body text) :
    unescape .outside body = text := by
  induction writes with
  | nothing => rfl
  | plain ordinary _ ih => rw [unescape_plain ordinary, ih]
  | escaped digit feed carriage _ ih =>
    have none := Option.not_isSome_iff_eq_none.mp (Bool.eq_false_iff.mp digit)
    rw [unescape_escaped none feed carriage, ih]
  | terminated number positive white _ ih =>
    rw [unescape_number _ number, unescape_blank _ white, letterOfCode_toNat positive, ih]
  | unterminated number positive ends _ ih =>
    rw [unescape_number _ number, unescape_ended _ ends, letterOfCode_toNat positive, ih]
  | lineFeed _ ih =>
    rw [unescape, if_pos rfl, unescape, if_pos (.inl rfl), ih]
    exact fun _ same => absurd same (by decide)
  | carriageReturn alone _ ih => rw [unescape_carriage alone, ih]
  | carriageLine _ ih => rw [unescape, if_pos rfl, unescape, ih]

/-- Between quotes of either kind, every way to write a text is read as the text. -/
theorem unquote_writes {quote : Char} (mark : quote = '"' ∨ quote = '\'') {body text : List Char}
    (writes : Writes body text) : unquote (quote :: (body ++ [quote])) = text := by
  rw [unquote, if_pos ⟨mark, List.getLast?_concat ..⟩, List.dropLast_concat,
    unescape_of_writes writes]

/-- Numbers of two digits, of six and with a blank behind them, an escaped quote, and two line ends
that are not read. -/
theorem unquote_writes_accented :
    Writes "\\31\\\r\\0000E9f\\e9  \\'\\\r\n".toList "1\u00E9f\u00E9 '".toList ∧
      unquote "'\\31\\\r\\0000E9f\\e9  \\'\\\r\n'".toList = "1\u00E9f\u00E9 '".toList := by
  have one : WritesNumber ['3', '1'] '1' := ⟨by decide, by decide, [3, 1], by decide, by decide⟩
  have padded : WritesNumber ['0', '0', '0', '0', 'E', '9'] '\u00E9' :=
    ⟨by decide, by decide, [0, 0, 0, 0, 14, 9], by decide, by decide⟩
  have short : WritesNumber ['e', '9'] '\u00E9' :=
    ⟨by decide, by decide, [14, 9], by decide, by decide⟩
  have quoted : Writes ['\\', '\'', '\\', '\r', '\n'] ['\''] :=
    .escaped (by decide) (by decide) (by decide) (.carriageLine .nothing)
  have behind : Writes ('f' :: '\\' :: (['e', '9'] ++ ' ' :: ' ' :: '\\' :: '\'' :: ['\\', '\r', '\n']))
      ['f', '\u00E9', ' ', '\''] :=
    .plain (by decide) (.terminated short (by decide) (by decide) (.plain (by decide) quoted))
  have writes : Writes ('\\' :: (['3', '1'] ++ '\\' :: '\r' :: '\\' ::
      (['0', '0', '0', '0', 'E', '9'] ++ _))) _ :=
    .unterminated one (by decide) (by decide)
      (.carriageReturn (by decide) (.unterminated padded (by decide) (by decide) behind))
  exact ⟨writes, unquote_writes (.inr rfl) writes⟩

end TreeSelect.Text
