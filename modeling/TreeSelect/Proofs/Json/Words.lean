import Mathlib.Data.List.TakeWhile
import TreeSelect.Proofs.Json.Spelling

/-! The readers of single words. Each takes from the front of a text a word of its language, and it
takes the whole word if what comes behind cannot go on with it. -/

namespace TreeSelect.Json

/-- The text is empty, or it begins with a letter outside the class. -/
def Clear (goesOn : Char → Bool) (text : List Char) : Prop :=
  ∀ next ∈ text.head?, goesOn next = false

theorem clear_nil {goesOn : Char → Bool} : Clear goesOn [] := nofun

theorem clear_cons {goesOn : Char → Bool} {letter : Char} {text : List Char} :
    Clear goesOn (letter :: text) ↔ goesOn letter = false := by simp [Clear]

/-- A reader that puts a letter in front of what another one found. -/
theorem exists_of_map_cons {Letter Rest : Type} {found : Option (List Letter × Rest)} {first : Letter}
    {whole : List Letter} {rest : Rest}
    (same : (found.map fun (later, after) => (first :: later, after)) = some (whole, rest)) :
    ∃ later, whole = first :: later ∧ found = some (later, rest) := by
  obtain ⟨⟨later, after⟩, here, same⟩ := Option.map_eq_some_iff.mp same
  cases same
  exact ⟨later, rfl, here⟩

/-- A reader and its language. -/
structure Takes (read : List Char → Option (List Char × List Char)) (language : List Char → Prop)
    (goesOn : Char → Bool) : Prop where
  sound : ∀ {text word rest}, read text = some (word, rest) → language word ∧ text = word ++ rest
  complete : ∀ {word rest}, language word → Clear goesOn rest →
    read (word ++ rest) = some (word, rest)

theorem Clear.append {goesOn : Char → Bool} {word text : List Char} (first : Clear goesOn word)
    (second : Clear goesOn text) : Clear goesOn (word ++ text) := by
  cases word with
  | nil => exact second
  | cons letter word => exact clear_cons.mpr (clear_cons.mp first)

/-- Letters that can stand behind a whole number and belong to it. -/
def inFraction (letter : Char) : Bool := letter.isDigit || letter = '.'

/-- Letters that can stand behind any number and belong to it. -/
def inNumber (letter : Char) : Bool := inFraction letter || letter = 'e' || letter = 'E'

theorem Clear.fraction {text : List Char} (clear : Clear inNumber text) :
    Clear inFraction text := by
  intro next first
  have outside := clear next first
  simp only [inNumber, Bool.or_eq_false_iff] at outside
  exact outside.1.1

theorem Clear.digit {text : List Char} (clear : Clear inFraction text) :
    Clear Char.isDigit text := by
  intro next first
  have outside := clear next first
  simp only [inFraction, Bool.or_eq_false_iff] at outside
  exact outside.1

theorem takes_digits : Takes digits? Digits Char.isDigit where
  sound := by
    intro text word rest read
    rw [digits?] at read
    split at read
    next => cases read
    next long =>
      cases read
      refine ⟨⟨by simpa using long, fun letter member => ?_⟩, List.takeWhile_append_dropWhile.symm⟩
      exact List.mem_takeWhile_imp member
  complete := by
    rintro word rest ⟨long, digits⟩ clear
    have none : rest.takeWhile Char.isDigit = [] ∧ rest.dropWhile Char.isDigit = rest := by
      cases rest with
      | nil => exact ⟨rfl, rfl⟩
      | cons next rest =>
        have other := clear_cons.mp clear
        exact ⟨List.takeWhile_cons_of_neg (by simp [other]),
          List.dropWhile_cons_of_neg (by simp [other])⟩
    rw [digits?, List.takeWhile_append_of_pos digits, List.dropWhile_append_of_pos digits, none.1,
      none.2, List.append_nil, if_neg (by simpa using long)]

theorem takes_whole : Takes integer? Whole Char.isDigit where
  sound := by
    intro text word rest read
    rw [integer?.eq_def] at read
    split at read
    next =>
      cases read
      exact ⟨.inl rfl, rfl⟩
    next text other =>
      obtain ⟨digits, rfl⟩ := Takes.sound takes_digits read
      refine ⟨.inr ⟨digits, fun zero => ?_⟩, rfl⟩
      obtain ⟨later, rfl⟩ := List.head?_eq_some_iff.mp zero
      exact other _ rfl
  complete := by
    rintro word rest (rfl | ⟨digits, first⟩) clear
    · rfl
    · rw [integer?, Takes.complete takes_digits digits clear]
      intro later same
      cases word with
      | nil => exact digits.1 rfl
      | cons letter word =>
        cases same
        exact first rfl

theorem takes_fraction : Takes fraction? Fraction inFraction where
  sound := by
    intro text word rest read
    rw [fraction?.eq_def] at read
    split at read
    next text =>
      obtain ⟨digits, rfl, found⟩ := exists_of_map_cons read
      obtain ⟨digits, rfl⟩ := Takes.sound takes_digits found
      exact ⟨.inr ⟨_, rfl, digits⟩, rfl⟩
    next =>
      cases read
      exact ⟨.inl rfl, rfl⟩
  complete := by
    rintro word rest (rfl | ⟨digits, rfl, found⟩) clear
    · rw [List.nil_append, fraction?]
      rintro later rfl
      exact absurd (clear_cons.mp clear) (by decide)
    · rw [List.cons_append, fraction?, Takes.complete takes_digits found clear.digit]
      rfl

theorem Digits.exists_digit {text : List Char} (digits : Digits text) :
    ∃ letter rest, text = letter :: rest ∧ letter.isDigit = true := by
  obtain ⟨letter, rest, rfl⟩ := List.exists_cons_of_ne_nil digits.1
  exact ⟨letter, rest, rfl, digits.2 letter (.head rest)⟩

theorem takes_signed : Takes signed? Signed Char.isDigit where
  sound := by
    intro text word rest read
    have behind : ∀ {sign : Char} {text digits : List Char}, sign = '+' ∨ sign = '-' →
        digits? text = some (digits, rest) →
          Signed (sign :: digits) ∧ sign :: text = sign :: digits ++ rest := by
      intro sign text digits either found
      obtain ⟨digits, rfl⟩ := Takes.sound takes_digits found
      exact ⟨.inr ⟨_, _, rfl, either, digits⟩, rfl⟩
    rw [signed?.eq_def] at read
    split at read
    next =>
      obtain ⟨digits, rfl, found⟩ := exists_of_map_cons read
      exact behind (.inl rfl) found
    next =>
      obtain ⟨digits, rfl, found⟩ := exists_of_map_cons read
      exact behind (.inr rfl) found
    next =>
      obtain ⟨digits, rfl⟩ := Takes.sound takes_digits read
      exact ⟨.inl digits, rfl⟩
  complete := by
    rintro word rest (digits | ⟨sign, word, rfl, rfl | rfl, digits⟩) clear
    · obtain ⟨letter, later, rfl, digit⟩ := digits.exists_digit
      rw [signed?, Takes.complete takes_digits digits clear]
      all_goals
        rintro others same
        cases same
        cases digit
    all_goals rw [List.cons_append, signed?, Takes.complete takes_digits digits clear]; rfl

theorem takes_exponent : Takes exponent? Exponent inNumber where
  sound := by
    intro text word rest read
    rw [exponent?.eq_def] at read
    split at read
    next =>
      cases read
      exact ⟨.inl rfl, rfl⟩
    next mark text =>
      split at read
      next marked =>
        obtain ⟨power, rfl, found⟩ := exists_of_map_cons read
        obtain ⟨power, rfl⟩ := Takes.sound takes_signed found
        exact ⟨.inr ⟨mark, _, rfl, marked, power⟩, rfl⟩
      next =>
        cases read
        exact ⟨.inl rfl, rfl⟩
  complete := by
    rintro word rest (rfl | ⟨mark, power, rfl, marked, found⟩) clear
    · cases rest with
      | nil => rfl
      | cons next rest =>
        have other := clear_cons.mp clear
        simp only [inNumber, Bool.or_eq_false_iff, decide_eq_false_iff_not] at other
        rw [List.nil_append, exponent?, if_neg (by simp [other])]
    · rw [List.cons_append, exponent?, if_pos marked,
        Takes.complete takes_signed found clear.fraction.digit]
      rfl

theorem Fraction.clear {text : List Char} (fraction : Fraction text) : Clear Char.isDigit text := by
  obtain rfl | ⟨digits, rfl, -⟩ := fraction
  · exact clear_nil
  · exact clear_cons.mpr rfl

theorem Exponent.clear {text : List Char} (exponent : Exponent text) : Clear inFraction text := by
  obtain rfl | ⟨mark, power, rfl, rfl | rfl, -⟩ := exponent
  · exact clear_nil
  all_goals exact clear_cons.mpr (by decide)

theorem takes_unsigned : Takes unsigned? Unsigned inNumber where
  sound := by
    intro text word rest read
    simp only [unsigned?, Option.bind_eq_bind, Option.bind_eq_some_iff, Prod.exists] at read
    obtain ⟨whole, text, readWhole, fraction, text, readFraction, exponent, text, readExponent,
      same⟩ := read
    cases same
    obtain ⟨isWhole, rfl⟩ := Takes.sound takes_whole readWhole
    obtain ⟨isFraction, rfl⟩ := Takes.sound takes_fraction readFraction
    obtain ⟨isExponent, rfl⟩ := Takes.sound takes_exponent readExponent
    exact ⟨⟨whole, fraction, exponent, rfl, isWhole, isFraction, isExponent⟩, by simp⟩
  complete := by
    rintro word rest ⟨whole, fraction, exponent, rfl, isWhole, isFraction, isExponent⟩ clear
    have afterFraction := isExponent.clear.append clear.fraction
    have afterWhole := isFraction.clear.append afterFraction.digit
    rw [List.append_assoc, List.append_assoc, unsigned?,
      Takes.complete takes_whole isWhole afterWhole, Option.bind_eq_bind, Option.bind_some]
    dsimp only
    rw [Takes.complete takes_fraction isFraction afterFraction, Option.bind_some]
    dsimp only
    rw [Takes.complete takes_exponent isExponent clear]
    rfl

theorem Unsigned.exists_digit {text : List Char} (unsigned : Unsigned text) :
    ∃ letter rest, text = letter :: rest ∧ letter.isDigit = true := by
  obtain ⟨whole, fraction, exponent, rfl, rfl | ⟨digits, -⟩, -⟩ := unsigned
  · exact ⟨'0', fraction ++ exponent, rfl, rfl⟩
  · obtain ⟨letter, rest, rfl, digit⟩ := digits.exists_digit
    exact ⟨letter, rest ++ fraction ++ exponent, rfl, digit⟩

theorem takes_number : Takes number? Number inNumber where
  sound := by
    intro text word rest read
    rw [number?.eq_def] at read
    split at read
    next =>
      obtain ⟨unsigned, rfl, found⟩ := exists_of_map_cons read
      obtain ⟨unsigned, rfl⟩ := Takes.sound takes_unsigned found
      exact ⟨.inr ⟨_, rfl, unsigned⟩, rfl⟩
    next =>
      obtain ⟨unsigned, rfl⟩ := Takes.sound takes_unsigned read
      exact ⟨.inl unsigned, rfl⟩
  complete := by
    rintro word rest (unsigned | ⟨word, rfl, unsigned⟩) clear
    · obtain ⟨letter, later, rfl, digit⟩ := unsigned.exists_digit
      rw [number?, Takes.complete takes_unsigned unsigned clear]
      rintro others same
      cases same
      cases digit
    · rw [List.cons_append, number?, Takes.complete takes_unsigned unsigned clear]
      rfl

/-- The letters that a number begins with. -/
theorem Number.exists_first {text : List Char} (number : Number text) :
    ∃ letter rest, text = letter :: rest ∧ (letter.isDigit = true ∨ letter = '-') := by
  obtain unsigned | ⟨unsigned, rfl, -⟩ := number
  · obtain ⟨letter, rest, rfl, digit⟩ := unsigned.exists_digit
    exact ⟨letter, rest, rfl, .inl digit⟩
  · exact ⟨'-', unsigned, rfl, .inr rfl⟩

theorem scalarToken?_sound {text rest : List Char} {value : Json}
    (read : scalarToken? text = some (value, rest)) :
    ∃ word, text = word ++ rest ∧ Spelled (.scalar value) word := by
  rw [scalarToken?.eq_def] at read
  split at read
  next =>
    cases read
    exact ⟨_, rfl, .nullWord⟩
  next =>
    cases read
    exact ⟨_, rfl, .trueWord⟩
  next =>
    cases read
    exact ⟨_, rfl, .falseWord⟩
  next =>
    obtain ⟨⟨digits, after⟩, found, same⟩ := Option.map_eq_some_iff.mp read
    cases same
    obtain ⟨number, rfl⟩ := Takes.sound takes_number found
    exact ⟨digits, rfl, .number number⟩

theorem scalarToken?_complete {word rest : List Char} {value : Json}
    (spelled : Spelled (.scalar value) word) (clear : Clear inNumber rest) :
    scalarToken? (word ++ rest) = some (value, rest) := by
  cases spelled with
  | nullWord => rfl
  | trueWord => rfl
  | falseWord => rfl
  | number number =>
    obtain ⟨letter, later, rfl, first⟩ := number.exists_first
    rw [scalarToken?, Takes.complete takes_number number clear]
    · rfl
    all_goals
      intro others same
      obtain ⟨rfl, -⟩ := List.cons.inj same
      revert first
      decide

theorem stringBody_sound {text rest : List Char} {marks : List Mark}
    (read : stringBody text = some (marks, rest)) :
    ∃ body, text = body ++ '"' :: rest ∧ Body marks body := by
  fun_induction stringBody text generalizing marks with
  | case1 => cases read
  | case2 first second third fourth text code value ih =>
    obtain ⟨later, rfl, found⟩ := exists_of_map_cons read
    obtain ⟨body, rfl, isBody⟩ := ih found
    exact ⟨_, rfl, .unit value isBody⟩
  | case3 => cases read
  | case4 selector text other letter known ih =>
    obtain ⟨later, rfl, found⟩ := exists_of_map_cons read
    obtain ⟨body, rfl, isBody⟩ := ih found
    exact ⟨_, rfl, .short known isBody⟩
  | case5 => cases read
  | case6 =>
    cases read
    exact ⟨[], rfl, .nothing⟩
  | case7 => cases read
  | case8 letter text notUnit notShort quote plain ih =>
    obtain ⟨later, rfl, found⟩ := exists_of_map_cons read
    obtain ⟨body, rfl, isBody⟩ := ih found
    obtain ⟨visible, backslash⟩ := not_or.mp plain
    exact ⟨_, rfl, .plain (Nat.not_lt.mp visible) quote backslash isBody⟩

theorem stringBody_complete {body rest : List Char} {marks : List Mark} (isBody : Body marks body) :
    stringBody (body ++ '"' :: rest) = some (marks, rest) := by
  induction isBody with
  | nothing =>
    rw [List.nil_append, stringBody, if_pos rfl]
    all_goals nofun
  | @plain letter marks body visible quote backslash _ ih =>
    rw [List.cons_append, stringBody, if_neg quote,
      if_neg (not_or.mpr ⟨Nat.not_lt.mpr visible, backslash⟩), ih]
    · rfl
    all_goals
      intros
      exact backslash ‹_›
  | @short selector letter marks body known _ ih =>
    rw [List.cons_append, List.cons_append, stringBody, known, ih]
    · rfl
    · rintro first second third fourth others rfl
      cases known
  | unit value _ ih =>
    simp only [List.cons_append, stringBody, value, ih]
    rfl

end TreeSelect.Json
