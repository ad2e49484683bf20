import Mathlib.Data.List.Chain
import TreeSelect.Proofs.Json.Words

/-! Reading a text as tokens. The reader finds the tokens that a text writes, if no two of them
could run together. -/

namespace TreeSelect.Json

namespace Token

/-- Tokens that have no letter of their own to end them. -/
def isScalar : Token → Bool
  | .scalar _ => true
  | _ => false

/-- The tokens keep apart without white space between them. -/
def Apart (first second : Token) : Prop := first.isScalar = false ∨ second.isScalar = false

end Token

theorem Spelled.exists_first {value : Json} {word : List Char}
    (spelled : Spelled (.scalar value) word) :
    ∃ letter later, word = letter :: later ∧
      (letter.isDigit = true ∨ letter ∈ ['-', 'n', 't', 'f']) := by
  cases spelled with
  | nullWord => exact ⟨_, _, rfl, by decide⟩
  | trueWord => exact ⟨_, _, rfl, by decide⟩
  | falseWord => exact ⟨_, _, rfl, by decide⟩
  | number number =>
    obtain ⟨letter, later, rfl, digit | rfl⟩ := number.exists_first
    · exact ⟨letter, later, rfl, .inl digit⟩
    · exact ⟨_, _, rfl, by decide⟩

/-- A scalar is one token of its own value. -/
theorem Spelled.tokens_eq {value : Json} {word : List Char}
    (spelled : Spelled (.scalar value) word) : value.tokens = [.scalar value] := by
  cases spelled <;> rw [tokens]

theorem punctuation?_spelled {letter : Char} {token : Token}
    (found : punctuation? letter = some token) : Spelled token [letter] := by
  unfold punctuation? at found
  split at found <;> cases found <;> constructor

/-- One word is read, and then the text behind it. -/
theorem tokens?_word {fuel : Nat} {token : Token} {word rest : List Char}
    (spelled : Spelled token word) (clear : token.isScalar = true → Clear inNumber rest) :
    tokens? (fuel + 1) (word ++ rest) = (tokens? fuel rest).map (token :: ·) := by
  cases token with
  | scalar value =>
    obtain ⟨letter, later, rfl, first⟩ := spelled.exists_first
    have notSpace : isSpace letter = false := by
      by_contra space
      simp only [isSpace, Bool.not_eq_false, Bool.or_eq_true, decide_eq_true_eq] at space
      obtain ((rfl | rfl) | rfl) | rfl := space <;> revert first <;> decide
    have notPunctuation : punctuation? letter = none := by
      rw [punctuation?]
      all_goals
        rintro rfl
        revert first
        decide
    have notQuote : letter ≠ '"' := by
      rintro rfl
      revert first
      decide
    have read := scalarToken?_complete spelled (clear rfl)
    rw [List.cons_append] at read ⊢
    rw [tokens?, if_neg (by simp [notSpace]), notPunctuation]
    dsimp only
    rw [if_neg notQuote, read, Option.bind_eq_bind, Option.bind_some]
    exact Option.map_eq_bind.symm
  | string marks =>
    cases spelled with
    | @string _ body isBody =>
      have read : stringBody (body ++ '"' :: rest) = some (marks, rest) :=
        stringBody_complete isBody
      have notPunctuation : punctuation? '"' = none := rfl
      rw [List.cons_append, List.append_assoc, List.singleton_append, tokens?,
        if_neg (by decide), notPunctuation]
      dsimp only
      rw [if_pos rfl, read, Option.bind_eq_bind, Option.bind_some]
      exact Option.map_eq_bind.symm
  | _ =>
    cases spelled
    rfl

theorem Spelled.length_pos {token : Token} {word : List Char} (spelled : Spelled token word) :
    0 < word.length := by
  cases spelled with
  | number number =>
    obtain ⟨letter, later, rfl, -⟩ := number.exists_first
    exact Nat.succ_pos _
  | _ => exact Nat.succ_pos _

/-- Behind a scalar comes nothing that could belong to it. -/
theorem Written.clear {tokens : List Token} {text : List Char} (written : Written tokens text)
    (first : ∀ token ∈ tokens.head?, token.isScalar = false) : Clear inNumber text := by
  cases written with
  | nothing => exact clear_nil
  | @space letter _ _ white =>
    refine clear_cons.mpr ?_
    simp only [isSpace, Bool.or_eq_true, decide_eq_true_eq] at white
    obtain ((rfl | rfl) | rfl) | rfl := white <;> decide
  | token spelled rest =>
    have other := first _ rfl
    cases spelled
    case nullWord | trueWord | falseWord | number => cases other
    all_goals exact clear_cons.mpr (by decide)

theorem tokens?_complete {tokens : List Token} {text : List Char} (written : Written tokens text)
    (apart : tokens.IsChain Token.Apart) {fuel : Nat} (enough : text.length ≤ fuel) :
    tokens? fuel text = some tokens := by
  induction written generalizing fuel with
  | nothing => rw [tokens?]
  | space white rest ih =>
    cases fuel with
    | zero => cases enough
    | succ fuel =>
      rw [tokens?, if_pos white]
      exact ih apart (Nat.le_of_succ_le_succ enough)
  | @token token tokens word text spelled rest ih =>
    have nonempty := spelled.length_pos
    rw [List.length_append] at enough
    obtain ⟨fuel, rfl⟩ : ∃ smaller, fuel = smaller + 1 := ⟨fuel - 1, by omega⟩
    obtain ⟨beside, apart⟩ := List.isChain_cons.mp apart
    rw [tokens?_word spelled, ih apart (by omega), Option.map_some]
    -- behind a scalar stands white space or a token that begins with a mark of its own
    intro scalar
    refine rest.clear fun next first => (beside next first).resolve_left ?_
    simp [scalar]

theorem tokens?_sound {fuel : Nat} {text : List Char} {tokens : List Token}
    (read : tokens? fuel text = some tokens) : Written tokens text := by
  fun_induction tokens? fuel text generalizing tokens with
  | case1 =>
    cases read
    exact .nothing
  | case2 => cases read
  | case3 fuel letter rest white ih => exact .space white (ih read)
  | case4 fuel letter rest notWhite token found ih =>
    obtain ⟨others, readOthers, rfl⟩ := Option.map_eq_some_iff.mp read
    exact .token (punctuation?_spelled found) (ih readOthers)
  | case5 fuel rest notWhite notPunctuation ih =>
    simp only [Option.bind_eq_bind, Option.bind_eq_some_iff, Prod.exists, Option.some_inj] at read
    obtain ⟨marks, after, readBody, others, readOthers, rfl⟩ := read
    obtain ⟨body, rfl, isBody⟩ := stringBody_sound readBody
    have written := Written.token (.string isBody) (ih after readOthers)
    simpa using written
  | case6 fuel letter rest notWhite notPunctuation notQuote ih =>
    simp only [Option.bind_eq_bind, Option.bind_eq_some_iff, Prod.exists, Option.some_inj] at read
    obtain ⟨value, after, readValue, others, readOthers, rfl⟩ := read
    obtain ⟨word, same, spelled⟩ := scalarToken?_sound readValue
    rw [same]
    exact .token spelled (ih after readOthers)

end TreeSelect.Json
