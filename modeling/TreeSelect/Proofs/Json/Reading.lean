import TreeSelect.Proofs.Json.Tokens

/-! Reading tokens as a value, and so a whole text. The reader gives a value for exactly the texts
that spell it, which makes the value of a text the only one. -/

namespace TreeSelect.Json

/-- An array has no token for a missing value. -/
theorem exists_first_token (value : Json) :
    ∃ token rest, value.tokens = token :: rest ∧ token ≠ .closeBracket := by
  cases value
  all_goals
    rw [tokens]
    refine ⟨_, _, rfl, ?_⟩
    intro same
    cases same

theorem elementTokens_cons {value : Json} {items : List Json} (more : items ≠ []) :
    elementTokens (value :: items) = value.tokens ++ .comma :: elementTokens items := by
  obtain ⟨next, rest, rfl⟩ := List.exists_cons_of_ne_nil more
  rw [elementTokens]

theorem memberTokens_cons {name : List Mark} {value : Json} {members : List (List Mark × Json)}
    (more : members ≠ []) : memberTokens ((name, value) :: members) =
      .string name :: .colon :: (value.tokens ++ .comma :: memberTokens members) := by
  obtain ⟨next, rest, rfl⟩ := List.exists_cons_of_ne_nil more
  rw [memberTokens]

theorem exists_first_element {items : List Json} (more : items ≠ []) :
    ∃ token rest, elementTokens items = token :: rest ∧ token ≠ .closeBracket := by
  obtain ⟨value, items, rfl⟩ := List.exists_cons_of_ne_nil more
  obtain ⟨token, rest, same, other⟩ := exists_first_token value
  cases items with
  | nil => exact ⟨token, rest, by rw [elementTokens, same], other⟩
  | cons next items =>
    refine ⟨token, rest ++ .comma :: elementTokens (next :: items), ?_, other⟩
    rw [elementTokens, same, List.cons_append]

theorem exists_first_member {members : List (List Mark × Json)} (more : members ≠ []) :
    ∃ name rest, memberTokens members = .string name :: rest := by
  obtain ⟨⟨name, value⟩, members, rfl⟩ := List.exists_cons_of_ne_nil more
  cases members <;> exact ⟨name, _, by rw [memberTokens]⟩

/-- Every scalar among the tokens is one token of its own value. -/
def Plain (tokens : List Token) : Prop :=
  ∀ value, .scalar value ∈ tokens → value.tokens = [.scalar value]

theorem Written.plain {tokens : List Token} {text : List Char} (written : Written tokens text) :
    Plain tokens := by
  induction written with
  | nothing => nofun
  | space white rest ih => exact ih
  | token spelled rest ih =>
    intro value member
    obtain same | later := List.mem_cons.mp member
    · subst same
      exact spelled.tokens_eq
    · exact ih value later

theorem Plain.right {first second : List Token} (plain : Plain (first ++ second)) : Plain second :=
  fun value member => plain value (List.mem_append_right first member)

theorem Plain.tail {token : Token} {tokens : List Token} (plain : Plain (token :: tokens)) :
    Plain tokens := fun value member => plain value (.tail token member)

mutual

/-- The readers take the tokens of what they give, and nothing else. They call each other with less
fuel, so the induction is on the fuel for all three of them. -/
theorem value?_sound (fuel : Nat) {given rest : List Token} {value : Json} (plain : Plain given)
    (read : value? fuel given = some (value, rest)) : given = value.tokens ++ rest := by
  match fuel with
  | 0 => cases read
  | fuel + 1 =>
    rw [value?.eq_def] at read
    dsimp only at read
    split at read
    next => contradiction
    next =>
      cases read
      rw [plain value (.head _), List.singleton_append]
    next =>
      cases read
      rw [tokens, List.singleton_append]
    next =>
      cases read
      rw [tokens, elementTokens, List.nil_append, List.cons_append, List.singleton_append]
    next =>
      simp only [Option.bind_eq_bind, Option.bind_eq_some_iff, Prod.exists] at read
      obtain ⟨items, after, readItems, same⟩ := read
      cases same
      obtain ⟨-, rfl⟩ := elements?_sound _ plain.tail readItems
      simp [tokens]
    next =>
      cases read
      rw [tokens, memberTokens, List.nil_append, List.cons_append, List.singleton_append]
    next =>
      simp only [Option.bind_eq_bind, Option.bind_eq_some_iff, Prod.exists] at read
      obtain ⟨members, after, readMembers, same⟩ := read
      cases same
      obtain ⟨-, rfl⟩ := members?_sound _ plain.tail readMembers
      simp [tokens]
    next => cases read

theorem elements?_sound (fuel : Nat) {given rest : List Token} {items : List Json}
    (plain : Plain given) (read : elements? fuel given = some (items, rest)) :
    items ≠ [] ∧ given = elementTokens items ++ .closeBracket :: rest := by
  match fuel with
  | 0 => cases read
  | fuel + 1 =>
    rw [elements?, Option.bind_eq_bind, Option.bind_eq_some_iff] at read
    obtain ⟨⟨value, after⟩, readValue, read⟩ := read
    have here := value?_sound fuel plain readValue
    subst here
    dsimp only at read
    split at read
    next =>
      cases read
      exact ⟨List.cons_ne_nil _ _, by rw [elementTokens]⟩
    next later =>
      simp only [Option.bind_eq_bind, Option.bind_eq_some_iff, Prod.exists] at read
      obtain ⟨items, after, readItems, same⟩ := read
      cases same
      obtain ⟨more, rfl⟩ := elements?_sound fuel plain.right.tail readItems
      refine ⟨List.cons_ne_nil _ _, ?_⟩
      rw [elementTokens_cons more, List.append_assoc, List.cons_append]
    next => cases read

theorem members?_sound (fuel : Nat) {given rest : List Token} {members : List (List Mark × Json)}
    (plain : Plain given) (read : members? fuel given = some (members, rest)) :
    members ≠ [] ∧ given = memberTokens members ++ .closeBrace :: rest := by
  match fuel with
  | 0 => cases read
  | fuel + 1 =>
    rw [members?.eq_def] at read
    dsimp only at read
    split at read
    next fuel' name given same =>
      cases same
      rw [Option.bind_eq_bind, Option.bind_eq_some_iff] at read
      obtain ⟨⟨value, after⟩, readValue, read⟩ := read
      have here := value?_sound _ plain.tail.tail readValue
      subst here
      dsimp only at read
      split at read
      next =>
        cases read
        refine ⟨List.cons_ne_nil _ _, ?_⟩
        rw [memberTokens, List.cons_append, List.cons_append]
      next later =>
        simp only [Option.bind_eq_bind, Option.bind_eq_some_iff, Prod.exists] at read
        obtain ⟨members, after, readMembers, same⟩ := read
        cases same
        obtain ⟨more, rfl⟩ := members?_sound _ plain.tail.tail.right.tail readMembers
        refine ⟨List.cons_ne_nil _ _, ?_⟩
        rw [memberTokens_cons more]
        simp
      next => cases read
    next => cases read

end

mutual

/-- With fuel for two calls a token, a value is read back from its tokens, whatever comes behind. -/
theorem value?_complete (fuel : Nat) (value : Json) (rest : List Token)
    (enough : 2 * value.tokens.length ≤ fuel + 1) :
    value? fuel (value.tokens ++ rest) = some (value, rest) := by
  match fuel with
  | 0 =>
    obtain ⟨first, later, same, -⟩ := exists_first_token value
    rw [same, List.length_cons] at enough
    omega
  | fuel + 1 =>
    cases value with
    | array items =>
      by_cases empty : items = []
      · subst empty
        simp only [tokens, elementTokens, List.nil_append, List.cons_append, value?]
      · rw [tokens, List.length_cons, List.length_append, List.length_singleton] at enough
        have read := elements?_complete fuel items rest empty (by omega)
        rw [tokens, List.cons_append, List.append_assoc, List.singleton_append, value?, read]
        · rfl
        · -- the array is not taken for an empty one
          intro later same
          obtain ⟨first, others, split, notClose⟩ := exists_first_element empty
          rw [split] at same
          exact notClose (List.cons.inj same).1
    | object members =>
      by_cases empty : members = []
      · subst empty
        simp only [tokens, memberTokens, List.nil_append, List.cons_append, value?]
      · rw [tokens, List.length_cons, List.length_append, List.length_singleton] at enough
        have read := members?_complete fuel members rest empty (by omega)
        rw [tokens, List.cons_append, List.append_assoc, List.singleton_append, value?, read]
        · rfl
        · intro later same
          obtain ⟨name, others, split⟩ := exists_first_member empty
          rw [split] at same
          cases (List.cons.inj same).1
    | _ => simp only [tokens, List.cons_append, List.nil_append, value?]

theorem elements?_complete (fuel : Nat) (items : List Json) (rest : List Token)
    (more : items ≠ []) (enough : 2 * (elementTokens items).length ≤ fuel) :
    elements? fuel (elementTokens items ++ .closeBracket :: rest) = some (items, rest) := by
  match fuel, items with
  | 0, items =>
    obtain ⟨first, later, same, -⟩ := exists_first_element more
    rw [same, List.length_cons] at enough
    omega
  | fuel + 1, [value] =>
    rw [elementTokens] at enough ⊢
    rw [elements?, value?_complete fuel value _ (by omega)]
    rfl
  | fuel + 1, value :: next :: others =>
    rw [elementTokens, List.length_append, List.length_cons] at enough
    have read := elements?_complete fuel (next :: others) rest (List.cons_ne_nil _ _) (by omega)
    rw [elementTokens, List.append_assoc, List.cons_append, elements?,
      value?_complete fuel value _ (by omega), Option.bind_eq_bind, Option.bind_some]
    dsimp only
    rw [read]
    rfl

theorem members?_complete (fuel : Nat) (members : List (List Mark × Json)) (rest : List Token)
    (more : members ≠ []) (enough : 2 * (memberTokens members).length ≤ fuel) :
    members? fuel (memberTokens members ++ .closeBrace :: rest) = some (members, rest) := by
  match fuel, members with
  | 0, members =>
    obtain ⟨name, later, same⟩ := exists_first_member more
    rw [same, List.length_cons] at enough
    omega
  | fuel + 1, [(name, value)] =>
    rw [memberTokens, List.length_cons, List.length_cons] at enough
    rw [memberTokens, List.cons_append, List.cons_append, members?,
      value?_complete fuel value _ (by omega)]
    rfl
  | fuel + 1, (name, value) :: next :: others =>
    rw [memberTokens, List.length_cons, List.length_cons, List.length_append,
      List.length_cons] at enough
    have read := members?_complete fuel (next :: others) rest (List.cons_ne_nil _ _) (by omega)
    rw [memberTokens, List.cons_append, List.cons_append, List.append_assoc, List.cons_append,
      members?, value?_complete fuel value _ (by omega), Option.bind_eq_bind, Option.bind_some]
    dsimp only
    rw [read]
    rfl

end

section Apart
open Token (Apart)

theorem isChain_singleton_append {token : Token} {tokens : List Token}
    (mild : token.isScalar = false) : (token :: tokens).IsChain Apart ↔ tokens.IsChain Apart := by
  simp [List.isChain_cons, Apart, mild]

theorem isChain_append_cons {token : Token} {first second : List Token}
    (mild : token.isScalar = false) : (first ++ token :: second).IsChain Apart ↔
      first.IsChain Apart ∧ second.IsChain Apart := by
  simp [List.isChain_append, List.isChain_cons, Apart, mild]

mutual

/-- A value's tokens keep apart, for a comma, a colon or a bracket stands between any two values. -/
theorem isChain_tokens (value : Json) : value.tokens.IsChain Apart := by
  cases value with
  | array items =>
    rw [tokens, isChain_singleton_append rfl, isChain_append_cons rfl]
    exact ⟨isChain_elementTokens items, .nil⟩
  | object members =>
    rw [tokens, isChain_singleton_append rfl, isChain_append_cons rfl]
    exact ⟨isChain_memberTokens members, .nil⟩
  | _ =>
    rw [tokens]
    exact .singleton _

theorem isChain_elementTokens (items : List Json) : (elementTokens items).IsChain Apart := by
  match items with
  | [] =>
    rw [elementTokens]
    exact .nil
  | [value] =>
    rw [elementTokens]
    exact isChain_tokens value
  | value :: next :: rest =>
    rw [elementTokens, isChain_append_cons rfl]
    exact ⟨isChain_tokens value, isChain_elementTokens (next :: rest)⟩

theorem isChain_memberTokens (members : List (List Mark × Json)) :
    (memberTokens members).IsChain Apart := by
  match members with
  | [] =>
    rw [memberTokens]
    exact .nil
  | [(name, value)] =>
    rw [memberTokens, isChain_singleton_append rfl, isChain_singleton_append rfl]
    exact isChain_tokens value
  | (name, value) :: next :: rest =>
    rw [memberTokens, isChain_singleton_append rfl, isChain_singleton_append rfl,
      isChain_append_cons rfl]
    exact ⟨isChain_tokens value, isChain_memberTokens (next :: rest)⟩

end

end Apart

/-- The reader knows the texts of a value, in whatever way white space is put into them. -/
theorem parse?_eq_some_iff {text : List Char} {value : Json} :
    parse? text = some value ↔ Spells value text := by
  constructor
  · intro read
    simp only [parse?, Option.bind_eq_bind, Option.bind_eq_some_iff] at read
    obtain ⟨tokens, readTokens, ⟨found, rest⟩, readValue, same⟩ := read
    have written := tokens?_sound readTokens
    have whole := value?_sound _ written.plain readValue
    cases rest with
    | nil =>
      cases same
      rw [List.append_nil] at whole
      rw [Spells, ← whole]
      exact written
    | cons token rest => cases same
  · intro spells
    have readValue := value?_complete (2 * value.tokens.length) value [] (Nat.le_succ _)
    rw [List.append_nil] at readValue
    rw [parse?, tokens?_complete spells (isChain_tokens value) (Nat.le_refl _),
      Option.bind_eq_bind, Option.bind_some, readValue]
    rfl

end TreeSelect.Json
