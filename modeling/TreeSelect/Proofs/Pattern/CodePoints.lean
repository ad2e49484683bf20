import TreeSelect.Proofs.Pattern.Spellings

/-! The code point escapes of an accepted pattern. Wherever one begins, a number follows: hexadecimal
digits, which one plus sign may precede. The sign has no meaning; no escape is refused for it. -/

namespace TreeSelect.Dialect

/-- Each backslash in the text stands before a letter of its own. -/
inductive Paired : List Char → Prop where
  | nil : Paired []
  | plain {letter : Char} {text : List Char} (unescaped : letter ≠ '\\') (further : Paired text) :
      Paired (letter :: text)
  | escape (letter : Char) {text : List Char} (further : Paired text) :
      Paired ('\\' :: letter :: text)

theorem Paired.of_append {front back : List Char} (paired : Paired (front ++ back))
    (unescaped : '\\' ∉ front) : Paired back := by
  induction front with
  | nil => exact paired
  | cons letter front ih =>
    generalize same : letter :: front ++ back = whole at paired
    cases paired with
    | nil => cases same
    | plain _ further =>
      obtain ⟨rfl, rfl⟩ := List.cons.inj same
      exact ih further (List.not_mem_of_not_mem_cons unescaped)
    | escape =>
      obtain ⟨rfl, _⟩ := List.cons.inj same
      exact absurd (List.mem_cons_self ..) unescaped

/-- Where a text begins with letters other than backslashes, its backslashes lie behind them. -/
theorem exists_of_backslash {front back unescaped tail : List Char} (plain : '\\' ∉ unescaped)
    (same : unescaped ++ back = front ++ '\\' :: tail) :
    ∃ between, front = unescaped ++ between ∧ back = between ++ '\\' :: tail := by
  rcases List.append_eq_append_iff.mp same with ahead | ⟨rest, rfl, shape⟩
  · exact ahead
  · cases rest with
    | nil => exact ⟨[], by simp, shape.symm⟩
    | cons letter rest =>
      obtain ⟨rfl, _⟩ := List.cons.inj shape
      exact absurd (by simp) plain

/-- A backslash that no other one escapes is not part of an escape that began before it, so the text
falls into whole escapes on both sides of the place. -/
theorem Alike.cut {whole spelled front tail : List Char} (alike : Alike whole spelled)
    (complete : Paired front) (place : whole = front ++ '\\' :: tail) :
    Alike front front ∧ Alike ('\\' :: tail) ('\\' :: tail) := by
  induction alike generalizing front with
  | nil => cases front <;> cases place
  | plain unescaped further ih =>
    cases complete with
    | nil => exact absurd (List.cons.inj place).1 unescaped
    | plain _ complete =>
      obtain ⟨rfl, later⟩ := List.cons.inj place
      obtain ⟨ahead, behind⟩ := ih complete later
      exact ⟨.plain unescaped ahead, behind⟩
    | escape => exact absurd (List.cons.inj place).1 unescaped
  | escaped named further ih =>
    cases complete with
    | nil =>
      obtain ⟨_, rfl⟩ := List.cons.inj place
      exact ⟨.nil, .escaped named further.left⟩
    | plain unescaped => exact absurd (List.cons.inj place).1.symm unescaped
    | escape _ complete =>
      obtain ⟨rfl, later⟩ := List.cons.inj (List.cons.inj place).2
      obtain ⟨ahead, behind⟩ := ih complete later
      exact ⟨.escaped named ahead, behind⟩
  | @codePoint number _ text _ _ one _ further ih =>
    cases complete with
    | nil =>
      obtain ⟨_, rfl⟩ := List.cons.inj place
      exact ⟨.nil, .codePoint one one further.left⟩
    | plain unescaped => exact absurd (List.cons.inj place).1.symm unescaped
    | @escape _ front complete =>
      obtain ⟨rfl, later⟩ := List.cons.inj (List.cons.inj place).2
      -- the number and its braces have no backslash, so the place lies behind them
      have plain : '\\' ∉ '\x7b' :: (number ++ ['\x7d']) := by simp [one.unescaped]
      have braced : '\x7b' :: (number ++ ['\x7d']) ++ text = front ++ '\\' :: tail := by
        simpa using later
      obtain ⟨between, rfl, shape⟩ := exists_of_backslash plain braced
      obtain ⟨ahead, behind⟩ := ih (complete.of_append plain) shape
      refine ⟨?_, behind⟩
      simpa using Alike.codePoint one one ahead

/-! ### Accepted texts -/

theorem exists_derives_of_parse {text : List Char} {pattern : Pattern}
    (accepted : Pattern.parse text = .ok pattern) :
    ∃ alternatives, Derives (letters text) (.alternation alternatives) := by
  unfold Pattern.parse at accepted
  split at accepted
  next read => exact Consumes.run _ (.outermost .opened) read
  next => cases accepted

/-- Wherever a code point escape begins in a pattern that is accepted, a number in braces follows:
hexadecimal digits, which a plus sign may precede, with the value of a letter. So there are digits
alone where there is no sign. Every other number with this value stands for the same pattern. -/
theorem escapes_write_codePoints {text front rest : List Char} {pattern : Pattern}
    (accepted : Pattern.parse text = .ok pattern) (place : text = front ++ '\\' :: 'u' :: rest)
    (complete : Paired front) : ∃ number after letter,
      rest = '\x7b' :: (number ++ '\x7d' :: after) ∧ '\x7d' ∉ number ∧
      WritesCodePoint number letter ∧
      (number.all Text.isHexDigit = true ↔ number.head? ≠ some '+') ∧
      ∀ other, WritesCodePoint other letter → Pattern.parse
        (front ++ '\\' :: 'u' :: '\x7b' :: (other ++ '\x7d' :: after)) = .ok pattern := by
  obtain ⟨alternatives, derived⟩ := exists_derives_of_parse accepted
  obtain ⟨whole, respelled⟩ := derived.spreads text rfl
  obtain ⟨ahead, behind⟩ := whole.cut complete place
  obtain ⟨number, _, after, _, letter, shape, _, one, _, further⟩ := behind.of_codePoint
  refine ⟨number, after, letter, shape, one.braceless, one, one.all_isHexDigit_iff,
    fun other writes => ?_⟩
  have alike : Alike text (front ++ '\\' :: 'u' :: '\x7b' :: (other ++ '\x7d' :: after)) := by
    rw [place, shape]
    exact ahead.append (.codePoint one writes further.left)
  rw [(respelled _ alike).parse fun _ => .empty, ← accepted, derived.parse fun _ => .empty]

/-- The first letter of a range, written with a sign. -/
theorem escapes_write_codePoints_signed :
    Pattern.parse "[\\u\x7b+41\x7d-Z]".toList = .ok (.oneOf ⟨false, [.range 'A' 'Z']⟩) ∧
      WritesCodePoint "+41".toList 'A' ∧ "+41".toList.all Text.isHexDigit = false ∧
      Pattern.parse "[\\u\x7b041\x7d-Z]".toList = .ok (.oneOf ⟨false, [.range 'A' 'Z']⟩) := by
  have accepted : Pattern.parse "[\\u\x7b+41\x7d-Z]".toList =
      .ok (.oneOf ⟨false, [.range 'A' 'Z']⟩) := by decide +kernel
  have place : "[\\u\x7b+41\x7d-Z]".toList =
      ['['] ++ '\\' :: 'u' :: "\x7b+41\x7d-Z]".toList := rfl
  obtain ⟨number, after, letter, shape, closed, writes, signed, others⟩ :=
    escapes_write_codePoints accepted place (.plain (by decide) .nil)
  have shape : "+41\x7d-Z]".toList = number ++ '\x7d' :: after := (List.cons.inj shape).2
  have same : number = "+41".toList := by
    rw [← Piece.takeWhile_closed closed after, ← shape]
    decide
  subst same
  have meant : letter = 'A' :=
    Option.some.inj ((codePoint?_eq_some_iff.mpr writes).symm.trans (by decide))
  subst meant
  cases shape
  exact ⟨accepted, writes, Bool.eq_false_iff.mpr fun digits => signed.mp digits rfl,
    others "041".toList (codePoint?_eq_some_iff.mp (by decide))⟩

end TreeSelect.Dialect
