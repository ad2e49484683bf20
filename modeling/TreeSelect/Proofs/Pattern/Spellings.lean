import TreeSelect.Proofs.Grammar.Expansion
import TreeSelect.Proofs.Pattern.DialectAcceptance

/-! Spellings of a pattern. The numbers in its escapes may be written in other ways, with more zeros
in front, with letters of the other case, or with a plus sign: whatever the grammar derives from a
text it derives from the text in every other spelling. -/

namespace TreeSelect.Dialect

/-! ### Numbers -/

theorem all_isHexDigit {number : List Char} {digits : List Nat}
    (same : number.map Text.hexDigit? = digits.map some) : number.all Text.isHexDigit = true := by
  refine List.all_eq_true.mpr fun letter member => ?_
  have found : Text.hexDigit? letter ∈ digits.map some := same ▸ List.mem_map_of_mem member
  obtain ⟨digit, _, value⟩ := List.mem_map.mp found
  rw [Text.isHexDigit, ← value]
  rfl

namespace WritesCodePoint

variable {text : List Char} {letter : Char}

/-- Without a sign there are digits alone. -/
theorem all_isHexDigit_iff (writes : WritesCodePoint text letter) :
    text.all Text.isHexDigit = true ↔ text.head? ≠ some '+' := by
  obtain ⟨number, digits, rfl | rfl, _, same, _⟩ := writes
  · have digits := all_isHexDigit same
    refine iff_of_true digits fun signed => ?_
    have member := List.mem_of_head? signed
    exact absurd (List.all_eq_true.mp digits '+' member) (by decide)
  · refine iff_of_false (fun digits => ?_) (by simp)
    exact absurd (List.all_eq_true.mp digits '+' (List.mem_cons_self ..)) (by decide)

theorem not_mem (writes : WritesCodePoint text letter) {other : Char} (unsigned : other ≠ '+')
    (undigit : Text.isHexDigit other = false) : other ∉ text := by
  have outside {number : List Char} {digits : List Nat}
      (same : number.map Text.hexDigit? = digits.map some) : other ∉ number := by
    intro member
    have digit := List.all_eq_true.mp (all_isHexDigit same) other member
    rw [undigit] at digit
    cases digit
  obtain ⟨number, digits, rfl | rfl, _, same, _⟩ := writes
  · exact outside same
  · exact List.not_mem_cons_of_ne_of_not_mem unsigned (outside same)

theorem braceless (writes : WritesCodePoint text letter) : '\x7d' ∉ text :=
  writes.not_mem (by decide) (by decide)

theorem unescaped (writes : WritesCodePoint text letter) : '\\' ∉ text :=
  writes.not_mem (by decide) (by decide)

end WritesCodePoint

/-! ### Spellings -/

/-- The texts differ at most in how the numbers of their escapes are written. Each backslash stands
before a letter of its own, and a number before its closing brace. -/
inductive Alike : List Char → List Char → Prop where
  | nil : Alike [] []
  | plain {letter : Char} {text other : List Char} (unescaped : letter ≠ '\\')
      (further : Alike text other) : Alike (letter :: text) (letter :: other)
  | escaped {letter : Char} {text other : List Char} (named : letter ≠ 'u')
      (further : Alike text other) : Alike ('\\' :: letter :: text) ('\\' :: letter :: other)
  | codePoint {number others text other : List Char} {letter : Char}
      (one : WritesCodePoint number letter) (another : WritesCodePoint others letter)
      (further : Alike text other) : Alike ('\\' :: 'u' :: '\x7b' :: (number ++ '\x7d' :: text))
        ('\\' :: 'u' :: '\x7b' :: (others ++ '\x7d' :: other))

namespace Alike

variable {text other whole : List Char} {letter : Char}

theorem symm (alike : Alike text other) : Alike other text := by
  induction alike with
  | nil => exact .nil
  | plain unescaped _ ih => exact .plain unescaped ih
  | escaped named _ ih => exact .escaped named ih
  | codePoint one another _ ih => exact .codePoint another one ih

theorem left (alike : Alike text other) : Alike text text := by
  induction alike with
  | nil => exact .nil
  | plain unescaped _ ih => exact .plain unescaped ih
  | escaped named _ ih => exact .escaped named ih
  | codePoint one _ _ ih => exact .codePoint one one ih

theorem append {front back : List Char} (first : Alike text other) (second : Alike front back) :
    Alike (text ++ front) (other ++ back) := by
  induction first with
  | nil => exact second
  | plain unescaped _ ih => exact .plain unescaped ih
  | escaped named _ ih => exact .escaped named ih
  | codePoint one another _ ih =>
    simp only [List.cons_append, List.append_assoc]
    exact .codePoint one another ih

theorem of_plain (alike : Alike (letter :: text) whole) (unescaped : letter ≠ '\\') :
    ∃ other, whole = letter :: other ∧ Alike text other := by
  generalize same : letter :: text = first at alike
  cases alike with
  | nil => cases same
  | plain _ further =>
    cases same
    exact ⟨_, rfl, further⟩
  | escaped | codePoint =>
    cases same
    exact absurd rfl unescaped

theorem of_escaped (alike : Alike ('\\' :: letter :: text) whole) (named : letter ≠ 'u') :
    ∃ other, whole = '\\' :: letter :: other ∧ Alike text other := by
  generalize same : '\\' :: letter :: text = first at alike
  cases alike with
  | nil => cases same
  | plain unescaped _ =>
    cases same
    exact absurd rfl unescaped
  | escaped _ further =>
    cases same
    exact ⟨_, rfl, further⟩
  | codePoint =>
    cases same
    exact absurd rfl named

theorem of_codePoint (alike : Alike ('\\' :: 'u' :: text) whole) :
    ∃ number others after other letter, text = '\x7b' :: (number ++ '\x7d' :: after) ∧
      whole = '\\' :: 'u' :: '\x7b' :: (others ++ '\x7d' :: other) ∧
        WritesCodePoint number letter ∧ WritesCodePoint others letter ∧ Alike after other := by
  generalize same : '\\' :: 'u' :: text = first at alike
  cases alike with
  | nil => cases same
  | plain unescaped _ =>
    cases same
    exact absurd rfl unescaped
  | escaped named _ =>
    cases same
    exact absurd rfl named
  | codePoint one another further =>
    cases same
    exact ⟨_, _, _, _, _, rfl, rfl, one, another, further⟩

theorem of_number {number : List Char}
    (alike : Alike ('\\' :: 'u' :: '\x7b' :: (number ++ '\x7d' :: text)) whole)
    (one : WritesCodePoint number letter) : ∃ others other,
      whole = '\\' :: 'u' :: '\x7b' :: (others ++ '\x7d' :: other) ∧
        WritesCodePoint others letter ∧ Alike text other := by
  obtain ⟨again, others, after, other, value, same, rfl, first, second, further⟩ :=
    alike.of_codePoint
  have bodies := (List.cons.inj same).2
  have numbers : number = again := by
    rw [← Piece.takeWhile_closed one.braceless text, bodies, Piece.takeWhile_closed first.braceless]
  subst numbers
  cases List.append_cancel_left bodies
  have unique : letter = value := by
    rw [← codePoint?_eq_some_iff] at one first
    exact Option.some.inj (one.symm.trans first)
  exact ⟨others, other, rfl, unique ▸ second, further⟩

/-- A part of the text that is made up of whole escapes is a part in every spelling. -/
theorem split {front first back : List Char} (parted : Alike front first)
    (alike : Alike (front ++ back) whole) :
    ∃ before behind, whole = before ++ behind ∧ Alike front before ∧ Alike back behind := by
  induction parted generalizing whole with
  | nil => exact ⟨[], whole, rfl, .nil, alike⟩
  | plain unescaped _ ih =>
    obtain ⟨other, rfl, further⟩ := alike.of_plain unescaped
    obtain ⟨before, behind, rfl, ahead, rest⟩ := ih further
    exact ⟨_, behind, rfl, .plain unescaped ahead, rest⟩
  | escaped named _ ih =>
    obtain ⟨other, rfl, further⟩ := alike.of_escaped named
    obtain ⟨before, behind, rfl, ahead, rest⟩ := ih further
    exact ⟨_, behind, rfl, .escaped named ahead, rest⟩
  | codePoint one _ _ ih =>
    simp only [List.cons_append, List.append_assoc] at alike
    obtain ⟨others, other, rfl, another, further⟩ := alike.of_number one
    obtain ⟨before, behind, rfl, ahead, rest⟩ := ih further
    exact ⟨_, behind, by simp, .codePoint one another ahead, rest⟩

theorem of_unescaped (unescaped : '\\' ∉ text) : Alike text text := by
  induction text with
  | nil => exact .nil
  | cons letter text ih =>
    have apart := List.ne_and_not_mem_of_not_mem_cons unescaped
    exact .plain (Ne.symm apart.1) (ih apart.2)

theorem eq_of_unescaped (alike : Alike text other) (unescaped : '\\' ∉ text) : other = text := by
  induction alike with
  | nil => rfl
  | plain _ _ ih => rw [ih (List.not_mem_of_not_mem_cons unescaped)]
  | escaped | codePoint => exact absurd (List.mem_cons_self ..) unescaped

theorem head? (alike : Alike text other) : other.head? = text.head? := by
  cases alike <;> rfl

theorem beginsRange (alike : Alike text other) :
    Dialect.beginsRange other = Dialect.beginsRange text := by
  cases alike with
  | nil => rfl
  | @plain letter _ _ _ further =>
    by_cases dash : letter = '-'
    · subst dash
      cases further <;> rfl
    · simp [Dialect.beginsRange, dash]
  | escaped | codePoint => rfl

/-- A single bracket is spelled in one way only. -/
theorem ne_bracket (alike : Alike text other) (further : text ≠ [']']) : other ≠ [']'] := by
  rintro rfl
  exact further (alike.symm.eq_of_unescaped (by decide))

end Alike

/-- The text is made up of whole escapes and other letters, and it has the property in whatever way
its numbers are written. -/
def EverySpelling (Holds : List Char → Prop) (text : List Char) : Prop :=
  Alike text text ∧ ∀ other, Alike text other → Holds other

namespace EverySpelling

variable {First Second : List Char → Prop} {text : List Char} {letter : Char}

theorem imp (every : EverySpelling First text) (step : ∀ other, First other → Second other) :
    EverySpelling Second text :=
  ⟨every.1, fun other alike => step other (every.2 other alike)⟩

theorem and_alike (every : EverySpelling First text) :
    EverySpelling (fun other => First other ∧ Alike text other) text :=
  ⟨every.1, fun other alike => ⟨every.2 other alike, alike⟩⟩

theorem append {front back : List Char} (first : EverySpelling First front)
    (second : EverySpelling Second back) : EverySpelling (fun text => ∃ before behind,
      text = before ++ behind ∧ First before ∧ Second behind) (front ++ back) := by
  refine ⟨first.1.append second.1, fun other alike => ?_⟩
  obtain ⟨before, behind, rfl, ahead, rest⟩ := first.1.split alike
  exact ⟨before, behind, rfl, first.2 before ahead, second.2 behind rest⟩

theorem of_unescaped (unescaped : '\\' ∉ text) (holds : First text) : EverySpelling First text :=
  ⟨.of_unescaped unescaped, fun _ alike => alike.eq_of_unescaped unescaped ▸ holds⟩

theorem escaped (named : letter ≠ 'u') (holds : First ['\\', letter]) :
    EverySpelling First ['\\', letter] := by
  refine ⟨.escaped named .nil, fun other alike => ?_⟩
  obtain ⟨rest, rfl, further⟩ := alike.of_escaped named
  cases further
  exact holds

theorem codePoint {number : List Char} (one : WritesCodePoint number letter)
    (holds : ∀ others, WritesCodePoint others letter →
      First ('\\' :: 'u' :: '\x7b' :: (others ++ ['\x7d']))) :
    EverySpelling First ('\\' :: 'u' :: '\x7b' :: (number ++ ['\x7d'])) := by
  refine ⟨.codePoint one one .nil, fun other alike => ?_⟩
  obtain ⟨others, rest, rfl, another, further⟩ := alike.of_number one
  cases further
  exact holds others another

end EverySpelling

/-! ### Escapes and classes -/

theorem EscapedLetter.everySpelling {text : List Char} {letter : Char}
    (meant : EscapedLetter text letter) :
    EverySpelling (fun other => ∃ text, other = '\\' :: text ∧ EscapedLetter text letter)
      ('\\' :: text) := by
  cases meant with
  | tab => exact .escaped (by decide) ⟨_, rfl, .tab⟩
  | carriageReturn => exact .escaped (by decide) ⟨_, rfl, .carriageReturn⟩
  | newline => exact .escaped (by decide) ⟨_, rfl, .newline⟩
  | codePoint inside value =>
    exact .codePoint (codePoint?_eq_some_iff.mp value) fun others another =>
      ⟨_, rfl, .codePoint another.braceless (codePoint?_eq_some_iff.mpr another)⟩
  | itself other =>
    refine .escaped ?_ ⟨_, rfl, .itself other⟩
    rintro rfl
    cases other

theorem ClassLetter.everySpelling {text : List Char} {letter : Char}
    (meant : ClassLetter text letter) : EverySpelling (ClassLetter · letter) text := by
  cases meant with
  | plain unescaped => exact .of_unescaped (by simpa using unescaped.symm) (.plain unescaped)
  | escaped meant =>
    refine meant.everySpelling.imp ?_
    rintro _ ⟨text, rfl, meant⟩
    exact .escaped meant

theorem ClassItems.everySpelling {atFirst : Bool} {text : List Char} {items : List ClassItem}
    (derived : ClassItems atFirst text items) :
    EverySpelling (ClassItems atFirst · items) text := by
  induction derived with
  | close => exact .of_unescaped (by decide) .close
  | @named atFirst letter item text items known _ ih =>
    have named : letter ≠ 'u' := by
      rintro rfl
      cases known
    have first : EverySpelling (· = ['\\', letter]) ['\\', letter] := .escaped named rfl
    refine (first.append ih).imp ?_
    rintro _ ⟨_, rest, rfl, rfl, further⟩
    exact .named known further
  | single meant inside alone _ ih =>
    refine (meant.everySpelling.and_alike.append ih.and_alike).imp ?_
    rintro _ ⟨written, rest, rfl, ⟨meant, alike⟩, further, later⟩
    exact .single meant (inside.imp_right alike.ne_bracket) (later.beginsRange.trans alone) further
  | range lower inside upper further ordered _ ih =>
    have dash : EverySpelling (· = ['-']) ['-'] := .of_unescaped (by decide) rfl
    have above := dash.append (upper.everySpelling.and_alike.append ih)
    refine (lower.everySpelling.and_alike.append above).imp ?_
    rintro _ ⟨low, _, rfl, ⟨lower, one⟩, _, _, rfl, rfl, high, rest, rfl, ⟨upper, two⟩, items⟩
    have whole := ClassItems.range lower (inside.imp_right one.ne_bracket) upper
      (two.ne_bracket further) ordered items
    exact whole

theorem ClassText.everySpelling {text : List Char} {set : CharClass} (derived : ClassText text set) :
    EverySpelling (ClassText · set) text := by
  cases derived with
  | positive unmarked inside =>
    refine inside.everySpelling.and_alike.imp ?_
    rintro other ⟨inside, alike⟩
    exact .positive (alike.head?.symm ▸ unmarked) inside
  | negated inside =>
    have mark : EverySpelling (· = ['^']) ['^'] := .of_unescaped (by decide) rfl
    refine (mark.append inside.everySpelling).imp ?_
    rintro _ ⟨_, rest, rfl, rfl, inside⟩
    exact .negated inside

theorem Escape.everySpelling {text : List Char} {pattern : Pattern} (meant : Escape text pattern) :
    EverySpelling (fun other => ∃ text, other = '\\' :: text ∧ Escape text pattern)
      ('\\' :: text) := by
  cases meant with
  | named known =>
    refine .escaped ?_ ⟨_, rfl, .named known⟩
    rintro rfl
    cases known
  | letter meant =>
    refine meant.everySpelling.imp ?_
    rintro _ ⟨text, rfl, meant⟩
    exact ⟨text, rfl, .letter meant⟩

/-- Nothing in front of the body of a group is escaped. -/
theorem GroupHeader.unescaped {header : List Char} {name : Option String}
    (opened : GroupHeader header name) : '\\' ∉ header := by
  have inName {name : List Char} (valid : isName name = true) : '\\' ∉ name := fun member => by
    have letters := (Bool.and_eq_true_iff.mp valid).2
    exact absurd (List.all_eq_true.mp letters _ member) (by decide)
  cases opened with
  | bare | unnamed => decide
  | named valid | marked valid => simp [inName valid]

/-! ### Derivations -/

/-- The text that these pieces are the letters of, if there is one, has the property in every
spelling. -/
def Spreads (Holds : List Char → Prop) (pieces : List Piece) : Prop :=
  ∀ text, letters text = pieces → EverySpelling Holds text

namespace Spreads

variable {First Second : List Char → Prop} {text : List Char}

theorem of_letters (every : EverySpelling First text) : Spreads First (letters text) := by
  intro other same
  rwa [List.map_injective_iff.mpr (fun _ _ => Piece.plain.inj) same]

theorem fixed (unescaped : '\\' ∉ text) : Spreads (· = text) (letters text) :=
  of_letters (.of_unescaped unescaped rfl)

theorem imp {pieces : List Piece} (spreads : Spreads First pieces)
    (step : ∀ other, First other → Second other) : Spreads Second pieces :=
  fun text same => (spreads text same).imp step

theorem append {front back : List Piece} (first : Spreads First front)
    (second : Spreads Second back) : Spreads (fun text => ∃ before behind,
      text = before ++ behind ∧ First before ∧ Second behind) (front ++ back) := by
  intro text same
  obtain ⟨before, behind, rfl, ahead, rest⟩ := List.map_eq_append_iff.mp same
  exact (first before ahead).append (second behind rest)

end Spreads

theorem letters_append (front back : List Char) :
    letters (front ++ back) = letters front ++ letters back := List.map_append

/-- What is derived from a text is derived from it in every spelling. -/
theorem Derives.spreads {pieces : List Piece} {phrase : Phrase} (derived : Derives pieces phrase) :
    Spreads (fun text => Derives (letters text) phrase) pieces := by
  have single {letter : Char} {phrase : Phrase} (unescaped : letter ≠ '\\')
      (derived : Derives (letters [letter]) phrase) :
      Spreads (fun text => Derives (letters text) phrase) (letters [letter]) :=
    .of_letters (.of_unescaped (by simpa using unescaped.symm) derived)
  induction derived with
  | @letter letter itself =>
    refine single ?_ (.letter itself)
    rintro rfl
    cases itself
  | anyChar => exact single (by decide) .anyChar
  | atStart => exact single (by decide) .atStart
  | atEnd => exact single (by decide) .atEnd
  | oneOf inside =>
    have bracket : Spreads (· = ['[']) (letters ['[']) := .fixed (by decide)
    refine (bracket.append (.of_letters inside.everySpelling)).imp ?_
    rintro _ ⟨_, text, rfl, rfl, inside⟩
    exact .oneOf inside
  | @escape text pattern meant =>
    have whole : Spreads _ (letters ('\\' :: text)) := .of_letters meant.everySpelling
    refine whole.imp ?_
    rintro _ ⟨text, rfl, meant⟩
    exact .escape meant
  | reference rule =>
    intro text same
    cases text <;> cases same
  | @group header name _ _ opened _ inner =>
    have opening : Spreads (· = ['(']) (letters ['(']) := .fixed (by decide)
    have closing : Spreads (· = [')']) (letters [')']) := .fixed (by decide)
    have headed := (Spreads.fixed opened.unescaped).append inner
    refine (opening.append (headed.append closing)).imp ?_
    rintro _ ⟨_, _, rfl, rfl, _, _, rfl, ⟨_, body, rfl, rfl, inside⟩, rfl⟩
    have group := Derives.group opened inside
    simpa [letters] using group
  | @repeated _ _ letter _ _ meant inner =>
    have unescaped : letter ≠ '\\' := by
      rintro rfl
      cases meant
    have mark : Spreads (· = [letter]) (letters [letter]) :=
      .fixed (by simpa using unescaped.symm)
    refine (inner.append mark).imp ?_
    rintro _ ⟨text, _, rfl, item, rfl⟩
    rw [letters_append]
    exact .repeated item meant
  | nothing => exact .of_letters (.of_unescaped List.not_mem_nil .nothing)
  | item _ _ first further =>
    refine (first.append further).imp ?_
    rintro _ ⟨text, rest, rfl, item, items⟩
    rw [letters_append]
    exact .item item items
  | only _ inner => exact inner.imp fun _ sequence => .only sequence
  | alternative _ _ first further =>
    have bar : Spreads (· = ['|']) (letters ['|']) := .fixed (by decide)
    refine (first.append (bar.append further)).imp ?_
    rintro _ ⟨text, _, rfl, sequence, _, rest, rfl, rfl, alternatives⟩
    rw [letters_append]
    exact .alternative sequence alternatives

end TreeSelect.Dialect
