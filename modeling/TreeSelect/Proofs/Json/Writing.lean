import TreeSelect.Proofs.Json.Spelling
import TreeSelect.Proofs.Text.Hexadecimal

/-! Writing strings and objects. What is written spells a value, and its strings mean the texts that
they were written for. -/

namespace TreeSelect.Json
open TreeSelect.Text

/-- Control characters without a short escape are written as numbers. -/
def markOf (letter : Char) : Mark :=
  if letter.toNat < 0x20 ∧ letter ∉ ['\x08', '\t', '\n', '\x0c', '\r'] then .unit letter.toNat
  else .plain letter

def marksOf (text : List Char) : List Mark := text.map markOf

theorem markOf_control {letter : Char} (control : letter.toNat < 0x20)
    (long : letter ∉ ['\x08', '\t', '\n', '\x0c', '\r']) : markOf letter = .unit letter.toNat :=
  if_pos ⟨control, long⟩

theorem markOf_visible {letter : Char} (visible : 0x20 ≤ letter.toNat) :
    markOf letter = .plain letter := if_neg fun control => Nat.not_lt.mpr visible control.1

theorem hexadecimal_oneDigit : ∀ code < 0x10, hexadecimal code = [Nat.digitChar code] ∧
    hexNumber? ['0', '0', '0', Nat.digitChar code] = some code := by decide

theorem hexadecimal_twoDigits : ∀ code < 0x20, ¬ code < 0x10 →
    hexadecimal code = ['1', Nat.digitChar (code % 0x10)] ∧
      hexNumber? ['0', '0', '1', Nat.digitChar (code % 0x10)] = some code := by decide

/-- The letters that are written with a short escape. -/
def escapedLetters : List Char := ['"', '\\', '\x08', '\t', '\n', '\x0c', '\r']

theorem exists_of_escaped {letter : Char} (escaped : letter ∈ escapedLetters) :
    ∃ selector, writeLetter letter = ['\\', selector] ∧ shortEscape? selector = some letter ∧
      markOf letter = .plain letter := by
  simp only [escapedLetters, List.mem_cons, List.not_mem_nil, or_false] at escaped
  rcases escaped with rfl | rfl | rfl | rfl | rfl | rfl | rfl
  all_goals exact ⟨_, rfl, rfl, if_neg (by decide)⟩

theorem writeLetter_other {letter : Char} (other : letter ∉ escapedLetters) :
    writeLetter letter =
      if letter.toNat < 0x10 then '\\' :: 'u' :: '0' :: '0' :: '0' :: hexadecimal letter.toNat
      else if letter.toNat < 0x20 then '\\' :: 'u' :: '0' :: '0' :: hexadecimal letter.toNat
      else [letter] := by
  rw [writeLetter]
  all_goals
    rintro rfl
    exact other (by decide)

/-- A written letter goes in front of what is written behind it. -/
theorem Body.letter {letter : Char} {marks : List Mark} {text : List Char}
    (rest : Body marks text) : Body (markOf letter :: marks) (writeLetter letter ++ text) := by
  by_cases escaped : letter ∈ escapedLetters
  · obtain ⟨selector, written, known, mark⟩ := exists_of_escaped escaped
    rw [written, mark]
    exact .short known rest
  · have quote : letter ≠ '"' := fun same => escaped (same ▸ .head _)
    have backslash : letter ≠ '\\' := fun same => escaped (same ▸ .tail _ (.head _))
    have long : letter ∉ ['\x08', '\t', '\n', '\x0c', '\r'] := fun short =>
      escaped (.tail _ (.tail _ short))
    rw [writeLetter_other escaped]
    split
    next oneDigit =>
      obtain ⟨digits, value⟩ := hexadecimal_oneDigit letter.toNat oneDigit
      rw [digits, markOf_control (by omega) long]
      exact .unit value rest
    next more =>
      split
      next control =>
        obtain ⟨digits, value⟩ := hexadecimal_twoDigits letter.toNat control more
        rw [digits, markOf_control control long]
        exact .unit value rest
      next visible =>
        rw [markOf_visible (Nat.not_lt.mp visible)]
        exact .plain (Nat.not_lt.mp visible) quote backslash rest

theorem body_write (text : List Char) : Body (marksOf text) (text.flatMap writeLetter) := by
  induction text with
  | nil => exact .nothing
  | cons letter text ih =>
    rw [List.flatMap_cons]
    exact ih.letter

theorem spelled_writeString (text : List Char) :
    Spelled (.string (marksOf text)) (writeString text) := .string (body_write text)

/-- A unit that no other one follows is a letter of its own. -/
theorem decode_unit {code : Nat} {letter : Char} {rest : List Mark}
    (alone : ∀ low others, rest = .unit low :: others → False)
    (scalar : scalar? code = some letter) :
    Mark.decode (.unit code :: rest) = (Mark.decode rest).map (letter :: ·) := by
  rw [Mark.decode, scalar]
  · rfl
  · exact alone

theorem decode_markOf (letter : Char) (rest : List Mark) :
    Mark.decode (markOf letter :: rest) = (Mark.decode rest).map (letter :: ·) := by
  rw [markOf]
  split
  next control =>
    have low : ¬ 0xD800 ≤ letter.toNat := by omega
    have scalar : scalar? letter.toNat = some letter := scalar?_eq_some_iff.mpr rfl
    rcases rest with _ | ⟨next | next, rest⟩
    · exact decode_unit nofun scalar
    · exact decode_unit nofun scalar
    · rw [Mark.decode, if_neg (fun pair => low pair.1), scalar, Option.bind_eq_bind,
        Option.bind_some]
  next => rw [Mark.decode]

/-- Reading undoes writing, whatever letters the text has. -/
theorem decode_marksOf (text : List Char) : Mark.decode (marksOf text) = some text := by
  induction text with
  | nil => rfl
  | cons letter text ih =>
    rw [marksOf, List.map_cons, decode_markOf]
    rw [marksOf] at ih
    rw [ih, Option.map_some]

theorem Written.append {first second : List Token} {front back : List Char}
    (before : Written first front) (after : Written second back) :
    Written (first ++ second) (front ++ back) := by
  induction before with
  | nothing => exact after
  | space white rest ih => exact .space white ih
  | token spelled rest ih =>
    rw [List.append_assoc]
    exact .token spelled ih

theorem Spelled.written {token : Token} {word : List Char} (spelled : Spelled token word) :
    Written [token] word := by
  have written := Written.token spelled .nothing
  rw [List.append_nil] at written
  exact written

/-- A member whose value is a string. -/
def textMember (field : String × String) : List Mark × Json :=
  (marksOf field.1.toList, .string (marksOf field.2.toList))

def writeTextMember (field : String × String) : List Char :=
  writeString field.1.toList ++ ':' :: writeString field.2.toList

theorem written_textMember (field : String × String) :
    Written (.string (textMember field).1 :: .colon :: (textMember field).2.tokens)
      (writeTextMember field) := by
  rw [textMember, tokens]
  exact .token (spelled_writeString _) (.token .colon (spelled_writeString _).written)

theorem written_textMembers (fields : List (String × String)) :
    Written (memberTokens (fields.map textMember)) ([','].intercalate (fields.map writeTextMember)) := by
  match fields with
  | [] =>
    rw [List.map_nil, List.map_nil, memberTokens, List.intercalate_nil]
    exact .nothing
  | [field] =>
    rw [List.map_singleton, List.map_singleton, memberTokens, List.intercalate_singleton]
    exact written_textMember field
  | field :: next :: rest =>
    have later := Written.token .comma (written_textMembers (next :: rest))
    have written := (written_textMember field).append later
    simpa [memberTokens] using written

/-- An object of strings, without white space. -/
theorem spells_textMembers (fields : List (String × String)) :
    Spells (.object (fields.map textMember))
      ('\x7b' :: [','].intercalate (fields.map writeTextMember) ++ ['\x7d']) := by
  rw [Spells, tokens, List.cons_append]
  exact .token .openBrace ((written_textMembers fields).append Spelled.closeBrace.written)

end TreeSelect.Json
