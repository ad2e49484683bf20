import Mathlib.Data.List.Basic
import TreeSelect.Text.Blank

/-! The words of a text. Everything about them follows from what a blank does: it parts the words in
front of it from those behind it. -/

namespace TreeSelect.Text

/-- The text is empty, or its last letter is blank. -/
def EndsBlank (text : List Char) : Prop := ∀ last ∈ text.getLast?, isBlank last = true

/-- The text is empty, or its first letter is blank. -/
def StartsBlank (text : List Char) : Prop := ∀ first ∈ text.head?, isBlank first = true

/-- No letter of the text is blank. -/
def BlankFree (text : List Char) : Prop := ∀ letter ∈ text, isBlank letter = false

theorem blankFree_cons {letter : Char} {text : List Char} :
    BlankFree (letter :: text) ↔ isBlank letter = false ∧ BlankFree text := List.forall_mem_cons

theorem endsBlank_iff {text : List Char} :
    EndsBlank text ↔ text = [] ∨ ∃ front blank, text = front ++ [blank] ∧ isBlank blank = true := by
  rcases List.eq_nil_or_concat' text with rfl | ⟨front, last, rfl⟩
  · simp [EndsBlank]
  · constructor
    · intro ends
      exact .inr ⟨front, last, rfl, ends last List.getLast?_concat⟩
    · rintro (none | ⟨other, blank, same, white⟩)
      · simp at none
      · obtain ⟨rfl, rfl⟩ := List.append_singleton_inj.mp same
        simpa [EndsBlank] using white

theorem startsBlank_iff {text : List Char} :
    StartsBlank text ↔ text = [] ∨ ∃ blank back, text = blank :: back ∧ isBlank blank = true := by
  cases text with
  | nil => simp [StartsBlank]
  | cons first back => simp [StartsBlank]

/-- A blank in front makes no difference to where a text ends. -/
theorem EndsBlank.append_blank {front back : List Char} {blank : Char} (ends : EndsBlank back)
    (white : isBlank blank = true) : EndsBlank (front ++ blank :: back) := by
  rcases endsBlank_iff.mp ends with rfl | ⟨back, last, rfl, clear⟩
  · exact endsBlank_iff.mpr (.inr ⟨front, blank, rfl, white⟩)
  · exact endsBlank_iff.mpr (.inr ⟨front ++ blank :: back, last, by simp, clear⟩)

/-- A text holds no blank, or it can be parted at its first one. -/
theorem blankFree_or_exists_blank (text : List Char) :
    BlankFree text ∨ ∃ front blank back,
      text = front ++ blank :: back ∧ BlankFree front ∧ isBlank blank = true := by
  induction text with
  | nil => exact .inl fun _ inside => absurd inside List.not_mem_nil
  | cons letter rest ih =>
    cases white : isBlank letter with
    | true => exact .inr ⟨[], letter, rest, rfl, fun _ inside => absurd inside List.not_mem_nil, white⟩
    | false =>
      rcases ih with free | ⟨front, blank, back, rfl, free, clear⟩
      · exact .inl (blankFree_cons.mpr ⟨white, free⟩)
      · exact .inr ⟨letter :: front, blank, back, rfl, blankFree_cons.mpr ⟨white, free⟩, clear⟩

/-- Letters that are not blank continue the current word. -/
theorem wordsFrom_append_of_free {word : List Char} (free : BlankFree word)
    (current rest : List Char) :
    wordsFrom current (word ++ rest) = wordsFrom (word.reverse ++ current) rest := by
  induction word generalizing current with
  | nil => rfl
  | cons letter word ih =>
    obtain ⟨dark, free⟩ := blankFree_cons.mp free
    rw [List.cons_append, wordsFrom, dark, if_neg Bool.false_ne_true, ih free, List.reverse_cons,
      List.append_assoc, List.singleton_append]

theorem wordsFrom_append_blank {blank : Char} (white : isBlank blank = true)
    (current front back : List Char) :
    wordsFrom current (front ++ blank :: back) = wordsFrom current front ++ words back := by
  induction front generalizing current with
  | nil =>
    rw [List.nil_append, wordsFrom, wordsFrom, if_pos white]
    split
    next => rfl
    next => rfl
  | cons letter front ih =>
    rw [List.cons_append, wordsFrom, ih, ih, wordsFrom]
    split
    next =>
      split
      next => rfl
      next => rfl
    next => rfl

/-- A blank parts the words of a text. -/
theorem words_append_blank {blank : Char} (white : isBlank blank = true) (front back : List Char) :
    words (front ++ blank :: back) = words front ++ words back :=
  wordsFrom_append_blank white [] front back

/-- A text without a blank is a word, unless it is empty. -/
theorem mem_words_of_free {text word : List Char} (free : BlankFree text) :
    word ∈ words text ↔ word = text ∧ word ≠ [] := by
  have whole := wordsFrom_append_of_free free [] []
  rw [List.append_nil, List.append_nil] at whole
  rw [words, whole, wordsFrom]
  cases text with
  | nil => simp
  | cons letter rest => simp +contextual [List.isEmpty_iff]

theorem exists_split_of_mem_words {text word : List Char} (member : word ∈ words text) :
    word ≠ [] ∧ BlankFree word ∧ ∃ front back,
      text = front ++ word ++ back ∧ EndsBlank front ∧ StartsBlank back := by
  induction size : text.length using Nat.strongRecOn generalizing text with
  | _ length ih =>
    rcases blankFree_or_exists_blank text with free | ⟨front, blank, back, rfl, free, white⟩
    · obtain ⟨rfl, long⟩ := (mem_words_of_free free).mp member
      exact ⟨long, free, [], [], by simp, by simp [EndsBlank], by simp [StartsBlank]⟩
    · rw [words_append_blank white, List.mem_append] at member
      rcases member with first | later
      · obtain ⟨rfl, long⟩ := (mem_words_of_free free).mp first
        exact ⟨long, free, [], blank :: back, by simp, by simp [EndsBlank],
          by simpa [StartsBlank] using white⟩
      · have shorter : back.length < length := by
          rw [← size, List.length_append, List.length_cons]
          omega
        obtain ⟨long, dark, before, after, rfl, ends, starts⟩ := ih _ shorter later rfl
        exact ⟨long, dark, front ++ blank :: before, after, by simp, ends.append_blank white, starts⟩

/-- The words of a text are its non-empty parts without a blank that have blanks, or the ends of the
text, on both sides. -/
theorem mem_words_iff {text word : List Char} :
    word ∈ words text ↔ word ≠ [] ∧ BlankFree word ∧ ∃ front back,
      text = front ++ word ++ back ∧ EndsBlank front ∧ StartsBlank back := by
  constructor
  · exact exists_split_of_mem_words
  · rintro ⟨long, free, front, back, rfl, ends, starts⟩
    have alone : word ∈ words word := (mem_words_of_free free).mpr ⟨rfl, long⟩
    have tail : word ∈ words (word ++ back) := by
      rcases startsBlank_iff.mp starts with rfl | ⟨blank, back, rfl, white⟩
      · rwa [List.append_nil]
      · rw [words_append_blank white]
        exact List.mem_append_left _ alone
    rcases endsBlank_iff.mp ends with rfl | ⟨front, blank, rfl, white⟩
    · exact tail
    · rw [List.append_assoc, List.append_assoc, List.singleton_append, words_append_blank white]
      exact List.mem_append_right _ tail

end TreeSelect.Text
