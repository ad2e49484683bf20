import TreeSelect.Text.Alphanumeric
import TreeSelect.Text.Blank

/-! Patterns describe sets of texts: letters, classes of letters, the two ends of the text, patterns
one after another, a choice that prefers its earlier alternatives, greedy repetition, and regions
whose extent is reported under a name. -/

namespace TreeSelect

inductive ClassItem where
  | range (first last : Char)
  | blank
  | digit
  | word
  deriving DecidableEq, Repr

/-- Word letters are the alphanumeric ones and the underscore; digits are ASCII. -/
def ClassItem.contains : ClassItem → Char → Bool
  | .range first last, letter => first ≤ letter && letter ≤ last
  | .blank, letter => Text.isBlank letter
  | .digit, letter => letter.isDigit
  | .word, letter => Text.isAlphanumeric letter || letter = '_'

structure CharClass where
  negated : Bool
  items : List ClassItem
  deriving DecidableEq, Repr

def CharClass.contains (set : CharClass) (letter : Char) : Bool :=
  set.items.any (·.contains letter) != set.negated

inductive Quantifier where
  | star
  | plus
  | optional
  deriving DecidableEq, Repr

inductive Pattern where
  | empty
  | char (letter : Char)
  | oneOf (set : CharClass)
  | anyChar
  | atStart
  | atEnd
  | sequence (items : List Pattern)
  | choice (alternatives : List Pattern)
  | repeated (inner : Pattern) (quantifier : Quantifier)
  | capture (name : String) (inner : Pattern)
  deriving Repr

namespace Pattern

mutual

/-- Whether the trees are the same. -/
def beq : Pattern → Pattern → Bool
  | empty, empty | anyChar, anyChar | atStart, atStart | atEnd, atEnd => true
  | char letter, char other => letter == other
  | oneOf set, oneOf other => set == other
  | sequence items, sequence others => beqAll items others
  | choice alternatives, choice others => beqAll alternatives others
  | repeated inner quantifier, repeated other kind => beq inner other && quantifier == kind
  | capture name inner, capture title other => name == title && beq inner other
  | _, _ => false

def beqAll : List Pattern → List Pattern → Bool
  | [], [] => true
  | first :: rest, other :: others => beq first other && beqAll rest others
  | _, _ => false

end

mutual

theorem beq_iff_eq (pattern other : Pattern) : pattern.beq other = true ↔ pattern = other := by
  cases pattern with
  | empty | char | oneOf | anyChar | atStart | atEnd => cases other <;> simp [beq]
  | sequence items => cases other <;> simp [beq, beqAll_iff_eq items]
  | choice alternatives => cases other <;> simp [beq, beqAll_iff_eq alternatives]
  | repeated inner quantifier => cases other <;> simp [beq, beq_iff_eq inner]
  | capture name inner => cases other <;> simp [beq, beq_iff_eq inner]

theorem beqAll_iff_eq (patterns others : List Pattern) :
    beqAll patterns others = true ↔ patterns = others := by
  cases patterns with
  | nil => cases others <;> simp [beqAll]
  | cons first rest => cases others <;> simp [beqAll, beq_iff_eq first, beqAll_iff_eq rest]

end

instance : DecidableEq Pattern := fun pattern other =>
  decidable_of_iff _ (beq_iff_eq pattern other)

/-- One pattern after another; a single one stands for itself. -/
def sequenceOf : List Pattern → Pattern
  | [] => empty
  | [item] => item
  | items => sequence items

/-- Earlier alternatives are preferred; a single one stands for itself. -/
def choiceOf : List Pattern → Pattern
  | [] => empty
  | [alternative] => alternative
  | alternatives => choice alternatives

/-- Induction that takes the items of a sequence and the alternatives of a choice off the front, one
at a time. -/
@[elab_as_elim, induction_eliminator]
theorem inductionOn {motive : Pattern → Prop} (empty : motive .empty)
    (char : ∀ letter, motive (.char letter)) (oneOf : ∀ set, motive (.oneOf set))
    (anyChar : motive .anyChar) (atStart : motive .atStart) (atEnd : motive .atEnd)
    (sequenceNil : motive (.sequence []))
    (sequenceCons : ∀ first rest, motive first → motive (.sequence rest) →
      motive (.sequence (first :: rest)))
    (choiceNil : motive (.choice [])) (choiceLast : ∀ last, motive last → motive (.choice [last]))
    (choiceCons : ∀ preferred other further, motive preferred → motive (.choice (other :: further)) →
      motive (.choice (preferred :: other :: further)))
    (repeated : ∀ inner quantifier, motive inner → motive (.repeated inner quantifier))
    (capture : ∀ name inner, motive inner → motive (.capture name inner)) (pattern : Pattern) :
    motive pattern :=
  @Pattern.rec motive (fun patterns => motive (.sequence patterns) ∧ motive (.choice patterns))
    empty char oneOf anyChar atStart atEnd (fun _ both => both.1) (fun _ both => both.2) repeated
    capture ⟨sequenceNil, choiceNil⟩
    (fun first rest holds both => ⟨sequenceCons first rest holds both.1,
      match rest, both.2 with
      | [], _ => choiceLast first holds
      | other :: further, others => choiceCons first other further holds others⟩)
    pattern

end Pattern
end TreeSelect
