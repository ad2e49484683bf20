import TreeSelect.Pattern

/-! Patterns lowered to instructions for a backtracking machine. -/

namespace TreeSelect

inductive Instruction where
  | char (letter : Char)
  | oneOf (set : CharClass)
  | anyChar
  | atStart
  | atEnd
  /-- Goes on at `preferred`, and at `fallback` should that fail. -/
  | split (preferred fallback : Nat)
  | jump (target : Nat)
  /-- Notes in the slot where an iteration begins. -/
  | mark (slot : Nat)
  /-- Fails if the iteration noted in the slot has consumed nothing. -/
  | progress (slot : Nat)
  | openGroup (name : String)
  | closeGroup
  /-- Succeeds at the end of the text. -/
  | accept
  deriving DecidableEq, Repr

namespace Pattern

mutual

/-- The number of instructions of a pattern. -/
def size : Pattern → Nat
  | empty => 0
  | char _ | oneOf _ | anyChar | atStart | atEnd => 1
  | sequence items => sequenceSize items
  | choice alternatives => choiceSize alternatives
  | repeated inner .star => inner.size + 4
  | repeated inner .plus => inner.size + (inner.size + 4)
  | repeated inner .optional => inner.size + 1
  | capture _ inner => inner.size + 2

def sequenceSize : List Pattern → Nat
  | [] => 0
  | first :: rest => first.size + sequenceSize rest

def choiceSize : List Pattern → Nat
  | [] => 0
  | [last] => last.size
  | preferred :: other :: further => preferred.size + choiceSize (other :: further) + 2

end

theorem size_sequence_cons (first : Pattern) (rest : List Pattern) :
    (sequence (first :: rest)).size = first.size + (sequence rest).size := rfl

theorem size_choice_cons (preferred other : Pattern) (further : List Pattern) :
    (choice (preferred :: other :: further)).size =
      preferred.size + (choice (other :: further)).size + 2 := rfl

mutual

/-- The number of slots of a pattern, one for each of its loops. -/
def loops : Pattern → Nat
  | empty | char _ | oneOf _ | anyChar | atStart | atEnd => 0
  | sequence patterns | choice patterns => totalLoops patterns
  | repeated inner .star => inner.loops + 1
  | repeated inner .plus => inner.loops + (inner.loops + 1)
  | repeated inner .optional => inner.loops
  | capture _ inner => inner.loops

def totalLoops : List Pattern → Nat
  | [] => 0
  | first :: rest => first.loops + totalLoops rest

end

/-- A greedy loop around the instructions `body` placed two behind `start`. An iteration that
consumes nothing could repeat for ever, so it fails. -/
def loop (body : List Instruction) (start slot : Nat) : List Instruction :=
  .split (start + 1) (start + body.length + 4) :: .mark slot :: body ++
    [.progress slot, .jump start]

mutual

/-- The instructions of a pattern for the place `start`, its loops numbered from `slot`. They
leave by the end. -/
def lower : Pattern → (start slot : Nat) → List Instruction
  | empty, _, _ => []
  | char letter, _, _ => [.char letter]
  | oneOf set, _, _ => [.oneOf set]
  | anyChar, _, _ => [.anyChar]
  | atStart, _, _ => [.atStart]
  | atEnd, _, _ => [.atEnd]
  | sequence items, start, slot => lowerSequence items start slot
  | choice alternatives, start, slot => lowerChoice alternatives start slot
  | repeated inner .star, start, slot => loop (inner.lower (start + 2) (slot + 1)) start slot
  | repeated inner .plus, start, slot =>
      inner.lower start slot ++
        loop (inner.lower (start + inner.size + 2) (slot + inner.loops + 1))
          (start + inner.size) (slot + inner.loops)
  | repeated inner .optional, start, slot =>
      .split (start + 1) (start + inner.size + 1) :: inner.lower (start + 1) slot
  | capture name inner, start, slot =>
      .openGroup name :: inner.lower (start + 1) slot ++ [.closeGroup]

def lowerSequence : List Pattern → (start slot : Nat) → List Instruction
  | [], _, _ => []
  | first :: rest, start, slot =>
      first.lower start slot ++ lowerSequence rest (start + first.size) (slot + first.loops)

/-- Every alternative but the last one stands behind a split, which falls back to the next one, and
jumps behind the last. Without alternatives there is no instruction. -/
def lowerChoice : List Pattern → (start slot : Nat) → List Instruction
  | [], _, _ => []
  | [last], start, slot => last.lower start slot
  | preferred :: other :: further, start, slot =>
      .split (start + 1) (start + preferred.size + 2) :: preferred.lower (start + 1) slot ++
        .jump (start + preferred.size + choiceSize (other :: further) + 2) ::
          lowerChoice (other :: further) (start + preferred.size + 2) (slot + preferred.loops)

end

theorem lower_sequence_cons (first : Pattern) (rest : List Pattern) (start slot : Nat) :
    (sequence (first :: rest)).lower start slot = first.lower start slot ++
      (sequence rest).lower (start + first.size) (slot + first.loops) := rfl

theorem lower_choice_cons (preferred other : Pattern) (further : List Pattern) (start slot : Nat) :
    (choice (preferred :: other :: further)).lower start slot =
      .split (start + 1) (start + preferred.size + 2) :: preferred.lower (start + 1) slot ++
        .jump (start + preferred.size + (choice (other :: further)).size + 2) ::
          (choice (other :: further)).lower (start + preferred.size + 2)
            (slot + preferred.loops) := rfl

theorem lower_length (pattern : Pattern) (start slot : Nat) :
    (pattern.lower start slot).length = pattern.size := by
  induction pattern generalizing start slot with
  | empty | char | oneOf | anyChar | atStart | atEnd | sequenceNil | choiceNil => rfl
  | sequenceCons first rest firstLength restLength =>
    rw [lower_sequence_cons, List.length_append, firstLength, restLength, size_sequence_cons]
  | choiceLast last lastLength => exact lastLength start slot
  | choiceCons preferred other further preferredLength otherLength =>
    rw [lower_choice_cons, List.length_append, List.length_cons, List.length_cons,
      preferredLength, otherLength, size_choice_cons]
    omega
  | repeated inner quantifier innerLength =>
    cases quantifier with
    | star => simp [lower, loop, size, innerLength]
    | plus => simp [lower, loop, size, innerLength]
    | optional => simp [lower, size, innerLength]
  | capture name inner innerLength => simp [lower, size, innerLength]

end Pattern

structure Program where
  code : Array Instruction
  slots : Nat
  deriving DecidableEq, Repr

/-- The instructions of the pattern, and then the end of the text. -/
def Pattern.compile (pattern : Pattern) : Program :=
  ⟨(pattern.lower 0 0 ++ [Instruction.accept]).toArray, pattern.loops⟩

theorem Pattern.compile_size (pattern : Pattern) :
    pattern.compile.code.size = pattern.size + 1 := by
  simp [Pattern.compile, Pattern.lower_length]

end TreeSelect
