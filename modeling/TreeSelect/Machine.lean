import TreeSelect.Capture
import TreeSelect.Program

/-! A backtracking machine that matches a program against a whole text. Where a choice fails it
returns to the latest checkpoint; group boundaries and marks made since then are undone. -/

namespace TreeSelect.Machine

structure Checkpoint where
  target : Nat
  rest : List Char
  position : Nat
  historyLength : Nat
  overwrittenLength : Nat
  deriving DecidableEq, Repr

structure State where
  /-- The place of the next instruction. -/
  target : Nat
  /-- The text not yet consumed, and the byte position where it begins. -/
  rest : List Char
  position : Nat
  /-- Latest first. -/
  checkpoints : List Checkpoint
  /-- Group boundaries in the order they were met. -/
  history : Array Boundary
  /-- For each slot where its latest iteration began. -/
  marks : Array (Option Nat)
  /-- Marks that were replaced, with their slots, in the order they were replaced. -/
  overwritten : Array (Nat × Option Nat)
  deriving DecidableEq, Repr

inductive Outcome where
  | matched (history : List Boundary)
  | noMatch
  | exhausted
  deriving DecidableEq, Repr

inductive Step where
  | next (state : State)
  | decided (outcome : Outcome)
  deriving DecidableEq, Repr

def initial (program : Program) (text : List Char) : State :=
  ⟨0, text, 0, [], #[], Array.replicate program.slots none, #[]⟩

/-- Puts `count` replaced marks back, the latest first. -/
def restore : (count : Nat) → Array (Nat × Option Nat) → Array (Option Nat) →
    Array (Nat × Option Nat) × Array (Option Nat)
  | 0, overwritten, marks => (overwritten, marks)
  | count + 1, overwritten, marks =>
      match overwritten.back? with
      | none => (overwritten, marks)
      | some (slot, mark) => restore count overwritten.pop (marks.setIfInBounds slot mark)

/-- Goes back to the latest checkpoint. Without one, the text does not match. -/
def backtrack (state : State) : Step :=
  match state.checkpoints with
  | [] => .decided .noMatch
  | checkpoint :: earlier =>
      let (overwritten, marks) := restore (state.overwritten.size - checkpoint.overwrittenLength)
        state.overwritten state.marks
      .next
        { target := checkpoint.target
          rest := checkpoint.rest
          position := checkpoint.position
          checkpoints := earlier
          history := state.history.shrink checkpoint.historyLength
          marks := marks
          overwritten := overwritten }

/-- Consumes a letter that the condition admits. -/
def consume (state : State) (admits : Char → Bool) : Step :=
  match state.rest with
  | [] => backtrack state
  | letter :: rest =>
      if admits letter then
        .next { state with
          target := state.target + 1, rest := rest, position := state.position + letter.utf8Size }
      else backtrack state

def require (state : State) (holds : Bool) : Step :=
  if holds then .next { state with target := state.target + 1 } else backtrack state

def execute (state : State) : Instruction → Step
  | .char letter => consume state (· == letter)
  | .oneOf set => consume state set.contains
  | .anyChar => consume state fun _ => true
  | .atStart => require state (state.position == 0)
  | .atEnd => require state state.rest.isEmpty
  | .split preferred fallback => .next
      { state with
        target := preferred
        checkpoints :=
          ⟨fallback, state.rest, state.position, state.history.size, state.overwritten.size⟩ ::
            state.checkpoints }
  | .jump target => .next { state with target := target }
  | .mark slot => .next
      { state with
        target := state.target + 1
        overwritten := state.overwritten.push (slot, state.marks.getD slot none)
        marks := state.marks.setIfInBounds slot (some state.position) }
  | .progress slot => require state (state.marks.getD slot none != some state.position)
  | .openGroup name => .next
      { state with
        target := state.target + 1
        history := state.history.push (.opened name state.position) }
  | .closeGroup => .next
      { state with
        target := state.target + 1
        history := state.history.push (.closed state.position) }
  | .accept =>
      if state.rest.isEmpty then .decided (.matched state.history.toList) else backtrack state

/-- A place outside the program would fail like a letter that is not admitted. -/
def step (program : Program) (state : State) : Step :=
  match program.code[state.target]? with
  | some instruction => execute state instruction
  | none => backtrack state

/-- Runs until the match is decided, executing at most `fuel` instructions. -/
def run (program : Program) : (fuel : Nat) → State → Outcome
  | 0, _ => .exhausted
  | fuel + 1, state =>
      match step program state with
      | .next state => run program fuel state
      | .decided outcome => outcome

/-- The instructions that a match may execute: a fixed number and more for each byte. -/
def budget (text : List Char) : Nat := (1 <<< 20) + (1 <<< 10) * Text.width text

def matchAll (program : Program) (text : List Char) : Outcome :=
  run program (budget text) (initial program text)

end TreeSelect.Machine
