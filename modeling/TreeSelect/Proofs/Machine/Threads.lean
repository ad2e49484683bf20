import TreeSelect.Machine
import TreeSelect.Proofs.Pattern.Language

/-! The machine as a depth-first search. A state stands for a list of threads, the running one and
one for each checkpoint, and each thread owns its history and its marks. A step replaces the first
thread by those that it goes on with; all the undoing disappears from view. -/

namespace TreeSelect.Machine

structure Thread where
  target : Nat
  place : Place
  history : List Boundary
  marks : Array (Option Nat)
  deriving DecidableEq, Repr

namespace Thread

/-- The thread that goes on behind a letter, if the condition admits one. -/
def consume (thread : Thread) (admits : Char → Bool) : List Thread :=
  (thread.place.after? admits).toList.map fun place =>
    { thread with target := thread.target + 1, place := place }

def require (thread : Thread) (holds : Bool) : List Thread :=
  if holds then [{ thread with target := thread.target + 1 }] else []

/-- The threads that go on from an instruction, the preferred one first. -/
def goOn (thread : Thread) : Instruction → List Thread
  | .char letter => thread.consume (· == letter)
  | .oneOf set => thread.consume set.contains
  | .anyChar => thread.consume fun _ => true
  | .atStart => thread.require (thread.place.position == 0)
  | .atEnd => thread.require thread.place.rest.isEmpty
  | .split preferred fallback =>
      [{ thread with target := preferred }, { thread with target := fallback }]
  | .jump target => [{ thread with target := target }]
  | .mark slot =>
      [{ thread with
        target := thread.target + 1
        marks := thread.marks.setIfInBounds slot (some thread.place.position) }]
  | .progress slot =>
      thread.require (thread.marks.getD slot none != some thread.place.position)
  | .openGroup name =>
      [{ thread with
        target := thread.target + 1
        history := thread.history ++ [.opened name thread.place.position] }]
  | .closeGroup =>
      [{ thread with
        target := thread.target + 1
        history := thread.history ++ [.closed thread.place.position] }]
  | .accept => []

/-- The threads that go on from the instruction a thread stands at. -/
def successors (program : Program) (thread : Thread) : List Thread :=
  match program.code[thread.target]? with
  | some instruction => thread.goOn instruction
  | none => []

def Accepting (program : Program) (thread : Thread) : Prop :=
  program.code[thread.target]? = some .accept ∧ thread.place.rest = []

end Thread

/-- The search from a list of threads is decided after the given number of steps. -/
inductive Decides (program : Program) : Nat → List Thread → Outcome → Prop where
  | noMatch : Decides program 0 [] .noMatch
  | accept {thread others} (accepting : thread.Accepting program) :
      Decides program 1 (thread :: others) (.matched thread.history)
  | step {count thread others outcome} (searching : ¬ thread.Accepting program)
      (further : Decides program count (thread.successors program ++ others) outcome) :
      Decides program (count + 1) (thread :: others) outcome

/-- The threads that wait at the checkpoints, where the logs have the given contents. -/
def suspended : List Checkpoint → Array Boundary → Array (Nat × Option Nat) →
    Array (Option Nat) → List Thread
  | [], _, _, _ => []
  | checkpoint :: earlier, history, overwritten, marks =>
      let kept := history.shrink checkpoint.historyLength
      let restored := restore (overwritten.size - checkpoint.overwrittenLength) overwritten marks
      ⟨checkpoint.target, ⟨checkpoint.position, checkpoint.rest⟩, kept.toList, restored.2⟩ ::
        suspended earlier kept restored.1 restored.2

/-- Each checkpoint remembers logs no longer than those above it. -/
def Stacked : List Checkpoint → (historyLength overwrittenLength : Nat) → Prop
  | [], _, _ => True
  | checkpoint :: earlier, historyLength, overwrittenLength =>
      checkpoint.historyLength ≤ historyLength ∧
        checkpoint.overwrittenLength ≤ overwrittenLength ∧
          Stacked earlier checkpoint.historyLength checkpoint.overwrittenLength

namespace State

def Sound (state : State) : Prop :=
  Stacked state.checkpoints state.history.size state.overwritten.size

def running (state : State) : Thread :=
  ⟨state.target, ⟨state.position, state.rest⟩, state.history.toList, state.marks⟩

def waiting (state : State) : List Thread :=
  suspended state.checkpoints state.history state.overwritten state.marks

def threads (state : State) : List Thread := state.running :: state.waiting

end State

/-- The outcome of a step is what the threads say. -/
def Step.Continues : Step → List Thread → Prop
  | .next state, threads => state.Sound ∧ state.threads = threads
  | .decided outcome, threads => outcome = .noMatch ∧ threads = []

theorem Stacked.longer {checkpoints : List Checkpoint} {historyLength overwrittenLength : Nat}
    (stacked : Stacked checkpoints historyLength overwrittenLength) {longer other : Nat}
    (history : historyLength ≤ longer) (overwritten : overwrittenLength ≤ other) :
    Stacked checkpoints longer other := by
  cases checkpoints with
  | nil => trivial
  | cons checkpoint earlier =>
    exact ⟨Nat.le_trans stacked.1 history, Nat.le_trans stacked.2.1 overwritten, stacked.2.2⟩

theorem size_restore (count : Nat) (overwritten : Array (Nat × Option Nat))
    (marks : Array (Option Nat)) (enough : count ≤ overwritten.size) :
    (restore count overwritten marks).1.size = overwritten.size - count := by
  induction count generalizing overwritten marks with
  | zero => rfl
  | succ count ih =>
    have latest : overwritten.back? = some overwritten[overwritten.size - 1] := by
      rw [Array.back?_eq_getElem?]
      exact Array.getElem?_eq_getElem (by omega)
    rw [restore, latest]
    rw [ih overwritten.pop _ (by rw [Array.size_pop]; omega), Array.size_pop]
    omega

/-- A mark that has just been replaced is put back. -/
theorem restore_push (count slot : Nat) (overwritten : Array (Nat × Option Nat))
    (marks : Array (Option Nat)) (mark : Option Nat) :
    restore (count + 1) (overwritten.push (slot, marks.getD slot none))
        (marks.setIfInBounds slot mark) =
      restore count overwritten marks := by
  have back : (marks.setIfInBounds slot mark).setIfInBounds slot (marks.getD slot none) = marks := by
    apply Array.ext_getElem?
    intro place
    rw [Array.setIfInBounds_setIfInBounds, Array.getElem?_setIfInBounds]
    split
    next same =>
      subst same
      split
      next bounded => simp [bounded]
      next beyond => simp [beyond]
    next => rfl
  rw [restore, Array.back?_push]
  simp only [Array.pop_push, back]

theorem shrink_push (history : Array Boundary) (boundary : Boundary) (length : Nat)
    (bound : length ≤ history.size) :
    (history.push boundary).shrink length = history.shrink length := by
  apply Array.toList_inj.mp
  rw [Array.toList_shrink, Array.toList_shrink, Array.toList_push,
    List.take_append_of_le_length (by simpa using bound)]

theorem suspended_push_history (checkpoints : List Checkpoint) (history : Array Boundary)
    (boundary : Boundary) (overwritten : Array (Nat × Option Nat)) (marks : Array (Option Nat))
    (stacked : Stacked checkpoints history.size overwritten.size) :
    suspended checkpoints (history.push boundary) overwritten marks =
      suspended checkpoints history overwritten marks := by
  cases checkpoints with
  | nil => rfl
  | cons checkpoint earlier => simp only [suspended, shrink_push _ _ _ stacked.1]

theorem suspended_push_overwritten (checkpoints : List Checkpoint) (history : Array Boundary)
    (overwritten : Array (Nat × Option Nat)) (marks : Array (Option Nat)) (slot : Nat)
    (mark : Option Nat) (stacked : Stacked checkpoints history.size overwritten.size) :
    suspended checkpoints history (overwritten.push (slot, marks.getD slot none))
        (marks.setIfInBounds slot mark) =
      suspended checkpoints history overwritten marks := by
  cases checkpoints with
  | nil => rfl
  | cons checkpoint earlier =>
    have count : (overwritten.push (slot, marks.getD slot none)).size - checkpoint.overwrittenLength =
        overwritten.size - checkpoint.overwrittenLength + 1 := by
      have bound := stacked.2.1
      rw [Array.size_push]
      omega
    simp only [suspended, count, restore_push]

theorem continues_backtrack (state : State) (sound : state.Sound) :
    (backtrack state).Continues state.waiting := by
  rcases state with ⟨target, rest, position, checkpoints, history, marks, overwritten⟩
  cases checkpoints with
  | nil => exact ⟨rfl, rfl⟩
  | cons checkpoint earlier =>
    obtain ⟨historyBound, overwrittenBound, stacked⟩ := sound
    refine ⟨?_, rfl⟩
    change Stacked earlier (history.shrink checkpoint.historyLength).size
      (restore (overwritten.size - checkpoint.overwrittenLength) overwritten marks).1.size
    rw [Array.size_shrink, Nat.min_eq_left historyBound, size_restore _ _ _ (Nat.sub_le _ _),
      Nat.sub_sub_self overwrittenBound]
    exact stacked

theorem continues_consume (state : State) (admits : Char → Bool) (sound : state.Sound) :
    (consume state admits).Continues (state.running.consume admits ++ state.waiting) := by
  rcases state with ⟨target, rest, position, checkpoints, history, marks, overwritten⟩
  cases rest with
  | nil => exact continues_backtrack _ sound
  | cons letter rest =>
    by_cases admitted : admits letter = true
    · simp only [consume, Thread.consume, State.running, Place.after?, if_pos admitted]
      exact ⟨sound, rfl⟩
    · simp only [consume, Thread.consume, State.running, Place.after?, if_neg admitted]
      exact continues_backtrack _ sound

theorem continues_require (state : State) (holds : Bool) (sound : state.Sound) :
    (require state holds).Continues (state.running.require holds ++ state.waiting) := by
  cases holds with
  | false => exact continues_backtrack state sound
  | true => exact ⟨sound, rfl⟩

/-- An instruction that does not end the search acts on the threads. -/
theorem continues_execute (state : State) (instruction : Instruction) (sound : state.Sound)
    (searching : ¬ (instruction = .accept ∧ state.rest = [])) :
    (execute state instruction).Continues (state.running.goOn instruction ++ state.waiting) := by
  cases instruction with
  | char letter => exact continues_consume state _ sound
  | oneOf set => exact continues_consume state _ sound
  | anyChar => exact continues_consume state _ sound
  | atStart => exact continues_require state _ sound
  | atEnd => exact continues_require state _ sound
  | split preferred fallback =>
    refine ⟨⟨Nat.le_refl _, Nat.le_refl _, sound⟩, ?_⟩
    simp [State.threads, State.waiting, State.running, suspended, Thread.goOn, restore]
  | jump target => exact ⟨sound, rfl⟩
  | mark slot =>
    refine ⟨sound.longer (Nat.le_refl _) (by simp), ?_⟩
    simp only [State.threads, State.waiting, suspended_push_overwritten _ _ _ _ _ _ sound]
    rfl
  | progress slot => exact continues_require state _ sound
  | openGroup name =>
    refine ⟨sound.longer (by simp) (Nat.le_refl _), ?_⟩
    simp only [State.threads, State.waiting, suspended_push_history _ _ _ _ _ sound]
    simp [State.running, Thread.goOn]
  | closeGroup =>
    refine ⟨sound.longer (by simp) (Nat.le_refl _), ?_⟩
    simp only [State.threads, State.waiting, suspended_push_history _ _ _ _ _ sound]
    simp [State.running, Thread.goOn]
  | accept =>
    have more : state.rest.isEmpty = false := by
      cases left : state.rest with
      | nil => exact absurd ⟨rfl, left⟩ searching
      | cons => rfl
    simp only [execute, more]
    exact continues_backtrack state sound

theorem continues_step (program : Program) (state : State) (sound : state.Sound)
    (searching : ¬ state.running.Accepting program) :
    (step program state).Continues (state.running.successors program ++ state.waiting) := by
  have target : state.running.target = state.target := rfl
  unfold step Thread.successors
  rw [target]
  cases fetched : program.code[state.target]? with
  | none => exact continues_backtrack state sound
  | some instruction =>
    apply continues_execute state instruction sound
    rintro ⟨rfl, done⟩
    exact searching ⟨fetched, done⟩

theorem step_of_accepting (program : Program) (state : State)
    (accepting : state.running.Accepting program) :
    step program state = .decided (.matched state.running.history) := by
  have fetched : program.code[state.target]? = some .accept := accepting.1
  have done : state.rest = [] := accepting.2
  simp [step, fetched, execute, done, State.running]

/-- Where the search is decided, a run tells the decision if and only if its fuel covers the
steps. -/
theorem run_of_decides {program : Program} {count : Nat} {threads : List Thread}
    {outcome : Outcome} (decides : Decides program count threads outcome) (fuel : Nat)
    (state : State) (sound : state.Sound) (same : state.threads = threads) :
    run program fuel state = if count ≤ fuel then outcome else .exhausted := by
  induction decides generalizing fuel state with
  | noMatch => cases same
  | @accept thread others accepting =>
    cases same
    cases fuel with
    | zero => rfl
    | succ fuel =>
      rw [run, step_of_accepting program state accepting]
      simp
  | @step count thread others outcome searching further ih =>
    cases same
    cases fuel with
    | zero => rfl
    | succ fuel =>
      have continues := continues_step program state sound searching
      rw [run]
      cases stepped : step program state with
      | next later =>
        rw [stepped] at continues
        simp only [ih fuel later continues.1 continues.2, Nat.add_le_add_iff_right]
      | decided decision =>
        rw [stepped] at continues
        obtain ⟨rfl, finished⟩ := continues
        rw [finished] at further
        cases further
        simp

theorem sound_initial (program : Program) (text : List Char) : (initial program text).Sound :=
  trivial

end TreeSelect.Machine
