import Mathlib.Data.List.Forall2
import TreeSelect.Proofs.Machine.Threads

/-! Trails of the machine. Beside a run stand the instructions that were executed on the branch it is
trying, and those on the way to each checkpoint; what an abandoned branch executed is forgotten. The
threads of a state have come along the branches of its trail. -/

namespace TreeSelect.Machine

/-- An instruction was executed at a byte position. -/
structure Visit where
  target : Nat
  position : Nat
  deriving DecidableEq, Repr

/-- What was executed on the current branch, latest first, and on the way to each checkpoint. -/
structure Trail where
  current : List Visit
  saved : List (List Visit)
  deriving DecidableEq, Repr

/-- A step goes on along the current branch. If it leaves a checkpoint the branch is saved there, and
if it takes one away the branch goes on from there. -/
def Trail.after (trail : Trail) (state later : State) : Trail :=
  let longer := ⟨state.target, state.position⟩ :: trail.current
  if later.checkpoints.length < state.checkpoints.length then
    ⟨trail.saved.headD [], trail.saved.tail⟩
  else if state.checkpoints.length < later.checkpoints.length then ⟨longer, longer :: trail.saved⟩
  else ⟨longer, trail.saved⟩

/-- The machine comes to the state, and has left the trail. -/
inductive Traced (program : Program) (text : List Char) : State → Trail → Prop where
  | start : Traced program text (initial program text) ⟨[], []⟩
  | step {state later : State} {trail : Trail} (traced : Traced program text state trail)
      (stepped : Machine.step program state = .next later) :
      Traced program text later (trail.after state later)

/-- The branch leads to the thread, one successor after the other. -/
inductive Branch (program : Program) (text : List Char) : Thread → List Visit → Prop where
  | start : Branch program text (initial program text).running []
  | onward {thread later : Thread} {visits : List Visit} (branch : Branch program text thread visits)
      (member : later ∈ thread.successors program) :
      Branch program text later (⟨thread.target, thread.place.position⟩ :: visits)

variable {program : Program} {text : List Char}

theorem length_suspended (checkpoints : List Checkpoint) (history : Array Boundary)
    (overwritten : Array (Nat × Option Nat)) (marks : Array (Option Nat)) :
    (suspended checkpoints history overwritten marks).length = checkpoints.length := by
  induction checkpoints generalizing history overwritten marks with
  | nil => rfl
  | cons checkpoint earlier ih => rw [suspended, List.length_cons, ih, List.length_cons]

theorem length_waiting (state : State) : state.waiting.length = state.checkpoints.length :=
  length_suspended ..

theorem length_consume (thread : Thread) (admits : Char → Bool) :
    (thread.consume admits).length ≤ 1 := by
  rw [Thread.consume, List.length_map]
  cases thread.place.after? admits <;> simp

theorem length_require (thread : Thread) (holds : Bool) : (thread.require holds).length ≤ 1 := by
  cases holds <;> simp [Thread.require]

theorem length_successors (program : Program) (thread : Thread) :
    (thread.successors program).length ≤ 2 := by
  rw [Thread.successors]
  split
  next instruction _ =>
    cases instruction with
    | char | oneOf | anyChar => exact Nat.le_succ_of_le (length_consume ..)
    | atStart | atEnd | progress => exact Nat.le_succ_of_le (length_require ..)
    | split | jump | mark | openGroup | closeGroup | accept => simp [Thread.goOn]
  next => exact Nat.zero_le 2

/-- A step that does not decide takes the running thread on. -/
theorem continues_of_step {state later : State} (sound : state.Sound)
    (stepped : step program state = .next later) :
    later.Sound ∧ later.threads = state.running.successors program ++ state.waiting := by
  have searching : ¬ state.running.Accepting program := by
    intro accepting
    rw [step_of_accepting program state accepting] at stepped
    cases stepped
  have continues := continues_step program state sound searching
  rwa [stepped] at continues

/-- The branches of a trail lead to the threads of the state. -/
theorem branches_of_traced {state : State} {trail : Trail} (traced : Traced program text state trail) :
    state.Sound ∧ List.Forall₂ (Branch program text) state.threads (trail.current :: trail.saved) := by
  induction traced with
  | start => exact ⟨sound_initial program text, .cons .start .nil⟩
  | @step state later trail _ stepped ih =>
    obtain ⟨sound, branches⟩ := ih
    obtain ⟨kept, threads⟩ := continues_of_step sound stepped
    rw [State.threads, List.forall₂_cons] at branches
    obtain ⟨running, waiting⟩ := branches
    have longer : ∀ thread ∈ state.running.successors program, Branch program text thread
        (⟨state.target, state.position⟩ :: trail.current) := fun _ member => running.onward member
    have count := congrArg List.length threads
    rw [State.threads, List.length_cons, List.length_append, length_waiting, length_waiting] at count
    refine ⟨kept, ?_⟩
    rw [threads, Trail.after]
    -- the number of successors tells what becomes of the checkpoints
    rcases goesOn : state.running.successors program with _ | ⟨first, _ | ⟨second, _ | ⟨third, rest⟩⟩⟩
    all_goals rw [goesOn] at longer count
    · rw [List.length_nil] at count
      rw [if_pos (by omega), List.nil_append]
      cases left : trail.saved with
      | nil =>
        rw [left, List.forall₂_nil_right_iff] at waiting
        have none := length_waiting state
        rw [waiting, List.length_nil] at none
        omega
      | cons => exact left ▸ waiting
    · rw [List.length_singleton] at count
      rw [if_neg (by omega), if_neg (by omega)]
      exact .cons (longer first (by simp)) waiting
    · rw [List.length_cons, List.length_singleton] at count
      rw [if_neg (by omega), if_pos (by omega)]
      exact .cons (longer first (by simp)) (.cons (longer second (by simp)) waiting)
    · have few := length_successors program state.running
      rw [goesOn] at few
      simp at few

end TreeSelect.Machine
