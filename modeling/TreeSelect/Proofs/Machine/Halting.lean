import Mathlib.Algebra.Group.Nat.Defs
import TreeSelect.Proofs.Machine.Decision

/-! Termination and the exact budget. No instruction of a compiled pattern leads out of the
program, so every step of the machine executes one; without a budget it halts after a number of
them that the pattern and the text determine, and a budget decides exactly if it covers that
number. -/

namespace TreeSelect

theorem Text.width_toList (text : String) : width text.toList = text.utf8ByteSize := by
  have bytes : ∀ letters : List Char,
      (String.ofList letters).utf8ByteSize = width letters := by
    intro letters
    induction letters with
    | nil => rfl
    | cons letter letters ih =>
      rw [String.ofList_cons, String.utf8ByteSize_append, String.utf8ByteSize_singleton, ih]
      rfl
  rw [← bytes, String.ofList_toList]

/-- The places at which an instruction lets the machine go on. -/
def Instruction.exits (place : Nat) : Instruction → List Nat
  | .split preferred fallback => [preferred, fallback]
  | .jump target => [target]
  | .accept => []
  | _ => [place + 1]

/-- No instruction leads out of the program. -/
def Program.Closed (program : Program) : Prop :=
  ∀ (place : Nat) (instruction : Instruction), program.code[place]? = some instruction →
    ∀ exit ∈ instruction.exits place, exit < program.code.size

namespace Machine

/-- None of the instructions, placed at `start`, leads beyond the limit. -/
def Stays (limit : Nat) : (start : Nat) → List Instruction → Prop
  | _, [] => True
  | start, instruction :: rest =>
      (∀ exit ∈ instruction.exits start, exit ≤ limit) ∧ Stays limit (start + 1) rest

namespace Stays
variable {limit start : Nat} {front back : List Instruction}

theorem append (first : Stays limit start front)
    (second : Stays limit (start + front.length) back) : Stays limit start (front ++ back) := by
  induction front generalizing start with
  | nil => exact second
  | cons instruction front ih =>
    rw [List.length_cons, Nat.add_comm front.length, ← Nat.add_assoc] at second
    exact ⟨first.1, ih first.2 second⟩

theorem weaken (stays : Stays limit start front) {larger : Nat} (bound : limit ≤ larger) :
    Stays larger start front := by
  induction front generalizing start with
  | nil => trivial
  | cons instruction front ih =>
    exact ⟨fun exit member => Nat.le_trans (stays.1 exit member) bound, ih stays.2⟩

theorem exits (stays : Stays limit start front) {place : Nat} {instruction : Instruction}
    (found : front[place]? = some instruction) :
    ∀ exit ∈ instruction.exits (start + place), exit ≤ limit := by
  induction front generalizing start place with
  | nil => cases found
  | cons first rest ih =>
    cases place with
    | zero =>
      cases found
      exact stays.1
    | succ place =>
      have later := ih stays.2 found
      rwa [Nat.add_assoc, Nat.add_comm 1] at later

end Stays

theorem stays_star (inner : Pattern) (start slot : Nat)
    (stays : Stays (start + 2 + inner.size) (start + 2) (inner.lower (start + 2) (slot + 1))) :
    Stays (start + (inner.size + 4)) start
      (Pattern.loop (inner.lower (start + 2) (slot + 1)) start slot) := by
  have body : Stays (start + (inner.size + 4)) (start + 2)
      (inner.lower (start + 2) (slot + 1) ++ [.progress slot, .jump start]) := by
    refine (stays.weaken (by omega)).append ?_
    rw [Pattern.lower_length]
    simp only [Stays, Instruction.exits, List.mem_singleton, forall_eq, and_true]
    omega
  refine ⟨?_, ?_, body⟩
  · simp only [Instruction.exits, Pattern.lower_length, List.mem_cons, List.not_mem_nil, or_false,
      forall_eq_or_imp, forall_eq]
    omega
  · simp only [Instruction.exits, List.mem_singleton, forall_eq]
    omega

/-- The instructions of a pattern leave by their end at most. -/
theorem stays_lower (pattern : Pattern) (start slot : Nat) :
    Stays (start + pattern.size) start (pattern.lower start slot) := by
  induction pattern generalizing start slot with
  | empty | sequenceNil | choiceNil => trivial
  | char | oneOf | anyChar | atStart | atEnd =>
    simp [Pattern.lower, Pattern.size, Stays, Instruction.exits]
  | sequenceCons first rest firstStays restStays =>
    have left := (firstStays start slot).weaken (Nat.le_add_right _ (Pattern.sequence rest).size)
    have right := restStays (start + first.size) (slot + first.loops)
    rw [← Pattern.lower_length first start slot] at right
    rw [Pattern.size_sequence_cons, ← Nat.add_assoc]
    exact left.append (by rwa [Pattern.lower_length] at right ⊢)
  | choiceLast last lastStays => exact lastStays start slot
  | choiceCons preferred other further preferredStays otherStays =>
    rw [Pattern.size_choice_cons, Pattern.lower_choice_cons]
    have limit : start + (preferred.size + (Pattern.choice (other :: further)).size + 2) =
        start + preferred.size + (Pattern.choice (other :: further)).size + 2 := by omega
    have left := (preferredStays (start + 1) slot).weaken (by omega : _ ≤
      start + preferred.size + (Pattern.choice (other :: further)).size + 2)
    have right := (otherStays (start + preferred.size + 2) (slot + preferred.loops)).weaken
      (by omega : _ ≤ start + preferred.size + (Pattern.choice (other :: further)).size + 2)
    rw [limit]
    refine ⟨?_, left.append ⟨?_, ?_⟩⟩
    · simp only [Instruction.exits, List.mem_cons, List.not_mem_nil, or_false, forall_eq_or_imp,
        forall_eq]
      omega
    · simp [Instruction.exits]
    · rw [Pattern.lower_length]
      have place : start + 1 + preferred.size + 1 = start + preferred.size + 2 := by omega
      rwa [place]
  | repeated inner quantifier innerStays =>
    cases quantifier with
    | star => exact stays_star inner start slot (innerStays (start + 2) (slot + 1))
    | plus =>
      have once := (innerStays start slot).weaken (Nat.le_add_right _ (inner.size + 4))
      have again := stays_star inner (start + inner.size) (slot + inner.loops)
        (innerStays (start + inner.size + 2) (slot + inner.loops + 1))
      rw [Pattern.size, ← Nat.add_assoc]
      exact once.append (by rwa [Pattern.lower_length])
    | optional =>
      have limit : start + 1 + inner.size = start + (inner.size + 1) := by omega
      refine ⟨?_, limit ▸ innerStays (start + 1) slot⟩
      simp only [Instruction.exits, Pattern.size, List.mem_cons, List.not_mem_nil, or_false,
        forall_eq_or_imp, forall_eq]
      omega
  | capture name inner innerStays =>
    have inside := (innerStays (start + 1) slot).weaken
      (by omega : start + 1 + inner.size ≤ start + (inner.size + 2))
    refine ⟨?_, inside.append ⟨?_, trivial⟩⟩
    · simp only [Instruction.exits, Pattern.size, List.mem_singleton, forall_eq]
      omega
    · simp only [Instruction.exits, Pattern.lower_length, List.mem_singleton, forall_eq]
      omega

theorem closed_compile (pattern : Pattern) : pattern.compile.Closed := by
  intro place instruction found exit member
  have last : Stays pattern.size (0 + (pattern.lower 0 0).length) [.accept] :=
    ⟨by simp [Instruction.exits], trivial⟩
  have lowered := stays_lower pattern 0 0
  rw [Nat.zero_add] at lowered
  have listed : (pattern.lower 0 0 ++ [Instruction.accept])[place]? = some instruction := by
    simpa [Pattern.compile] using found
  have bound := (lowered.append last).exits listed exit (by rwa [Nat.zero_add])
  rw [Pattern.compile_size]
  omega

/-- The machine executes just so many instructions from the state on, and decides by the last of
them. No budget limits it. -/
inductive Halts (program : Program) : (count : Nat) → State → Outcome → Prop where
  | last {state : State} {instruction : Instruction} {outcome : Outcome}
      (fetched : program.code[state.target]? = some instruction)
      (decided : execute state instruction = .decided outcome) : Halts program 1 state outcome
  | more {count : Nat} {state later : State} {instruction : Instruction} {outcome : Outcome}
      (fetched : program.code[state.target]? = some instruction)
      (continues : execute state instruction = .next later)
      (further : Halts program count later outcome) : Halts program (count + 1) state outcome

theorem step_of_fetched {program : Program} {state : State} {instruction : Instruction}
    (fetched : program.code[state.target]? = some instruction) :
    step program state = execute state instruction := by
  rw [step, fetched]

/-- There is one number of instructions and one outcome. -/
theorem Halts.unique {program : Program} {count other : Nat} {state : State}
    {outcome result : Outcome} (first : Halts program count state outcome)
    (second : Halts program other state result) : other = count ∧ result = outcome := by
  induction first generalizing other with
  | last fetched decided =>
    cases second with
    | last again decision =>
      cases fetched.symm.trans again
      cases decided.symm.trans decision
      exact ⟨rfl, rfl⟩
    | more again continues =>
      cases fetched.symm.trans again
      cases decided.symm.trans continues
  | more fetched continues _ ih =>
    cases second with
    | last again decision =>
      cases fetched.symm.trans again
      cases continues.symm.trans decision
    | more again continued further =>
      cases fetched.symm.trans again
      cases continues.symm.trans continued
      obtain ⟨counts, outcomes⟩ := ih further
      exact ⟨congrArg (· + 1) counts, outcomes⟩

/-- A thread goes on at an exit of its instruction. -/
theorem target_mem_exits {thread later : Thread} {instruction : Instruction}
    (member : later ∈ thread.goOn instruction) :
    later.target ∈ instruction.exits thread.target := by
  have consumed : ∀ {admits : Char → Bool}, later ∈ thread.consume admits →
      later.target ∈ [thread.target + 1] := by
    intro admits found
    obtain ⟨place, _, rfl⟩ := List.mem_map.mp found
    exact List.mem_singleton_self _
  have required : ∀ {holds : Bool}, later ∈ thread.require holds →
      later.target ∈ [thread.target + 1] := by
    intro holds found
    cases holds with
    | true =>
      rw [List.mem_singleton.mp found]
      exact List.mem_singleton_self _
    | false => cases found
  cases instruction with
  | char | oneOf | anyChar => exact consumed member
  | atStart | atEnd | progress => exact required member
  | split preferred fallback =>
    rcases List.mem_pair.mp member with rfl | rfl <;> simp [Instruction.exits]
  | jump | mark | openGroup | closeGroup =>
    rw [List.mem_singleton.mp member]
    exact List.mem_singleton_self _
  | accept => cases member

theorem successors_inside {program : Program} (closed : program.Closed) {thread later : Thread}
    (member : later ∈ thread.successors program) : later.target < program.code.size := by
  rw [Thread.successors] at member
  split at member
  next instruction fetched =>
    exact closed thread.target instruction fetched later.target (target_mem_exits member)
  next => cases member

/-- A search of threads that all stand inside a closed program is a run that executes an
instruction at each step. -/
theorem halts_of_decides {program : Program} (closed : program.Closed) {count : Nat}
    {threads : List Thread} {outcome : Outcome} (decides : Decides program count threads outcome)
    (inside : ∀ thread ∈ threads, thread.target < program.code.size) (state : State)
    (sound : state.Sound) (same : state.threads = threads) :
    Halts program count state outcome := by
  induction decides generalizing state with
  | noMatch => cases same
  | @accept thread others accepting =>
    cases same
    have fetched : program.code[state.target]? = some .accept := accepting.1
    have stepped := step_of_accepting program state accepting
    exact .last fetched (step_of_fetched fetched ▸ stepped)
  | @step count thread others outcome searching further ih =>
    cases same
    have bound : state.target < program.code.size := inside state.running (List.mem_cons_self ..)
    have fetched := Array.getElem?_eq_getElem bound
    have continues := continues_step program state sound searching
    rw [step_of_fetched fetched] at continues
    cases executed : execute state program.code[state.target] with
    | next later =>
      rw [executed] at continues
      refine .more fetched executed (ih (fun other member => ?_) later continues.1 continues.2)
      rcases List.mem_append.mp member with new | old
      · exact successors_inside closed new
      · exact inside other (List.mem_cons_of_mem _ old)
    | decided decision =>
      rw [executed] at continues
      obtain ⟨rfl, finished⟩ := continues
      rw [finished] at further
      cases further
      exact .last fetched executed

/-- Whatever the pattern and the text, the machine without a budget halts, after one number of
instructions and with one outcome. The budget of a match tells this outcome exactly if it covers
the number, and no larger one changes a decision. -/
theorem halts_and_matchAll_eq (pattern : Pattern) (text : String) :
    ∃ count outcome,
      (∀ other result, Halts pattern.compile other (initial pattern.compile text.toList) result ↔
        other = count ∧ result = outcome) ∧
      outcome ≠ .exhausted ∧
      matchAll pattern.compile text.toList =
        (if count ≤ 2 ^ 20 + 1024 * text.utf8ByteSize then outcome else .exhausted) ∧
      ∀ fuel larger, fuel ≤ larger →
        run pattern.compile fuel (initial pattern.compile text.toList) ≠ .exhausted →
          run pattern.compile larger (initial pattern.compile text.toList) =
            run pattern.compile fuel (initial pattern.compile text.toList) := by
  obtain ⟨count, outcome, decides, answers⟩ := exists_decides pattern text.toList
  have sound := sound_initial pattern.compile text.toList
  have inside : ∀ thread ∈ (initial pattern.compile text.toList).threads,
      thread.target < pattern.compile.code.size := by
    intro thread member
    rw [List.mem_singleton.mp member, Pattern.compile_size]
    exact Nat.succ_pos _
  have halts := halts_of_decides (closed_compile pattern) decides inside _ sound rfl
  have runs := fun fuel => run_of_decides decides fuel _ sound rfl
  refine ⟨count, outcome, fun other result => ⟨halts.unique, ?_⟩, answers.ne_exhausted, ?_, ?_⟩
  · rintro ⟨rfl, rfl⟩
    exact halts
  · have bytes : budget text.toList = 2 ^ 20 + 1024 * text.utf8ByteSize := by
      rw [budget, Text.width_toList]
      rfl
    rw [matchAll, runs, bytes]
  · intro fuel larger more decided
    rw [runs] at decided ⊢
    split at decided
    next enough => rw [runs, if_pos enough, if_pos (Nat.le_trans enough more)]
    next => exact absurd rfl decided

end Machine
end TreeSelect
