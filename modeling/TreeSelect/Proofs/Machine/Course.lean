import TreeSelect.Proofs.Machine.Integrity

/-! The course of a match: the instructions executed on the branch on which the machine accepts, from
the first to the last. Positions never go back on it, and each lies between letters of the text; the
boundaries that its instructions report are those that the match is decided with. -/

namespace TreeSelect

/-- The boundary that a visit reports, if it executes an instruction that opens or closes a group. -/
def Program.boundary? (program : Program) (visit : Machine.Visit) : Option Boundary :=
  match program.code[visit.target]? with
  | some (.openGroup name) => some (.opened name visit.position)
  | some .closeGroup => some (.closed visit.position)
  | _ => none

/-- The boundaries that the visits report. -/
def Program.boundaries (program : Program) (visits : List Machine.Visit) : List Boundary :=
  visits.filterMap program.boundary?

def Boundary.position : Boundary → Nat
  | .opened _ position => position
  | .closed position => position

namespace Machine

/-- The machine comes to accept the text, and these were the instructions on its branch, the first
one first. -/
def Accepted (program : Program) (text : List Char) (course : List Visit) : Prop :=
  ∃ state trail history, Traced program text state trail ∧
    step program state = .decided (.matched history) ∧ course = trail.current.reverse

variable {program : Program} {text : List Char} {thread later : Thread} {visits : List Visit}

/-- A step never goes back in the text, and adds to the history what its instruction reports. -/
theorem Thread.advances (member : later ∈ thread.successors program) :
    (∃ letters, thread.place.Leads letters later.place) ∧ later.history = thread.history ++
      (program.boundary? ⟨thread.target, thread.place.position⟩).toList := by
  rw [Thread.successors] at member
  rw [Program.boundary?]
  split at member
  next instruction fetched =>
    rw [fetched]
    cases instruction with
    | char | oneOf | anyChar =>
      obtain ⟨_, moves⟩ := moves_consume member
      exact ⟨moves.leads, by simpa using moves.history⟩
    | atStart | atEnd | progress =>
      obtain ⟨_, moves⟩ := moves_require member
      exact ⟨moves.leads, by simpa using moves.history⟩
    | split preferred fallback =>
      rcases List.mem_pair.mp member with rfl | rfl <;>
        exact ⟨⟨[], .refl _⟩, (List.append_nil _).symm⟩
    | jump | mark =>
      cases List.mem_singleton.mp member
      exact ⟨⟨[], .refl _⟩, (List.append_nil _).symm⟩
    | openGroup | closeGroup =>
      cases List.mem_singleton.mp member
      exact ⟨⟨[], .refl _⟩, rfl⟩
    | accept => cases member
  next => cases member

/-- What holds of a thread and the visits, latest first, that led to it. -/
structure Thread.Follows (program : Program) (text : List Char) (thread : Thread)
    (visits : List Visit) : Prop where
  place : ∃ letters, (Place.start text).Leads letters thread.place
  sited : ∀ visit ∈ visits, visit.position ≤ thread.place.position ∧
    Text.isBoundary visit.position text = true
  ordered : visits.Pairwise fun later earlier => earlier.position ≤ later.position
  history : thread.history = program.boundaries visits.reverse

theorem isBoundary_of_leads {letters : List Char} {place : Place}
    (leads : (Place.start text).Leads letters place) :
    place.position ≤ Text.width text ∧ Text.isBoundary place.position text = true := by
  have whole : text = letters ++ place.rest := leads.rest
  rw [leads.position, Place.start, Nat.zero_add, whole]
  exact ⟨by simp, Text.isBoundary_width letters place.rest⟩

theorem Thread.Follows.onward (follows : thread.Follows program text visits)
    (member : later ∈ thread.successors program) :
    later.Follows program text (⟨thread.target, thread.place.position⟩ :: visits) := by
  obtain ⟨⟨others, onward⟩, history⟩ := Thread.advances member
  obtain ⟨letters, leads⟩ := follows.place
  have further : thread.place.position ≤ later.place.position := by
    rw [onward.position]
    exact Nat.le_add_right ..
  refine ⟨⟨letters ++ others, leads.trans onward⟩, fun visit found => ?_, ?_, ?_⟩
  · rcases List.mem_cons.mp found with rfl | old
    · exact ⟨further, (isBoundary_of_leads leads).2⟩
    · exact ⟨Nat.le_trans (follows.sited visit old).1 further, (follows.sited visit old).2⟩
  · exact List.pairwise_cons.mpr ⟨fun visit old => (follows.sited visit old).1, follows.ordered⟩
  · rw [history, follows.history, List.reverse_cons, Program.boundaries, Program.boundaries,
      List.filterMap_append]
    cases reported : program.boundary? ⟨thread.target, thread.place.position⟩ <;> simp [reported]

theorem follows_of_branch (branch : Branch program text thread visits) :
    thread.Follows program text visits := by
  induction branch with
  | start => exact ⟨⟨[], .refl _⟩, nofun, .nil, rfl⟩
  | onward _ member follows => exact follows.onward member

/-- A run that matches comes to a state that accepts. -/
theorem exists_traced_of_run {fuel : Nat} {state : State} {trail : Trail}
    {history : List Boundary} (traced : Traced program text state trail)
    (matched : run program fuel state = .matched history) :
    ∃ last trail, Traced program text last trail ∧
      step program last = .decided (.matched history) := by
  induction fuel generalizing state trail with
  | zero => cases matched
  | succ fuel ih =>
    rw [run] at matched
    cases stepped : step program state with
    | next later =>
      rw [stepped] at matched
      exact ih (traced.step stepped) matched
    | decided outcome =>
      rw [stepped] at matched
      exact ⟨state, trail, traced, stepped.trans (congrArg Step.decided matched)⟩

theorem history_of_decided {state : State} {history : List Boundary} (sound : state.Sound)
    (decided : step program state = .decided (.matched history)) :
    history = state.running.history := by
  by_cases accepting : state.running.Accepting program
  · rw [step_of_accepting program state accepting] at decided
    cases decided
    rfl
  · have continues := continues_step program state sound accepting
    rw [decided] at continues
    cases continues.1

/-- Positions never go back, and each lies between letters of the text. -/
structure Placed (text : List Char) (history : List Boundary) : Prop where
  ordered : history.Pairwise fun earlier later => earlier.position ≤ later.position
  sited : ∀ boundary ∈ history, boundary.position ≤ Text.width text ∧
    Text.isBoundary boundary.position text = true

theorem position_of_boundary? {visit : Visit} {boundary : Boundary}
    (reported : program.boundary? visit = some boundary) : boundary.position = visit.position := by
  unfold Program.boundary? at reported
  split at reported <;> cases reported <;> rfl

theorem Thread.Follows.placed (follows : thread.Follows program text visits) :
    Placed text (program.boundaries visits.reverse) where
  ordered := by
    refine (List.pairwise_reverse.mpr follows.ordered).filterMap _ ?_
    intro earlier later order first one second other
    rw [position_of_boundary? one, position_of_boundary? other]
    exact order
  sited := by
    intro boundary member
    obtain ⟨visit, visited, reported⟩ := List.mem_filterMap.mp member
    obtain ⟨letters, leads⟩ := follows.place
    obtain ⟨before, between⟩ := follows.sited visit (List.mem_reverse.mp visited)
    rw [position_of_boundary? reported]
    exact ⟨Nat.le_trans before (isBoundary_of_leads leads).1, between⟩

/-- The history of a match is what the instructions on its course report. -/
theorem exists_course {history : List Boundary}
    (matched : matchAll program text = .matched history) :
    ∃ course, Accepted program text course ∧ history = program.boundaries course ∧
      Placed text history := by
  obtain ⟨state, trail, traced, decided⟩ := exists_traced_of_run .start matched
  obtain ⟨sound, branches⟩ := branches_of_traced traced
  have follows := follows_of_branch (List.forall₂_cons.mp branches).1
  have same := (history_of_decided sound decided).trans follows.history
  exact ⟨trail.current.reverse, ⟨state, trail, history, traced, decided, rfl⟩, same,
    same ▸ follows.placed⟩

end Machine
end TreeSelect
