import TreeSelect.Proofs.Capture.Order
import TreeSelect.Proofs.Machine.Scopes
import TreeSelect.Proofs.Machine.Trail
import TreeSelect.Proofs.Text.Slicing

/-! The states that the machine can come to, by any steps forward and back. -/

namespace TreeSelect

def Boundary.opens : Boundary → Bool
  | .opened _ _ => true
  | .closed _ => false

namespace Machine
open Pattern

def openings (history : List Boundary) : Nat := history.countP Boundary.opens

def closings (history : List Boundary) : Nat := history.countP fun boundary => !boundary.opens

/-- At no point were more groups closed than opened. -/
def Nested (history : List Boundary) : Prop :=
  ∀ front, front <+: history → closings front ≤ openings front

/-- The current iteration of a loop began where the mark of its slot says: the instruction that set
the mark was executed there on the branch, and since then only instructions of the body were. -/
def Noted (marks : Array (Option Nat)) (visits : List Visit) : Frame → Prop
  | .group => True
  | .loop slot head stop => ∃ body position earlier,
      visits = body ++ ⟨head + 1, position⟩ :: earlier ∧
        (∀ visit ∈ body, head + 1 < visit.target ∧ visit.target < stop) ∧
          marks[slot]? = some (some position)

/-- What holds of a thread that has come along a branch. -/
structure Thread.Tracks (pattern : Pattern) (text : List Char) (thread : Thread)
    (visits : List Visit) : Prop where
  target : thread.target < pattern.compile.code.size
  place : ∃ letters, (Place.start text).Leads letters thread.place
  slots : thread.marks.size = pattern.compile.slots
  depth : openings thread.history =
    closings thread.history + (pattern.scopeAt 0 0 [] thread.target).count .group
  nested : Nested thread.history
  noted : ∀ frame ∈ pattern.scopeAt 0 0 [] thread.target, Noted thread.marks visits frame

theorem Noted.onward {marks later : Array (Option Nat)} {visits : List Visit} {frame : Frame}
    (noted : Noted marks visits frame) {slot : Nat} {visit : Visit}
    (around : frame.Around visit.target (visit.target + 1) slot)
    (same : ∀ own < slot, later[own]? = marks[own]?) : Noted later (visit :: visits) frame := by
  cases frame with
  | group => trivial
  | loop own head stop =>
    obtain ⟨body, position, earlier, rfl, inside, mark⟩ := noted
    obtain ⟨small, behind, before⟩ := around
    refine ⟨visit :: body, position, earlier, rfl, fun other member => ?_, ?_⟩
    · rcases List.mem_cons.mp member with rfl | further
      · exact ⟨behind, before⟩
      · exact inside other further
    · rw [same own small, mark]

/-- A thread that only moves on. -/
structure Thread.Moves (thread later : Thread) : Prop where
  leads : ∃ letters, thread.place.Leads letters later.place
  history : later.history = thread.history
  marks : later.marks = thread.marks

theorem moves_consume {thread later : Thread} {admits : Char → Bool}
    (member : later ∈ thread.consume admits) :
    later.target = thread.target + 1 ∧ thread.Moves later := by
  obtain ⟨place, found, rfl⟩ := List.mem_map.mp member
  obtain ⟨letter, _, leads⟩ := Place.leads_of_after? (Option.mem_toList.mp found)
  exact ⟨rfl, ⟨[letter], leads⟩, rfl, rfl⟩

theorem moves_require {thread later : Thread} {holds : Bool}
    (member : later ∈ thread.require holds) :
    later.target = thread.target + 1 ∧ thread.Moves later := by
  cases holds with
  | true =>
    rw [List.mem_singleton.mp member]
    exact ⟨rfl, ⟨[], .refl _⟩, rfl, rfl⟩
  | false => cases member

section Tracks
variable {pattern : Pattern} {text : List Char} {thread later : Thread} {visits : List Visit}

theorem Thread.Tracks.moved (tracks : thread.Tracks pattern text visits) (moves : thread.Moves later)
    (target : later.target < pattern.compile.code.size)
    (depth : (pattern.scopeAt 0 0 [] later.target).count .group =
      (pattern.scopeAt 0 0 [] thread.target).count .group)
    (frames : ∀ frame ∈ pattern.scopeAt 0 0 [] later.target,
      frame ∈ pattern.scopeAt 0 0 [] thread.target ∧
        frame.Around thread.target (thread.target + 1) pattern.compile.slots) :
    later.Tracks pattern text (⟨thread.target, thread.place.position⟩ :: visits) := by
  obtain ⟨letters, leads⟩ := tracks.place
  obtain ⟨others, onward⟩ := moves.leads
  refine ⟨target, ⟨letters ++ others, leads.trans onward⟩, moves.marks ▸ tracks.slots, ?_,
    moves.history ▸ tracks.nested, fun frame member => ?_⟩
  · rw [moves.history, depth]
    exact tracks.depth
  · obtain ⟨old, around⟩ := frames frame member
    exact (tracks.noted frame old).onward around fun _ _ => by rw [moves.marks]

/-- The instruction leads neither into a group or a loop nor out of one. -/
theorem Thread.Tracks.stayed (tracks : thread.Tracks pattern text visits)
    (moves : thread.Moves later) (target : later.target < pattern.compile.code.size)
    (around : ∀ frame ∈ pattern.scopeAt 0 0 [] thread.target,
      frame.Around thread.target (thread.target + 1) pattern.compile.slots)
    (same : pattern.scopeAt 0 0 [] later.target = pattern.scopeAt 0 0 [] thread.target) :
    later.Tracks pattern text (⟨thread.target, thread.place.position⟩ :: visits) :=
  tracks.moved moves target (by rw [same])
    fun frame member => ⟨same ▸ member, around frame (same ▸ member)⟩

theorem openings_append (front back : List Boundary) :
    openings (front ++ back) = openings front + openings back := List.countP_append

theorem closings_append (front back : List Boundary) :
    closings (front ++ back) = closings front + closings back := List.countP_append

@[simp] theorem openings_opened (name : String) (position : Nat) :
    openings [.opened name position] = 1 := rfl

@[simp] theorem closings_opened (name : String) (position : Nat) :
    closings [.opened name position] = 0 := rfl

@[simp] theorem openings_closed (position : Nat) : openings [.closed position] = 0 := rfl

@[simp] theorem closings_closed (position : Nat) : closings [.closed position] = 1 := rfl

theorem Nested.append {history : List Boundary} (nested : Nested history) {boundary : Boundary}
    (enough : closings [boundary] + closings history ≤ openings [boundary] + openings history) :
    Nested (history ++ [boundary]) := by
  intro front leads
  rcases List.prefix_concat_iff.mp leads with rfl | shorter
  · rw [openings_append, closings_append]
    omega
  · exact nested front shorter

/-- Every step of a thread keeps this. -/
theorem Thread.Tracks.onward (tracks : thread.Tracks pattern text visits)
    (member : later ∈ thread.successors pattern.compile) :
    later.Tracks pattern text (⟨thread.target, thread.place.position⟩ :: visits) := by
  have target := successors_inside (closed_compile pattern) member
  rw [Thread.successors] at member
  split at member
  next instruction fetched =>
    have fits := fits_compile pattern fetched
    have depth := tracks.depth
    cases instruction with
    | char | oneOf | anyChar =>
      obtain ⟨next, moves⟩ := moves_consume member
      exact tracks.stayed moves target fits.1 (fits.2 _ (next ▸ List.mem_singleton_self _))
    | atStart | atEnd =>
      obtain ⟨next, moves⟩ := moves_require member
      exact tracks.stayed moves target fits.1 (fits.2 _ (next ▸ List.mem_singleton_self _))
    | split preferred fallback =>
      have moves : thread.Moves later := by
        rcases List.mem_pair.mp member with rfl | rfl <;> exact ⟨⟨[], .refl _⟩, rfl, rfl⟩
      have exit := target_mem_exits (show later ∈ thread.goOn (.split preferred fallback) from member)
      exact tracks.stayed moves target fits.1 (fits.2 _ exit)
    | jump exit =>
      cases List.mem_singleton.mp member
      exact tracks.stayed ⟨⟨[], .refl _⟩, rfl, rfl⟩ target fits.1
        (fits.2 _ (List.mem_singleton_self _))
    | progress slot =>
      obtain ⟨next, moves⟩ := moves_require member
      obtain ⟨_, around, head, _, scope⟩ := fits
      rw [← next] at scope
      refine tracks.moved moves target (by simp [scope]) fun frame found => ⟨?_, ?_⟩
      · exact scope ▸ List.mem_cons_of_mem _ found
      · exact around frame (next ▸ found)
    | mark slot =>
      cases List.mem_singleton.mp member
      obtain ⟨small, around, head, stop, place, scope⟩ := fits
      refine ⟨target, tracks.place, by simpa using tracks.slots, ?_, tracks.nested,
        fun frame found => ?_⟩
      · simpa [scope] using depth
      · rcases List.mem_cons.mp (scope ▸ found) with rfl | outer
        · -- the iteration begins with this very instruction
          refine ⟨[], thread.place.position, visits, by simp [place], by simp, ?_⟩
          simp [tracks.slots, small]
        · refine (tracks.noted frame outer).onward (around frame outer) fun own smaller => ?_
          exact Array.getElem?_setIfInBounds_ne (by omega)
    | openGroup name =>
      cases List.mem_singleton.mp member
      obtain ⟨around, scope⟩ := fits
      refine ⟨target, tracks.place, tracks.slots, ?_, tracks.nested.append ?_, fun frame found => ?_⟩
      · rw [openings_append, closings_append, depth, scope, List.count_cons_self, openings_opened,
          closings_opened]
        omega
      · rw [openings_opened, closings_opened]
        omega
      · rcases List.mem_cons.mp (scope ▸ found) with rfl | outer
        · trivial
        · exact (tracks.noted frame outer).onward (around frame outer) fun _ _ => rfl
    | closeGroup =>
      cases List.mem_singleton.mp member
      obtain ⟨around, scope⟩ := fits
      rw [scope, List.count_cons_self] at depth
      refine ⟨target, tracks.place, tracks.slots, ?_, tracks.nested.append ?_, fun frame found => ?_⟩
      · show _ = _ + (pattern.scopeAt 0 0 [] (thread.target + 1)).count .group
        rw [openings_append, closings_append, depth, openings_closed, closings_closed]
        omega
      · rw [openings_closed, closings_closed]
        omega
      · exact (tracks.noted frame (scope ▸ List.mem_cons_of_mem _ found)).onward (around frame found)
          fun _ _ => rfl
    | accept => cases member
  next => cases member

theorem tracks_of_branch (branch : Branch pattern.compile text thread visits) :
    thread.Tracks pattern text visits := by
  induction branch with
  | start =>
    have top : pattern.scopeAt 0 0 [] 0 = [] := scopeAt_outside pattern (.inl (Nat.le_refl 0))
    refine ⟨by rw [compile_size]; exact Nat.succ_pos _, ⟨[], .refl _⟩, Array.size_replicate, ?_,
      fun front shorter => ?_, fun frame member => ?_⟩
    · show 0 = 0 + (pattern.scopeAt 0 0 [] 0).count .group
      rw [top]
      rfl
    · rw [List.prefix_nil.mp shorter]
      exact Nat.le_refl 0
    · exact absurd (top ▸ member) List.not_mem_nil
  | onward _ member tracks => exact tracks.onward member

theorem Thread.Tracks.slice?_place (tracks : thread.Tracks pattern text visits) :
    Text.slice? thread.place.position (Text.width text) text = some thread.place.rest := by
  obtain ⟨letters, leads⟩ := tracks.place
  have whole : text = letters ++ thread.place.rest := leads.rest
  rw [leads.position, Place.start, Nat.zero_add, whole]
  exact Text.slice?_rest letters thread.place.rest

end Tracks

/-- Where no group is closed that was not opened, every end makes a capture. -/
theorem length_pair {history : List Boundary} {pending : List (String × Nat)}
    (nested : ∀ front, front <+: history → closings front ≤ openings front + pending.length) :
    (Capture.pair pending history).length = closings history := by
  induction history generalizing pending with
  | nil => rfl
  | cons boundary history ih =>
    have deeper : ∀ front, front <+: history →
        closings [boundary] + closings front ≤ openings [boundary] + openings front + pending.length := by
      intro front shorter
      rw [← closings_append, ← openings_append]
      exact nested _ (List.cons_prefix_cons.mpr ⟨rfl, shorter⟩)
    have count : closings (boundary :: history) = closings [boundary] + closings history :=
      closings_append [boundary] history
    rw [count]
    cases boundary with
    | opened name position =>
      simp only [closings_opened, openings_opened] at deeper
      rw [Capture.pair, ih, closings_opened, Nat.zero_add]
      intro front shorter
      have bound := deeper front shorter
      rw [List.length_cons]
      omega
    | closed position =>
      simp only [closings_closed, openings_closed] at deeper
      cases pending with
      | nil => exact absurd (deeper [] (List.nil_prefix)) (by simp [closings, openings])
      | cons latest outer =>
        rw [Capture.pair, List.length_cons, ih, closings_closed, Nat.add_comm]
        intro front shorter
        have bound := deeper front shorter
        rw [List.length_cons] at bound
        omega

theorem length_ofBoundaries {history : List Boundary} (nested : Nested history) :
    (Capture.ofBoundaries history).length = closings history :=
  (Capture.perm_sorted _).length_eq.trans (length_pair nested)

theorem Stacked.bounds {checkpoints : List Checkpoint} {historyLength overwrittenLength : Nat}
    (stacked : Stacked checkpoints historyLength overwrittenLength) :
    (∀ checkpoint ∈ checkpoints, checkpoint.historyLength ≤ historyLength ∧
      checkpoint.overwrittenLength ≤ overwrittenLength) ∧
    checkpoints.Pairwise fun upper lower => lower.historyLength ≤ upper.historyLength ∧
      lower.overwrittenLength ≤ upper.overwrittenLength := by
  induction checkpoints generalizing historyLength overwrittenLength with
  | nil => exact ⟨fun checkpoint member => absurd member List.not_mem_nil, .nil⟩
  | cons checkpoint earlier ih =>
    obtain ⟨history, overwritten, further⟩ := stacked
    obtain ⟨below, ordered⟩ := ih further
    refine ⟨fun other member => ?_, List.pairwise_cons.mpr ⟨below, ordered⟩⟩
    rcases List.mem_cons.mp member with rfl | lower
    · exact ⟨history, overwritten⟩
    · have bound := below other lower
      omega

/-- At every checkpoint a thread waits. -/
theorem exists_waiting {checkpoints : List Checkpoint} {checkpoint : Checkpoint}
    (member : checkpoint ∈ checkpoints) (history : Array Boundary)
    (overwritten : Array (Nat × Option Nat)) (marks : Array (Option Nat)) :
    ∃ thread ∈ suspended checkpoints history overwritten marks,
      thread.target = checkpoint.target ∧ thread.place = ⟨checkpoint.position, checkpoint.rest⟩ := by
  induction checkpoints generalizing history overwritten marks with
  | nil => cases member
  | cons first earlier ih =>
    rcases List.mem_cons.mp member with rfl | further
    · exact ⟨_, List.mem_cons_self .., rfl, rfl⟩
    · obtain ⟨thread, waits, same⟩ := ih further _ _ _
      exact ⟨thread, List.mem_cons_of_mem _ waits, same⟩

theorem mem_restore {count : Nat} {overwritten : Array (Nat × Option Nat)}
    {marks : Array (Option Nat)} {entry : Nat × Option Nat}
    (member : entry ∈ (restore count overwritten marks).1) : entry ∈ overwritten := by
  induction count generalizing overwritten marks with
  | zero => exact member
  | succ count ih =>
    rw [restore] at member
    split at member
    next => exact member
    next =>
      have kept := Array.mem_toList_iff.mpr (ih member)
      rw [Array.toList_pop] at kept
      exact Array.mem_toList_iff.mp ((List.dropLast_sublist _).mem kept)

section Overwritten
variable {state later : State} {entry : Nat × Option Nat}

theorem overwritten_backtrack (stepped : backtrack state = .next later)
    (member : entry ∈ later.overwritten) : entry ∈ state.overwritten := by
  unfold backtrack at stepped
  split at stepped
  next => cases stepped
  next =>
    cases stepped
    exact mem_restore member

theorem overwritten_consume {admits : Char → Bool} (stepped : consume state admits = .next later)
    (member : entry ∈ later.overwritten) : entry ∈ state.overwritten := by
  unfold consume at stepped
  split at stepped
  next => exact overwritten_backtrack stepped member
  next =>
    split at stepped
    next =>
      cases stepped
      exact member
    next => exact overwritten_backtrack stepped member

theorem overwritten_require {holds : Bool} (stepped : require state holds = .next later)
    (member : entry ∈ later.overwritten) : entry ∈ state.overwritten := by
  unfold require at stepped
  split at stepped
  next =>
    cases stepped
    exact member
  next => exact overwritten_backtrack stepped member

/-- Only a mark is replaced, and only in its own slot. -/
theorem overwritten_step {program : Program} (stepped : step program state = .next later)
    (member : entry ∈ later.overwritten) :
    entry ∈ state.overwritten ∨ program.code[state.target]? = some (.mark entry.1) := by
  unfold step at stepped
  split at stepped
  next instruction fetched =>
    cases instruction with
    | char | oneOf | anyChar => exact .inl (overwritten_consume stepped member)
    | atStart | atEnd | progress => exact .inl (overwritten_require stepped member)
    | split | jump | openGroup | closeGroup =>
      cases stepped
      exact .inl member
    | mark slot =>
      cases stepped
      rcases Array.mem_push.mp member with old | new
      · exact .inl old
      · exact .inr (new ▸ fetched)
    | accept =>
      simp only [execute] at stepped
      split at stepped
      next => cases stepped
      next => exact .inl (overwritten_backtrack stepped member)
  next => exact .inl (overwritten_backtrack stepped member)

end Overwritten

/-- The machine never reads beside its program, between the bytes of a letter or behind the text, or
beside its slots; its logs are at least as long as every checkpoint remembers; and a loop asks for
progress since its own current iteration began. -/
structure State.Intact (program : Program) (text : List Char) (state : State) (trail : Trail) :
    Prop where
  target : state.target < program.code.size
  rest : Text.slice? state.position (Text.width text) text = some state.rest
  checkpoints : ∀ checkpoint ∈ state.checkpoints, checkpoint.target < program.code.size ∧
    Text.slice? checkpoint.position (Text.width text) text = some checkpoint.rest
  slots : ∀ place slot : Nat, program.code[place]? = some (.mark slot) ∨
    program.code[place]? = some (.progress slot) → slot < program.slots
  marks : state.marks.size = program.slots
  overwritten : ∀ entry ∈ state.overwritten, entry.1 < program.slots
  remembered : ∀ checkpoint ∈ state.checkpoints,
    checkpoint.historyLength ≤ state.history.size ∧
      checkpoint.overwrittenLength ≤ state.overwritten.size
  ordered : state.checkpoints.Pairwise fun upper lower =>
    lower.historyLength ≤ upper.historyLength ∧ lower.overwrittenLength ≤ upper.overwrittenLength
  nested : Nested state.history.toList
  progress : ∀ slot : Nat, program.code[state.target]? = some (.progress slot) →
    ∃ head, program.Loop slot head state.target ∧
      Noted state.marks trail.current (.loop slot head state.target)
  balanced : ∀ history, step program state = .decided (.matched history) →
    openings history = closings history ∧
      (Capture.ofBoundaries history).length = closings history

theorem slots_compile (pattern : Pattern) {place slot : Nat}
    (found : pattern.compile.code[place]? = some (.mark slot) ∨
      pattern.compile.code[place]? = some (.progress slot)) : slot < pattern.compile.slots := by
  rcases found with mark | progress
  · exact (fits_compile pattern mark).1
  · exact (fits_compile pattern progress).1

theorem overwritten_of_traced {pattern : Pattern} {text : List Char} {state : State} {trail : Trail}
    (traced : Traced pattern.compile text state trail) :
    ∀ entry ∈ state.overwritten, entry.1 < pattern.compile.slots := by
  induction traced with
  | start => exact fun entry member => absurd member (Array.not_mem_empty entry)
  | step _ stepped ih =>
    intro entry member
    rcases overwritten_step stepped member with old | mark
    · exact ih entry old
    · exact slots_compile pattern (.inl mark)

/-- Whatever the pattern and the text, the machine comes only to states that are intact. -/
theorem intact_of_traced (pattern : Pattern) (text : List Char) (state : State) (trail : Trail)
    (traced : Traced pattern.compile text state trail) :
    state.Intact pattern.compile text trail := by
  obtain ⟨sound, branches⟩ := branches_of_traced traced
  have tracks := branches.imp fun _ _ branch => tracks_of_branch branch
  obtain ⟨running, waiting⟩ := List.forall₂_cons.mp tracks
  have sited : ∀ thread ∈ state.waiting, thread.target < pattern.compile.code.size ∧
      Text.slice? thread.place.position (Text.width text) text = some thread.place.rest :=
    (List.forall₂_and_left state.waiting trail.saved |>.mp
      (waiting.imp fun _ _ kept => ⟨⟨kept.target, kept.slice?_place⟩, kept⟩)).1
  obtain ⟨remembered, ordered⟩ := sound.bounds
  refine ⟨running.target, running.slice?_place, fun checkpoint member => ?_,
    fun _ _ => slots_compile pattern, running.slots, overwritten_of_traced traced, remembered,
    ordered, running.nested, fun slot fetched => ?_, fun history decided => ?_⟩
  · obtain ⟨thread, waits, target, place⟩ :=
      exists_waiting member state.history state.overwritten state.marks
    have kept := sited thread waits
    rwa [target, place] at kept
  · obtain ⟨_, _, head, loop, scope⟩ := fits_compile pattern fetched
    exact ⟨head, loop, running.noted _ (scope ▸ List.mem_cons_self ..)⟩
  · by_cases accepting : state.running.Accepting pattern.compile
    · rw [step_of_accepting _ _ accepting] at decided
      cases decided
      -- the last instruction stands in no group, so none is open
      have scope : pattern.scopeAt 0 0 [] state.running.target = [] :=
        fits_compile pattern accepting.1
      have depth := running.depth
      rw [scope, List.count_nil, Nat.add_zero] at depth
      exact ⟨depth, length_ofBoundaries running.nested⟩
    · have continues := continues_step pattern.compile state sound accepting
      rw [decided] at continues
      cases continues.1

/-- Any number of letters, each of them one of two. -/
def alternating : Pattern := .repeated (.choice [.char 'a', .char 'b']) .star

/-- The first letter is not the preferred one. The failed attempt has left the trail when the loop
asks for progress. -/
theorem intact_of_traced_alternating : ∃ state trail, Traced alternating.compile ['b'] state trail ∧
    alternating.compile.code[state.target]? = some (.progress 0) ∧
      trail.current = [⟨5, 0⟩, ⟨2, 0⟩, ⟨1, 0⟩, ⟨0, 0⟩] ∧
        state.Intact alternating.compile ['b'] trail := by
  have traced : Traced alternating.compile ['b'] _ _ :=
    .step (.step (.step (.step (.step .start rfl) rfl) rfl) rfl) rfl
  exact ⟨_, _, traced, rfl, rfl, intact_of_traced alternating ['b'] _ _ traced⟩

end Machine
end TreeSelect
