import TreeSelect.Proofs.Machine.Search

/-! Lowered patterns are searched in the ways of the pattern. From the first instruction of a
pattern the machine comes behind its last one once for each way, in the order of the ways, and
whatever waits at the checkpoints is left for later. -/

namespace TreeSelect.Machine
open Pattern Way

variable {program : Program}

/-- A thread that stands at the instructions of a pattern with room for its marks. -/
structure Thread.Enters (thread : Thread) (start slot loops : Nat) : Prop where
  target : thread.target = start
  room : slot + loops ≤ thread.marks.size

/-- From any thread that enters there, the search comes behind the pattern in all of its ways. -/
def Searches (program : Program) (ways : Place → List Way) (start exit slot loops : Nat) : Prop :=
  ∀ thread : Thread, thread.Enters start slot loops →
    Reaches program [thread] (thread.Arrives exit slot loops) (ways thread.place)

theorem followedBy_eq_flatMap (ways : List Way) (next : Place → List Way) :
    followedBy ways next = ways.flatMap fun way =>
      (next way.stop).map fun further => ⟨further.stop, way.captures ++ further.captures⟩ := rfl

theorem followedBy_filter (ways : List Way) (keep : Way → Bool) (next : Place → List Way) :
    followedBy (ways.filter keep) next = ways.flatMap fun way =>
      if keep way then
        (next way.stop).map fun further => ⟨further.stop, way.captures ++ further.captures⟩
      else [] := by
  induction ways with
  | nil => rfl
  | cons way ways ih =>
    by_cases kept : keep way = true
    · rw [List.filter_cons_of_pos kept, followedBy_cons, ih, List.flatMap_cons, if_pos kept]
    · rw [List.filter_cons_of_neg kept, ih, List.flatMap_cons, if_neg kept, List.nil_append]

/-- An arrived thread that goes on through other instructions, as the first thread sees it. -/
theorem Reaches.afterArrival {thread later : Thread} {way : Way} {ways : List Way}
    {middle exit slot loops first own second owned : Nat}
    (arrived : thread.Arrives middle first own way later)
    (reaches : Reaches program [later] (later.Arrives exit second owned) ways)
    (ownInside : slot ≤ first ∧ first + own ≤ slot + loops)
    (ownedInside : slot ≤ second ∧ second + owned ≤ slot + loops) :
    Reaches program [later] (thread.Arrives exit slot loops)
      (ways.map fun further => ⟨further.stop, way.captures ++ further.captures⟩) :=
  reaches.map _ fun _ _ further => arrived.trans further ownInside ownedInside

theorem searches_sequence {first second : Place → List Way} {start middle exit slot own owned : Nat}
    (left : Searches program first start middle slot own)
    (right : Searches program second middle exit (slot + own) owned) :
    Searches program (fun place => followedBy (first place) second) start exit slot
      (own + owned) := by
  intro thread enters
  have room := enters.room
  change Reaches program [thread] _ (followedBy (first thread.place) second)
  rw [followedBy_eq_flatMap]
  apply (left thread ⟨enters.target, by omega⟩).flatMap
  intro way _ later arrived
  have further := right later ⟨arrived.target, by rw [arrived.size]; omega⟩
  rw [arrived.place] at further
  exact further.afterArrival arrived ⟨Nat.le_refl _, by omega⟩ ⟨by omega, by omega⟩

/-- One instruction that leads every thread on along one way for each thread that goes on. -/
theorem searches_instruction {instruction : Instruction} {start : Nat} {ways : Place → List Way}
    (slot : Nat) (fetched : program.code[start]? = some instruction)
    (searching : instruction ≠ .accept)
    (goes : ∀ thread : Thread, thread.target = start →
      Reaches program (thread.goOn instruction) (thread.Arrives (start + 1) slot 0)
        (ways thread.place)) :
    Searches program ways start (start + 1) slot 0 := by
  intro thread enters
  have here : program.code[thread.target]? = some instruction := enters.target ▸ fetched
  exact (goes thread enters.target).of_explores (.of_instruction here searching)

theorem searches_consume {instruction : Instruction} {start : Nat} (slot : Nat)
    (admits : Char → Bool) (fetched : program.code[start]? = some instruction)
    (searching : instruction ≠ .accept)
    (acts : ∀ thread : Thread, thread.goOn instruction = thread.consume admits) :
    Searches program (fun place => (place.after? admits).toList.map (⟨·, []⟩)) start (start + 1)
      slot 0 := by
  apply searches_instruction slot fetched searching
  intro thread target
  rw [acts, Thread.consume]
  cases thread.place.after? admits with
  | none => exact .nothing
  | some place =>
    exact .single ⟨by rw [target], rfl, ⟨[], by simp, tells_nil⟩, rfl, fun _ _ => rfl⟩

theorem searches_require {instruction : Instruction} {start : Nat} (slot : Nat)
    (holds : Place → Prop) [DecidablePred holds]
    (fetched : program.code[start]? = some instruction) (searching : instruction ≠ .accept)
    (acts : ∀ thread : Thread,
      thread.goOn instruction = thread.require (decide (holds thread.place))) :
    Searches program (fun place => if holds place then [⟨place, []⟩] else []) start (start + 1)
      slot 0 := by
  apply searches_instruction slot fetched searching
  intro thread target
  rw [acts, Thread.require]
  by_cases admitted : holds thread.place
  · simp only [admitted, decide_true, if_true]
    exact .single ⟨by rw [target], rfl, ⟨[], by simp, tells_nil⟩, rfl, fun _ _ => rfl⟩
  · simp only [admitted, decide_false, if_false, Bool.false_eq_true]
    exact .nothing

/-- A move that consumes and captures nothing does not show in the way. -/
theorem Thread.Arrives.afterMove {thread moved later : Thread} {way : Way}
    {middle exit slot loops first own second owned : Nat}
    (move : thread.Arrives middle first own ⟨thread.place, []⟩ moved)
    (further : moved.Arrives exit second owned way later)
    (ownInside : slot ≤ first ∧ first + own ≤ slot + loops)
    (ownedInside : slot ≤ second ∧ second + owned ≤ slot + loops) :
    thread.Arrives exit slot loops way later :=
  move.trans further ownInside ownedInside

/-- A thread that is only sent somewhere else. -/
theorem Thread.arrives_goto (thread : Thread) (target slot : Nat) :
    thread.Arrives target slot 0 ⟨thread.place, []⟩ { thread with target := target } :=
  ⟨rfl, rfl, ⟨[], by simp, tells_nil⟩, rfl, fun _ _ => rfl⟩

/-- Every arrived thread takes one more instruction, which may change what its way captured. -/
theorem Reaches.thenInstruction {threads : List Thread} {ways : List Way}
    {arrives others : Way → Thread → Prop} {instruction : Instruction} (change : Way → Way)
    (reaches : Reaches program threads arrives ways)
    (fetched : ∀ way thread, arrives way thread →
      program.code[thread.target]? = some instruction)
    (searching : instruction ≠ .accept)
    (each : ∀ way ∈ ways, ∀ thread, arrives way thread →
      Reaches program (thread.goOn instruction) others [change way]) :
    Reaches program threads others (ways.map change) := by
  rw [List.map_eq_flatMap]
  exact reaches.flatMap _ fun way member thread arrived =>
    (each way member thread arrived).of_explores
      (.of_instruction (fetched way thread arrived) searching)

theorem searches_choice {preferred other : Place → List Way} {start turn exit slot own owned : Nat}
    (split : program.code[start]? = some (.split (start + 1) (turn + 1)))
    (jump : program.code[turn]? = some (.jump exit))
    (left : Searches program preferred (start + 1) turn slot own)
    (right : Searches program other (turn + 1) exit (slot + own) owned) :
    Searches program (fun place => preferred place ++ other place) start exit slot
      (own + owned) := by
  intro thread enters
  have room := enters.room
  have here : program.code[thread.target]? = some (.split (start + 1) (turn + 1)) :=
    enters.target ▸ split
  apply Reaches.of_explores (.of_instruction here (by simp))
  refine Reaches.append (?_ : Reaches program [{ thread with target := start + 1 }] _ _) ?_
  · have body := left { thread with target := start + 1 } ⟨rfl, by simp only; omega⟩
    rw [← List.map_id (preferred thread.place)]
    apply body.thenInstruction id (fun way later arrived => arrived.target ▸ jump) (by simp)
    intro way _ later arrived
    refine .single ?_
    have moved : thread.Arrives turn slot (own + owned) way later :=
      (thread.arrives_goto (start + 1) slot).afterMove arrived ⟨by omega, by omega⟩
        ⟨by omega, by omega⟩
    exact ⟨rfl, moved.place, moved.history, moved.size, moved.marks⟩
  · have body := right { thread with target := turn + 1 } ⟨rfl, by simp only; omega⟩
    exact body.imp fun way later arrived =>
      (thread.arrives_goto (turn + 1) slot).afterMove arrived ⟨by omega, by omega⟩
        ⟨by omega, by omega⟩

theorem searches_optional {inner : Place → List Way} {start exit slot loops : Nat}
    (split : program.code[start]? = some (.split (start + 1) exit))
    (body : Searches program inner (start + 1) exit slot loops) :
    Searches program (fun place => inner place ++ [⟨place, []⟩]) start exit slot loops := by
  intro thread enters
  have room := enters.room
  have here : program.code[thread.target]? = some (.split (start + 1) exit) :=
    enters.target ▸ split
  apply Reaches.of_explores (.of_instruction here (by simp))
  refine Reaches.append (?_ : Reaches program [{ thread with target := start + 1 }] _ _) ?_
  · have once := body { thread with target := start + 1 } ⟨rfl, by simp only; omega⟩
    exact once.imp fun way later arrived =>
      (thread.arrives_goto (start + 1) slot).afterMove arrived ⟨by omega, by omega⟩
        ⟨by omega, by omega⟩
  · exact .single ⟨rfl, rfl, ⟨[], by simp, tells_nil⟩, rfl, fun _ _ => rfl⟩

theorem searches_capture {inner : Place → List Way} {start stop slot loops : Nat} (name : String)
    (opened : program.code[start]? = some (.openGroup name))
    (closed : program.code[stop]? = some .closeGroup)
    (body : Searches program inner (start + 1) stop slot loops) :
    Searches program
      (fun place => (inner place).map fun way =>
        ⟨way.stop, way.captures ++ [⟨name, place.position, way.stop.position⟩]⟩)
      start (stop + 1) slot loops := by
  intro thread enters
  have room := enters.room
  have here : program.code[thread.target]? = some (.openGroup name) := enters.target ▸ opened
  apply Reaches.of_explores (.of_instruction here (by simp))
  have once := body
    { thread with
      target := thread.target + 1
      history := thread.history ++ [.opened name thread.place.position] }
    ⟨by rw [enters.target], by simp only; omega⟩
  apply once.thenInstruction _ (fun way later arrived => arrived.target ▸ closed) (by simp)
  intro way _ later arrived
  refine .single ⟨by rw [arrived.target], arrived.place, ?_, arrived.size, arrived.marks⟩
  obtain ⟨boundaries, history, tells⟩ := arrived.history
  refine ⟨.opened name thread.place.position :: boundaries ++ [.closed way.stop.position], ?_,
    tells.enclose name _ _⟩
  rw [history, arrived.place]
  simp

/-- A thread that has noted where it is. -/
def Thread.marked (thread : Thread) (slot : Nat) : Thread :=
  { thread with
    target := thread.target + 1
    marks := thread.marks.setIfInBounds slot (some thread.place.position) }

theorem Thread.arrives_marked (thread : Thread) (slot : Nat) :
    thread.Arrives (thread.target + 1) slot 1 ⟨thread.place, []⟩ (thread.marked slot) := by
  refine ⟨rfl, rfl, ⟨[], by simp [marked], tells_nil⟩, by simp [marked], fun other outside => ?_⟩
  exact Array.getElem?_setIfInBounds_ne (by omega)

/-- Whatever comes later in slots of its own leaves the mark alone. -/
theorem Thread.Arrives.noted {thread later : Thread} {exit slot loops : Nat} {way : Way}
    (room : slot < thread.marks.size)
    (arrived : (thread.marked slot).Arrives exit (slot + 1) loops way later) :
    later.marks.getD slot none = some thread.place.position := by
  have kept : later.marks[slot]? = some (some thread.place.position) := by
    rw [arrived.marks slot (.inl (Nat.lt_succ_self _))]
    exact Array.getElem?_setIfInBounds_self_of_lt room
  rw [Array.getD_eq_getD_getElem?, kept]
  rfl

/-- A thread passes if it has moved on from the place that it noted. -/
theorem Thread.goOn_progress {thread : Thread} {slot : Nat} {place : Place} {letters : List Char}
    (noted : thread.marks.getD slot none = some place.position)
    (leads : place.Leads letters thread.place) :
    thread.goOn (.progress slot) =
      if decide (thread.place ≠ place) then [{ thread with target := thread.target + 1 }] else [] := by
  have moves : (some place.position != some thread.place.position) =
      decide (thread.place ≠ place) := by
    rw [Bool.eq_iff_iff, bne_iff_ne, decide_eq_true_iff, ne_eq, ne_eq, Option.some.injEq]
    exact not_congr ⟨fun same => leads.eq_of_position same.symm, fun same => by rw [same]⟩
  rw [goOn, require, noted, moves]

/-- A loop comes back to its first instruction with fewer letters left, or else gives up. -/
theorem searches_loop {inner looped : Place → List Way} (forward : Forward inner)
    (unroll : ∀ place, looped place =
      followedBy ((inner place).filter fun way => decide (way.stop ≠ place)) looped ++
        [⟨place, []⟩])
    {start stop slot loops : Nat}
    (split : program.code[start]? = some (.split (start + 1) (stop + 2)))
    (mark : program.code[start + 1]? = some (.mark slot))
    (progress : program.code[stop]? = some (.progress slot))
    (jump : program.code[stop + 1]? = some (.jump start))
    (body : Searches program inner (start + 2) stop (slot + 1) loops) :
    Searches program looped start (stop + 2) slot (loops + 1) := by
  intro thread
  generalize left : thread.place.rest.length = count
  induction count using Nat.strongRecOn generalizing thread with
  | ind count ih =>
    intro enters
    have room := enters.room
    have here : program.code[thread.target]? = some (.split (start + 1) (stop + 2)) :=
      enters.target ▸ split
    rw [unroll, followedBy_filter]
    apply Reaches.of_explores (.of_instruction here (by simp))
    refine Reaches.append (?_ : Reaches program [{ thread with target := start + 1 }] _ _) ?_
    · let entered : Thread := { thread with target := start + 1 }
      have move : thread.Arrives (start + 2) slot 1 ⟨thread.place, []⟩ (entered.marked slot) :=
        (thread.arrives_goto (start + 1) slot).afterMove (entered.arrives_marked slot)
          ⟨Nat.le_refl _, by omega⟩ ⟨Nat.le_refl _, Nat.le_refl _⟩
      have marking : Explores program [entered] (entered.goOn (.mark slot)) :=
        .of_instruction mark (by simp)
      apply Reaches.of_explores marking
      apply (body (entered.marked slot) ⟨rfl, by rw [move.size]; omega⟩).flatMap
      intro way member later arrived
      obtain ⟨letters, leads⟩ := forward thread.place way member
      have before : program.code[later.target]? = some (.progress slot) :=
        arrived.target ▸ progress
      apply Reaches.of_explores (.of_instruction before (by simp))
      have bounded : slot < entered.marks.size := by
        show slot < thread.marks.size
        omega
      have noted := arrived.noted bounded
      rw [Thread.goOn_progress noted (arrived.place ▸ leads), arrived.place]
      by_cases still : way.stop = thread.place
      · -- the iteration consumed nothing, so it fails
        rw [if_neg (by simpa using still), if_neg (by simpa using still)]
        exact .nothing
      · rw [if_pos (by simpa using still), if_pos (by simpa using still)]
        have onward : program.code[later.target + 1]? = some (.jump start) :=
          arrived.target ▸ jump
        apply Reaches.of_explores (.of_instruction onward (by simp))
        have returned : thread.Arrives start slot (loops + 1) way { later with target := start } :=
          move.afterMove ⟨rfl, arrived.place, arrived.history, arrived.size, arrived.marks⟩
            ⟨Nat.le_refl _, by omega⟩ ⟨Nat.le_succ _, by omega⟩
        have fewer := length_lt_of_moves leads still
        have again := ih later.place.rest.length (by rw [arrived.place]; omega)
          { later with target := start } rfl ⟨rfl, by rw [returned.size]; omega⟩
        rw [← arrived.place]
        exact again.afterArrival returned ⟨Nat.le_refl _, Nat.le_refl _⟩
          ⟨Nat.le_refl _, Nat.le_refl _⟩
    · exact .single ⟨rfl, rfl, ⟨[], by simp, tells_nil⟩, rfl, fun _ _ => rfl⟩

/-- The loop around the instructions of a pattern searches its star. -/
theorem searches_star (inner : Pattern) (start slot : Nat)
    (holds : Holds program start (loop (inner.lower (start + 2) (slot + 1)) start slot))
    (body : Holds program (start + 2) (inner.lower (start + 2) (slot + 1)) →
      Searches program inner.ways (start + 2) (start + 2 + inner.size) (slot + 1) inner.loops) :
    Searches program (repeated inner .star).ways start (start + (inner.size + 4)) slot
      (inner.loops + 1) := by
  obtain ⟨split, mark, rest⟩ := holds
  obtain ⟨inside, progress, jump, _⟩ := (holds_append program (start + 2) _ _).mp rest
  rw [lower_length] at split progress jump
  have exit : start + 2 + inner.size + 2 = start + (inner.size + 4) := by omega
  have back : start + inner.size + 4 = start + 2 + inner.size + 2 := by omega
  rw [back] at split
  rw [← exit]
  exact searches_loop inner.forward_ways inner.ways_star_unroll split mark progress jump
    (body inside)

/-- Wherever the instructions of a pattern stand in a program, they search its ways. -/
theorem searches_lower (pattern : Pattern) (start slot : Nat)
    (holds : Holds program start (pattern.lower start slot)) :
    Searches program pattern.ways start (start + pattern.size) slot pattern.loops := by
  induction pattern generalizing start slot with
  | empty | sequenceNil | choiceNil =>
    intro thread enters
    exact .single ⟨enters.target, rfl, ⟨[], by simp, tells_nil⟩, rfl, fun _ _ => rfl⟩
  | char letter => exact searches_consume slot _ holds.1 (by simp) fun _ => rfl
  | oneOf set => exact searches_consume slot _ holds.1 (by simp) fun _ => rfl
  | anyChar => exact searches_consume slot _ holds.1 (by simp) fun _ => rfl
  | atStart =>
    exact searches_require slot (fun place => place.position = 0) holds.1 (by simp) fun _ => rfl
  | atEnd =>
    exact searches_require slot (fun place => place.rest = []) holds.1 (by simp)
      fun thread => congrArg thread.require (by cases thread.place.rest <;> simp)
  | sequenceCons first rest firstSearches restSearches =>
    obtain ⟨left, right⟩ := (holds_append program start _ _).mp holds
    rw [lower_length] at right
    have whole := searches_sequence (firstSearches start slot left)
      (restSearches (start + first.size) (slot + first.loops) right)
    rw [Nat.add_assoc] at whole
    exact whole
  | choiceLast last lastSearches => exact lastSearches start slot holds
  | choiceCons preferred other further preferredSearches otherSearches =>
    obtain ⟨split, rest⟩ := holds
    obtain ⟨left, jump, right⟩ := (holds_append program (start + 1) _ _).mp rest
    rw [lower_length] at jump right
    have turn : start + 1 + preferred.size = start + preferred.size + 1 := by omega
    have exit : start + preferred.size + 2 + (choice (other :: further)).size =
        start + preferred.size + (choice (other :: further)).size + 2 := by omega
    have whole : start + (choice (preferred :: other :: further)).size =
        start + preferred.size + (choice (other :: further)).size + 2 := by
      rw [size_choice_cons]
      omega
    rw [turn] at jump right
    rw [whole]
    exact searches_choice split jump (turn ▸ preferredSearches (start + 1) slot left)
      (exit ▸ otherSearches (start + preferred.size + 2) (slot + preferred.loops) right)
  | repeated inner quantifier innerSearches =>
    cases quantifier with
    | star => exact searches_star inner start slot holds (innerSearches (start + 2) (slot + 1))
    | plus =>
      obtain ⟨once, again⟩ := (holds_append program start _ _).mp holds
      rw [lower_length] at again
      have whole := searches_sequence (innerSearches start slot once)
        (searches_star inner (start + inner.size) (slot + inner.loops) again
          (innerSearches (start + inner.size + 2) (slot + inner.loops + 1)))
      rw [Nat.add_assoc] at whole
      rw [funext (ways_plus inner)]
      exact whole
    | optional =>
      obtain ⟨split, inside⟩ := holds
      have exit : start + 1 + inner.size = start + inner.size + 1 := by omega
      rw [funext (ways_optional inner)]
      exact searches_optional split (exit ▸ innerSearches (start + 1) slot inside)
  | capture name inner innerSearches =>
    obtain ⟨opened, rest⟩ := holds
    obtain ⟨inside, closed, _⟩ := (holds_append program (start + 1) _ _).mp rest
    rw [lower_length] at closed
    have whole : start + (capture name inner).size = start + 1 + inner.size + 1 := by
      simp only [size]
      omega
    rw [whole]
    exact searches_capture name opened closed (innerSearches (start + 1) slot inside)

end TreeSelect.Machine
