import TreeSelect.Proofs.Machine.Decision

/-! What a search costs. From the pattern alone one can work out how many instructions the machine
executes until a text is decided, and whether it is accepted: every part of a pattern adds its own
instructions to those of what comes behind it, and a part that can match in several ways pays for
what comes behind each of them until one is accepted. A budget is enough exactly if it covers the
sum. -/

namespace TreeSelect

/-- The instructions that a search executes, and whether it ends with a match. -/
structure Verdict where
  steps : Nat
  accepted : Bool
  deriving DecidableEq, Repr

namespace Verdict

def failed (steps : Nat) : Verdict := ⟨steps, false⟩

/-- The same behind some instructions more. -/
def after (more : Nat) (verdict : Verdict) : Verdict := ⟨more + verdict.steps, verdict.accepted⟩

/-- The second search is made only if the first one fails. -/
def orElse (first second : Verdict) : Verdict :=
  if first.accepted then first else second.after first.steps

/-- A single test, behind which the search goes on. -/
def demand (holds : Bool) (next : Verdict) : Verdict := if holds then next.after 1 else failed 1

/-- A single letter, behind which the search goes on. -/
def consume (admits : Char → Bool) (next : Place → Verdict) (place : Place) : Verdict :=
  match place.after? admits with
  | some later => (next later).after 1
  | none => failed 1

/-- One iteration of a greedy loop. It must move on from where it began before there is another
one; if none succeeds, the search goes on behind the loop. -/
def iteration (inner : (Place → Verdict) → Place → Verdict) (next again : Place → Verdict)
    (place : Place) : Verdict :=
  (((inner (fun later =>
      if later.position = place.position then failed 1 else (again later).after 2)
    place).after 1).orElse (next place)).after 1

/-- As every iteration takes a letter, `rounds` need not exceed the number of letters left. -/
def greedy (inner : (Place → Verdict) → Place → Verdict) (next : Place → Verdict) :
    (rounds : Nat) → Place → Verdict
  | 0 => iteration inner next fun _ => failed 0
  | rounds + 1 => iteration inner next (greedy inner next rounds)

/-- Behind the whole pattern the text has to be at its end. -/
def atStop (place : Place) : Verdict := if place.rest.isEmpty then ⟨1, true⟩ else failed 1

end Verdict

namespace Pattern
open Verdict

mutual

/-- The verdict on a search through the pattern, where `next` tells the verdict on what comes
behind it. -/
def verdict : Pattern → (next : Place → Verdict) → Place → Verdict
  | .empty, next, place => next place
  | .char letter, next, place => consume (· == letter) next place
  | .oneOf set, next, place => consume set.contains next place
  | .anyChar, next, place => consume (fun _ => true) next place
  | .atStart, next, place => demand (place.position == 0) (next place)
  | .atEnd, next, place => demand place.rest.isEmpty (next place)
  | .sequence items, next, place => sequenceVerdict items next place
  | .choice alternatives, next, place => choiceVerdict alternatives next place
  | .repeated inner .star, next, place => greedy inner.verdict next place.rest.length place
  | .repeated inner .plus, next, place =>
      inner.verdict (fun later => greedy inner.verdict next later.rest.length later) place
  | .repeated inner .optional, next, place =>
      ((inner.verdict next place).orElse (next place)).after 1
  | .capture _ inner, next, place =>
      (inner.verdict (fun later => (next later).after 1) place).after 1

def sequenceVerdict : List Pattern → (next : Place → Verdict) → Place → Verdict
  | [], next, place => next place
  | first :: rest, next, place => first.verdict (sequenceVerdict rest next) place

def choiceVerdict : List Pattern → (next : Place → Verdict) → Place → Verdict
  | [], next, place => next place
  | [last], next, place => last.verdict next place
  | preferred :: other :: further, next, place =>
      ((preferred.verdict (fun later => (next later).after 1) place).orElse
        (choiceVerdict (other :: further) next place)).after 1

end

def search (pattern : Pattern) (text : List Char) : Verdict :=
  pattern.verdict atStop (.start text)

end Pattern

namespace Machine
open Pattern Verdict Place

/-- The threads come to the verdict, whatever waits behind them. -/
def Takes (program : Program) (threads : List Thread) (verdict : Verdict) : Prop :=
  ∀ waiting,
    if verdict.accepted then
      ∃ history, Decides program verdict.steps (threads ++ waiting) (.matched history)
    else
      ∀ count outcome, Decides program count waiting outcome →
        Decides program (verdict.steps + count) (threads ++ waiting) outcome

namespace Takes
variable {program : Program} {threads others : List Thread} {first second : Verdict}

theorem nothing : Takes program [] (failed 0) := by
  intro waiting count outcome decides
  rwa [failed, Nat.zero_add]

theorem append (left : Takes program threads first) (right : Takes program others second) :
    Takes program (threads ++ others) (first.orElse second) := by
  intro waiting
  have now := left (others ++ waiting)
  have later := right waiting
  rw [List.append_assoc]
  rcases first with ⟨steps, _ | _⟩
  · rcases second with ⟨more, _ | _⟩
    · intro count outcome decides
      rw [orElse, after]
      simpa [Nat.add_assoc] using now _ _ (later _ _ decides)
    · obtain ⟨history, decides⟩ := later
      exact ⟨history, now _ _ decides⟩
  · exact now

/-- A thread is as its instruction makes it, with one step more. -/
theorem of_instruction {thread : Thread} {instruction : Instruction}
    (fetched : program.code[thread.target]? = some instruction)
    (searching : instruction ≠ .accept) (takes : Takes program (thread.goOn instruction) first) :
    Takes program [thread] (first.after 1) := by
  have proceeds : ¬ thread.Accepting program := by
    rintro ⟨accept, _⟩
    rw [fetched] at accept
    exact searching (Option.some.inj accept)
  have follows {count : Nat} {waiting : List Thread} {outcome : Outcome}
      (decides : Decides program count (thread.goOn instruction ++ waiting) outcome) :
      Decides program (count + 1) (thread :: waiting) outcome := by
    refine .step proceeds ?_
    rw [Thread.successors, fetched]
    exact decides
  intro waiting
  have goes := takes waiting
  rcases first with ⟨steps, _ | _⟩
  · intro count outcome decides
    have whole := follows (goes count outcome decides)
    rwa [Nat.add_comm, ← Nat.add_assoc] at whole
  · obtain ⟨history, decides⟩ := goes
    have whole := follows decides
    rw [Nat.add_comm] at whole
    exact ⟨history, whole⟩

/-- At the last instruction the text has to be at its end. -/
theorem at_accept {thread : Thread} (fetched : program.code[thread.target]? = some .accept) :
    Takes program [thread] (atStop thread.place) := by
  intro waiting
  rw [atStop]
  cases done : thread.place.rest.isEmpty with
  | true => exact ⟨thread.history, .accept ⟨fetched, List.isEmpty_iff.mp done⟩⟩
  | false =>
    intro count outcome decides
    rw [Nat.add_comm]
    refine .step (fun accepting => by simp [accepting.2] at done) ?_
    rw [Thread.successors, fetched]
    exact decides

end Takes

/-- The thread has come to `exit`, somewhere behind its place, with its other marks unchanged. -/
structure Thread.Leaves (thread : Thread) (exit slot loops : Nat) (later : Thread) : Prop where
  target : later.target = exit
  leads : ∃ letters, thread.place.Leads letters later.place
  size : later.marks.size = thread.marks.size
  marks : ∀ other, other < slot ∨ slot + loops ≤ other → later.marks[other]? = thread.marks[other]?

theorem Thread.Leaves.trans {thread middle later : Thread}
    {target exit slot loops first own second owned : Nat}
    (left : thread.Leaves target first own middle) (right : middle.Leaves exit second owned later)
    (ownInside : slot ≤ first ∧ first + own ≤ slot + loops)
    (ownedInside : slot ≤ second ∧ second + owned ≤ slot + loops) :
    thread.Leaves exit slot loops later := by
  obtain ⟨letters, leads⟩ := left.leads
  obtain ⟨others, onward⟩ := right.leads
  refine ⟨right.target, ⟨letters ++ others, leads.trans onward⟩, right.size.trans left.size,
    fun other outside => ?_⟩
  rw [right.marks other (by omega), left.marks other (by omega)]

/-- A thread that stays where it is, and is only sent somewhere else. -/
theorem Thread.leaves_goto (thread : Thread) (target slot : Nat) (history : List Boundary) :
    thread.Leaves target slot 0 { thread with target := target, history := history } :=
  ⟨rfl, ⟨[], .refl _⟩, rfl, fun _ _ => rfl⟩

/-- From any thread that enters there, the search comes to the verdict, if from `exit` it comes to
the verdict on what is behind. -/
def Costs (program : Program) (verdict : (Place → Verdict) → Place → Verdict)
    (start exit slot loops : Nat) : Prop :=
  ∀ (thread : Thread) (next : Place → Verdict), thread.Enters start slot loops →
    (∀ later, thread.Leaves exit slot loops later → Takes program [later] (next later.place)) →
    Takes program [thread] (verdict next thread.place)

variable {program : Program}

theorem costs_consume {instruction : Instruction} {start : Nat} (slot : Nat)
    (admits : Char → Bool) (fetched : program.code[start]? = some instruction)
    (searching : instruction ≠ .accept)
    (acts : ∀ thread : Thread, thread.goOn instruction = thread.consume admits) :
    Costs program (Verdict.consume admits) start (start + 1) slot 0 := by
  intro thread next enters goes
  have here : program.code[thread.target]? = some instruction := enters.target ▸ fetched
  rw [Verdict.consume]
  cases found : thread.place.after? admits with
  | none =>
    have stops : Takes program (thread.goOn instruction) (failed 0) := by
      rw [acts, Thread.consume, found]
      exact .nothing
    exact .of_instruction here searching stops
  | some place =>
    apply Takes.of_instruction here searching
    rw [acts, Thread.consume, found]
    obtain ⟨letter, _, leads⟩ := leads_of_after? found
    exact goes _ ⟨by rw [enters.target], ⟨[letter], leads⟩, rfl, fun _ _ => rfl⟩

theorem costs_demand {instruction : Instruction} {start : Nat} (slot : Nat) (holds : Place → Bool)
    (fetched : program.code[start]? = some instruction) (searching : instruction ≠ .accept)
    (acts : ∀ thread : Thread, thread.goOn instruction = thread.require (holds thread.place)) :
    Costs program (fun next place => demand (holds place) (next place)) start (start + 1)
      slot 0 := by
  intro thread next enters goes
  have here : program.code[thread.target]? = some instruction := enters.target ▸ fetched
  change Takes program [thread] (demand (holds thread.place) (next thread.place))
  rw [demand]
  cases holding : holds thread.place with
  | false =>
    have stops : Takes program (thread.goOn instruction) (failed 0) := by
      rw [acts, Thread.require, holding]
      exact .nothing
    exact .of_instruction here searching stops
  | true =>
    apply Takes.of_instruction here searching
    rw [acts, Thread.require, holding]
    exact goes _ ⟨by rw [enters.target], ⟨[], .refl _⟩, rfl, fun _ _ => rfl⟩

theorem costs_sequence {first second : (Place → Verdict) → Place → Verdict}
    {start middle exit slot own owned : Nat} (left : Costs program first start middle slot own)
    (right : Costs program second middle exit (slot + own) owned) :
    Costs program (fun next place => first (second next) place) start exit slot (own + owned) := by
  intro thread next enters goes
  have room := enters.room
  refine left thread (second next) ⟨enters.target, by omega⟩ fun later leaves => ?_
  refine right later next ⟨leaves.target, by rw [leaves.size]; omega⟩ fun last further => ?_
  exact goes last (leaves.trans further ⟨Nat.le_refl _, by omega⟩ ⟨by omega, by omega⟩)

theorem costs_choice {preferred other : (Place → Verdict) → Place → Verdict}
    {start turn exit slot own owned : Nat}
    (split : program.code[start]? = some (.split (start + 1) (turn + 1)))
    (jump : program.code[turn]? = some (.jump exit))
    (left : Costs program preferred (start + 1) turn slot own)
    (right : Costs program other (turn + 1) exit (slot + own) owned) :
    Costs program (fun next place =>
        ((preferred (fun later => (next later).after 1) place).orElse (other next place)).after 1)
      start exit slot (own + owned) := by
  intro thread next enters goes
  have room := enters.room
  have here : program.code[thread.target]? = some (.split (start + 1) (turn + 1)) :=
    enters.target ▸ split
  apply Takes.of_instruction here (by simp)
  refine Takes.append (?_ : Takes program [{ thread with target := start + 1 }] _) ?_
  · refine left { thread with target := start + 1 } _ ⟨rfl, by simp only; omega⟩
      fun later leaves => ?_
    have onward : program.code[later.target]? = some (.jump exit) := leaves.target ▸ jump
    apply Takes.of_instruction onward (by simp)
    have moved : thread.Leaves turn slot (own + owned) later :=
      (thread.leaves_goto (start + 1) slot thread.history).trans leaves ⟨by omega, by omega⟩
        ⟨by omega, by omega⟩
    exact goes { later with target := exit } ⟨rfl, moved.leads, moved.size, moved.marks⟩
  · refine right { thread with target := turn + 1 } next ⟨rfl, by simp only; omega⟩
      fun later leaves => ?_
    exact goes later ((thread.leaves_goto (turn + 1) slot thread.history).trans leaves
      ⟨by omega, by omega⟩ ⟨by omega, by omega⟩)

theorem costs_optional {inner : (Place → Verdict) → Place → Verdict} {start exit slot loops : Nat}
    (split : program.code[start]? = some (.split (start + 1) exit))
    (body : Costs program inner (start + 1) exit slot loops) :
    Costs program (fun next place => ((inner next place).orElse (next place)).after 1) start exit
      slot loops := by
  intro thread next enters goes
  have room := enters.room
  have here : program.code[thread.target]? = some (.split (start + 1) exit) :=
    enters.target ▸ split
  apply Takes.of_instruction here (by simp)
  refine Takes.append (?_ : Takes program [{ thread with target := start + 1 }] _) ?_
  · refine body { thread with target := start + 1 } next ⟨rfl, by simp only; omega⟩
      fun later leaves => ?_
    exact goes later ((thread.leaves_goto (start + 1) slot thread.history).trans leaves
      ⟨by omega, by omega⟩ ⟨by omega, by omega⟩)
  · exact goes { thread with target := exit }
      ⟨rfl, ⟨[], .refl _⟩, rfl, fun _ _ => rfl⟩

theorem costs_capture {inner : (Place → Verdict) → Place → Verdict} {start stop slot loops : Nat}
    (name : String) (opened : program.code[start]? = some (.openGroup name))
    (closed : program.code[stop]? = some .closeGroup)
    (body : Costs program inner (start + 1) stop slot loops) :
    Costs program (fun next place => (inner (fun later => (next later).after 1) place).after 1)
      start (stop + 1) slot loops := by
  intro thread next enters goes
  have room := enters.room
  have here : program.code[thread.target]? = some (.openGroup name) := enters.target ▸ opened
  apply Takes.of_instruction here (by simp)
  refine body
    { thread with
      target := thread.target + 1
      history := thread.history ++ [.opened name thread.place.position] } _
    ⟨by rw [enters.target], by simp only; omega⟩ fun later leaves => ?_
  have last : program.code[later.target]? = some .closeGroup := leaves.target ▸ closed
  apply Takes.of_instruction last (by simp)
  exact goes _ ⟨by rw [leaves.target], leaves.leads, leaves.size, leaves.marks⟩

/-- Whatever comes later in slots of its own leaves the mark alone. -/
theorem Thread.Leaves.noted {thread later : Thread} {exit slot loops : Nat}
    (leaves : (thread.marked slot).Leaves exit (slot + 1) loops later)
    (room : slot < thread.marks.size) :
    later.marks.getD slot none = some thread.place.position := by
  have kept : later.marks[slot]? = some (some thread.place.position) := by
    rw [leaves.marks slot (.inl (Nat.lt_succ_self _))]
    exact Array.getElem?_setIfInBounds_self_of_lt room
  rw [Array.getD_eq_getD_getElem?, kept]
  rfl

/-- The end of an iteration, with the test whether it has moved on. -/
theorem takes_progress {thread : Thread} {place : Place} {slot start stop : Nat} {next : Verdict}
    (progress : program.code[stop]? = some (.progress slot))
    (jump : program.code[stop + 1]? = some (.jump start)) (target : thread.target = stop)
    (noted : thread.marks.getD slot none = some place.position)
    (again : thread.place.position ≠ place.position →
      Takes program [{ thread with target := start }] next) :
    Takes program [thread]
      (if thread.place.position = place.position then failed 1 else next.after 2) := by
  have here : program.code[thread.target]? = some (.progress slot) := target ▸ progress
  by_cases still : thread.place.position = place.position
  · rw [if_pos still]
    have stops : Takes program (thread.goOn (.progress slot)) (failed 0) := by
      rw [Thread.goOn, Thread.require, noted, still, bne_self_eq_false]
      exact .nothing
    exact .of_instruction here (by simp) stops
  · rw [if_neg still]
    have onward : program.code[thread.target + 1]? = some (.jump start) := target ▸ jump
    have returns : Takes program (thread.goOn (.progress slot)) (next.after 1) := by
      have moves : (some place.position != some thread.place.position) = true := by
        simpa using Ne.symm still
      rw [Thread.goOn, Thread.require, noted, moves, if_pos rfl]
      exact .of_instruction onward (by simp) (again still)
    have whole := Takes.of_instruction here (by simp) returns
    simpa only [after, ← Nat.add_assoc] using whole

theorem takes_iteration {inner : (Place → Verdict) → Place → Verdict} {start stop slot loops : Nat}
    (split : program.code[start]? = some (.split (start + 1) (stop + 2)))
    (mark : program.code[start + 1]? = some (.mark slot))
    (progress : program.code[stop]? = some (.progress slot))
    (jump : program.code[stop + 1]? = some (.jump start))
    (body : Costs program inner (start + 2) stop (slot + 1) loops)
    {thread : Thread} {next again : Place → Verdict} (enters : thread.Enters start slot (loops + 1))
    (goes : ∀ later, thread.Leaves (stop + 2) slot (loops + 1) later →
      Takes program [later] (next later.place))
    (returns : ∀ later, thread.Leaves start slot (loops + 1) later →
      later.place.rest.length < thread.place.rest.length →
      Takes program [later] (again later.place)) :
    Takes program [thread] (iteration inner next again thread.place) := by
  have room := enters.room
  have here : program.code[thread.target]? = some (.split (start + 1) (stop + 2)) :=
    enters.target ▸ split
  apply Takes.of_instruction here (by simp)
  refine Takes.append (?_ : Takes program [{ thread with target := start + 1 }] _) ?_
  · let entered : Thread := { thread with target := start + 1 }
    have move : thread.Leaves (start + 2) slot 1 (entered.marked slot) :=
      ⟨rfl, ⟨[], .refl _⟩, by simp [Thread.marked, entered], fun other outside =>
        Array.getElem?_setIfInBounds_ne (by omega)⟩
    have marking : program.code[entered.target]? = some (.mark slot) := mark
    apply Takes.of_instruction marking (by simp)
    refine body (entered.marked slot) _ ⟨rfl, by rw [move.size]; omega⟩ fun later leaves => ?_
    have bounded : slot < entered.marks.size := by
      show slot < thread.marks.size
      omega
    refine takes_progress progress jump leaves.target (leaves.noted bounded) fun moved => ?_
    obtain ⟨letters, leads⟩ := leaves.leads
    have back : thread.Leaves start slot (loops + 1) { later with target := start } :=
      move.trans ⟨rfl, leaves.leads, leaves.size, leaves.marks⟩ ⟨Nat.le_refl _, by omega⟩
        ⟨Nat.le_succ _, by omega⟩
    have fewer := @Way.length_lt_of_moves entered.place ⟨later.place, []⟩ letters leads fun same =>
      moved (congrArg Place.position same)
    exact returns { later with target := start } back fewer
  · exact goes { thread with target := stop + 2 } ⟨rfl, ⟨[], .refl _⟩, rfl, fun _ _ => rfl⟩

/-- A loop comes back to its first instruction with fewer letters left, or else gives up. -/
theorem takes_greedy {inner : (Place → Verdict) → Place → Verdict} {start stop slot loops : Nat}
    (split : program.code[start]? = some (.split (start + 1) (stop + 2)))
    (mark : program.code[start + 1]? = some (.mark slot))
    (progress : program.code[stop]? = some (.progress slot))
    (jump : program.code[stop + 1]? = some (.jump start))
    (body : Costs program inner (start + 2) stop (slot + 1) loops) (rounds : Nat)
    (thread : Thread) (enough : thread.place.rest.length ≤ rounds) (next : Place → Verdict)
    (enters : thread.Enters start slot (loops + 1))
    (goes : ∀ later, thread.Leaves (stop + 2) slot (loops + 1) later →
      Takes program [later] (next later.place)) :
    Takes program [thread] (greedy inner next rounds thread.place) := by
  induction rounds generalizing thread with
  | zero =>
    exact takes_iteration split mark progress jump body enters goes fun later _ fewer =>
      absurd fewer (by omega)
  | succ rounds ih =>
    refine takes_iteration split mark progress jump body enters goes fun later leaves fewer => ?_
    have room := enters.room
    refine ih later (by omega) ⟨leaves.target, by rw [leaves.size]; omega⟩ fun last further => ?_
    exact goes last (leaves.trans further ⟨Nat.le_refl _, Nat.le_refl _⟩
      ⟨Nat.le_refl _, Nat.le_refl _⟩)

theorem costs_star (inner : Pattern) (start slot : Nat)
    (holds : Holds program start (loop (inner.lower (start + 2) (slot + 1)) start slot))
    (body : Holds program (start + 2) (inner.lower (start + 2) (slot + 1)) →
      Costs program inner.verdict (start + 2) (start + 2 + inner.size) (slot + 1) inner.loops) :
    Costs program (fun next place => greedy inner.verdict next place.rest.length place) start
      (start + (inner.size + 4)) slot (inner.loops + 1) := by
  obtain ⟨split, mark, rest⟩ := holds
  obtain ⟨inside, progress, jump, _⟩ := (holds_append program (start + 2) _ _).mp rest
  rw [lower_length] at split progress jump
  have exit : start + 2 + inner.size + 2 = start + (inner.size + 4) := by omega
  have back : start + inner.size + 4 = start + 2 + inner.size + 2 := by omega
  rw [back] at split
  rw [← exit]
  exact fun thread next enters goes => takes_greedy split mark progress jump (body inside) _ thread
    (Nat.le_refl _) next enters goes

/-- Wherever the instructions of a pattern stand in a program, they cost what the pattern says. -/
theorem costs_lower (pattern : Pattern) (start slot : Nat)
    (holds : Holds program start (pattern.lower start slot)) :
    Costs program pattern.verdict start (start + pattern.size) slot pattern.loops := by
  induction pattern generalizing start slot with
  | empty | sequenceNil | choiceNil =>
    intro thread next enters goes
    exact goes thread ⟨enters.target, ⟨[], .refl _⟩, rfl, fun _ _ => rfl⟩
  | char letter => exact costs_consume slot _ holds.1 (by simp) fun _ => rfl
  | oneOf set => exact costs_consume slot _ holds.1 (by simp) fun _ => rfl
  | anyChar => exact costs_consume slot _ holds.1 (by simp) fun _ => rfl
  | atStart =>
    exact costs_demand slot (fun place => place.position == 0) holds.1 (by simp) fun _ => rfl
  | atEnd =>
    exact costs_demand slot (fun place => place.rest.isEmpty) holds.1 (by simp) fun _ => rfl
  | sequenceCons first rest firstCosts restCosts =>
    obtain ⟨left, right⟩ := (holds_append program start _ _).mp holds
    rw [lower_length] at right
    have whole := costs_sequence (firstCosts start slot left)
      (restCosts (start + first.size) (slot + first.loops) right)
    rw [Nat.add_assoc] at whole
    exact whole
  | choiceLast last lastCosts => exact lastCosts start slot holds
  | choiceCons preferred other further preferredCosts otherCosts =>
    obtain ⟨split, rest⟩ := holds
    obtain ⟨left, jump, right⟩ := (holds_append program (start + 1) _ _).mp rest
    rw [lower_length] at jump right
    have turn : start + 1 + preferred.size = start + preferred.size + 1 := by omega
    have exit : start + preferred.size + 2 + (choice (other :: further)).size =
        start + preferred.size + (choice (other :: further)).size + 2 := by omega
    have whole : start + (choice (preferred :: other :: further)).size =
        start + preferred.size + (choice (other :: further)).size + 2 := by
      rw [size_choice_cons]
      omega
    rw [turn] at jump right
    rw [whole]
    exact costs_choice split jump (turn ▸ preferredCosts (start + 1) slot left)
      (exit ▸ otherCosts (start + preferred.size + 2) (slot + preferred.loops) right)
  | repeated inner quantifier innerCosts =>
    cases quantifier with
    | star => exact costs_star inner start slot holds (innerCosts (start + 2) (slot + 1))
    | plus =>
      obtain ⟨once, again⟩ := (holds_append program start _ _).mp holds
      rw [lower_length] at again
      have whole := costs_sequence (innerCosts start slot once)
        (costs_star inner (start + inner.size) (slot + inner.loops) again
          (innerCosts (start + inner.size + 2) (slot + inner.loops + 1)))
      rw [Nat.add_assoc] at whole
      exact whole
    | optional =>
      obtain ⟨split, inside⟩ := holds
      have exit : start + 1 + inner.size = start + inner.size + 1 := by omega
      exact costs_optional split (exit ▸ innerCosts (start + 1) slot inside)
  | capture name inner innerCosts =>
    obtain ⟨opened, rest⟩ := holds
    obtain ⟨inside, closed, _⟩ := (holds_append program (start + 1) _ _).mp rest
    rw [lower_length] at closed
    have whole : start + (capture name inner).size = start + 1 + inner.size + 1 := by
      simp only [size]
      omega
    rw [whole]
    exact costs_capture name opened closed (innerCosts (start + 1) slot inside)

/-- The search for a pattern in a text is decided after just as many steps as its verdict says. -/
theorem decides_search (pattern : Pattern) (text : List Char) :
    ∃ outcome, Decides pattern.compile (pattern.search text).steps
        (initial pattern.compile text).threads outcome ∧ outcome ≠ .exhausted ∧
      ((∃ history, outcome = .matched history) ↔ (pattern.search text).accepted = true) := by
  have holds : Holds pattern.compile 0 (pattern.lower 0 0 ++ [Instruction.accept]) :=
    holds_of_code [] (pattern.lower 0 0 ++ [Instruction.accept]) pattern.loops
  obtain ⟨body, accept, _⟩ := (holds_append _ 0 _ _).mp holds
  have enters : (initial pattern.compile text).running.Enters 0 0 pattern.loops :=
    ⟨rfl, by simp [State.running, initial, compile]⟩
  rw [lower_length] at accept
  have takes : Takes pattern.compile [(initial pattern.compile text).running]
      (pattern.search text) :=
    costs_lower pattern 0 0 body _ atStop enters fun later leaves =>
      Takes.at_accept (leaves.target ▸ accept)
  have decided := takes []
  cases accepted : (pattern.search text).accepted with
  | false =>
    rw [accepted] at decided
    exact ⟨.noMatch, decided 0 _ .noMatch, by simp, by simp⟩
  | true =>
    rw [accepted] at decided
    obtain ⟨history, decides⟩ := decided
    exact ⟨.matched history, decides, by simp, by simp⟩

theorem run_eq_exhausted_iff (pattern : Pattern) (text : List Char) (fuel : Nat) :
    run pattern.compile fuel (initial pattern.compile text) = .exhausted ↔
      fuel < (pattern.search text).steps := by
  obtain ⟨outcome, decides, decided, _⟩ := decides_search pattern text
  rw [run_of_decides decides fuel _ (sound_initial _ _) rfl]
  split
  next enough => simp [decided, enough]
  next short => simpa using short

theorem run_matched_iff (pattern : Pattern) (text : List Char) (fuel : Nat) :
    (∃ history, run pattern.compile fuel (initial pattern.compile text) = .matched history) ↔
      (pattern.search text).steps ≤ fuel ∧ (pattern.search text).accepted = true := by
  obtain ⟨outcome, decides, _, matched⟩ := decides_search pattern text
  rw [run_of_decides decides fuel _ (sound_initial _ _) rfl, ← matched]
  split
  next enough => simp [enough]
  next short => simp [short]

/-- The verdict accepts the language of the pattern. -/
theorem search_accepted_iff (pattern : Pattern) (text : List Char) :
    (pattern.search text).accepted = true ↔ pattern.Accepts text := by
  obtain ⟨count, outcome, answers, runs⟩ := exists_run pattern text
  let fuel := max (pattern.search text).steps count
  have found := run_matched_iff pattern text fuel
  rw [runs, if_pos (Nat.le_max_right _ _), answers.matched_iff, ← accepts_iff_firstWay?] at found
  exact (found.trans (and_iff_right (Nat.le_max_left _ _))).symm

theorem matchAll_ne_exhausted {pattern : Pattern} {text : List Char}
    (enough : (pattern.search text).steps ≤ budget text) :
    matchAll pattern.compile text ≠ .exhausted :=
  mt (run_eq_exhausted_iff pattern text (budget text)).mp (Nat.not_lt.mpr enough)

end Machine
end TreeSelect
