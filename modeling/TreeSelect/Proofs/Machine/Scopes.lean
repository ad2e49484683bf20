import TreeSelect.Proofs.Machine.Halting

/-! What encloses the instructions of a lowered pattern. Every instruction stands inside some groups
and loops, and goes on to instructions that stand inside the same ones; only the first and the last
instruction of a group or of a loop lead into it and out of it. -/

namespace TreeSelect

/-- A group, or a loop with its slot, the place of its split and that of its last test. -/
inductive Frame where
  | group
  | loop (slot head stop : Nat)
  deriving DecidableEq, Repr

/-- The frame is of the smaller slots, and its body encloses all the instructions between. -/
def Frame.Around (start stop slot : Nat) : Frame → Prop
  | .group => True
  | .loop own head last => own < slot ∧ head + 1 < start ∧ stop ≤ last

/-- The instructions around the body of a loop. -/
structure Program.Loop (program : Program) (slot head stop : Nat) : Prop where
  split : program.code[head]? = some (.split (head + 1) (stop + 2))
  mark : program.code[head + 1]? = some (.mark slot)
  progress : program.code[stop]? = some (.progress slot)
  jump : program.code[stop + 1]? = some (.jump head)

namespace Pattern

/-- The scope of a part for the places of the part and the one behind it, that of the whole for the
others. -/
def scopeWithin (start size : Nat) (inner : Nat → List Frame) (outer : List Frame) (place : Nat) :
    List Frame :=
  if start ≤ place ∧ place ≤ start + size then inner place else outer

mutual

/-- What encloses the instruction at a place, innermost first, for the instructions that the pattern
is lowered to at `start` and the one behind them, where `outer` encloses them all. -/
def scopeAt : Pattern → (start slot : Nat) → (outer : List Frame) → (place : Nat) → List Frame
  | empty, _, _, outer, _ | char _, _, _, outer, _ | oneOf _, _, _, outer, _
  | anyChar, _, _, outer, _ | atStart, _, _, outer, _ | atEnd, _, _, outer, _ => outer
  | sequence items, start, slot, outer, place => sequenceScopeAt items start slot outer place
  | choice alternatives, start, slot, outer, place =>
      choiceScopeAt alternatives start slot outer place
  | repeated inner .star, start, slot, outer, place =>
      scopeWithin (start + 2) inner.size
        (inner.scopeAt (start + 2) (slot + 1) (.loop slot start (start + 2 + inner.size) :: outer))
        outer place
  | repeated inner .plus, start, slot, outer, place =>
      if place < start + inner.size then inner.scopeAt start slot outer place
      else
        scopeWithin (start + inner.size + 2) inner.size
          (inner.scopeAt (start + inner.size + 2) (slot + inner.loops + 1)
            (.loop (slot + inner.loops) (start + inner.size)
              (start + inner.size + 2 + inner.size) :: outer))
          outer place
  | repeated inner .optional, start, slot, outer, place =>
      inner.scopeAt (start + 1) slot outer place
  | capture _ inner, start, slot, outer, place =>
      scopeWithin (start + 1) inner.size (inner.scopeAt (start + 1) slot (.group :: outer)) outer
        place

def sequenceScopeAt : List Pattern → (start slot : Nat) → (outer : List Frame) → (place : Nat) →
    List Frame
  | [], _, _, outer, _ => outer
  | first :: rest, start, slot, outer, place =>
      if place < start + first.size then first.scopeAt start slot outer place
      else sequenceScopeAt rest (start + first.size) (slot + first.loops) outer place

def choiceScopeAt : List Pattern → (start slot : Nat) → (outer : List Frame) → (place : Nat) →
    List Frame
  | [], _, _, outer, _ => outer
  | [last], start, slot, outer, place => last.scopeAt start slot outer place
  | preferred :: other :: further, start, slot, outer, place =>
      if place < start + preferred.size + 2 then preferred.scopeAt (start + 1) slot outer place
      else
        choiceScopeAt (other :: further) (start + preferred.size + 2) (slot + preferred.loops) outer
          place

end

theorem scopeAt_sequence_cons (first : Pattern) (rest : List Pattern) (start slot : Nat)
    (outer : List Frame) (place : Nat) :
    (sequence (first :: rest)).scopeAt start slot outer place =
      if place < start + first.size then first.scopeAt start slot outer place
      else (sequence rest).scopeAt (start + first.size) (slot + first.loops) outer place := rfl

theorem scopeAt_choice_cons (preferred other : Pattern) (further : List Pattern)
    (start slot : Nat) (outer : List Frame) (place : Nat) :
    (choice (preferred :: other :: further)).scopeAt start slot outer place =
      if place < start + preferred.size + 2 then preferred.scopeAt (start + 1) slot outer place
      else (choice (other :: further)).scopeAt (start + preferred.size + 2)
        (slot + preferred.loops) outer place := rfl

theorem scopeWithin_outside {start size place : Nat} {inner : Nat → List Frame}
    {outer : List Frame} (outside : place < start ∨ start + size < place) :
    scopeWithin start size inner outer place = outer := if_neg (by omega)

theorem scopeWithin_inside {start size place : Nat} {inner : Nat → List Frame}
    {outer : List Frame} (low : start ≤ place) (high : place ≤ start + size) :
    scopeWithin start size inner outer place = inner place := if_pos ⟨low, high⟩

/-- In front of the first instruction and behind the last one there is no frame of the pattern. -/
theorem scopeAt_outside (pattern : Pattern) {start slot : Nat} {outer : List Frame} {place : Nat}
    (outside : place ≤ start ∨ start + pattern.size ≤ place) :
    pattern.scopeAt start slot outer place = outer := by
  induction pattern generalizing start slot outer with
  | empty | char | oneOf | anyChar | atStart | atEnd | sequenceNil | choiceNil => rfl
  | sequenceCons first rest firstOutside restOutside =>
    rw [size_sequence_cons] at outside
    rw [scopeAt_sequence_cons]
    split
    next => exact firstOutside (by omega)
    next => exact restOutside (by omega)
  | choiceLast last lastOutside => exact lastOutside outside
  | choiceCons preferred other further preferredOutside otherOutside =>
    rw [size_choice_cons] at outside
    rw [scopeAt_choice_cons]
    split
    next => exact preferredOutside (by omega)
    next => exact otherOutside (by omega)
  | repeated inner quantifier innerOutside =>
    cases quantifier with
    | star =>
      rw [size] at outside
      exact scopeWithin_outside (by omega)
    | plus =>
      rw [size] at outside
      rw [scopeAt]
      split
      next => exact innerOutside (by omega)
      next => exact scopeWithin_outside (by omega)
    | optional =>
      rw [size] at outside
      exact innerOutside (by omega)
  | capture name inner innerOutside =>
    rw [size] at outside
    exact scopeWithin_outside (by omega)

end Pattern

theorem Frame.Around.narrow {frame : Frame} {start stop slot first last more : Nat}
    (around : frame.Around start stop slot) (front : start ≤ first) (back : last ≤ stop)
    (room : slot ≤ more) : frame.Around first last more := by
  cases frame with
  | group => trivial
  | loop own head stop =>
    obtain ⟨small, before, behind⟩ := around
    exact ⟨by omega, by omega, by omega⟩

namespace Machine
open Pattern

/-- The frames at a place and at those where its instruction leads to. The first two instructions of
a loop and its last two are around its body, and its slot is larger than those of the loops around
it. -/
def Fits (program : Program) (scope : Nat → List Frame) (place : Nat) : Instruction → Prop
  | .mark slot => slot < program.slots ∧
      (∀ frame ∈ scope place, frame.Around place (place + 1) slot) ∧
        ∃ head stop, place = head + 1 ∧ scope (place + 1) = .loop slot head stop :: scope place
  | .progress slot => slot < program.slots ∧
      (∀ frame ∈ scope (place + 1), frame.Around place (place + 1) program.slots) ∧
        ∃ head, program.Loop slot head place ∧
          scope place = .loop slot head place :: scope (place + 1)
  | .openGroup _ => (∀ frame ∈ scope place, frame.Around place (place + 1) program.slots) ∧
      scope (place + 1) = .group :: scope place
  | .closeGroup => (∀ frame ∈ scope (place + 1), frame.Around place (place + 1) program.slots) ∧
      scope place = .group :: scope (place + 1)
  | .accept => scope place = []
  | instruction => (∀ frame ∈ scope place, frame.Around place (place + 1) program.slots) ∧
      ∀ exit ∈ instruction.exits place, scope exit = scope place

/-- The instructions between two places fit. -/
def FitsFrom (program : Program) (scope : Nat → List Frame) (start size : Nat) : Prop :=
  ∀ place instruction, start ≤ place → place < start + size →
    program.code[place]? = some instruction → Fits program scope place instruction

/-- The pattern is lowered at the place, with its slots, and the frames around it are as told. -/
structure Stands (program : Program) (scope : Nat → List Frame) (pattern : Pattern)
    (start slot : Nat) (outer : List Frame) : Prop where
  holds : Holds program start (pattern.lower start slot)
  room : slot + pattern.loops ≤ program.slots
  around : ∀ frame ∈ outer, frame.Around start (start + pattern.size) slot
  agrees : ∀ place, start ≤ place → place ≤ start + pattern.size →
    scope place = pattern.scopeAt start slot outer place

variable {program : Program} {scope : Nat → List Frame} {start slot : Nat} {outer : List Frame}

theorem Stands.first {pattern : Pattern} (stands : Stands program scope pattern start slot outer) :
    scope start = outer :=
  (stands.agrees start (Nat.le_refl _) (Nat.le_add_right ..)).trans
    (scopeAt_outside pattern (.inl (Nat.le_refl _)))

theorem Stands.last {pattern : Pattern} (stands : Stands program scope pattern start slot outer) :
    scope (start + pattern.size) = outer :=
  (stands.agrees _ (Nat.le_add_right ..) (Nat.le_refl _)).trans
    (scopeAt_outside pattern (.inr (Nat.le_refl _)))

theorem Stands.around_at {pattern : Pattern}
    (stands : Stands program scope pattern start slot outer) {place : Nat} (low : start ≤ place)
    (high : place < start + pattern.size) :
    ∀ frame ∈ outer, frame.Around place (place + 1) program.slots := fun frame member =>
  (stands.around frame member).narrow low high (Nat.le_trans (Nat.le_add_right ..) stands.room)

/-- A part of the pattern, with the same frames around it. -/
theorem Stands.part {pattern inner : Pattern} {first own : Nat}
    (stands : Stands program scope pattern start slot outer)
    (holds : Holds program first (inner.lower first own)) (front : start ≤ first)
    (back : first + inner.size ≤ start + pattern.size) (later : slot ≤ own)
    (room : own + inner.loops ≤ slot + pattern.loops)
    (same : ∀ place, first ≤ place → place ≤ first + inner.size →
      pattern.scopeAt start slot outer place = inner.scopeAt first own outer place) :
    Stands program scope inner first own outer where
  holds := holds
  room := Nat.le_trans room stands.room
  around frame member := (stands.around frame member).narrow front back later
  agrees place low high :=
    (stands.agrees place (by omega) (by omega)).trans (same place low high)

section Lowered
variable {pattern inner first second : Pattern}
  (firstFits : ∀ {start slot outer}, Stands program scope first start slot outer →
    FitsFrom program scope start first.size)
  (secondFits : ∀ {start slot outer}, Stands program scope second start slot outer →
    FitsFrom program scope start second.size)
  (innerFits : ∀ {start slot outer}, Stands program scope inner start slot outer →
    FitsFrom program scope start inner.size)

include firstFits secondFits in
/-- A pattern that is lowered to one part and then another. -/
theorem fitsFrom_append (stands : Stands program scope pattern start slot outer)
    (lowered : pattern.lower start slot = first.lower start slot ++
      second.lower (start + first.size) (slot + first.loops))
    (sizes : pattern.size = first.size + second.size)
    (slots : pattern.loops = first.loops + second.loops)
    (scopes : ∀ place, pattern.scopeAt start slot outer place =
      if place < start + first.size then first.scopeAt start slot outer place
      else second.scopeAt (start + first.size) (slot + first.loops) outer place) :
    FitsFrom program scope start pattern.size := by
  obtain ⟨front, back⟩ := (holds_append program start _ _).mp (lowered ▸ stands.holds)
  rw [lower_length] at back
  have left : Stands program scope first start slot outer := by
    refine stands.part front (Nat.le_refl _) (by omega) (Nat.le_refl _) (by omega)
      fun place low high => ?_
    rw [scopes]
    split
    next => rfl
    next => rw [scopeAt_outside first (by omega), scopeAt_outside second (by omega)]
  have right : Stands program scope second (start + first.size) (slot + first.loops) outer := by
    refine stands.part back (by omega) (by omega) (by omega) (by omega) fun place low high => ?_
    rw [scopes, if_neg (by omega)]
  intro place instruction low high found
  by_cases early : place < start + first.size
  · exact firstFits left place instruction low early found
  · exact secondFits right place instruction (by omega) (by omega) found

include firstFits secondFits in
/-- A pattern that is lowered to a part to be preferred and another to fall back to. -/
theorem fitsFrom_choice (stands : Stands program scope pattern start slot outer)
    (lowered : pattern.lower start slot =
      .split (start + 1) (start + first.size + 2) :: first.lower (start + 1) slot ++
        .jump (start + first.size + second.size + 2) ::
          second.lower (start + first.size + 2) (slot + first.loops))
    (sizes : pattern.size = first.size + second.size + 2)
    (slots : pattern.loops = first.loops + second.loops)
    (scopes : ∀ place, pattern.scopeAt start slot outer place =
      if place < start + first.size + 2 then first.scopeAt (start + 1) slot outer place
      else second.scopeAt (start + first.size + 2) (slot + first.loops) outer place) :
    FitsFrom program scope start pattern.size := by
  obtain ⟨split, rest⟩ : Holds program start (_ :: (_ ++ _)) := lowered ▸ stands.holds
  obtain ⟨front, jump, back⟩ := (holds_append program (start + 1) _ _).mp rest
  have turn : start + 1 + first.size + 1 = start + first.size + 2 := by omega
  rw [lower_length] at jump back
  rw [turn] at back
  have left : Stands program scope first (start + 1) slot outer := by
    refine stands.part front (by omega) (by omega) (Nat.le_refl _) (by omega)
      fun place low high => ?_
    rw [scopes, if_pos (by omega)]
  have right : Stands program scope second (start + first.size + 2) (slot + first.loops) outer := by
    refine stands.part back (by omega) (by omega) (by omega) (by omega) fun place low high => ?_
    rw [scopes, if_neg (by omega)]
  have exit : start + first.size + second.size + 2 = start + first.size + 2 + second.size := by
    omega
  intro place instruction low high found
  have frames := stands.around_at low high
  -- the split, the preferred side, the jump over the other side, and that side
  have cases : place = start ∨ (start + 1 ≤ place ∧ place < start + 1 + first.size) ∨
      place = start + 1 + first.size ∨ (start + first.size + 2 ≤ place ∧
        place < start + first.size + 2 + second.size) := by omega
  rcases cases with rfl | ⟨behind, before⟩ | rfl | ⟨behind, before⟩
  · cases split.symm.trans found
    refine ⟨stands.first ▸ frames, fun exit member => ?_⟩
    rcases List.mem_pair.mp member with rfl | rfl
    · rw [left.first, stands.first]
    · rw [right.first, stands.first]
  · exact firstFits left place instruction behind before found
  · cases jump.symm.trans found
    refine ⟨left.last ▸ frames, fun target member => ?_⟩
    rw [List.mem_singleton.mp member, left.last, exit, right.last]
  · exact secondFits right place instruction behind before found

include innerFits

theorem fitsFrom_star (stands : Stands program scope (.repeated inner .star) start slot outer) :
    FitsFrom program scope start (inner.size + 4) := by
  obtain ⟨split, mark, rest⟩ := stands.holds
  obtain ⟨inside, progress, jump, _⟩ := (holds_append program (start + 2) _ _).mp rest
  rw [lower_length] at split progress jump
  have room : slot + (inner.loops + 1) ≤ program.slots := stands.room
  have around : ∀ frame ∈ outer, frame.Around start (start + (inner.size + 4)) slot := stands.around
  have outside : ∀ place, start ≤ place → place ≤ start + (inner.size + 4) →
      place < start + 2 ∨ start + 2 + inner.size < place → scope place = outer :=
    fun place low high apart => (stands.agrees place low high).trans (scopeWithin_outside apart)
  have body : Stands program scope inner (start + 2) (slot + 1)
      (.loop slot start (start + 2 + inner.size) :: outer) := by
    refine ⟨inside, by omega, fun frame member => ?_, fun place low high => ?_⟩
    · rcases List.mem_cons.mp member with rfl | further
      · exact ⟨Nat.lt_succ_self _, by omega, Nat.le_refl _⟩
      · exact (around frame further).narrow (by omega) (by omega) (by omega)
    · exact (stands.agrees place (by omega) (by rw [size]; omega)).trans
        (scopeWithin_inside low high)
  have exit : start + inner.size + 4 = start + 2 + inner.size + 2 := by omega
  intro place instruction low high found
  have frames := stands.around_at low high
  -- the split, the mark, the body, the test for progress and the jump back
  have cases : place = start ∨ place = start + 1 ∨
      (start + 2 ≤ place ∧ place < start + 2 + inner.size) ∨
      place = start + 2 + inner.size ∨ place = start + 2 + inner.size + 1 := by omega
  rcases cases with rfl | rfl | ⟨behind, before⟩ | rfl | rfl
  · cases split.symm.trans found
    have here := outside place (by omega) (by omega) (by omega)
    refine ⟨here ▸ frames, fun exit member => ?_⟩
    rcases List.mem_pair.mp member with rfl | rfl
    · rw [here, outside _ (by omega) (by omega) (by omega)]
    · rw [here, outside _ (by omega) (by omega) (by omega)]
  · cases mark.symm.trans found
    have here := outside (start + 1) (by omega) (by omega) (by omega)
    refine ⟨by omega, fun frame member => ?_, start, start + 2 + inner.size, rfl, ?_⟩
    · exact (around frame (here ▸ member)).narrow (by omega) (by omega) (Nat.le_refl _)
    · rw [body.first, here]
  · exact innerFits body place instruction behind before found
  · cases progress.symm.trans found
    have next := outside (start + 2 + inner.size + 1) (by omega) (by omega) (by omega)
    refine ⟨by omega, next ▸ frames, start, ⟨exit ▸ split, mark, progress, jump⟩, ?_⟩
    rw [body.last, next]
  · cases jump.symm.trans found
    have here := outside (start + 2 + inner.size + 1) (by omega) (by omega) (by omega)
    refine ⟨here ▸ frames, fun exit member => ?_⟩
    rw [List.mem_singleton.mp member, here, stands.first]

theorem fitsFrom_optional
    (stands : Stands program scope (.repeated inner .optional) start slot outer) :
    FitsFrom program scope start (inner.size + 1) := by
  obtain ⟨split, inside⟩ := stands.holds
  have body : Stands program scope inner (start + 1) slot outer :=
    stands.part inside (by omega) (by rw [size]; omega) (Nat.le_refl _) (Nat.le_refl _)
      fun _ _ _ => rfl
  have last := stands.last
  rw [size, ← Nat.add_assoc] at last
  intro place instruction low high found
  have frames := stands.around_at low high
  by_cases early : place = start
  · subst early
    cases split.symm.trans found
    refine ⟨stands.first ▸ frames, fun exit member => ?_⟩
    rcases List.mem_pair.mp member with rfl | rfl
    · rw [body.first, stands.first]
    · rw [last, stands.first]
  · exact innerFits body place instruction (by omega) (by omega) found

theorem fitsFrom_capture {name : String}
    (stands : Stands program scope (.capture name inner) start slot outer) :
    FitsFrom program scope start (inner.size + 2) := by
  obtain ⟨opened, rest⟩ := stands.holds
  obtain ⟨inside, closed, _⟩ := (holds_append program (start + 1) _ _).mp rest
  rw [lower_length] at closed
  have around : ∀ frame ∈ outer, frame.Around start (start + (inner.size + 2)) slot := stands.around
  have body : Stands program scope inner (start + 1) slot (.group :: outer) := by
    refine ⟨inside, stands.room, fun frame member => ?_, fun place low high => ?_⟩
    · rcases List.mem_cons.mp member with rfl | further
      · trivial
      · exact (around frame further).narrow (by omega) (by omega) (Nat.le_refl _)
    · exact (stands.agrees place (by omega) (by rw [size]; omega)).trans
        (scopeWithin_inside low high)
  have exit : start + (inner.size + 2) = start + 1 + inner.size + 1 := by omega
  have last : scope (start + (inner.size + 2)) = outer := stands.last
  rw [exit] at last
  intro place instruction low high found
  have frames := stands.around_at low high
  have cases : place = start ∨ (start + 1 ≤ place ∧ place < start + 1 + inner.size) ∨
      place = start + 1 + inner.size := by omega
  rcases cases with rfl | ⟨behind, before⟩ | rfl
  · cases opened.symm.trans found
    exact ⟨stands.first ▸ frames, by rw [body.first, stands.first]⟩
  · exact innerFits body place instruction behind before found
  · cases closed.symm.trans found
    exact ⟨last ▸ frames, by rw [body.last, last]⟩

end Lowered

/-- The instructions of a pattern fit what encloses them. -/
theorem fitsFrom_lower (pattern : Pattern)
    (stands : Stands program scope pattern start slot outer) :
    FitsFrom program scope start pattern.size := by
  induction pattern generalizing start slot outer with
  | empty | sequenceNil | choiceNil =>
    exact fun place instruction low high => absurd high (Nat.not_lt.mpr low)
  | char | oneOf | anyChar | atStart | atEnd =>
    intro place instruction low high found
    obtain rfl : place = start := by
      rw [size] at high
      omega
    have first := stands.first
    have last := stands.last
    cases stands.holds.1.symm.trans found
    refine ⟨first ▸ stands.around_at low high, fun exit member => ?_⟩
    rw [List.mem_singleton.mp member]
    exact last.trans first.symm
  | sequenceCons first rest firstFits restFits =>
    exact fitsFrom_append firstFits restFits stands rfl rfl rfl fun _ => rfl
  | choiceLast last lastFits =>
    exact lastFits ⟨stands.holds, stands.room, stands.around, stands.agrees⟩
  | choiceCons preferred other further preferredFits otherFits =>
    exact fitsFrom_choice preferredFits otherFits stands rfl rfl rfl fun _ => rfl
  | repeated inner quantifier innerFits =>
    cases quantifier with
    | star => exact fitsFrom_star innerFits stands
    | plus =>
      -- lowered to the inner pattern with a loop behind it
      exact fitsFrom_append innerFits (fitsFrom_star innerFits) stands rfl rfl rfl fun _ => rfl
    | optional => exact fitsFrom_optional innerFits stands
  | capture name inner innerFits => exact fitsFrom_capture innerFits stands

/-- The frames around the instructions of a compiled pattern. -/
theorem fits_compile (pattern : Pattern) {place : Nat} {instruction : Instruction}
    (found : pattern.compile.code[place]? = some instruction) :
    Fits pattern.compile (pattern.scopeAt 0 0 []) place instruction := by
  have holds : Holds pattern.compile 0 (pattern.lower 0 0 ++ [Instruction.accept]) :=
    holds_of_code [] (pattern.lower 0 0 ++ [Instruction.accept]) pattern.loops
  obtain ⟨body, accept, _⟩ := (holds_append _ 0 _ _).mp holds
  rw [lower_length] at accept
  have stands : Stands pattern.compile (pattern.scopeAt 0 0 []) pattern 0 0 [] :=
    ⟨body, Nat.le_of_eq (Nat.zero_add _), fun frame member => absurd member List.not_mem_nil,
      fun _ _ _ => rfl⟩
  have bound := (Array.getElem?_eq_some_iff.mp found).1
  rw [compile_size] at bound
  by_cases early : place < 0 + pattern.size
  · exact fitsFrom_lower pattern stands place instruction (Nat.zero_le _) early found
  · obtain rfl : place = 0 + pattern.size := by omega
    cases accept.symm.trans found
    exact stands.last

end Machine
end TreeSelect
