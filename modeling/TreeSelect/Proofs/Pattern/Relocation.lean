import TreeSelect.Proofs.Pattern.Ways

/-! Texts within longer texts. A pattern without anchors matches a text inside a longer one as it
matches the text alone, only at other positions: the ways that do not reach into what stands
behind the text are the same, in the same order. -/

namespace TreeSelect
open Place

/-- The place as many bytes further on, with more letters behind. -/
def Place.carry (distance : Nat) (behind : List Char) (place : Place) : Place :=
  ⟨place.position + distance, place.rest ++ behind⟩

def Capture.shift (distance : Nat) (capture : Capture) : Capture :=
  ⟨capture.rule, capture.start + distance, capture.stop + distance⟩

namespace Way

/-- The way as many bytes further on, with more letters behind. -/
def carry (distance : Nat) (behind : List Char) (way : Way) : Way :=
  ⟨way.stop.carry distance behind, way.captures.map (Capture.shift distance)⟩

/-- Whether the way stops before what stands behind, or where it begins. -/
def stays (behind : List Char) (way : Way) : Bool :=
  decide (behind.length ≤ way.stop.rest.length)

end Way

theorem Place.carry_injective {distance : Nat} {behind : List Char} {place other : Place} :
    place.carry distance behind = other.carry distance behind ↔ place = other := by
  rcases place with ⟨position, rest⟩
  rcases other with ⟨further, more⟩
  simp [carry]

theorem Way.stays_carry (distance : Nat) (behind : List Char) (way : Way) :
    (way.carry distance behind).stays behind = true := by
  simp [stays, carry, Place.carry]

/-- A letter of the text is the same letter in the longer text; one behind it leads out of it. -/
theorem Place.after?_carry (admits : Char → Bool) (distance : Nat) (behind : List Char)
    (place : Place) :
    (((place.carry distance behind).after? admits).toList.map fun next =>
        (⟨next, []⟩ : Way)).filter (Way.stays behind) =
      ((place.after? admits).toList.map fun next => ⟨next, []⟩).map
        (Way.carry distance behind) := by
  rcases place with ⟨position, _ | ⟨letter, rest⟩⟩
  · rw [List.filter_eq_nil_iff.mpr]
    · rfl
    · intro way member stays
      obtain ⟨next, found, rfl⟩ := List.mem_map.mp member
      obtain ⟨other, _, leads⟩ := leads_of_after? (Option.mem_toList.mp found)
      have sum := leads.length
      have within : behind.length ≤ next.rest.length := of_decide_eq_true stays
      simp only [carry, List.nil_append, List.length_singleton] at sum
      omega
  · by_cases admitted : admits letter = true
    · simp [after?, carry, Way.carry, Way.stays, admitted, Nat.add_right_comm]
    · simp [after?, carry, admitted]

namespace Way

/-- The ways that stay within the text are the ways of the text alone. -/
def Relocates (distance : Nat) (behind : List Char) (inner : Place → List Way) : Prop :=
  ∀ place, (inner (place.carry distance behind)).filter (stays behind) =
    (inner place).map (carry distance behind)

variable {distance : Nat} {behind : List Char} {inner next other : Place → List Way}

theorem relocates_stop : Relocates distance behind fun place => [⟨place, []⟩] := by
  intro place
  exact List.filter_eq_self.mpr fun way member => by
    rw [List.mem_singleton.mp member]
    exact stays_carry distance behind ⟨place, []⟩

theorem relocates_append (first : Relocates distance behind inner)
    (second : Relocates distance behind other) :
    Relocates distance behind fun place => inner place ++ other place := by
  intro place
  rw [List.filter_append, first place, second place, List.map_append]

/-- What has led out of the text does not come back. -/
theorem filter_followedBy (forward : Forward next) (ways : List Way) :
    (followedBy ways next).filter (stays behind) =
      followedBy (ways.filter (stays behind)) fun place => (next place).filter (stays behind) := by
  induction ways with
  | nil => rfl
  | cons way ways ih =>
    have pulled : ((next way.stop).map fun further =>
        (⟨further.stop, way.captures ++ further.captures⟩ : Way)).filter (stays behind) =
        ((next way.stop).filter (stays behind)).map fun further =>
          ⟨further.stop, way.captures ++ further.captures⟩ := List.filter_map
    rw [followedBy_cons, List.filter_append, ih, pulled]
    cases inside : way.stays behind with
    | true => rw [List.filter_cons_of_pos inside, followedBy_cons]
    | false =>
      have gone : (next way.stop).filter (stays behind) = [] := by
        refine List.filter_eq_nil_iff.mpr fun further member stays => ?_
        obtain ⟨letters, leads⟩ := forward way.stop further member
        have sum := leads.length
        have within : behind.length ≤ further.stop.rest.length := of_decide_eq_true stays
        exact of_decide_eq_false inside (by omega)
      rw [List.filter_cons_of_neg (by simp [inside]), gone]
      rfl

theorem followedBy_carry (ways : List Way) {within : Place → List Way}
    (same : ∀ way ∈ ways, within (way.stop.carry distance behind) =
      (next way.stop).map (carry distance behind)) :
    followedBy (ways.map (carry distance behind)) within =
      (followedBy ways next).map (carry distance behind) := by
  induction ways with
  | nil => rfl
  | cons way ways ih =>
    have first : within (way.carry distance behind).stop =
        (next way.stop).map (carry distance behind) := same way List.mem_cons_self
    rw [List.map_cons, followedBy_cons, followedBy_cons, List.map_append, first,
      ih fun other member => same other (List.mem_cons_of_mem _ member)]
    simp [carry, Function.comp_def]

theorem relocates_followedBy (first : Relocates distance behind inner)
    (second : Relocates distance behind next) (forward : Forward next) :
    Relocates distance behind fun place => followedBy (inner place) next := by
  intro place
  rw [filter_followedBy forward, first place]
  exact followedBy_carry _ fun way _ => second way.stop

end Way

namespace Pattern
open Way

mutual

/-- Whether the pattern means the same when it is moved so far, with so much behind the text. -/
def Movable (distance : Nat) (behind : List Char) : Pattern → Prop
  | .empty | .char _ | .oneOf _ | .anyChar => True
  | .atStart => distance = 0
  | .atEnd => behind = []
  | .sequence patterns | .choice patterns => AllMovable distance behind patterns
  | .repeated inner _ | .capture _ inner => Movable distance behind inner

def AllMovable (distance : Nat) (behind : List Char) : List Pattern → Prop
  | [] => True
  | first :: rest => Movable distance behind first ∧ AllMovable distance behind rest

end

variable {distance : Nat} {behind : List Char}

/-- The loop of a pattern, by induction on what is left of the text. -/
theorem relocates_star {inner : Pattern} (relocates : Relocates distance behind inner.ways) :
    Relocates distance behind (repeated inner .star).ways := by
  intro place
  generalize left : place.rest.length = count
  induction count using Nat.strongRecOn generalizing place with
  | ind count ih =>
    have moving : ((inner.ways (place.carry distance behind)).filter fun way =>
          decide (way.stop ≠ place.carry distance behind)).filter (stays behind) =
        ((inner.ways place).filter fun way => decide (way.stop ≠ place)).map
          (Way.carry distance behind) := by
      have either : ∀ ways : List Way, (ways.filter fun way =>
            decide (way.stop ≠ place.carry distance behind)).filter (stays behind) =
          (ways.filter (stays behind)).filter fun way =>
            decide (way.stop ≠ place.carry distance behind) := by
        intro ways
        rw [List.filter_filter, List.filter_filter]
        exact List.filter_congr fun _ _ => Bool.and_comm ..
      rw [either, relocates place, List.filter_map]
      congr 1
      exact List.filter_congr fun way _ => by simp [Way.carry, Place.carry_injective]
    rw [ways_star_unroll, ways_star_unroll inner place, List.filter_append, List.map_append,
      filter_followedBy (forward_ways _), moving, relocates_stop place]
    congr 1
    refine followedBy_carry _ fun way member => ?_
    have ⟨found, moves⟩ := List.mem_filter.mp member
    obtain ⟨letters, leads⟩ := inner.forward_ways place way found
    have fewer := length_lt_of_moves leads (of_decide_eq_true moves)
    exact ih _ (left ▸ fewer) way.stop rfl

theorem relocates_if {holds : Place → Prop} [DecidablePred holds]
    (same : ∀ place, holds (place.carry distance behind) ↔ holds place) :
    Relocates distance behind fun place => if holds place then [⟨place, []⟩] else [] := by
  intro place
  by_cases admitted : holds place
  · simpa only [if_pos admitted, if_pos ((same place).mpr admitted)] using relocates_stop place
  · simp only [if_neg admitted, if_neg (mt (same place).mp admitted), List.filter_nil,
      List.map_nil]

theorem relocates_ways (pattern : Pattern) (movable : pattern.Movable distance behind) :
    Relocates distance behind pattern.ways := by
  induction pattern with
  | empty | sequenceNil | choiceNil => exact relocates_stop
  | char letter => exact after?_carry (· == letter) distance behind
  | oneOf set => exact after?_carry set.contains distance behind
  | anyChar => exact after?_carry (fun _ => true) distance behind
  | atStart =>
    have unmoved : distance = 0 := movable
    exact relocates_if fun place => by simp [Place.carry, unmoved]
  | atEnd =>
    have nothing : behind = [] := movable
    exact relocates_if fun place => by simp [Place.carry, nothing]
  | sequenceCons first rest firstRelocates restRelocates =>
    exact relocates_followedBy (firstRelocates movable.1) (restRelocates movable.2)
      (sequence rest).forward_ways
  | choiceLast last lastRelocates => exact lastRelocates movable.1
  | choiceCons preferred other further preferredRelocates otherRelocates =>
    exact relocates_append (preferredRelocates movable.1) (otherRelocates movable.2)
  | repeated inner quantifier innerRelocates =>
    have once := innerRelocates movable
    cases quantifier with
    | star => exact relocates_star once
    | plus =>
      have ways : (repeated inner .plus).ways = fun place =>
          followedBy (inner.ways place) (repeated inner .star).ways := funext (ways_plus inner)
      rw [ways]
      exact relocates_followedBy once (relocates_star once) (forward_ways _)
    | optional =>
      have ways : (repeated inner .optional).ways = fun place =>
          inner.ways place ++ [⟨place, []⟩] := funext (ways_optional inner)
      rw [ways]
      exact relocates_append once relocates_stop
  | capture name inner innerRelocates =>
    intro place
    have same := innerRelocates movable place
    have pulled : ((inner.ways (place.carry distance behind)).map fun way =>
        (⟨way.stop, way.captures ++
          [⟨name, (place.carry distance behind).position, way.stop.position⟩]⟩ : Way)).filter
            (stays behind) =
        ((inner.ways (place.carry distance behind)).filter (stays behind)).map fun way =>
          ⟨way.stop, way.captures ++
            [⟨name, (place.carry distance behind).position, way.stop.position⟩]⟩ :=
      List.filter_map
    rw [ways, ways, pulled, same, List.map_map, List.map_map]
    exact List.map_congr_left fun way _ => by
      simp [Way.carry, Place.carry, Capture.shift]

/-- The captures of the preferred way from a place, if any way leads on from there. -/
def captured? (pattern : Pattern) (place : Place) : Option (List Capture) :=
  (pattern.ways place).head?.map Way.captures

theorem captured?_sequence_cons (first : Pattern) (rest : List Pattern) (place : Place) :
    (sequence (first :: rest)).captured? place = (first.ways place).findSome? fun way =>
      ((sequence rest).captured? way.stop).map (way.captures ++ ·) := by
  rw [captured?, ways_sequence_cons]
  induction first.ways place with
  | nil => rfl
  | cons way ways ih =>
    rw [followedBy_cons, List.head?_append, List.findSome?_cons, ← ih, captured?, List.head?_map]
    cases ((sequence rest).ways way.stop).head? <;> rfl

/-- A text that stands at another position, with nothing more behind it. -/
theorem captured?_moved {pattern : Pattern} (movable : pattern.Movable distance [])
    (place : Place) : pattern.captured? (place.carry distance []) =
      (pattern.captured? place).map (List.map (Capture.shift distance)) := by
  have same := relocates_ways pattern movable place
  have all : ∀ ways : List Way, ways.filter (stays []) = ways := fun ways =>
    List.filter_eq_self.mpr fun way _ => decide_eq_true (Nat.zero_le way.stop.rest.length)
  rw [all] at same
  rw [captured?, captured?, same, List.head?_map, Option.map_map, Option.map_map]
  rfl

/-- If no way of the first pattern reaches into what stands behind the text, and what the rest
captures goes on in the same manner after each of them, so does what both capture. -/
theorem captured?_behind {first : Pattern} {rest : List Pattern} {further : List Capture} {place : Place}
    (movable : first.Movable 0 behind)
    (stay : ∀ way ∈ first.ways (place.carry 0 behind), way.stays behind = true)
    (onward : ∀ way ∈ first.ways place, (sequence rest).captured? (way.stop.carry 0 behind) =
      ((sequence rest).captured? way.stop).map (· ++ further)) :
    (sequence (first :: rest)).captured? (place.carry 0 behind) =
      ((sequence (first :: rest)).captured? place).map (· ++ further) := by
  have same := relocates_ways first movable place
  rw [List.filter_eq_self.mpr stay] at same
  rw [captured?_sequence_cons, captured?_sequence_cons, same]
  generalize first.ways place = ways at onward
  induction ways with
  | nil => rfl
  | cons way ways ih =>
    obtain ⟨here, others⟩ := List.forall_mem_cons.mp onward
    have stop : (way.carry 0 behind).stop = way.stop.carry 0 behind := rfl
    have captures : (way.carry 0 behind).captures = way.captures := List.map_id way.captures
    rw [List.map_cons, List.findSome?_cons, List.findSome?_cons, stop, captures, here, ih others]
    cases (sequence rest).captured? way.stop with
    | none => rfl
    | some more => simp

end Pattern
end TreeSelect
