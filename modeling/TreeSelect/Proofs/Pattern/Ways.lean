import TreeSelect.Proofs.Pattern.Language

/-! Laws of the ordered ways in which patterns match. Ways only lead forward, so a greedy loop is
its own unrolling; the places where they end are those of the language, although a loop never
tries an iteration that consumes nothing; and what they capture are pieces of the text between. -/

namespace TreeSelect
open Place Text

namespace Way

/-- The property holds of every way from a place. -/
def Always (holds : Place → Way → Prop) (inner : Place → List Way) : Prop :=
  ∀ place, ∀ way ∈ inner place, holds place way

section Always
variable {holds : Place → Way → Prop} {inner next : Place → List Way}
  (still : ∀ place, holds place ⟨place, []⟩)
  (compose : ∀ place first second, holds place first → holds first.stop second →
    holds place ⟨second.stop, first.captures ++ second.captures⟩)

include compose in
theorem Always.followedBy (first : Always holds inner) (second : Always holds next) :
    Always holds fun place => followedBy (inner place) next := by
  intro place way member
  obtain ⟨left, leftMember, right, rightMember, rfl⟩ := (mem_followedBy _ _ _).mp member
  exact compose place left right (first place left leftMember)
    (second left.stop right rightMember)

include still

theorem always_still : Always holds fun place => [⟨place, []⟩] := by
  intro place way member
  rw [List.mem_singleton.mp member]
  exact still place

theorem Always.orStill (always : Always holds inner) :
    Always holds fun place => inner place ++ [⟨place, []⟩] := by
  intro place way member
  rcases List.mem_append.mp member with moved | stopped
  · exact always place way moved
  · exact always_still still place way stopped

include compose

theorem Always.copies (always : Always holds inner) (count : Nat) :
    Always holds (copies inner count) := by
  induction count with
  | zero => exact always_still still
  | succ count ih => exact always.followedBy compose ih

theorem Always.upTo (always : Always holds inner) (count : Nat) :
    Always holds (upTo inner count) := by
  induction count with
  | zero => exact always_still still
  | succ count ih => exact (always.followedBy compose ih).orStill still

theorem Always.greedy (always : Always holds inner) (rounds : Nat) :
    Always holds (greedy inner rounds) := by
  induction rounds with
  | zero => exact always_still still
  | succ rounds ih =>
    have moving : Always holds fun place =>
        (inner place).filter fun way => decide (way.stop ≠ place) :=
      fun place way member => always place way (List.mem_filter.mp member).1
    exact (moving.followedBy compose ih).orStill still

end Always

/-- Every way leads from the place to one behind it. -/
def Forward (inner : Place → List Way) : Prop :=
  ∀ place, ∀ way ∈ inner place, ∃ letters, place.Leads letters way.stop

/-- A way that moves leaves fewer letters. -/
theorem length_lt_of_moves {place : Place} {way : Way} {letters : List Char}
    (leads : place.Leads letters way.stop) (moves : way.stop ≠ place) :
    way.stop.rest.length < place.rest.length := by
  have sum := leads.length
  cases letters with
  | nil => exact absurd (leads.eq_of_position (by simp [leads.position])) moves
  | cons letter letters =>
    simp only [List.length_cons] at sum
    omega

theorem filter_moves_nil {inner : Place → List Way} (forward : Forward inner) {place : Place}
    (done : place.rest = []) :
    ((inner place).filter fun way => decide (way.stop ≠ place)) = [] := by
  rw [List.filter_eq_nil_iff]
  intro way member moves
  obtain ⟨letters, leads⟩ := forward place way member
  have fewer := length_lt_of_moves leads (of_decide_eq_true moves)
  rw [done] at fewer
  exact absurd fewer (Nat.not_lt_zero _)

/-- More rounds than there are letters change nothing. -/
theorem greedy_stable {inner : Place → List Way} (forward : Forward inner) (rounds : Nat)
    (place : Place) (enough : place.rest.length ≤ rounds) :
    greedy inner rounds place = greedy inner place.rest.length place := by
  induction rounds using Nat.strongRecOn generalizing place with
  | ind rounds ih =>
    cases rounds with
    | zero => rw [Nat.le_zero.mp enough]
    | succ rounds =>
      cases left : place.rest.length with
      | zero =>
        have done : place.rest = [] := List.length_eq_zero_iff.mp left
        simp only [greedy, filter_moves_nil forward done, followedBy_nil, List.nil_append]
      | succ further =>
        rw [greedy, greedy]
        congr 1
        apply followedBy_congr
        intro way member
        have ⟨found, moves⟩ := List.mem_filter.mp member
        obtain ⟨letters, leads⟩ := forward place way found
        have fewer := length_lt_of_moves leads (of_decide_eq_true moves)
        rw [ih rounds (Nat.lt_succ_self _) way.stop (by omega),
          ih further (by omega) way.stop (by omega)]

/-- A greedy loop is one iteration that moves and then the loop again, or else the exit. -/
theorem greedy_unroll {inner : Place → List Way} (forward : Forward inner) (place : Place) :
    greedy inner place.rest.length place =
      followedBy ((inner place).filter fun way => decide (way.stop ≠ place))
        (fun next => greedy inner next.rest.length next) ++ [⟨place, []⟩] := by
  rw [← greedy_stable forward (place.rest.length + 1) place (Nat.le_succ _), greedy]
  congr 1
  apply followedBy_congr
  intro way member
  have ⟨found, moves⟩ := List.mem_filter.mp member
  obtain ⟨letters, leads⟩ := forward place way found
  exact greedy_stable forward _ _
    (Nat.le_of_lt (length_lt_of_moves leads (of_decide_eq_true moves)))

end Way

namespace Pattern
open Way

theorem ways_star (inner : Pattern) (place : Place) :
    (repeated inner .star).ways place = greedy inner.ways place.rest.length place := by
  simp [ways, Quantifier.least, Quantifier.most?, copies, followedBy_still]

theorem ways_plus (inner : Pattern) (place : Place) :
    (repeated inner .plus).ways place =
      followedBy (inner.ways place) (repeated inner .star).ways := by
  have star : (repeated inner .star).ways = fun place =>
      greedy inner.ways place.rest.length place := funext (ways_star inner)
  have once : copies inner.ways 1 place = inner.ways place := by
    simp [copies, followedBy]
  rw [star, ways, Quantifier.least, once]
  rfl

theorem ways_optional (inner : Pattern) (place : Place) :
    (repeated inner .optional).ways place = inner.ways place ++ [⟨place, []⟩] := by
  simp [ways, Quantifier.least, Quantifier.most?, copies, upTo, followedBy]

/-- What holds of standing still and of every letter, and is kept by going on and by capturing,
holds of all ways. -/
theorem always_ways {holds : Place → Way → Prop} (still : ∀ place, holds place ⟨place, []⟩)
    (letter : ∀ admits place next, place.after? admits = some next → holds place ⟨next, []⟩)
    (compose : ∀ place first second, holds place first → holds first.stop second →
      holds place ⟨second.stop, first.captures ++ second.captures⟩)
    (capture : ∀ name place way, holds place way →
      holds place ⟨way.stop, way.captures ++ [⟨name, place.position, way.stop.position⟩]⟩)
    (pattern : Pattern) : Always holds pattern.ways := by
  have letters : ∀ admits : Char → Bool,
      Always holds fun place => (place.after? admits).toList.map (⟨·, []⟩) := by
    intro admits place way member
    obtain ⟨next, found, rfl⟩ := List.mem_map.mp member
    exact letter admits place next (Option.mem_toList.mp found)
  induction pattern with
  | empty | sequenceNil | choiceNil => exact always_still still
  | char => exact letters _
  | oneOf set => exact letters set.contains
  | anyChar => exact letters _
  | atStart | atEnd =>
    intro place way member
    rw [ways] at member
    split at member
    next => exact always_still still place way member
    next => cases member
  | sequenceCons _ _ first rest => exact first.followedBy compose rest
  | choiceLast _ last => exact last
  | choiceCons _ _ _ preferred other =>
    intro place way member
    rcases List.mem_append.mp member with left | right
    · exact preferred place way left
    · exact other place way right
  | repeated inner quantifier always =>
    refine (always.copies still compose quantifier.least).followedBy compose ?_
    cases quantifier with
    | star | plus => exact fun place => always.greedy still compose place.rest.length place
    | optional => exact always.upTo still compose 1
  | capture name _ always =>
    intro place way member
    obtain ⟨body, found, rfl⟩ := List.mem_map.mp member
    exact capture name place body (always place body found)

theorem forward_ways (pattern : Pattern) : Forward pattern.ways := by
  refine always_ways (fun place => ⟨[], .refl place⟩) (fun admits place next found => ?_)
    (fun place first second left right => ?_) (fun name place way body => body) pattern
  · obtain ⟨letter, _, leads⟩ := leads_of_after? found
    exact ⟨[letter], leads⟩
  · obtain ⟨letters, leads⟩ := left
    obtain ⟨others, further⟩ := right
    exact ⟨letters ++ others, leads.trans further⟩

/-- The loop of a repeated pattern, unrolled once. -/
theorem ways_star_unroll (inner : Pattern) (place : Place) :
    (repeated inner .star).ways place =
      followedBy ((inner.ways place).filter fun way => decide (way.stop ≠ place))
        (repeated inner .star).ways ++ [⟨place, []⟩] := by
  have star : (repeated inner .star).ways = fun place =>
      greedy inner.ways place.rest.length place := funext (ways_star inner)
  rw [star]
  exact greedy_unroll inner.forward_ways place

theorem mem_ways_after? {admits : Char → Bool} {place : Place} {way : Way}
    (member : way ∈ (place.after? admits).toList.map fun next => (⟨next, []⟩ : Way)) :
    place.after? admits = some way.stop ∧ way.captures = [] := by
  obtain ⟨next, found, rfl⟩ := List.mem_map.mp member
  exact ⟨Option.mem_toList.mp found, rfl⟩

theorem mem_ways_if {holds : Prop} [Decidable holds] {place : Place} {way : Way}
    (member : way ∈ if holds then [(⟨place, []⟩ : Way)] else []) : holds ∧ way.stop = place := by
  split at member
  next admitted => exact ⟨admitted, by rw [List.mem_singleton.mp member]⟩
  next => cases member

/-- A loop that never stands still is one of the loops that may. -/
theorem star_matches_of_mem_ways {inner : Pattern}
    (sound : ∀ place, ∀ way ∈ inner.ways place, inner.Matches place way.stop) (place : Place)
    (way : Way) (member : way ∈ (repeated inner .star).ways place) :
    (repeated inner .star).Matches place way.stop := by
  -- by induction on what is left of the text
  generalize left : place.rest.length = count
  induction count using Nat.strongRecOn generalizing place way with
  | ind count ih =>
    rw [ways_star_unroll] at member
    rcases List.mem_append.mp member with more | done
    · obtain ⟨once, onceMember, again, againMember, rfl⟩ := (mem_followedBy _ _ _).mp more
      have ⟨found, moves⟩ := List.mem_filter.mp onceMember
      obtain ⟨letters, leads⟩ := inner.forward_ways place once found
      have fewer := length_lt_of_moves leads (of_decide_eq_true moves)
      exact .starMore (sound place once found)
        (ih once.stop.rest.length (left ▸ fewer) once.stop again againMember rfl)
    · rw [List.mem_singleton.mp done]
      exact .starDone

/-- The ways of a choice are those of its alternatives. -/
theorem mem_ways_choice {alternatives : List Pattern} (several : alternatives ≠ []) (place : Place)
    (way : Way) : way ∈ (choice alternatives).ways place ↔
      ∃ alternative ∈ alternatives, way ∈ alternative.ways place := by
  induction alternatives with
  | nil => exact absurd rfl several
  | cons preferred others ih =>
    cases others with
    | nil => simp [ways, choiceWays]
    | cons other further => simp [ways_choice_cons, ih]

/-- Ways invent nothing. -/
theorem matches_of_mem_ways (pattern : Pattern) (place : Place) (way : Way)
    (member : way ∈ pattern.ways place) : pattern.Matches place way.stop := by
  induction pattern generalizing place way with
  | empty =>
    rw [List.mem_singleton.mp member]
    exact .empty
  | sequenceNil =>
    rw [List.mem_singleton.mp member]
    exact .sequenceDone
  | choiceNil =>
    rw [List.mem_singleton.mp member]
    exact .choiceNone
  | char letter => exact .char (mem_ways_after? member).1
  | oneOf set => exact .oneOf (mem_ways_after? member).1
  | anyChar => exact .anyChar (mem_ways_after? member).1
  | atStart =>
    obtain ⟨start, same⟩ := mem_ways_if member
    exact same.symm ▸ .atStart start
  | atEnd =>
    obtain ⟨stop, same⟩ := mem_ways_if member
    exact same.symm ▸ .atEnd stop
  | sequenceCons first rest firstSound restSound =>
    obtain ⟨left, leftMember, right, rightMember, rfl⟩ := (mem_followedBy _ _ _).mp member
    exact .sequenceMore (firstSound place left leftMember)
      (restSound left.stop right rightMember)
  | choiceLast last lastSound =>
    exact .choice (List.mem_singleton_self _) (lastSound place way member)
  | choiceCons preferred other further preferredSound otherSound =>
    rcases List.mem_append.mp member with left | right
    · exact .choice (List.mem_cons_self ..) (preferredSound place way left)
    · exact (otherSound place way right).later
  | repeated inner quantifier innerSound =>
    cases quantifier with
    | star => exact star_matches_of_mem_ways innerSound place way member
    | plus =>
      rw [ways_plus] at member
      obtain ⟨once, onceMember, again, againMember, rfl⟩ := (mem_followedBy _ _ _).mp member
      exact .plus (innerSound place once onceMember)
        (star_matches_of_mem_ways innerSound once.stop again againMember)
    | optional =>
      rw [ways_optional] at member
      rcases List.mem_append.mp member with taken | skipped
      · exact .present (innerSound place way taken)
      · rw [List.mem_singleton.mp skipped]
        exact .absent
  | capture name inner innerSound =>
    obtain ⟨body, found, rfl⟩ := List.mem_map.mp member
    exact .capture (innerSound place body found)

theorem exists_way_after? {admits : Char → Bool} {place next : Place}
    (found : place.after? admits = some next) :
    ∃ way ∈ (place.after? admits).toList.map fun next => (⟨next, []⟩ : Way), way.stop = next :=
  ⟨⟨next, []⟩, by simp [found], rfl⟩

/-- Ways lose nothing: an iteration that consumes nothing can be left out. -/
theorem exists_way_of_matches {pattern : Pattern} {front back : Place}
    (derived : pattern.Matches front back) : ∃ way ∈ pattern.ways front, way.stop = back := by
  induction derived with
  | @empty place => exact ⟨⟨place, []⟩, List.mem_singleton_self _, rfl⟩
  | char found => exact exists_way_after? found
  | oneOf found => exact exists_way_after? found
  | anyChar found => exact exists_way_after? found
  | @atStart place start => exact ⟨⟨place, []⟩, by simp [ways, start], rfl⟩
  | @atEnd place stop => exact ⟨⟨place, []⟩, by simp [ways, stop], rfl⟩
  | @sequenceDone place => exact ⟨⟨place, []⟩, List.mem_singleton_self _, rfl⟩
  | sequenceMore _ _ leftWay rightWay =>
    obtain ⟨left, leftMember, rfl⟩ := leftWay
    obtain ⟨right, rightMember, rfl⟩ := rightWay
    exact ⟨_, (mem_followedBy _ _ _).mpr ⟨left, leftMember, right, rightMember, rfl⟩, rfl⟩
  | choice offered _ found =>
    obtain ⟨way, member, same⟩ := found
    exact ⟨way, (mem_ways_choice (List.ne_nil_of_mem offered) _ _).mpr ⟨_, offered, member⟩, same⟩
  | @choiceNone place => exact ⟨⟨place, []⟩, List.mem_singleton_self _, rfl⟩
  | @starDone inner place =>
    rw [ways_star_unroll]
    exact ⟨⟨place, []⟩, List.mem_append_right _ (List.mem_singleton_self _), rfl⟩
  | @starMore inner front middle back _ _ onceWay againWay =>
    obtain ⟨once, onceMember, rfl⟩ := onceWay
    obtain ⟨again, againMember, rfl⟩ := againWay
    by_cases still : once.stop = front
    · exact ⟨again, still ▸ againMember, rfl⟩
    · rw [ways_star_unroll]
      have moves : once ∈ (inner.ways front).filter fun way => decide (way.stop ≠ front) :=
        List.mem_filter.mpr ⟨onceMember, decide_eq_true still⟩
      exact ⟨_, List.mem_append_left _
        ((mem_followedBy _ _ _).mpr ⟨once, moves, again, againMember, rfl⟩), rfl⟩
  | plus _ _ onceWay againWay =>
    obtain ⟨once, onceMember, rfl⟩ := onceWay
    obtain ⟨again, againMember, rfl⟩ := againWay
    rw [ways_plus]
    exact ⟨_, (mem_followedBy _ _ _).mpr ⟨once, onceMember, again, againMember, rfl⟩, rfl⟩
  | @absent inner place =>
    rw [ways_optional]
    exact ⟨⟨place, []⟩, List.mem_append_right _ (List.mem_singleton_self _), rfl⟩
  | present _ found =>
    obtain ⟨way, member, same⟩ := found
    rw [ways_optional]
    exact ⟨way, List.mem_append_left _ member, same⟩
  | capture _ found =>
    obtain ⟨way, member, rfl⟩ := found
    exact ⟨_, List.mem_map_of_mem member, rfl⟩

/-- A pattern accepts a text if and only if one of its ways leads through the whole text. -/
theorem accepts_iff_firstWay? (pattern : Pattern) (text : List Char) :
    pattern.Accepts text ↔ (pattern.firstWay? text).isSome = true := by
  rw [firstWay?, List.find?_isSome]
  constructor
  · rintro ⟨stop, derived, done⟩
    obtain ⟨way, member, rfl⟩ := exists_way_of_matches derived
    exact ⟨way, member, by simp [done]⟩
  · rintro ⟨way, member, done⟩
    exact ⟨way.stop, matches_of_mem_ways pattern _ way member, List.isEmpty_iff.mp done⟩

end Pattern

/-- The capture is the extent of a piece of the letters, which begin at the position. -/
def Capture.Covers (capture : Capture) (position : Nat) (letters : List Char) : Prop :=
  ∃ before within behind, letters = before ++ (within ++ behind) ∧
    capture.start = position + width before ∧ capture.stop = capture.start + width within

/-- Every capture of a way is the extent of a piece of the text that the way leads through. -/
theorem Pattern.captures_covered (pattern : Pattern) :
    Way.Always (fun place way => ∃ letters, place.Leads letters way.stop ∧
      ∀ capture ∈ way.captures, capture.Covers place.position letters) pattern.ways := by
  refine pattern.always_ways (fun place => ?_) (fun admits place next found => ?_)
    (fun place first second left right => ?_) fun name place way body => ?_
  · exact ⟨[], .refl place, fun capture member => absurd member List.not_mem_nil⟩
  · obtain ⟨letter, _, leads⟩ := leads_of_after? found
    exact ⟨[letter], leads, fun capture member => absurd member List.not_mem_nil⟩
  · obtain ⟨letters, leads, covered⟩ := left
    obtain ⟨others, onward, further⟩ := right
    refine ⟨letters ++ others, leads.trans onward, fun capture member => ?_⟩
    rcases List.mem_append.mp member with early | late
    · obtain ⟨before, within, behind, rfl, start, stop⟩ := covered capture early
      exact ⟨before, within, behind ++ others, by simp, start, stop⟩
    · obtain ⟨before, within, behind, rfl, start, stop⟩ := further capture late
      refine ⟨letters ++ before, within, behind, by simp, ?_, stop⟩
      rw [start, leads.position, width_append, Nat.add_assoc]
  · obtain ⟨letters, leads, covered⟩ := body
    refine ⟨letters, leads, fun capture member => ?_⟩
    rcases List.mem_append.mp member with inner | own
    · exact covered capture inner
    · rw [List.mem_singleton.mp own]
      exact ⟨[], letters, [], by simp, rfl, leads.position⟩

end TreeSelect
