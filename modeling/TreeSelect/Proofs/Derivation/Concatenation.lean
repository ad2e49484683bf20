import TreeSelect.Proofs.Derivation.Commas
import TreeSelect.Proofs.Derivation.Printing

/-! Groups joined by a comma. The joined text is read as the derivation of the first group with
that of the second one behind it, and the captures of the second one are moved as far. -/

namespace TreeSelect.Derivation
open TreeSelect.Text Pattern Way

/-- A way through a group leads to the end of the text. -/
theorem rest_of_body {place : Place} {way : Way} (member : way ∈ Rules.body.ways place) :
    way.stop.rest = [] := by
  obtain ⟨_, _, _, behindOpening, rfl⟩ := (mem_followedBy _ _ _).mp member
  obtain ⟨_, _, _, behindMore, rfl⟩ := (mem_followedBy _ _ _).mp behindOpening
  obtain ⟨last, _, stop, ending, rfl⟩ := (mem_followedBy _ _ _).mp behindMore
  have atEnd : stop ∈ (Pattern.sequence [.atEnd]).ways last.stop := ending
  rw [ways_sequence_last] at atEnd
  obtain ⟨done, same⟩ := mem_ways_if atEnd
  rw [same]
  exact done

theorem ways_opening (place : Place) :
    Rules.opening.ways place = followedBy (Rules.blanks.ways place) Rules.selector.ways :=
  followedBy_congr _ _ _ fun way _ => ways_sequence_last Rules.selector way.stop

/-- The captures of a whole text are those of the preferred way from its start. -/
theorem firstWay?_captures (text : List Char) :
    (Rules.group.firstWay? text).map Way.captures = Rules.body.captured? (.start text) := by
  have unanchored : Rules.group.ways (.start text) = Rules.body.ways (.start text) := by
    have group : Rules.group.ways (.start text) =
        followedBy [⟨.start text, []⟩] fun place =>
          followedBy (Rules.blanks.ways place) fun place =>
            followedBy (Rules.selector.ways place) Rules.ending.ways := rfl
    have body : Rules.body.ways (.start text) =
        followedBy (Rules.opening.ways (.start text)) Rules.ending.ways := rfl
    rw [group, followedBy_still, ← followedBy_assoc, body, ways_opening]
  have all : (Rules.body.ways (.start text)).find? (fun way => way.stop.rest.isEmpty) =
      (Rules.body.ways (.start text)).head? := by
    cases found : Rules.body.ways (.start text) with
    | nil => rfl
    | cons way ways =>
      have done : way.stop.rest = [] := rest_of_body (found ▸ List.mem_cons_self)
      rw [List.find?_cons_of_pos (by simp [done]), List.head?_cons]
  rw [firstWay?, unanchored, all, captured?]

theorem spread_append {Tree : Type} (text : Tree → List Char)
    (captures : Nat → Tree → List Capture) (start : Nat) (trees others : List Tree) :
    spread text captures start (trees ++ others) =
      spread text captures start trees ++
        spread text captures (start + width (trees.flatMap text)) others := by
  induction trees generalizing start with
  | nil => rfl
  | cons tree trees ih =>
    rw [List.cons_append, spread, spread, ih, List.append_assoc, List.flatMap_cons, width_append,
      Nat.add_assoc]

namespace Group

/-- Two groups with a comma between them. -/
def join (first second : Group) : Group where
  before := first.before
  first := first.first
  more := first.more ++ ⟨first.after, second.before, second.first⟩ :: second.more
  after := second.after

theorem text_join (first second : Group) :
    (first.join second).text = first.text ++ ',' :: second.text := by
  simp [join, text, Alternative.text]

theorem reading_join (first second : Group) :
    (first.join second).reading =
      ⟨first.reading.alternatives ++ second.reading.alternatives⟩ := by
  simp [join, reading]

theorem captures_join (first second : Group) :
    (first.join second).captures =
      first.captures ++ second.captures.map (Capture.shift (width first.text + 1)) := by
  let comma : Alternative := ⟨first.after, second.before, second.first⟩
  have one : ','.utf8Size = 1 := rfl
  have whole : width first.text = width first.before.text + (width first.first.text +
      (width (first.more.flatMap Alternative.text) + width first.after.text)) := by
    rw [text, width_append, width_append, width_append]
  have start : width first.before.text + width first.first.text +
      width (first.more.flatMap Alternative.text) + width first.after.text + 1 +
        width second.before.text = width second.before.text + (width first.text + 1) := by
    omega
  have behind : width first.before.text + width first.first.text +
      width (first.more.flatMap Alternative.text) + width comma.text =
        width second.before.text + width second.first.text + (width first.text + 1) := by
    simp only [comma, Alternative.text, width_append, width, one]
    omega
  calc (first.join second).captures
      = first.first.captures (width first.before.text) ++
          spread Alternative.text Alternative.captures
            (width first.before.text + width first.first.text)
            (first.more ++ comma :: second.more) := rfl
    _ = first.captures ++
          (second.first.captures (width second.before.text + (width first.text + 1)) ++
            spread Alternative.text Alternative.captures
              (width second.before.text + width second.first.text + (width first.text + 1))
              second.more) := by
        rw [spread_append, spread, behind, Alternative.captures, start, captures, List.append_assoc]
    _ = first.captures ++ second.captures.map (Capture.shift (width first.text + 1)) := by
        rw [shifts_selector, shifts_alternative.spread, ← List.map_append]
        rfl

end Group

/-- The derivation that a text is read as makes the captures of the preferred way. -/
theorem captured_of_read {text : String} {group : SelectorGroup}
    (read : SelectorGroup.read .selectors text = .ok group) :
    ∃ derived : Group, derived.text = text.toList ∧ derived.reading = group ∧
      Rules.body.captured? (.start text.toList) = some derived.captures := by
  obtain ⟨derived, way, same, means, first, captured, _⟩ := exists_way_of_read read
  refine ⟨derived, same, means, ?_⟩
  rw [← firstWay?_captures, first, Option.map_some, captured]

/-- The preferred way through two texts with a comma between them. -/
theorem captured_join {first second : Group}
    (left : Rules.body.captured? (.start first.text) = some first.captures)
    (right : Rules.body.captured? (.start second.text) = some second.captures) :
    Rules.body.captured? (.start (first.join second).text) =
      some (first.join second).captures := by
  have moved : Rules.body.captured? ((Place.start second.text).carry (width first.text + 1) []) =
      some (second.captures.map (Capture.shift (width first.text + 1))) := by
    rw [captured?_moved (movable_body _), right]
    rfl
  have later : Rules.body.captured? ⟨0 + width first.text + 1, second.text⟩ =
      some (second.captures.map (Capture.shift (width first.text + 1))) := by
    have same : (Place.start second.text).carry (width first.text + 1) [] =
        ⟨0 + width first.text + 1, second.text⟩ := by
      simp [Place.carry, Place.start]
    rwa [same] at moved
  have whole := continues_body (.start first.text) (scan_group first) _ later
  rw [left] at whole
  rw [Group.text_join, Group.captures_join]
  exact whole

/-- A text of two groups with a comma between them is read as the alternatives of the first and
then those of the second, unless the budget runs out. -/
theorem read_comma {first second : String} {group other : SelectorGroup}
    (left : SelectorGroup.read .selectors first = .ok group)
    (right : SelectorGroup.read .selectors second = .ok other)
    (decided : SelectorGroup.read .selectors (first ++ "," ++ second) ≠
      .error (.tooComplex (first ++ "," ++ second))) :
    SelectorGroup.read .selectors (first ++ "," ++ second) =
      .ok ⟨group.alternatives ++ other.alternatives⟩ := by
  obtain ⟨one, oneText, rfl, oneCaptured⟩ := captured_of_read left
  obtain ⟨two, twoText, rfl, twoCaptured⟩ := captured_of_read right
  have letters : (first ++ "," ++ second).toList = (one.join two).text := by
    rw [Group.text_join, oneText, twoText, String.toList_append, String.toList_append,
      List.append_assoc]
    rfl
  rw [ne_eq, read_tooComplex_iff, letters] at decided
  have captured := captured_join (oneText ▸ oneCaptured) (twoText ▸ twoCaptured)
  rw [← firstWay?_captures] at captured
  obtain ⟨way, found, same⟩ := Option.map_eq_some_iff.mp captured
  have read := Group.read_of_first found same decided
  rwa [← letters, String.ofList_toList, Group.reading_join] at read

end TreeSelect.Derivation
