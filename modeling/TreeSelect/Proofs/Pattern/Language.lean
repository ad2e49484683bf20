import TreeSelect.Capture
import TreeSelect.Pattern

/-! What patterns mean, said without the machine: the language of a pattern as a relation between
places of a text, and the ordered ways in which it can match from a place, each with the captures
it makes. The two agree on where a match can end. -/

namespace TreeSelect

/-- A byte position of a text with the letters from there on. -/
structure Place where
  position : Nat
  rest : List Char
  deriving DecidableEq, Repr

namespace Place

def start (text : List Char) : Place := ⟨0, text⟩

/-- The place behind the next letter, if there is one that the condition admits. -/
def after? (admits : Char → Bool) (place : Place) : Option Place :=
  match place.rest with
  | [] => none
  | letter :: rest =>
      if admits letter then some ⟨place.position + letter.utf8Size, rest⟩ else none

/-- The letters between two places of one text, the second of them behind the first. -/
structure Leads (front : Place) (letters : List Char) (back : Place) : Prop where
  rest : front.rest = letters ++ back.rest
  position : back.position = front.position + Text.width letters

theorem Leads.refl (place : Place) : Leads place [] place := ⟨rfl, by simp⟩

theorem Leads.trans {front middle back : Place} {letters others : List Char}
    (first : Leads front letters middle) (second : Leads middle others back) :
    Leads front (letters ++ others) back := by
  constructor
  · rw [first.rest, second.rest, List.append_assoc]
  · rw [second.position, first.position, Text.width_append, Nat.add_assoc]

theorem Leads.length {front back : Place} {letters : List Char}
    (leads : Leads front letters back) : front.rest.length = letters.length + back.rest.length := by
  rw [leads.rest, List.length_append]

/-- Only the empty text has no width, so a place is told by its position. -/
theorem Leads.eq_of_position {front back : Place} {letters : List Char}
    (leads : Leads front letters back) (same : back.position = front.position) : back = front := by
  have narrow : Text.width letters = 0 := by
    have sum := leads.position
    omega
  cases letters with
  | nil =>
    rcases front with ⟨position, rest⟩
    rcases back with ⟨other, remaining⟩
    have equal := leads.rest
    simp only [List.nil_append] at equal same
    rw [equal, same]
  | cons letter further =>
    have positive := Text.utf8Size_pos letter
    simp only [Text.width] at narrow
    omega

theorem leads_of_after? {admits : Char → Bool} {place next : Place}
    (found : place.after? admits = some next) :
    ∃ letter, admits letter = true ∧ Leads place [letter] next := by
  rcases place with ⟨position, rest⟩
  cases rest with
  | nil => cases found
  | cons letter rest =>
    simp only [after?] at found
    split at found
    next admitted =>
      cases found
      exact ⟨letter, admitted, rfl, by simp [Text.width]⟩
    next => cases found

end Place

namespace Pattern

/-- The pattern matches the text between two places. A repeated pattern may match nothing in any of
its iterations. A choice without alternatives, which no pattern text has, matches nothing but the
empty text. -/
inductive Matches : Pattern → Place → Place → Prop where
  | empty {place} : Matches .empty place place
  | char {letter place next} (found : place.after? (· == letter) = some next) :
      Matches (.char letter) place next
  | oneOf {set place next} (found : place.after? set.contains = some next) :
      Matches (.oneOf set) place next
  | anyChar {place next} (found : place.after? (fun _ => true) = some next) :
      Matches .anyChar place next
  | atStart {place} (start : place.position = 0) : Matches .atStart place place
  | atEnd {place} (stop : place.rest = []) : Matches .atEnd place place
  | sequenceDone {place} : Matches (.sequence []) place place
  | sequenceMore {first rest front middle back} (left : Matches first front middle)
      (right : Matches (.sequence rest) middle back) : Matches (.sequence (first :: rest)) front back
  | choice {alternatives alternative front back} (offered : alternative ∈ alternatives)
      (found : Matches alternative front back) : Matches (.choice alternatives) front back
  | choiceNone {place} : Matches (.choice []) place place
  | starDone {inner place} : Matches (.repeated inner .star) place place
  | starMore {inner front middle back} (once : Matches inner front middle)
      (again : Matches (.repeated inner .star) middle back) :
      Matches (.repeated inner .star) front back
  | plus {inner front middle back} (once : Matches inner front middle)
      (again : Matches (.repeated inner .star) middle back) :
      Matches (.repeated inner .plus) front back
  | absent {inner place} : Matches (.repeated inner .optional) place place
  | present {inner front back} (once : Matches inner front back) :
      Matches (.repeated inner .optional) front back
  | capture {name inner front back} (body : Matches inner front back) :
      Matches (.capture name inner) front back

/-- Another alternative in front takes nothing away. -/
theorem Matches.later {preferred other : Pattern} {further : List Pattern} {front back : Place}
    (matched : Matches (.choice (other :: further)) front back) :
    Matches (.choice (preferred :: other :: further)) front back := by
  cases matched with
  | choice offered found => exact .choice (List.mem_cons_of_mem _ offered) found

/-- The whole text belongs to the language of the pattern. -/
def Accepts (pattern : Pattern) (text : List Char) : Prop :=
  ∃ stop, pattern.Matches (.start text) stop ∧ stop.rest = []

end Pattern

/-- A way to match: where it ends, and its captures in the order in which they were closed. -/
structure Way where
  stop : Place
  captures : List Capture
  deriving DecidableEq, Repr

namespace Way

/-- Continues each of the ways from where it ends, keeping the order. -/
def followedBy (ways : List Way) (next : Place → List Way) : List Way :=
  ways.flatMap fun way =>
    (next way.stop).map fun further => ⟨further.stop, way.captures ++ further.captures⟩

/-- The given number of copies, one after another. -/
def copies (inner : Place → List Way) : (count : Nat) → Place → List Way
  | 0, place => [⟨place, []⟩]
  | count + 1, place => followedBy (inner place) (copies inner count)

/-- Up to the given number of copies. To go on is tried before to stop. -/
def upTo (inner : Place → List Way) : (count : Nat) → Place → List Way
  | 0, place => [⟨place, []⟩]
  | count + 1, place => followedBy (inner place) (upTo inner count) ++ [⟨place, []⟩]

/-- Any number of copies that each consume something. To go on is tried before to stop. As every
round takes a letter, `rounds` need not exceed the number of letters that are left. -/
def greedy (inner : Place → List Way) : (rounds : Nat) → Place → List Way
  | 0, place => [⟨place, []⟩]
  | rounds + 1, place =>
      followedBy ((inner place).filter fun way => decide (way.stop ≠ place)) (greedy inner rounds) ++
        [⟨place, []⟩]

theorem mem_followedBy (ways : List Way) (next : Place → List Way) (way : Way) :
    way ∈ followedBy ways next ↔
      ∃ first ∈ ways, ∃ second ∈ next first.stop,
        way = ⟨second.stop, first.captures ++ second.captures⟩ := by
  simp only [followedBy, List.mem_flatMap, List.mem_map, eq_comm]

@[simp] theorem followedBy_nil (next : Place → List Way) : followedBy [] next = [] := rfl

theorem followedBy_cons (way : Way) (ways : List Way) (next : Place → List Way) :
    followedBy (way :: ways) next =
      (next way.stop).map (fun further => ⟨further.stop, way.captures ++ further.captures⟩) ++
        followedBy ways next := rfl

theorem followedBy_append (first second : List Way) (next : Place → List Way) :
    followedBy (first ++ second) next = followedBy first next ++ followedBy second next :=
  List.flatMap_append

theorem followedBy_assoc (ways : List Way) (inner next : Place → List Way) :
    followedBy (followedBy ways inner) next =
      followedBy ways fun place => followedBy (inner place) next := by
  induction ways with
  | nil => rfl
  | cons way ways ih =>
    rw [followedBy_cons, followedBy_append, ih, followedBy_cons]
    simp [followedBy, List.flatMap_map, List.map_flatMap, Function.comp_def]

/-- A way that neither moves nor captures adds nothing. -/
theorem followedBy_still (place : Place) (next : Place → List Way) :
    followedBy [⟨place, []⟩] next = next place := by
  simp [followedBy]

/-- Nor does it add anything behind the others. -/
theorem followedBy_stop (ways : List Way) : (followedBy ways fun place => [⟨place, []⟩]) = ways := by
  simp [followedBy]

theorem followedBy_congr (ways : List Way) (next other : Place → List Way)
    (same : ∀ way ∈ ways, next way.stop = other way.stop) :
    followedBy ways next = followedBy ways other := by
  induction ways with
  | nil => rfl
  | cons way ways ih =>
    rw [followedBy_cons, followedBy_cons, same way (List.mem_cons_self ..),
      ih fun later member => same later (List.mem_cons_of_mem _ member)]

end Way

/-- The copies that are always made. -/
def Quantifier.least : Quantifier → Nat
  | .star | .optional => 0
  | .plus => 1

/-- The copies that may be made at most, where there is a limit. -/
def Quantifier.most? : Quantifier → Option Nat
  | .star | .plus => none
  | .optional => some 1

namespace Pattern
open Way

mutual

/-- The ways in which the pattern matches from a place, the preferred ones first. -/
def ways : Pattern → Place → List Way
  | .empty, place => [⟨place, []⟩]
  | .char letter, place => (place.after? (· == letter)).toList.map (⟨·, []⟩)
  | .oneOf set, place => (place.after? set.contains).toList.map (⟨·, []⟩)
  | .anyChar, place => (place.after? fun _ => true).toList.map (⟨·, []⟩)
  | .atStart, place => if place.position = 0 then [⟨place, []⟩] else []
  | .atEnd, place => if place.rest = [] then [⟨place, []⟩] else []
  | .sequence items, place => sequenceWays items place
  | .choice alternatives, place => choiceWays alternatives place
  | .repeated inner quantifier, place =>
      followedBy (copies inner.ways quantifier.least place) fun place =>
        match quantifier.most? with
        | none => greedy inner.ways place.rest.length place
        | some most => upTo inner.ways (most - quantifier.least) place
  | .capture name inner, place =>
      (inner.ways place).map fun way =>
        ⟨way.stop, way.captures ++ [⟨name, place.position, way.stop.position⟩]⟩

def sequenceWays : List Pattern → Place → List Way
  | [], place => [⟨place, []⟩]
  | first :: rest, place => followedBy (first.ways place) (sequenceWays rest)

/-- The ways of the alternatives, one after the other. Without alternatives nothing is consumed. -/
def choiceWays : List Pattern → Place → List Way
  | [], place => [⟨place, []⟩]
  | [last], place => last.ways place
  | preferred :: other :: further, place =>
      preferred.ways place ++ choiceWays (other :: further) place

end

theorem ways_sequence_cons (first : Pattern) (rest : List Pattern) (place : Place) :
    (sequence (first :: rest)).ways place =
      followedBy (first.ways place) (sequence rest).ways := rfl

theorem ways_sequence_last (last : Pattern) (place : Place) :
    (sequence [last]).ways place = last.ways place := followedBy_stop (last.ways place)

theorem ways_choice_cons (preferred other : Pattern) (further : List Pattern) (place : Place) :
    (choice (preferred :: other :: further)).ways place =
      preferred.ways place ++ (choice (other :: further)).ways place := rfl

/-- The preferred way to match a whole text. -/
def firstWay? (pattern : Pattern) (text : List Char) : Option Way :=
  (pattern.ways (.start text)).find? fun way => way.stop.rest.isEmpty

end Pattern
end TreeSelect
