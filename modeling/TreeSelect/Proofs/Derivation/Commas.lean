import TreeSelect.Proofs.Derivation.GroupReading
import TreeSelect.Proofs.Derivation.Nesting
import TreeSelect.Proofs.Derivation.Offsets

/-! A comma between two groups. The search through the text of the first group goes as if that
text stood alone, up to its end; there the comma is the one between two alternatives, and behind it
the search goes as through the text of the second group. -/

namespace TreeSelect.Derivation
open TreeSelect.Text Pattern Way Nest

namespace Rules

/-- The first selector of a group with the blanks in front of it. -/
def opening : Pattern := .sequence [blanks, selector]

/-- What is left of a group when no further alternative follows. -/
def closed : Pattern := .sequence [blanks, .atEnd]

/-- What is left of a group behind one of its selectors. -/
def ending : Pattern := .sequence [.repeated alternative .star, blanks, .atEnd]

/-- What is left of a group in front of one of its commas. -/
def further : Pattern := .sequence [alternative, .repeated alternative .star, blanks, .atEnd]

/-- An alternative without the blanks in front of its comma. -/
def comma : Pattern := .sequence [.char ',', blanks, selector]

/-- A group, wherever its text stands. -/
def body : Pattern := .sequence [opening, .repeated alternative .star, blanks, .atEnd]

end Rules

theorem movable_opening (distance : Nat) (behind : List Char) :
    Rules.opening.Movable distance behind := by
  simp [Rules.opening, Rules.blanks, Rules.selector, Rules.sequence, Rules.head, Rules.condition,
    Rules.brackets, Rules.test, Rules.operator, Rules.value, Rules.name, Rules.quoted,
    Rules.quotedBy, Rules.quotedItem, Rules.arguments, Rules.argument, Rules.joint, Rules.element,
    sequenceOf, choiceOf, Movable, AllMovable]

theorem movable_body (distance : Nat) : Rules.body.Movable distance [] := by
  have opening := movable_opening distance []
  have blanks : Rules.blanks.Movable distance [] := opening.1
  exact ⟨opening, ⟨blanks, trivial, opening⟩, blanks, rfl, trivial⟩

theorem spells_opening :
    Spells Rules.opening (fun pair : Blanks × Selector => pair.1.text ++ pair.2.text)
      (fun start pair => pair.2.captures (start + width pair.1.text)) :=
  (spells_blanks.cons spells_selector.last).present id (fun pair => ⟨pair, rfl⟩) (fun _ => rfl)
    fun _ _ => rfl

/-- Blanks are passed over as a whole, if nothing goes on in front of a blank. -/
theorem followedBy_blanks {next : Place → List Way}
    (fails : ∀ position letter rest, isBlank letter = true → next ⟨position, letter :: rest⟩ = [])
    {rest : List Char} (barred : Bars isBlank rest) (blanks : List Char)
    (admitted : ∀ letter ∈ blanks, isBlank letter = true) (position : Nat) :
    followedBy (Rules.blanks.ways ⟨position, blanks ++ rest⟩) next =
      next ⟨position + width blanks, rest⟩ := by
  induction blanks generalizing position with
  | nil =>
    have done : (Pattern.oneOf ⟨false, [.blank]⟩).ways ⟨position, rest⟩ = [] := by
      cases rest with
      | nil => rfl
      | cons letter rest =>
        have excluded := (bars_cons isBlank letter rest).mp barred
        simp [ways, Place.after?, contains_blank, excluded]
    rw [List.nil_append, Rules.blanks, ways_star_unroll, done]
    exact followedBy_still ⟨position, rest⟩ next
  | cons letter blanks ih =>
    obtain ⟨blank, others⟩ := List.forall_mem_cons.mp admitted
    have one : (Pattern.oneOf ⟨false, [.blank]⟩).ways ⟨position, letter :: (blanks ++ rest)⟩ =
        [⟨⟨position + letter.utf8Size, blanks ++ rest⟩, []⟩] := by
      simp [ways, Place.after?, contains_blank, blank]
    have moves : ((Pattern.oneOf ⟨false, [.blank]⟩).ways
        ⟨position, letter :: (blanks ++ rest)⟩).filter (fun way =>
          decide (way.stop ≠ ⟨position, letter :: (blanks ++ rest)⟩)) =
        [⟨⟨position + letter.utf8Size, blanks ++ rest⟩, []⟩] := by
      rw [one]
      simp
    rw [List.cons_append, Rules.blanks, ways_star_unroll, moves, followedBy_still,
      followedBy_append, followedBy_still, fails _ _ _ blank, List.append_nil, width,
      ← Nat.add_assoc]
    exact ih others _

/-- A text of blanks, or the first letter behind its blanks. -/
theorem blanks_or_letter (text : List Char) :
    (∃ blanks : Blanks, text = blanks.text) ∨
      ∃ (blanks : Blanks) (letter : Char) (rest : List Char),
        text = blanks.text ++ letter :: rest ∧ isBlank letter = false := by
  induction text with
  | nil => exact .inl ⟨⟨[], List.forall_mem_nil _⟩, rfl⟩
  | cons letter text ih =>
    cases blank : isBlank letter with
    | false => exact .inr ⟨⟨[], List.forall_mem_nil _⟩, letter, text, rfl, blank⟩
    | true =>
      rcases ih with ⟨blanks, same⟩ | ⟨blanks, other, rest, same, solid⟩
      · exact .inl ⟨⟨letter :: blanks.text, List.forall_mem_cons.mpr ⟨blank, blanks.admitted⟩⟩,
          congrArg _ same⟩
      · exact .inr ⟨⟨letter :: blanks.text, List.forall_mem_cons.mpr ⟨blank, blanks.admitted⟩⟩,
          other, rest, congrArg _ same, solid⟩

/-- Nothing is left of a group behind a last selector, or the text does not end there. -/
theorem ways_closed (blanks : Blanks) {rest : List Char} (barred : Bars isBlank rest)
    (position : Nat) :
    Rules.closed.ways ⟨position, blanks.text ++ rest⟩ =
      if rest = [] then [⟨⟨position + width blanks.text, rest⟩, []⟩] else [] := by
  rw [Rules.closed, ways_sequence_cons,
    followedBy_blanks (fun _ _ _ _ => rfl) barred blanks.text blanks.admitted, ways_sequence_last]
  rfl

/-- A further alternative begins with a comma behind blanks. -/
theorem ways_alternative (blanks : Blanks) {rest : List Char} (barred : Bars isBlank rest)
    (position : Nat) :
    Rules.alternative.ways ⟨position, blanks.text ++ rest⟩ =
      Rules.comma.ways ⟨position + width blanks.text, rest⟩ := by
  have fails : ∀ start letter rest, isBlank letter = true →
      Rules.comma.ways ⟨start, letter :: rest⟩ = [] := by
    intro start letter rest blank
    have other : letter ≠ ',' := by
      intro same
      rw [same] at blank
      exact absurd blank (by decide)
    simp [Rules.comma, ways, sequenceWays, Place.after?, other]
  exact followedBy_blanks fails barred blanks.text blanks.admitted position

/-- Behind a selector a group goes on with a further alternative, or it is closed. -/
theorem ways_ending (place : Place) :
    Rules.ending.ways place =
      Rules.further.ways place ++ Rules.closed.ways place := by
  have moves : (Rules.alternative.ways place).filter (fun way => decide (way.stop ≠ place)) =
      Rules.alternative.ways place := by
    refine List.filter_eq_self.mpr fun way member => decide_eq_true fun still => ?_
    obtain ⟨alternative, leads, _⟩ := spells_alternative.sound place way member
    have sum := leads.length
    rw [still] at sum
    have long : alternative.text ≠ [] := by simp [Alternative.text]
    exact long (List.length_eq_zero_iff.mp (by omega))
  have once : Rules.ending.ways place =
      followedBy ((Pattern.repeated Rules.alternative .star).ways place) Rules.closed.ways := rfl
  rw [once, ways_star_unroll, moves, followedBy_append, followedBy_still, followedBy_assoc]
  rfl

theorem captured_ending (place : Place) :
    Rules.ending.captured? place =
      (Rules.further.captured? place).or (Rules.closed.captured? place) := by
  rw [captured?, ways_ending, List.head?_append, Option.map_or]
  rfl

theorem captured_ending_blanks (blanks : Blanks) (position : Nat) :
    Rules.ending.captured? ⟨position, blanks.text⟩ = some [] := by
  have alternatives := ways_alternative blanks (bars_nil isBlank) position
  have closed := ways_closed blanks (bars_nil isBlank) position
  rw [List.append_nil] at alternatives closed
  have none : Rules.further.captured? ⟨position, blanks.text⟩ = none := by
    rw [Rules.further, captured?_sequence_cons, alternatives]
    rfl
  rw [captured_ending, none, captured?, closed]
  rfl

/-- Where more than blanks is left, a group goes on with a further alternative or not at all. -/
theorem captured_ending_letter (blanks : Blanks) (position : Nat) {letter : Char}
    (solid : isBlank letter = false) (rest : List Char) :
    Rules.ending.captured? ⟨position, blanks.text ++ letter :: rest⟩ =
      (Rules.comma.ways ⟨position + width blanks.text, letter :: rest⟩).findSome? fun way =>
        (Rules.ending.captured? way.stop).map (way.captures ++ ·) := by
  have barred : Bars isBlank (letter :: rest) := (bars_cons _ _ _).mpr solid
  have closed : Rules.closed.captured? ⟨position, blanks.text ++ letter :: rest⟩ = none := by
    rw [captured?, ways_closed blanks barred]
    rfl
  rw [captured_ending, closed, Option.or_none, Rules.further, captured?_sequence_cons,
    ways_alternative blanks barred, Rules.ending]

/-- Behind a comma stands a group again. -/
theorem captured_ending_comma (blanks : Blanks) (position : Nat) (rest : List Char) :
    Rules.ending.captured? ⟨position, blanks.text ++ ',' :: rest⟩ =
      Rules.body.captured? ⟨position + width blanks.text + 1, rest⟩ := by
  have comma : Rules.comma.ways ⟨position + width blanks.text, ',' :: rest⟩ =
      Rules.opening.ways ⟨position + width blanks.text + 1, rest⟩ :=
    followedBy_still ⟨position + width blanks.text + 1, rest⟩ Rules.opening.ways
  rw [captured_ending_letter blanks position (by decide), comma, Rules.body, captured?_sequence_cons,
    Rules.ending]

theorem captured_ending_other (blanks : Blanks) (position : Nat) {letter : Char}
    (solid : isBlank letter = false) (other : letter ≠ ',') (rest : List Char) :
    Rules.ending.captured? ⟨position, blanks.text ++ letter :: rest⟩ = none := by
  have stuck : Rules.comma.ways ⟨position + width blanks.text, letter :: rest⟩ = [] := by
    simp [Rules.comma, ways, sequenceWays, Place.after?, other]
  rw [captured_ending_letter blanks position solid, stuck]
  rfl

theorem passes_opening (blanks : Blanks) (selector : Selector) :
    outside.Passes (blanks.text ++ selector.text) .outside :=
  (passes_ordinary blanks.ordinary).1.append (passes_selector selector)

/-- A selector does not reach over a comma behind a text in which nothing is left open. -/
theorem opening_stays {place : Place} (shut : outside.scan place.rest = .outside)
    (behind : List Char) :
    ∀ way ∈ Rules.opening.ways (place.carry 0 (',' :: behind)),
      way.stays (',' :: behind) = true := by
  intro way member
  obtain ⟨⟨blanks, selector⟩, leads, _⟩ := spells_opening.sound _ way member
  have passes := passes_opening blanks selector
  have same : place.rest ++ ',' :: behind = (blanks.text ++ selector.text) ++ way.stop.rest :=
    leads.rest
  apply decide_eq_true
  rcases List.append_eq_append_iff.mp same with ⟨more, text, rest⟩ | ⟨more, _, rest⟩
  · cases more with
    | nil =>
      rw [List.nil_append] at rest
      exact Nat.le_of_eq (congrArg List.length rest)
    | cons letter more =>
      obtain ⟨rfl, _⟩ := List.cons.inj rest
      rw [text] at passes
      exact absurd shut passes.comma
  · rw [rest, List.length_append]
    exact Nat.le_add_left ..

/-- The search goes from the place to the end of the text as if the comma and what stands behind
it were not there, and then through that as through a group. -/
def Continues (pattern : Pattern) (behind : List Char) (place : Place) : Prop :=
  ∀ further,
    Rules.body.captured? ⟨place.position + width place.rest + 1, behind⟩ = some further →
      pattern.captured? (place.carry 0 (',' :: behind)) =
        (pattern.captured? place).map (· ++ further)

/-- Behind a selector the search goes on behind the next comma, be it one of the text or the one at
its end. -/
theorem continues_ending {behind : List Char} {place : Place}
    (shut : outside.scan place.rest = .outside)
    (body : ∀ later : Place, later.rest.length < place.rest.length →
      outside.scan later.rest = .outside → Continues Rules.body behind later) :
    Continues Rules.ending behind place := by
  intro further later
  obtain ⟨position, rest⟩ := place
  show Rules.ending.captured? ⟨position, rest ++ ',' :: behind⟩ =
    (Rules.ending.captured? ⟨position, rest⟩).map (· ++ further)
  rcases blanks_or_letter rest with ⟨blanks, rfl⟩ | ⟨blanks, letter, more, rfl, solid⟩
  · rw [captured_ending_comma, captured_ending_blanks, later]
    rfl
  · rw [List.append_assoc, List.cons_append]
    by_cases comma : letter = ','
    · subst comma
      have still : outside.scan more = .outside := by
        rw [scan_append, (passes_ordinary blanks.ordinary).1.scan] at shut
        exact shut
      have total : position + width (blanks.text ++ ',' :: more) + 1 =
          position + width blanks.text + 1 + width more + 1 := by
        have one : ','.utf8Size = 1 := rfl
        rw [width_append, width, one]
        omega
      rw [total] at later
      rw [captured_ending_comma, captured_ending_comma]
      exact body ⟨position + width blanks.text + 1, more⟩ (by simp; omega) still further later
    · rw [captured_ending_other blanks position solid comma,
        captured_ending_other blanks position solid comma]
      rfl

/-- No selector reaches over the comma, if nothing is left open before it. -/
theorem continues_body {behind : List Char} (place : Place)
    (shut : outside.scan place.rest = .outside) : Continues Rules.body behind place := by
  -- by induction on the letters that are left, from one comma to the next
  generalize left : place.rest.length = count
  induction count using Nat.strongRecOn generalizing place with
  | ind count ih =>
    intro further later
    apply captured?_behind (movable_opening 0 _) (opening_stays shut behind)
    intro way member
    obtain ⟨⟨before, selector⟩, leads, _⟩ := spells_opening.sound place way member
    have text : place.rest = (before.text ++ selector.text) ++ way.stop.rest := leads.rest
    have still : outside.scan way.stop.rest = .outside := by
      rw [text, scan_append, (passes_opening before selector).scan] at shut
      exact shut
    have last : place.position + width place.rest + 1 =
        way.stop.position + width way.stop.rest + 1 := by
      have start : way.stop.position =
          place.position + width (before.text ++ selector.text) := leads.position
      rw [text, width_append, start]
      omega
    have fewer : way.stop.rest.length ≤ count := by
      have sum := leads.length
      omega
    apply continues_ending still _ further (last ▸ later)
    intro next less shutNext
    exact ih next.rest.length (Nat.lt_of_lt_of_le less fewer) next shutNext rfl

end TreeSelect.Derivation
