import TreeSelect.Proofs.Derivation.Captures
import TreeSelect.Proofs.Pattern.Ways

/-! When a pattern has exactly the derivations of some kind: each of its ways is one of them, and
each of them is matched. One law for each way to put patterns together. -/

namespace TreeSelect
open TreeSelect.Text Place Way

namespace Derivation

/-- The ways of the pattern are derivations, with their texts and captures, and the text of every
derivation is matched. -/
structure Spells {Tree : Type} (pattern : Pattern) (text : Tree → List Char)
    (captures : Nat → Tree → List Capture) : Prop where
  sound : ∀ place, ∀ way ∈ pattern.ways place, ∃ tree,
    place.Leads (text tree) way.stop ∧ way.captures = captures place.position tree
  complete : ∀ tree place stop, place.Leads (text tree) stop → pattern.Matches place stop

end Derivation

/-- Between two places with letters of two texts lies a third place. -/
theorem Place.Leads.split {front back : Place} {letters others : List Char}
    (leads : front.Leads (letters ++ others) back) :
    ∃ middle, front.Leads letters middle ∧ middle.Leads others back := by
  refine ⟨⟨front.position + width letters, others ++ back.rest⟩, ⟨?_, rfl⟩, rfl, ?_⟩
  · rw [leads.rest, List.append_assoc]
  · rw [leads.position, width_append, Nat.add_assoc]

theorem Place.Leads.eq_of_nil {front back : Place} (leads : front.Leads [] back) : back = front :=
  leads.eq_of_position leads.position

theorem Place.after?_of_leads {front back : Place} {letter : Char} {admits : Char → Bool}
    (leads : front.Leads [letter] back) (admitted : admits letter = true) :
    front.after? admits = some back := by
  rcases front with ⟨position, rest⟩
  rcases back with ⟨other, remaining⟩
  have rest' : rest = letter :: remaining := leads.rest
  have position' : other = position + letter.utf8Size := by
    simpa [width] using leads.position
  subst rest' position'
  simp [after?, admitted]

namespace Derivation.Spells
variable {Tree Other : Type} {pattern other : Pattern} {text : Tree → List Char}
  {captures : Nat → Tree → List Capture} {otherText : Other → List Char}
  {otherCaptures : Nat → Other → List Capture}

/-- Derivations may be presented differently, if none is lost. -/
theorem present (spells : Spells pattern text captures) (view : Tree → Other)
    (onto : ∀ tree, ∃ original, view original = tree)
    (sameText : ∀ tree, otherText (view tree) = text tree)
    (sameCaptures : ∀ start tree, otherCaptures start (view tree) = captures start tree) :
    Spells pattern otherText otherCaptures := by
  constructor
  · intro place way member
    obtain ⟨tree, leads, captured⟩ := spells.sound place way member
    exact ⟨view tree, by rwa [sameText], by rwa [sameCaptures]⟩
  · intro tree place stop leads
    obtain ⟨original, rfl⟩ := onto tree
    exact spells.complete original place stop (by rwa [sameText] at leads)

theorem of_after? {instruction : Pattern} (admits : Char → Bool)
    (ways : ∀ place, instruction.ways place = (place.after? admits).toList.map (⟨·, []⟩))
    (derives : ∀ place next, place.after? admits = some next → instruction.Matches place next) :
    Spells instruction (fun letter : { letter : Char // admits letter = true } => [letter.val])
      (fun _ _ => []) := by
  constructor
  · intro place way member
    rw [ways] at member
    obtain ⟨found, captured⟩ := Pattern.mem_ways_after? member
    obtain ⟨letter, admitted, leads⟩ := leads_of_after? found
    exact ⟨⟨letter, admitted⟩, leads, captured⟩
  · intro letter place stop leads
    exact derives place stop (after?_of_leads leads letter.property)

theorem oneOf (set : CharClass) :
    Spells (.oneOf set) (fun letter : { letter : Char // set.contains letter = true } =>
      [letter.val]) (fun _ _ => []) :=
  of_after? set.contains (fun _ => rfl) fun _ _ found => .oneOf found

theorem anyChar : Spells .anyChar (fun letter : Char => [letter]) (fun _ _ => []) := by
  have any := of_after? (fun _ => true) (fun _ => rfl) fun _ _ found => .anyChar found
  exact any.present Subtype.val (fun letter => ⟨⟨letter, rfl⟩, rfl⟩) (fun _ => rfl) fun _ _ => rfl

theorem char (letter : Char) : Spells (.char letter) (fun _ : Unit => [letter]) (fun _ _ => []) := by
  have one := of_after? (· == letter) (fun _ => rfl) fun _ _ found => .char found
  exact one.present (fun _ => ()) (fun _ => ⟨⟨letter, beq_self_eq_true letter⟩, rfl⟩)
    (fun found => by rw [eq_of_beq found.property]) fun _ _ => rfl

/-- The ways through one pattern and then another. -/
theorem sound_followedBy (first : Spells pattern text captures)
    (second : Spells other otherText otherCaptures) (place : Place) :
    ∀ way ∈ followedBy (pattern.ways place) other.ways, ∃ pair : Tree × Other,
      place.Leads (text pair.1 ++ otherText pair.2) way.stop ∧
        way.captures = captures place.position pair.1 ++
          otherCaptures (place.position + width (text pair.1)) pair.2 := by
  intro way member
  obtain ⟨left, leftMember, right, rightMember, rfl⟩ := (mem_followedBy _ _ _).mp member
  obtain ⟨tree, leads, captured⟩ := first.sound place left leftMember
  obtain ⟨further, onward, more⟩ := second.sound left.stop right rightMember
  refine ⟨(tree, further), leads.trans onward, ?_⟩
  rw [captured, more, leads.position]

theorem cons {items : List Pattern} (first : Spells pattern text captures)
    (rest : Spells (.sequence items) otherText otherCaptures) :
    Spells (.sequence (pattern :: items))
      (fun pair : Tree × Other => text pair.1 ++ otherText pair.2)
      (fun start pair => captures start pair.1 ++
        otherCaptures (start + width (text pair.1)) pair.2) := by
  constructor
  · exact first.sound_followedBy rest
  · rintro ⟨tree, further⟩ place stop leads
    obtain ⟨middle, left, right⟩ := leads.split
    exact .sequenceMore (first.complete tree place middle left)
      (rest.complete further middle stop right)

/-- The last one of a sequence. -/
theorem last (spells : Spells pattern text captures) :
    Spells (.sequence [pattern]) text captures := by
  constructor
  · intro place way member
    rw [Pattern.ways_sequence_last] at member
    exact spells.sound place way member
  · exact fun tree place stop leads =>
      .sequenceMore (spells.complete tree place stop leads) .sequenceDone

theorem orElse {further : List Pattern} {next : Pattern} (first : Spells pattern text captures)
    (others : Spells (.choice (next :: further)) otherText otherCaptures) :
    Spells (.choice (pattern :: next :: further)) (Sum.elim text otherText)
      (fun start => Sum.elim (captures start) (otherCaptures start)) := by
  constructor
  · intro place way member
    rcases List.mem_append.mp member with left | right
    · obtain ⟨tree, found⟩ := first.sound place way left
      exact ⟨.inl tree, found⟩
    · obtain ⟨tree, found⟩ := others.sound place way right
      exact ⟨.inr tree, found⟩
  · rintro (tree | tree) place stop leads
    · exact .choice (List.mem_cons_self ..) (first.complete tree place stop leads)
    · exact (others.complete tree place stop leads).later

/-- The last alternative of a choice. -/
theorem otherwise (spells : Spells pattern text captures) :
    Spells (.choice [pattern]) text captures where
  sound := spells.sound
  complete tree place stop leads :=
    .choice (List.mem_singleton_self _) (spells.complete tree place stop leads)

theorem repeated (spells : Spells pattern text captures) :
    Spells (.repeated pattern .star) (fun trees : List Tree => trees.flatMap text)
      (spread text captures) := by
  constructor
  · intro place
    generalize left : place.rest.length = count
    induction count using Nat.strongRecOn generalizing place with
    | ind count ih =>
      intro way member
      rw [Pattern.ways_star_unroll] at member
      rcases List.mem_append.mp member with more | done
      · obtain ⟨once, onceMember, again, againMember, rfl⟩ := (mem_followedBy _ _ _).mp more
        have ⟨found, moves⟩ := List.mem_filter.mp onceMember
        obtain ⟨tree, leads, captured⟩ := spells.sound place once found
        have fewer := length_lt_of_moves leads (of_decide_eq_true moves)
        obtain ⟨trees, onward, others⟩ := ih _ (left ▸ fewer) once.stop rfl again againMember
        refine ⟨tree :: trees, leads.trans onward, ?_⟩
        rw [captured, others, leads.position]
        rfl
      · rw [List.mem_singleton.mp done]
        exact ⟨[], Leads.refl place, rfl⟩
  · intro trees
    induction trees with
    | nil =>
      intro place stop leads
      rw [leads.eq_of_nil]
      exact .starDone
    | cons tree trees ih =>
      intro place stop leads
      obtain ⟨middle, first, rest⟩ := leads.split
      exact .starMore (spells.complete tree place middle first) (ih middle stop rest)

theorem atLeastOnce (spells : Spells pattern text captures) :
    Spells (.repeated pattern .plus)
      (fun trees : Tree × List Tree => text trees.1 ++ trees.2.flatMap text)
      (fun start trees => captures start trees.1 ++
        spread text captures (start + width (text trees.1)) trees.2) := by
  constructor
  · intro place way member
    rw [Pattern.ways_plus] at member
    exact spells.sound_followedBy spells.repeated place way member
  · intro trees place stop leads
    obtain ⟨middle, first, rest⟩ := leads.split
    exact .plus (spells.complete trees.1 place middle first)
      (spells.repeated.complete trees.2 middle stop rest)

theorem maybe (spells : Spells pattern text captures) :
    Spells (.repeated pattern .optional) (fun tree : Option Tree => (tree.map text).getD [])
      (optional captures) := by
  constructor
  · intro place way member
    rw [Pattern.ways_optional] at member
    rcases List.mem_append.mp member with present | absent
    · obtain ⟨tree, leads, captured⟩ := spells.sound place way present
      exact ⟨some tree, leads, captured⟩
    · rw [List.mem_singleton.mp absent]
      exact ⟨none, Leads.refl place, rfl⟩
  · intro tree place stop leads
    cases tree with
    | none =>
      rw [leads.eq_of_nil]
      exact .absent
    | some tree => exact .present (spells.complete tree place stop leads)

theorem capture (spells : Spells pattern text captures) (rule : String) :
    Spells (.capture rule pattern) text
      (fun start tree => closing rule start (text tree) (captures start tree)) := by
  constructor
  · intro place way member
    obtain ⟨body, found, rfl⟩ := List.mem_map.mp member
    obtain ⟨tree, leads, captured⟩ := spells.sound place body found
    refine ⟨tree, leads, ?_⟩
    rw [captured, leads.position, closing]
  · intro tree place stop leads
    exact .capture (spells.complete tree place stop leads)

end Derivation.Spells
end TreeSelect
