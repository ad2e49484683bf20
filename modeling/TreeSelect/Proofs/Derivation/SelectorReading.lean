import TreeSelect.Proofs.Derivation.ConditionReading

/-! Selectors read from the sorted captures of a whole text: the conditions of each sequence, the
combinators between sequences, and the pseudo-element behind them. -/

namespace TreeSelect.Derivation
open TreeSelect.Text Capture Placed

variable {matched : MatchedText} {start : Nat}

/-- The capture of a rule that is read as a condition. -/
def isCondition (capture : Capture) : Bool :=
  decide (capture.rule ∈ [Rule.typeSelector, Rule.universalSelector, Rule.idSelector,
    Rule.attributeSelector, Rule.pseudoSelector])

theorem not_isCondition {rules : List String}
    (absent : ∀ rule ∈ rules, rule ∉ [Rule.typeSelector, Rule.universalSelector, Rule.idSelector,
      Rule.attributeSelector, Rule.pseudoSelector]) (capture : Capture)
    (named : capture.rule ∈ rules) : isCondition capture = false :=
  decide_eq_false (absent capture.rule named)

/-- Captures of other rules are passed over. -/
theorem conditions_filter (matched : MatchedText) (captures : List Capture) :
    matched.conditions captures = matched.conditions (captures.filter isCondition) := by
  induction captures with
  | nil => rfl
  | cons capture rest ih =>
    cases kind : isCondition capture with
    | true => rw [List.filter_cons_of_pos kind, MatchedText.conditions, MatchedText.conditions, ih]
    | false =>
      have passed : matched.condition? capture = .ok none := by
        simp only [isCondition, List.mem_cons, List.not_mem_nil, or_false,
          decide_eq_false_iff_not, not_or] at kind
        simp [MatchedText.condition?, kind]
      rw [List.filter_cons_of_neg (by simp [kind]), MatchedText.conditions, passed, ih]
      cases matched.conditions (rest.filter isCondition) <;> rfl

theorem conditions_of_mapM {captures : List Capture} {readings : List SimpleSelector}
    (read : captures.mapM matched.condition? = .ok (readings.map some)) :
    matched.conditions captures = .ok readings := by
  induction captures generalizing readings with
  | nil =>
    cases readings with
    | nil => rfl
    | cons reading readings => cases read
  | cons capture captures ih =>
    rw [List.mapM_cons] at read
    cases first : matched.condition? capture with
    | error error => rw [first] at read; cases read
    | ok condition =>
      cases rest : captures.mapM matched.condition? with
      | error error => rw [first, rest] at read; cases read
      | ok conditions =>
        rw [first, rest] at read
        cases readings with
        | nil => cases read
        | cons reading readings =>
          have same : condition :: conditions = some reading :: readings.map some :=
            Except.ok.inj read
          obtain ⟨rfl, rfl⟩ := List.cons.inj same
          rw [MatchedText.conditions, first, ih rest]
          rfl

theorem Spans.filter {rules : List String} {stop : Nat} {captures : List Capture}
    (spans : Spans rules start stop captures) (keep : Capture → Bool) :
    Spans rules start stop (captures.filter keep) :=
  fun capture member => spans capture (List.mem_filter.mp member).1

/-- Within a condition, names, values and arguments are not conditions. -/
theorem Spans.filter_isCondition {rules : List String} {stop : Nat} {captures : List Capture}
    (spans : Spans rules start stop captures)
    (absent : ∀ rule ∈ rules, rule ∉ [Rule.typeSelector, Rule.universalSelector, Rule.idSelector,
      Rule.attributeSelector, Rule.pseudoSelector]) : captures.filter isCondition = [] :=
  spans.filter_nil (not_isCondition absent)

theorem Condition.filter_mark (start : Nat) (condition : Condition) :
    (condition.captures start).filter isCondition = [condition.mark start] := by
  rw [Condition.captures, filter_closing rfl]
  rcases condition with brackets | name | ⟨name, arguments⟩
  · refine filter_own rfl ?_
    have test := spans_optional AttributeTest.spans (brackets.testStart start) brackets.test
    rw [List.filter_append, (brackets.name.spans _).filter_isCondition (by decide)]
    exact test.filter_isCondition (by decide)
  · exact filter_own rfl ((name.spans _).filter_isCondition (by decide))
  · refine filter_own rfl ?_
    have called := spans_optional Arguments.spans (start + 1 + width name.text) arguments
    rw [List.filter_append, (name.spans _).filter_isCondition (by decide)]
    exact called.filter_isCondition (by decide)

theorem Head.filter_mark (start : Nat) (head : Head) :
    (head.captures start).filter isCondition = [head.mark start] := by
  cases head with
  | type name => exact filter_own rfl ((name.spans _).filter_isCondition (by decide))
  | universal => exact filter_own rfl (List.filter_nil ..)

theorem filter_conditions (start : Nat) (conditions : List Condition) :
    (spread Condition.text Condition.captures start conditions).filter isCondition =
      spread Condition.text (fun start condition => [condition.mark start]) start conditions := by
  simp only [filter_spread, Condition.filter_mark]

theorem ordered_conditions (start : Nat) (conditions : List Condition) :
    ((spread Condition.text Condition.captures start conditions).filter isCondition).Pairwise
      NoLater := by
  rw [filter_spread]
  apply ordered_spread fun start condition => (condition.spans start).filter isCondition
  intro start condition
  rw [Condition.filter_mark]
  exact List.pairwise_singleton ..

namespace Sequence

theorem ordered_inner (start : Nat) (sequence : Sequence) :
    ((sequence.inner start).filter isCondition).Pairwise NoLater := by
  cases sequence with
  | headed head conditions =>
    rw [inner, List.filter_append]
    apply ((head.spans start).filter isCondition).ordered_append
      ((spans_conditions _ conditions).filter isCondition) _ (ordered_conditions _ conditions)
    rw [Head.filter_mark]
    exact List.pairwise_singleton ..
  | bare first more =>
    rw [inner, List.filter_append]
    apply ((first.spans start).filter isCondition).ordered_append
      ((spans_conditions _ more).filter isCondition) _ (ordered_conditions _ more)
    rw [Condition.filter_mark]
    exact List.pairwise_singleton ..

/-- Each condition is read from its own capture. -/
theorem mapM_inner {sequence : Sequence}
    (placed : Placed matched start sequence.text (sequence.inner start)
      (Rule.simpleSelectorSeq :: sequenceOuter)) :
    ((sequence.inner start).filter isCondition).mapM matched.condition? =
      .ok (sequence.reading.map some) := by
  cases sequence with
  | headed head conditions =>
    have first := Head.read (placed.left (spans_conditions _ conditions))
    have rest := mapM_spread Condition.spans (fun _ _ => Condition.read) _ conditions
      (placed.right (head.spans start))
    rw [inner, List.filter_append, Head.filter_mark, filter_conditions, List.singleton_append,
      List.mapM_cons, first, rest]
    rw [Sequence.reading, List.map_cons, List.map_map]
    rfl
  | bare initial more =>
    have first := Condition.read (placed.left (spans_conditions _ more))
    have rest := mapM_spread Condition.spans (fun _ _ => Condition.read) _ more
      (placed.right (initial.spans start))
    rw [inner, List.filter_append, Condition.filter_mark, filter_conditions,
      List.singleton_append, List.mapM_cons, first, rest]
    rw [Sequence.reading, List.map_cons, List.map_map]
    rfl

def mark (start : Nat) (sequence : Sequence) : Capture :=
  ⟨Rule.simpleSelectorSeq, start, start + width sequence.text⟩

theorem read {sequence : Sequence}
    (placed : Placed matched start sequence.text (sequence.captures start) sequenceOuter) :
    matched.compound (sequence.mark start) = .ok sequence.reading := by
  rw [captures_eq] at placed
  have inside := placed.inner
  have kept := inside.filter_within (sequence.spans_inner start) Rule.simpleSelectorSeq
    (not_isCondition (by decide))
  rw [sorted_of_ordered (sequence.ordered_inner start)] at kept
  have within : (Capture.within matched.captures (sequence.mark start)).filter isCondition =
      (sequence.inner start).filter isCondition := by
    rw [Capture.within, List.filter_filter, ← kept]
    apply List.filter_congr
    exact fun capture _ => Bool.and_comm ..
  rw [MatchedText.compound, conditions_filter, within]
  exact conditions_of_mapM (mapM_inner inside)

end Sequence

/-- A combinator letter is read as its token. -/
theorem Token.ofText?_letter (token : Token) :
    Combinator.ofText? [token.letter] = some token.reading := by
  rcases token with ⟨letter, valid⟩
  simp only [CharClass.contains, combinatorLetter, List.any_cons, List.any_nil, Bool.or_false,
    Bool.bne_false, Bool.or_eq_true, range_contains_iff] at valid
  rcases valid with blank | rfl | rfl | rfl
  · have whitespace : isBlank letter = true := blank
    rw [Token.reading_of_blank whitespace]
    simp [Combinator.ofText?, whitespace]
  · exact (by decide : Combinator.ofText? ['>'] = some .child)
  · exact (by decide : Combinator.ofText? ['+'] = some .nextSibling)
  · exact (by decide : Combinator.ofText? ['~'] = some .laterSibling)

namespace Joint

/-- Where the sequence of conditions behind a combinator begins. -/
def sequenceStart (start : Nat) (joint : Joint) : Nat :=
  start + width joint.before.text + width [joint.token.letter] + width joint.after.text

def mark (start : Nat) (joint : Joint) : Capture :=
  ⟨Rule.combinator, start + width joint.before.text,
    start + width joint.before.text + width [joint.token.letter]⟩

variable {joint : Joint}

theorem placed_inner
    (placed : Placed matched start joint.text (joint.captures start) [Rule.selector]) :
    Placed matched (start + width joint.before.text) [joint.token.letter]
        (closing Rule.combinator (start + width joint.before.text) [joint.token.letter] [])
        sequenceOuter ∧
      Placed matched (joint.sequenceStart start) joint.sequence.text
        (joint.sequence.captures (joint.sequenceStart start)) sequenceOuter := by
  have inside : Placed matched start (joint.before.text ++ ([joint.token.letter] ++
      (joint.after.text ++ joint.sequence.text))) _ sequenceOuter := placed.inner
  have token := joint.token.spans (start + width joint.before.text)
  have sequence := joint.sequence.spans (joint.sequenceStart start)
  exact ⟨inside.skip.left (sequence.weaken (Nat.le_add_right ..) (Nat.le_refl _)
    fun _ named => named), (inside.skip.right token).skip⟩

theorem read_sequence
    (placed : Placed matched start joint.text (joint.captures start) [Rule.selector]) :
    matched.compound (joint.sequence.mark (joint.sequenceStart start)) =
      .ok joint.sequence.reading :=
  Sequence.read (placed_inner placed).2

theorem read_token
    (placed : Placed matched start joint.text (joint.captures start) [Rule.selector]) :
    matched.combinator (joint.mark start) = .ok joint.token.reading := by
  have text : matched.textOf (joint.mark start) = [joint.token.letter] :=
    (placed_inner placed).1.textOf Rule.combinator
  rw [MatchedText.combinator, text, Token.ofText?_letter]

theorem filter_sequence (start : Nat) (joint : Joint) :
    (joint.captures start).filter (isOf Rule.simpleSelectorSeq) =
      [joint.sequence.mark (joint.sequenceStart start)] := by
  rw [Joint.captures, filter_closing rfl, List.filter_append, filter_closing rfl,
    Sequence.captures_eq]
  exact filter_own rfl ((joint.sequence.spans_inner _).filter_isOf (by decide))

theorem filter_token (start : Nat) (joint : Joint) :
    (joint.captures start).filter (isOf Rule.combinator) = [joint.mark start] := by
  rw [Joint.captures, filter_closing rfl, List.filter_append,
    (joint.sequence.spans _).filter_isOf (by decide), List.append_nil]
  exact filter_own rfl (List.filter_nil ..)

end Joint

theorem Sequence.filter_mark (start : Nat) (sequence : Sequence) :
    (sequence.captures start).filter (isOf Rule.simpleSelectorSeq) = [sequence.mark start] := by
  rw [Sequence.captures_eq]
  exact filter_own rfl ((sequence.spans_inner start).filter_isOf (by decide))

theorem filter_joints_sequence (start : Nat) (joints : List Joint) :
    (spread Joint.text Joint.captures start joints).filter (isOf Rule.simpleSelectorSeq) =
      spread Joint.text (fun start joint => [joint.sequence.mark (joint.sequenceStart start)])
        start joints := by
  simp only [filter_spread, Joint.filter_sequence]

theorem filter_joints_token (start : Nat) (joints : List Joint) :
    (spread Joint.text Joint.captures start joints).filter (isOf Rule.combinator) =
      spread Joint.text (fun start joint => [joint.mark start]) start joints := by
  simp only [filter_spread, Joint.filter_token]

/-- Captures of the joints that are found once in each of them come in the order of the joints. -/
theorem ordered_joints {keep : Capture → Bool} {mark : Nat → Joint → Capture}
    (single : ∀ start joint, (Joint.captures start joint).filter keep = [mark start joint])
    (start : Nat) (joints : List Joint) :
    ((spread Joint.text Joint.captures start joints).filter keep).Pairwise NoLater := by
  rw [filter_spread]
  apply ordered_spread fun start joint => (joint.spans start).filter keep
  intro start joint
  rw [single]
  exact List.pairwise_singleton ..

theorem filter_element (start : Nat) (name : Name) :
    (elementCaptures start name).filter (isOf Rule.pseudoElement) =
      [⟨Rule.pseudoElement, start, start + width (':' :: ':' :: name.text)⟩] :=
  filter_own rfl ((name.spans _).filter_isOf (by decide))

/-- The name behind two colons. -/
theorem read_element {name : Name}
    (placed : Placed matched start (':' :: ':' :: name.text) (elementCaptures start name)
      [Rule.selector]) :
    matched.identifier
        ⟨Rule.pseudoElement, start, start + width (':' :: ':' :: name.text)⟩ Rule.pseudoElement =
      .ok name.string := by
  have inside : Placed matched start ([':', ':'] ++ name.text) _ _ := placed.inner
  have found : (elementCaptures start name).filter (isOf Rule.identifier) =
      name.mark (start + 2) :: List.filter (isOf Rule.identifier) [] := by
    rw [elementCaptures, filter_closing rfl, Name.filter_mark]
    rfl
  have nothing : Spans [] (start + 2 + width name.text) (start + 2) [] := Spans.nil
  exact placed.identifier (spans_element start name) (by decide) inside.skip found nothing
    Rule.pseudoElement Rule.pseudoElement

namespace Selector
variable {selector : Selector}

/-- Where the pseudo-element would begin. -/
def elementStart (start : Nat) (selector : Selector) : Nat :=
  start + width selector.first.text + width (selector.joints.flatMap Joint.text)

def mark (start : Nat) (selector : Selector) : Capture :=
  ⟨Rule.selector, start, start + width selector.text⟩

theorem spans_joints (start : Nat) (selector : Selector) :
    Spans jointRules (start + width selector.first.text) (selector.elementStart start)
      (spread Joint.text Joint.captures (start + width selector.first.text) selector.joints) :=
  spans_spread Joint.spans _ selector.joints

theorem spans_element (start : Nat) (selector : Selector) :
    Spans [Rule.pseudoElement, Rule.identifier] (selector.elementStart start)
      (selector.elementStart start +
        width ((selector.pseudoElement.map fun name => ':' :: ':' :: name.text).getD []))
      (optional elementCaptures (selector.elementStart start) selector.pseudoElement) :=
  spans_optional Derivation.spans_element _ selector.pseudoElement

/-- What is captured behind the first sequence. -/
theorem spans_behind (start : Nat) (selector : Selector) :
    Spans (Rule.pseudoElement :: jointRules) (start + width selector.first.text)
      (selector.elementStart start +
        width ((selector.pseudoElement.map fun name => ':' :: ':' :: name.text).getD []))
      (spread Joint.text Joint.captures (start + width selector.first.text) selector.joints ++
        optional elementCaptures (selector.elementStart start) selector.pseudoElement) := by
  have joints := (selector.spans_joints start).weaken (Nat.le_refl _) (Nat.le_add_right _
    (width ((selector.pseudoElement.map fun name => ':' :: ':' :: name.text).getD [])))
    (List.subset_cons_of_subset Rule.pseudoElement (List.Subset.refl _))
  have element := (selector.spans_element start).weaken (Nat.le_add_right _ _) (Nat.le_refl _)
    (by decide : _ ⊆ Rule.pseudoElement :: jointRules)
  exact joints.append element

theorem placed_inner {outer : List String}
    (placed : Placed matched start selector.text (selector.captures start) outer) :
    Placed matched start selector.first.text (selector.first.captures start)
        (Rule.selector :: outer) ∧
      Placed matched (start + width selector.first.text) (selector.joints.flatMap Joint.text)
        (spread Joint.text Joint.captures (start + width selector.first.text) selector.joints)
        (Rule.selector :: outer) ∧
      Placed matched (selector.elementStart start)
        ((selector.pseudoElement.map fun name => ':' :: ':' :: name.text).getD [])
        (optional elementCaptures (selector.elementStart start) selector.pseudoElement)
        (Rule.selector :: outer) := by
  have inside := placed.inner
  have behind := inside.right (selector.first.spans start)
  exact ⟨inside.left (selector.spans_behind start), behind.left (selector.spans_element start),
    behind.right (selector.spans_joints start)⟩

theorem filter_parts {rule : String} (apart : Rule.selector ≠ rule) (start : Nat)
    (selector : Selector) : (selector.captures start).filter (isOf rule) =
      (selector.first.captures start).filter (isOf rule) ++
        ((spread Joint.text Joint.captures (start + width selector.first.text)
            selector.joints).filter (isOf rule) ++
          (optional elementCaptures (selector.elementStart start) selector.pseudoElement).filter
            (isOf rule)) := by
  rw [Selector.captures, filter_closing (by simpa [isOf] using apart), List.filter_append,
    List.filter_append]
  rfl

theorem read_compounds
    (placed : Placed matched start selector.text (selector.captures start) []) :
    (matched.inside Rule.simpleSelectorSeq (selector.mark start)).mapM matched.compound =
      .ok selector.reading.compounds := by
  have found : (selector.captures start).filter (isOf Rule.simpleSelectorSeq) =
      (selector.first.captures start).filter (isOf Rule.simpleSelectorSeq) ++
        (spread Joint.text Joint.captures (start + width selector.first.text)
          selector.joints).filter (isOf Rule.simpleSelectorSeq) := by
    rw [filter_parts (by decide), (selector.spans_element start).filter_isOf (by decide),
      List.append_nil]
  have ordered : ((selector.captures start).filter (isOf Rule.simpleSelectorSeq)).Pairwise
      NoLater := by
    rw [found]
    apply ((selector.first.spans start).filter _).ordered_append
      ((selector.spans_joints start).filter _) _ (ordered_joints Joint.filter_sequence _ _)
    rw [Sequence.filter_mark]
    exact List.pairwise_singleton ..
  have ⟨first, joints, _⟩ := placed_inner placed
  have initial := Sequence.read (first.weaken (by decide))
  have rest := mapM_spread Joint.spans (fun _ _ => Joint.read_sequence) _ _ joints
  have all := placed.inside (selector.spans start) (by simp) ordered Rule.selector
  rw [mark, all, found, Sequence.filter_mark, filter_joints_sequence, List.singleton_append,
    List.mapM_cons, initial, rest]
  rfl

theorem read_combinators
    (placed : Placed matched start selector.text (selector.captures start) []) :
    (matched.inside Rule.combinator (selector.mark start)).mapM matched.combinator =
      .ok selector.reading.combinators := by
  have found : (selector.captures start).filter (isOf Rule.combinator) =
      (spread Joint.text Joint.captures (start + width selector.first.text)
        selector.joints).filter (isOf Rule.combinator) := by
    rw [filter_parts (by decide), (selector.first.spans start).filter_isOf (by decide),
      (selector.spans_element start).filter_isOf (by decide), List.nil_append, List.append_nil]
  have ordered := ordered_joints Joint.filter_token (start + width selector.first.text)
    selector.joints
  rw [← found] at ordered
  have ⟨_, joints, _⟩ := placed_inner placed
  have rest := mapM_spread Joint.spans (fun _ _ => Joint.read_token) _ _ joints
  have all := placed.inside (selector.spans start) (by simp) ordered Rule.selector
  rw [mark, all, found, filter_joints_token, rest]
  rfl

theorem read_pseudoElement
    (placed : Placed matched start selector.text (selector.captures start) []) :
    matched.pseudoElement? (selector.mark start) = .ok selector.reading.pseudoElement := by
  have found : (selector.captures start).filter (isOf Rule.pseudoElement) =
      (optional elementCaptures (selector.elementStart start) selector.pseudoElement).filter
        (isOf Rule.pseudoElement) := by
    rw [filter_parts (by decide), (selector.first.spans start).filter_isOf (by decide),
      (selector.spans_joints start).filter_isOf (by decide), List.nil_append, List.nil_append]
  have spans := selector.spans start
  have ⟨_, _, element⟩ := placed_inner placed
  rw [MatchedText.pseudoElement?, Selector.reading]
  cases present : selector.pseudoElement with
  | none =>
    rw [present] at found
    rw [mark, placed.firstInside_none spans (by simp) found]
    rfl
  | some name =>
    rw [present, optional, filter_element] at found
    rw [present] at element
    rw [mark, placed.firstInside spans (by simp) found (by simp)]
    simp only [read_element element]
    rfl

theorem read (placed : Placed matched start selector.text (selector.captures start) []) :
    matched.complex (selector.mark start) = .ok selector.reading := by
  have fitting : ¬ (selector.reading.compounds.isEmpty ∨
      selector.reading.combinators.length + 1 ≠ selector.reading.compounds.length) := by
    simp [Selector.reading]
  simp only [MatchedText.complex, read_compounds placed, read_combinators placed,
    read_pseudoElement placed]
  change (if _ then _ else _) = _
  rw [if_neg fitting]
  rfl

end Selector

namespace Alternative

def mark (start : Nat) (alternative : Alternative) : Capture :=
  alternative.selector.mark
    (start + width alternative.before.text + 1 + width alternative.after.text)

theorem placed_selector {alternative : Alternative}
    (placed : Placed matched start alternative.text (alternative.captures start) []) :
    Placed matched (start + width alternative.before.text + 1 + width alternative.after.text)
      alternative.selector.text (alternative.selector.captures
        (start + width alternative.before.text + 1 + width alternative.after.text)) [] := by
  have inside : Placed matched start (alternative.before.text ++ ([','] ++
      (alternative.after.text ++ alternative.selector.text))) _ _ := placed
  exact inside.skip.skip.skip

end Alternative

theorem Selector.filter_mark (start : Nat) (selector : Selector) :
    (selector.captures start).filter (isOf Rule.selector) = [selector.mark start] :=
  filter_own rfl ((selector.spans_inner start).filter_isOf (by decide))

theorem Alternative.filter_mark (start : Nat) (alternative : Alternative) :
    (alternative.captures start).filter (isOf Rule.selector) = [alternative.mark start] :=
  Selector.filter_mark _ alternative.selector

end TreeSelect.Derivation
