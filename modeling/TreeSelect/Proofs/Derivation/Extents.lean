import TreeSelect.Proofs.Derivation.Captures

/-! Where the captures of a derivation lie, and of which rules they are. None of them is empty, and
each lies between the two ends of the derivation. -/

namespace TreeSelect.Derivation
open TreeSelect.Text

/-- None of the captures is empty; they lie between two positions and are of the given rules. -/
def Spans (rules : List String) (start stop : Nat) (captures : List Capture) : Prop :=
  ∀ capture ∈ captures, start ≤ capture.start ∧ capture.start < capture.stop ∧
    capture.stop ≤ stop ∧ capture.rule ∈ rules

namespace Spans
variable {rules others : List String} {start stop front back : Nat} {captures further : List Capture}

theorem nil : Spans rules start stop [] := fun _ member => absurd member List.not_mem_nil

theorem append (left : Spans rules start stop captures) (right : Spans rules start stop further) :
    Spans rules start stop (captures ++ further) := fun capture member =>
  (List.mem_append.mp member).elim (left capture) (right capture)

theorem weaken (spans : Spans rules start stop captures) (below : front ≤ start)
    (above : stop ≤ back) (known : rules ⊆ others) : Spans others front back captures := by
  intro capture member
  obtain ⟨left, long, right, named⟩ := spans capture member
  exact ⟨by omega, long, by omega, known named⟩

theorem filter_nil (spans : Spans rules start stop captures) {keep : Capture → Bool}
    (unknown : ∀ capture, capture.rule ∈ rules → keep capture = false) :
    captures.filter keep = [] := by
  rw [List.filter_eq_nil_iff]
  intro capture member kept
  rw [unknown capture (spans capture member).2.2.2] at kept
  cases kept

end Spans

theorem width_pos {text : List Char} (long : text ≠ []) : 0 < width text := by
  cases text with
  | nil => exact absurd rfl long
  | cons letter rest =>
    have positive := utf8Size_pos letter
    simp only [width]
    omega

theorem spans_closing {rules : List String} {rule : String} {start : Nat} {text : List Char}
    {parts : List Capture} (long : text ≠ [])
    (spans : Spans rules start (start + width text) parts) :
    Spans (rule :: rules) start (start + width text) (closing rule start text parts) := by
  have positive := width_pos long
  refine (spans.weaken (Nat.le_refl _) (Nat.le_refl _) (List.subset_cons_self ..)).append ?_
  intro capture member
  rw [List.mem_singleton.mp member]
  exact ⟨Nat.le_refl _, by simpa using positive, Nat.le_refl _, List.mem_cons_self ..⟩

theorem spans_spread {Tree : Type} {rules : List String} {text : Tree → List Char}
    {captures : Nat → Tree → List Capture}
    (each : ∀ start tree, Spans rules start (start + width (text tree)) (captures start tree))
    (start : Nat) (trees : List Tree) :
    Spans rules start (start + width (trees.flatMap text)) (spread text captures start trees) := by
  induction trees generalizing start with
  | nil => exact Spans.nil
  | cons tree trees ih =>
    rw [List.flatMap_cons, width_append]
    refine ((each start tree).weaken (Nat.le_refl _) (by omega) fun _ named => named).append ?_
    exact (ih _).weaken (by omega) (by omega) fun _ named => named

theorem spans_optional {Tree : Type} {rules : List String} {text : Tree → List Char}
    {captures : Nat → Tree → List Capture}
    (each : ∀ start tree, Spans rules start (start + width (text tree)) (captures start tree))
    (start : Nat) (tree : Option Tree) :
    Spans rules start (start + width ((tree.map text).getD [])) (optional captures start tree) := by
  cases tree with
  | none => exact Spans.nil
  | some tree => exact each start tree

theorem Name.text_ne_nil (name : Name) : name.text ≠ [] := by simp [Name.text]

theorem Name.spans (start : Nat) (name : Name) :
    Spans [Rule.identifier] start (start + width name.text) (name.captures start) :=
  spans_closing name.text_ne_nil Spans.nil

theorem Quoted.text_ne_nil (string : Quoted) : string.text ≠ [] := by
  cases string <;> simp [Quoted.text]

theorem Quoted.spans (start : Nat) (string : Quoted) :
    Spans [Rule.quotedString] start (start + width string.text) (string.captures start) :=
  spans_closing string.text_ne_nil Spans.nil

/-- The rules of values. -/
def valueRules : List String := [Rule.attributeValue, Rule.identifier, Rule.quotedString]

theorem Value.spans (start : Nat) (value : Value) :
    Spans valueRules start (start + width value.text) (value.captures start) := by
  cases value with
  | name word =>
    exact spans_closing word.text_ne_nil
      ((word.spans start).weaken (Nat.le_refl _) (Nat.le_refl _) (by simp))
  | quoted string =>
    exact spans_closing string.text_ne_nil
      ((string.spans start).weaken (Nat.le_refl _) (Nat.le_refl _) (by simp))

theorem token_ne_nil (operator : Comparison) : operator.token.toList ≠ [] := by
  cases operator <;> decide

theorem AttributeTest.spans (start : Nat) (test : AttributeTest) :
    Spans (Rule.comparisonOp :: valueRules) start (start + width test.text)
      (test.captures start) := by
  have operator : Spans [Rule.comparisonOp] _ _
      (closing Rule.comparisonOp (start + width test.before.text) test.operator.token.toList []) :=
    spans_closing (token_ne_nil test.operator) Spans.nil
  have value := test.value.spans (start + width test.before.text +
    width test.operator.token.toList + width test.between.text)
  simp only [AttributeTest.text, width_append]
  exact (operator.weaken (by omega) (by omega) (by simp)).append
    (value.weaken (by omega) (by omega) (List.subset_cons_self ..))

/-- The rules within brackets. -/
def bracketRules : List String := Rule.attributeSelector :: Rule.comparisonOp :: valueRules

theorem Attribute.spans (start : Nat) (brackets : Attribute) :
    Spans bracketRules start (start + width brackets.text) (brackets.captures start) := by
  have name := brackets.name.spans (start + 1 + width brackets.before.text)
  have test := spans_optional AttributeTest.spans
    (start + 1 + width brackets.before.text + width brackets.name.text) brackets.test
  have one : '['.utf8Size = 1 := rfl
  apply spans_closing (by simp [Attribute.text])
  simp only [Attribute.text, width, width_append, one]
  exact (name.weaken (by omega) (by omega) (by decide)).append
    (test.weaken (by omega) (by omega) fun _ named => named)

theorem Argument.spans (start : Nat) (argument : Argument) :
    Spans [Rule.quotedString] start (start + width argument.text) (argument.captures start) := by
  cases argument with
  | quoted string => exact string.spans start
  | plain letter ordinary => exact Spans.nil

theorem Arguments.spans (start : Nat) (arguments : Arguments) :
    Spans [Rule.pseudoArgs, Rule.quotedString] start (start + width arguments.text)
      (arguments.captures start) := by
  have items := spans_spread Argument.spans (start + 1) arguments.items
  have one : '('.utf8Size = 1 := rfl
  apply spans_closing (by simp [Arguments.text])
  simp only [Arguments.text, Arguments.inner, width, width_append, List.cons_append, one]
  exact items.weaken (by omega) (by omega) fun _ named => named

/-- The rules within one condition. -/
def kindRules : List String :=
  Rule.idSelector :: Rule.pseudoSelector :: Rule.pseudoArgs :: bracketRules

theorem Condition.spans_kind (start : Nat) (condition : Condition) :
    Spans kindRules start (start + width condition.text) (condition.kindCaptures start) := by
  rcases condition with brackets | name | ⟨name, arguments⟩
  · exact (brackets.spans start).weaken (Nat.le_refl _) (Nat.le_refl _) (by decide)
  · have inner := name.spans (start + 1)
    have one : '#'.utf8Size = 1 := rfl
    have whole : Spans [Rule.idSelector, Rule.identifier] start
        (start + width ('#' :: name.text)) ((Condition.id name).kindCaptures start) := by
      apply spans_closing (by simp)
      simp only [width, one]
      exact inner.weaken (by omega) (by omega) fun _ named => named
    exact whole.weaken (Nat.le_refl _) (Nat.le_refl _) (by decide)
  · have called := name.spans (start + 1)
    have inner := spans_optional Arguments.spans (start + 1 + width name.text) arguments
    have one : ':'.utf8Size = 1 := rfl
    have whole : Spans [Rule.pseudoSelector, Rule.identifier, Rule.pseudoArgs, Rule.quotedString]
        start (start + width (Condition.pseudo name arguments).text)
        ((Condition.pseudo name arguments).kindCaptures start) := by
      apply spans_closing (by simp [Condition.text])
      simp only [Condition.text, width, width_append, one]
      exact (called.weaken (by omega) (by omega) (by simp)).append
        (inner.weaken (by omega) (by omega) (by simp))
    exact whole.weaken (Nat.le_refl _) (Nat.le_refl _) (by decide)

theorem Condition.text_ne_nil (condition : Condition) : condition.text ≠ [] := by
  rcases condition with brackets | name | ⟨name, arguments⟩ <;>
    simp [Condition.text, Attribute.text]

theorem Condition.spans (start : Nat) (condition : Condition) :
    Spans (Rule.simpleSelector :: kindRules) start (start + width condition.text)
      (condition.captures start) :=
  spans_closing condition.text_ne_nil (condition.spans_kind start)

theorem Head.spans (start : Nat) (head : Head) :
    Spans [Rule.typeSelector, Rule.universalSelector, Rule.identifier] start
      (start + width head.text) (head.captures start) := by
  cases head with
  | type name =>
    exact (spans_closing name.text_ne_nil (name.spans start)).weaken (Nat.le_refl _)
      (Nat.le_refl _) (by simp)
  | universal =>
    have whole : Spans [Rule.universalSelector] start (start + width ['*'])
        (Head.universal.captures start) :=
      spans_closing (by simp) Spans.nil
    exact whole.weaken (Nat.le_refl _) (Nat.le_refl _) (by simp)

/-- The rules within a sequence of conditions. -/
def sequenceRules : List String :=
  Rule.typeSelector :: Rule.universalSelector :: Rule.simpleSelector :: kindRules

theorem spans_conditions (start : Nat) (conditions : List Condition) :
    Spans sequenceRules start (start + width (conditions.flatMap Condition.text))
      (spread Condition.text Condition.captures start conditions) :=
  (spans_spread Condition.spans start conditions).weaken (Nat.le_refl _) (Nat.le_refl _)
    (by decide)

/-- The captures of the conditions, without the one of the whole sequence. -/
def Sequence.inner (start : Nat) : Sequence → List Capture
  | .headed head conditions =>
      head.captures start ++
        spread Condition.text Condition.captures (start + width head.text) conditions
  | .bare first more =>
      first.captures start ++
        spread Condition.text Condition.captures (start + width first.text) more

theorem Sequence.text_ne_nil (sequence : Sequence) : sequence.text ≠ [] := by
  rcases sequence with ⟨⟨name⟩ | _, conditions⟩ | ⟨first, more⟩
  · simp [Sequence.text, Head.text, name.text_ne_nil]
  · simp [Sequence.text, Head.text]
  · simp [Sequence.text, first.text_ne_nil]

theorem Sequence.spans_inner (start : Nat) (sequence : Sequence) :
    Spans sequenceRules start (start + width sequence.text) (sequence.inner start) := by
  cases sequence with
  | headed head conditions =>
    have first := head.spans start
    have more := spans_conditions (start + width head.text) conditions
    simp only [Sequence.text, width_append]
    exact (first.weaken (by omega) (by omega)
      (by decide)).append
        (more.weaken (by omega) (by omega) fun _ named => named)
  | bare first rest =>
    have initial := first.spans start
    have more := spans_conditions (start + width first.text) rest
    simp only [Sequence.text, width_append]
    exact (initial.weaken (by omega) (by omega) (by decide)).append
      (more.weaken (by omega) (by omega) fun _ named => named)

theorem Sequence.captures_eq (start : Nat) (sequence : Sequence) :
    sequence.captures start =
      closing Rule.simpleSelectorSeq start sequence.text (sequence.inner start) := by
  cases sequence <;> rfl

theorem Sequence.spans (start : Nat) (sequence : Sequence) :
    Spans (Rule.simpleSelectorSeq :: sequenceRules) start (start + width sequence.text)
      (sequence.captures start) := by
  rw [Sequence.captures_eq]
  exact spans_closing sequence.text_ne_nil (sequence.spans_inner start)

/-- The rules within a joint. -/
def jointRules : List String :=
  Rule.combinatorSeq :: Rule.combinator :: Rule.simpleSelectorSeq :: sequenceRules

theorem Token.spans (start : Nat) (token : Token) :
    Spans [Rule.combinator] start (start + width [token.letter])
      (closing Rule.combinator start [token.letter] []) :=
  spans_closing (List.cons_ne_nil _ _) Spans.nil

theorem Joint.spans (start : Nat) (joint : Joint) :
    Spans jointRules start (start + width joint.text) (joint.captures start) := by
  have token := joint.token.spans (start + width joint.before.text)
  have sequence := joint.sequence.spans (start + width joint.before.text +
    width [joint.token.letter] + width joint.after.text)
  apply spans_closing (by simp [Joint.text])
  simp only [Joint.text, width, width_append, Nat.add_zero] at token sequence ⊢
  exact (token.weaken (by omega) (by omega) (by simp)).append
    (sequence.weaken (by omega) (by omega) (List.subset_cons_self ..))

theorem spans_element (start : Nat) (name : Name) :
    Spans [Rule.pseudoElement, Rule.identifier] start
      (start + width (':' :: ':' :: name.text)) (elementCaptures start name) := by
  have inner := name.spans (start + 2)
  have one : ':'.utf8Size = 1 := rfl
  apply spans_closing (by simp)
  exact inner.weaken (by omega) (by simp only [width, one]; omega) fun _ named => named

/-- The captures within one alternative, without its own. -/
def Selector.inner (start : Nat) (selector : Selector) : List Capture :=
  selector.first.captures start ++
    (spread Joint.text Joint.captures (start + width selector.first.text) selector.joints ++
      optional elementCaptures
        (start + width selector.first.text + width (selector.joints.flatMap Joint.text))
        selector.pseudoElement)

theorem Selector.spans_inner (start : Nat) (selector : Selector) :
    Spans (Rule.pseudoElement :: jointRules) start (start + width selector.text)
      (selector.inner start) := by
  have first := selector.first.spans start
  have joints := spans_spread Joint.spans (start + width selector.first.text) selector.joints
  have element := spans_optional spans_element (start + width selector.first.text +
    width (selector.joints.flatMap Joint.text)) selector.pseudoElement
  simp only [Selector.text, width_append]
  exact (first.weaken (by omega) (by omega) (by decide)).append
    ((joints.weaken (by omega) (by omega) (List.subset_cons_self ..)).append
      (element.weaken (by omega) (by omega) (by decide)))

theorem Selector.spans (start : Nat) (selector : Selector) :
    Spans (Rule.selector :: Rule.pseudoElement :: jointRules) start (start + width selector.text)
      (selector.captures start) :=
  spans_closing (by simp [Selector.text, selector.first.text_ne_nil]) (selector.spans_inner start)

theorem Alternative.spans (start : Nat) (alternative : Alternative) :
    Spans (Rule.selector :: Rule.pseudoElement :: jointRules) start
      (start + width alternative.text) (alternative.captures start) := by
  have selector := alternative.selector.spans
    (start + width alternative.before.text + 1 + width alternative.after.text)
  have one : ','.utf8Size = 1 := rfl
  simp only [Alternative.text, width, width_append, one]
  exact selector.weaken (by omega) (by omega) fun _ named => named

end TreeSelect.Derivation
