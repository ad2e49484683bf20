import TreeSelect.Proofs.Derivation.Printing
import TreeSelect.Selector.Pseudo

/-! Pseudo selectors are rebuilt from their names and arguments. The texts so made are the slices of
the matched text that their captures cover, in the order of these captures. -/

namespace TreeSelect
open TreeSelect.Text

/-- The rules of pseudo-classes and pseudo-elements. -/
def pseudoRules : List String := [Rule.pseudoSelector, Rule.pseudoElement]

def Capture.isPseudo (capture : Capture) : Bool := decide (capture.rule ∈ pseudoRules)

/-- The pseudo-classes and pseudo-elements of a match, as they are written. -/
def MatchedText.pseudoSlices (matched : MatchedText) : List String :=
  (matched.captures.filter Capture.isPseudo).map matched.stringOf

/-- The first capture ends before the second begins. -/
def Capture.EndsBefore (first second : Capture) : Prop :=
  first.start < first.stop ∧ first.stop ≤ second.start

theorem Capture.EndsBefore.noLater {first second : Capture} (ends : first.EndsBefore second) :
    first.NoLater second :=
  .inl (Nat.lt_of_lt_of_le ends.1 ends.2)

namespace Derivation
open Capture Placed

/-- The pseudo selectors among the captures of a part come in the order of the text, and these are
their texts. -/
structure Reports (matched : MatchedText) (part : List Capture) (texts : List String) : Prop where
  ordered : (part.filter isPseudo).Pairwise EndsBefore
  slices : (part.filter isPseudo).map matched.stringOf = texts

variable {matched : MatchedText} {start : Nat}

namespace Reports
variable {rules others : List String} {middle stop : Nat} {part after : List Capture}
  {texts further : List String}

theorem nothing (spans : Spans rules start stop part)
    (absent : ∀ rule ∈ rules, rule ∉ pseudoRules) : Reports matched part [] := by
  have none : part.filter isPseudo = [] :=
    spans.filter_nil fun capture named => decide_eq_false (absent capture.rule named)
  exact ⟨none ▸ List.Pairwise.nil, none ▸ rfl⟩

theorem append (first : Reports matched part texts) (second : Reports matched after further)
    (left : Spans rules start middle part) (right : Spans others middle stop after) :
    Reports matched (part ++ after) (texts ++ further) := by
  constructor
  · rw [List.filter_append]
    refine List.pairwise_append.mpr ⟨first.ordered, second.ordered, ?_⟩
    intro capture member other later
    have ⟨_, long, ends, _⟩ := left.filter isPseudo capture member
    have ⟨begins, _⟩ := right.filter isPseudo other later
    exact ⟨long, Nat.le_trans ends begins⟩
  · rw [List.filter_append, List.map_append, first.slices, second.slices]

/-- Other rules around a part add nothing. -/
theorem enclose (reports : Reports matched part texts) {rule : String} {text : List Char}
    (other : rule ∉ pseudoRules) :
    Reports matched (closing rule start text part) texts := by
  have same : (closing rule start text part).filter isPseudo = part.filter isPseudo :=
    filter_closing (decide_eq_false other)
  exact ⟨same ▸ reports.ordered, same ▸ reports.slices⟩

/-- A pseudo selector is reported as a whole. -/
theorem own {text : List Char} {rule : String} {outer : List String}
    (kind : rule ∈ pseudoRules)
    (placed : Placed matched start text (closing rule start text part) outer)
    (inner : Reports matched part []) :
    Reports matched (closing rule start text part) [String.ofList text] := by
  have same : (closing rule start text part).filter isPseudo =
      [⟨rule, start, start + width text⟩] :=
    filter_own (decide_eq_true kind) (List.map_eq_nil_iff.mp inner.slices)
  exact ⟨same ▸ List.pairwise_singleton .., by rw [same, List.map_singleton, placed.stringOf]⟩

/-- Derivations that stand one behind the other are reported one after the other. -/
theorem spread {Tree : Type} {outer : List String} {text : Tree → List Char}
    {captures : Nat → Tree → List Capture} {written : Tree → List String}
    (spans : ∀ start tree, Spans rules start (start + width (text tree)) (captures start tree))
    (each : ∀ start tree, Placed matched start (text tree) (captures start tree) outer →
      Reports matched (captures start tree) (written tree)) (start : Nat) (trees : List Tree)
    (placed : Placed matched start (trees.flatMap text)
      (Derivation.spread text captures start trees) outer) :
    Reports matched (Derivation.spread text captures start trees) (trees.flatMap written) := by
  induction trees generalizing start with
  | nil => exact ⟨List.Pairwise.nil, rfl⟩
  | cons tree trees ih =>
    rw [List.flatMap_cons] at placed
    have behind := spans_spread spans (start + width (text tree)) trees
    exact (each start tree (placed.left behind)).append (ih _ (placed.right (spans start tree)))
      (spans start tree) behind

end Reports

theorem Condition.reports {condition : Condition} {outer : List String}
    (placed : Placed matched start condition.text (condition.captures start) outer) :
    Reports matched (condition.captures start) condition.reading.pseudoText?.toList := by
  have inner := placed.inner
  apply Reports.enclose _ (by decide)
  rcases condition with brackets | name | ⟨name, arguments⟩
  · exact .nothing (brackets.spans start) (by decide)
  · exact (Reports.nothing (name.spans (start + 1)) (by decide)).enclose (by decide)
  · have called := name.spans (start + 1)
    have behind := spans_optional Arguments.spans (start + 1 + width name.text) arguments
    have first : Reports matched _ [] := .nothing called (by decide)
    have second : Reports matched _ [] := .nothing behind (by decide)
    have whole := Reports.own (by decide) inner (first.append second called behind)
    rw [← congrArg String.ofList (Condition.print_pseudo name arguments)] at whole
    exact whole

theorem reports_conditions {conditions : List Condition} {outer : List String}
    (placed : Placed matched start (conditions.flatMap Condition.text)
      (spread Condition.text Condition.captures start conditions) outer) :
    Reports matched (spread Condition.text Condition.captures start conditions)
      ((conditions.map Condition.reading).filterMap SimpleSelector.pseudoText?) := by
  rw [List.filterMap_map, List.filterMap_eq_flatMap_toList]
  exact Reports.spread Condition.spans (fun _ _ => Condition.reports) start conditions placed

theorem Head.pseudoText?_reading (head : Head) : head.reading.pseudoText? = none := by
  cases head <;> rfl

theorem Sequence.reports {sequence : Sequence} {outer : List String}
    (placed : Placed matched start sequence.text (sequence.captures start) outer) :
    Reports matched (sequence.captures start)
      (sequence.reading.filterMap SimpleSelector.pseudoText?) := by
  rw [Sequence.captures_eq] at placed ⊢
  have inner := placed.inner
  apply Reports.enclose _ (by decide)
  cases sequence with
  | headed head conditions =>
    have behind := spans_conditions (start + width head.text) conditions
    rw [Sequence.reading, List.filterMap_cons_none head.pseudoText?_reading]
    exact (Reports.nothing (head.spans start) (by decide)).append
      (reports_conditions (inner.right (head.spans start))) (head.spans start) behind
  | bare first more =>
    have behind := spans_conditions (start + width first.text) more
    have one : [first.reading].filterMap SimpleSelector.pseudoText? =
        first.reading.pseudoText?.toList := by
      rw [List.filterMap_eq_flatMap_toList, List.flatMap_singleton]
    rw [Sequence.reading, ← List.singleton_append, List.filterMap_append, one]
    exact (Condition.reports (inner.left behind)).append
      (reports_conditions (inner.right (first.spans start))) (first.spans start) behind

theorem Joint.reports {joint : Joint}
    (placed : Placed matched start joint.text (joint.captures start) [Rule.selector]) :
    Reports matched (joint.captures start)
      (joint.sequence.reading.filterMap SimpleSelector.pseudoText?) := by
  have token := joint.token.spans (start + width joint.before.text)
  have sequence := joint.sequence.spans (joint.sequenceStart start)
  have behind := sequence.weaken (Nat.le_add_right ..) (Nat.le_refl _) fun _ named => named
  exact ((Reports.nothing token (by decide)).append
    (Sequence.reports (Joint.placed_inner placed).2) token behind).enclose (by decide)

theorem reports_element {element : Option Name}
    (placed : Placed matched start
      ((element.map fun name => ':' :: ':' :: name.text).getD [])
      (optional elementCaptures start element) [Rule.selector]) :
    Reports matched (optional elementCaptures start element)
      ((element.map Name.string).toList.map ("::" ++ ·)) := by
  cases element with
  | none => exact ⟨List.Pairwise.nil, rfl⟩
  | some name =>
    have whole : Reports matched (elementCaptures start name)
        [String.ofList ([':', ':'] ++ name.text)] :=
      .own (by decide) placed (.nothing (name.spans (start + 2)) (by decide))
    rw [String.ofList_append] at whole
    exact whole

theorem Selector.reports {selector : Selector}
    (placed : Placed matched start selector.text (selector.captures start) []) :
    Reports matched (selector.captures start) selector.reading.pseudoTexts := by
  obtain ⟨first, joints, element⟩ := Selector.placed_inner placed
  have chain := Reports.spread Joint.spans (fun _ _ => Joint.reports) _ selector.joints joints
  have spans := selector.spans_joints start
  have both := chain.append (reports_element element) spans (selector.spans_element start)
  have compounds : selector.reading.compounds.flatten.filterMap SimpleSelector.pseudoText? =
      selector.first.reading.filterMap SimpleSelector.pseudoText? ++
        selector.joints.flatMap fun joint =>
          joint.sequence.reading.filterMap SimpleSelector.pseudoText? := by
    rw [Selector.reading, List.flatten_cons, List.filterMap_append, List.filterMap_flatten,
      List.map_map]
    rfl
  rw [ComplexSelector.pseudoTexts, compounds, List.append_assoc]
  exact ((Sequence.reports first).append both (selector.first.spans start)
    (selector.spans_behind start)).enclose (by decide)

theorem Group.reports (group : Group) :
    Reports group.matchedText group.captures group.reading.pseudoTexts := by
  have behind := spans_spread Alternative.spans
    (width group.before.text + width group.first.text) group.more
  have first := Selector.reports (group.placed.left behind)
  have rest := Reports.spread Alternative.spans
    (fun _ _ placed => Selector.reports (Alternative.placed_selector placed)) _ group.more
    (group.placed.right (group.first.spans _)).cut
  have both := first.append rest (group.first.spans _) behind
  rw [SelectorGroup.pseudoTexts, Group.reading, List.flatMap_cons, List.flatMap_map]
  exact both

/-- Sorting leaves the pseudo selectors in their order. -/
theorem Group.reports_matched (group : Group) :
    Reports group.matchedText group.matchedText.captures group.reading.pseudoTexts := by
  have reports := group.reports
  have kept : group.matchedText.captures.filter isPseudo = group.captures.filter isPseudo :=
    (filter_sorted isPseudo group.captures).trans
      (sorted_of_ordered (reports.ordered.imp EndsBefore.noLater))
  exact ⟨kept ▸ reports.ordered, kept ▸ reports.slices⟩

end Derivation
end TreeSelect
