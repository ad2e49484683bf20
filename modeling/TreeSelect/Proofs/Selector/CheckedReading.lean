import TreeSelect.Proofs.Text.Slicing
import TreeSelect.Selector.Reading

/-! The reader with slices that may fail. Here every text is taken out of the matched text by a slice
that need not be possible. In a text that a compiled grammar has matched all of them are, and the
reading is the same. -/

namespace TreeSelect

/-- There is no result at all if a slice was not possible. -/
abbrev Checked := ExceptT SelectError Option

namespace Checked

def textOf (matched : MatchedText) (capture : Capture) : Checked (List Char) :=
  ExceptT.lift (Text.slice? capture.start capture.stop matched.text)

def stringOf (matched : MatchedText) (capture : Capture) : Checked String := do
  let text ← textOf matched capture
  return String.ofList text

def identifier (matched : MatchedText) (region : Capture) (rule : String) : Checked String :=
  match matched.firstInside? Rule.identifier region with
  | some capture => stringOf matched capture
  | none => do
      let text ← stringOf matched region
      throw (.notUnderstood rule text)

def comparison (matched : MatchedText) (region : Capture) :
    Checked (Option (Comparison × String)) :=
  match matched.firstInside? Rule.comparisonOp region,
      matched.firstInside? Rule.attributeValue region with
  | none, _ => return none
  | some _, none => do
      let text ← stringOf matched region
      throw (.missingValue text)
  | some operator, some value => do
      let token ← stringOf matched operator
      match Comparison.ofToken? token with
      | some comparison => do
          let raw ← textOf matched value
          let literal ← ExceptT.lift (Text.unquote? raw)
          return some (comparison, String.ofList literal)
      | none => throw (.notUnderstood Rule.comparisonOp token)

def condition? (matched : MatchedText) (capture : Capture) : Checked (Option SimpleSelector) :=
  if capture.rule = Rule.typeSelector then do
    let tag ← stringOf matched capture
    return some (.type tag)
  else if capture.rule = Rule.universalSelector then return some .universal
  else if capture.rule = Rule.idSelector then do
    let name ← identifier matched capture Rule.idSelector
    return some (.id name)
  else if capture.rule = Rule.attributeSelector then do
    let name ← identifier matched capture Rule.attributeSelector
    let comparison ← comparison matched capture
    return some (.attribute name comparison)
  else if capture.rule = Rule.pseudoSelector then do
    let name ← identifier matched capture Rule.pseudoSelector
    match matched.firstInside? Rule.pseudoArgs capture with
    | none => return some (.pseudo name none)
    | some arguments => do
        let text ← textOf matched arguments
        return some (.pseudo name (some (String.ofList (MatchedText.withoutParentheses text))))
  else return none

def conditions (matched : MatchedText) : List Capture → Checked Compound
  | [] => return []
  | capture :: rest => do
      let first ← condition? matched capture
      let others ← conditions matched rest
      return first.toList ++ others

def compound (matched : MatchedText) (region : Capture) : Checked Compound :=
  conditions matched (Capture.within matched.captures region)

def combinator (matched : MatchedText) (region : Capture) : Checked Combinator := do
  let text ← textOf matched region
  match Combinator.ofText? text with
  | some combinator => return combinator
  | none => throw (.notUnderstood Rule.combinator (String.ofList text))

def pseudoElement? (matched : MatchedText) (region : Capture) : Checked (Option String) :=
  match matched.firstInside? Rule.pseudoElement region with
  | none => return none
  | some element => do
      let name ← identifier matched element Rule.pseudoElement
      return some name

def complex (matched : MatchedText) (region : Capture) : Checked ComplexSelector := do
  let compounds ← (matched.inside Rule.simpleSelectorSeq region).mapM (compound matched)
  let combinators ← (matched.inside Rule.combinator region).mapM (combinator matched)
  if compounds.isEmpty ∨ combinators.length + 1 ≠ compounds.length then do
    let text ← stringOf matched region
    throw (.notUnderstood Rule.selector text)
  else do
    let pseudoElement ← pseudoElement? matched region
    return ⟨compounds, combinators, pseudoElement⟩

def group (matched : MatchedText) : Checked SelectorGroup := do
  let alternatives ← (matched.all Rule.selector).mapM (complex matched)
  if alternatives.isEmpty then throw (.noMatch (String.ofList matched.text))
  else return ⟨alternatives⟩

def read (grammar : Grammar) (text : String) : Checked SelectorGroup := do
  let matched ← (some (grammar.matchAll text.toList) : Checked MatchedText)
  group matched

/-- No slice fails, and the result is the plain one. -/
def Agrees {Value : Type} (checked : Checked Value) (plain : Except SelectError Value) : Prop :=
  checked = some plain

section Agrees
variable {Value Result : Type}

theorem agrees_return (value : Value) : Agrees (pure value) (.ok value) := rfl

theorem agrees_throw (error : SelectError) :
    Agrees (throw error : Checked Value) (.error error) := rfl

theorem agrees_lift {found : Option Value} {value : Value} (same : found = some value) :
    Agrees (ExceptT.lift found) (.ok value) := by
  rw [same]
  rfl

/-- What follows a slice need agree on its text only. -/
theorem Agrees.then {checked : Checked Value} {value : Value} {further : Value → Checked Result}
    {plain : Except SelectError Result} (first : Agrees checked (.ok value))
    (others : Agrees (further value) plain) : Agrees (checked >>= further) plain := by
  rw [first]
  exact others

theorem Agrees.bind {checked : Checked Value} {plain : Except SelectError Value}
    {further : Value → Checked Result} {next : Value → Except SelectError Result}
    (first : Agrees checked plain) (others : ∀ value, Agrees (further value) (next value)) :
    Agrees (checked >>= further) (plain >>= next) := by
  rw [first]
  cases plain with
  | error error => rfl
  | ok value => exact others value

theorem agrees_mapM {list : List Value} {further : Value → Checked Result}
    {next : Value → Except SelectError Result}
    (each : ∀ value ∈ list, Agrees (further value) (next value)) :
    Agrees (list.mapM further) (list.mapM next) := by
  induction list with
  | nil => exact agrees_return []
  | cons value list ih =>
    rw [List.mapM_cons, List.mapM_cons]
    refine (each value (List.mem_cons_self ..)).bind fun first => ?_
    exact (ih fun other member => each other (List.mem_cons_of_mem _ member)).bind
      fun others => agrees_return (first :: others)

end Agrees

/-- The text of every capture is a slice. -/
def Sliceable (matched : MatchedText) : Prop :=
  ∀ capture ∈ matched.captures,
    Text.slice? capture.start capture.stop matched.text = some (matched.textOf capture)

section Reading
variable {matched : MatchedText} {region capture : Capture}

theorem mem_of_firstInside? {rule : String}
    (found : matched.firstInside? rule region = some capture) : capture ∈ matched.captures :=
  List.mem_of_find?_eq_some found

variable (sliceable : Sliceable matched)
include sliceable

theorem agrees_textOf (member : capture ∈ matched.captures) :
    Agrees (textOf matched capture) (.ok (matched.textOf capture)) :=
  agrees_lift (sliceable capture member)

theorem agrees_stringOf (member : capture ∈ matched.captures) :
    Agrees (stringOf matched capture) (.ok (matched.stringOf capture)) :=
  (agrees_textOf sliceable member).then (agrees_return _)

theorem agrees_identifier (member : region ∈ matched.captures) (rule : String) :
    Agrees (identifier matched region rule) (matched.identifier region rule) := by
  unfold identifier MatchedText.identifier
  cases found : matched.firstInside? Rule.identifier region with
  | some capture => exact agrees_stringOf sliceable (mem_of_firstInside? found)
  | none => exact (agrees_stringOf sliceable member).then (agrees_throw _)

theorem agrees_comparison (member : region ∈ matched.captures) :
    Agrees (comparison matched region) (matched.comparison region) := by
  unfold comparison MatchedText.comparison
  cases operatorFound : matched.firstInside? Rule.comparisonOp region with
  | none => exact agrees_return none
  | some operator =>
    cases valueFound : matched.firstInside? Rule.attributeValue region with
    | none => exact (agrees_stringOf sliceable member).then (agrees_throw _)
    | some value =>
      refine (agrees_stringOf sliceable (mem_of_firstInside? operatorFound)).then ?_
      dsimp only
      cases Comparison.ofToken? (matched.stringOf operator) with
      | some comparison =>
        refine (agrees_textOf sliceable (mem_of_firstInside? valueFound)).then ?_
        exact (agrees_lift (Text.unquote?_eq _)).then (agrees_return _)
      | none => exact agrees_throw _

theorem agrees_condition? (member : capture ∈ matched.captures) :
    Agrees (condition? matched capture) (matched.condition? capture) := by
  unfold condition? MatchedText.condition?
  have named := agrees_identifier sliceable member
  split
  next => exact (agrees_stringOf sliceable member).then (agrees_return _)
  next =>
  split
  next => exact agrees_return _
  next =>
  split
  next => exact (named Rule.idSelector).bind fun name => agrees_return _
  next =>
  split
  next =>
    exact (named Rule.attributeSelector).bind fun name =>
      (agrees_comparison sliceable member).bind fun comparison => agrees_return _
  next =>
  split
  next =>
    refine (named Rule.pseudoSelector).bind fun name => ?_
    split
    next absent =>
      rw [absent]
      exact agrees_return _
    next arguments found =>
      rw [found]
      exact (agrees_textOf sliceable (mem_of_firstInside? found)).then (agrees_return _)
  next => exact agrees_return none

theorem agrees_conditions {captures : List Capture} (known : captures ⊆ matched.captures) :
    Agrees (conditions matched captures) (matched.conditions captures) := by
  induction captures with
  | nil => exact agrees_return []
  | cons capture captures ih =>
    obtain ⟨member, further⟩ := List.cons_subset.mp known
    exact (agrees_condition? sliceable member).bind fun first =>
      (ih further).bind fun others => agrees_return _

theorem agrees_compound (region : Capture) :
    Agrees (compound matched region) (matched.compound region) :=
  agrees_conditions sliceable fun _ within => (List.mem_filter.mp within).1

theorem agrees_combinator (member : region ∈ matched.captures) :
    Agrees (combinator matched region) (matched.combinator region) := by
  unfold MatchedText.combinator
  refine (agrees_textOf sliceable member).then ?_
  cases Combinator.ofText? (matched.textOf region) with
  | some combinator => exact agrees_return _
  | none => exact agrees_throw _

theorem agrees_pseudoElement? (region : Capture) :
    Agrees (pseudoElement? matched region) (matched.pseudoElement? region) := by
  unfold pseudoElement? MatchedText.pseudoElement?
  cases found : matched.firstInside? Rule.pseudoElement region with
  | none => exact agrees_return none
  | some element =>
    exact (agrees_identifier sliceable (mem_of_firstInside? found) _).bind
      fun name => agrees_return _

theorem agrees_complex (member : region ∈ matched.captures) :
    Agrees (complex matched region) (matched.complex region) := by
  refine (agrees_mapM fun inner _ => agrees_compound sliceable inner).bind fun compounds => ?_
  refine (agrees_mapM fun token found => ?_).bind fun combinators => ?_
  · exact agrees_combinator sliceable (List.mem_filter.mp found).1
  split
  next => exact (agrees_stringOf sliceable member).then (agrees_throw _)
  next => exact (agrees_pseudoElement? sliceable region).bind fun element => agrees_return _

theorem agrees_group : Agrees (group matched) matched.group := by
  refine (agrees_mapM fun region found => ?_).bind fun alternatives => ?_
  · exact agrees_complex sliceable (List.mem_filter.mp found).1
  split
  next => exact agrees_throw _
  next => exact agrees_return _

end Reading
end Checked
end TreeSelect
