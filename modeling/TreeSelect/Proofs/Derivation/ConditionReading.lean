import TreeSelect.Proofs.Derivation.Placement
import TreeSelect.Selector.Reading

/-! Conditions read from the sorted captures of a whole text: for every condition of a derivation
its own parts are found, and they are read as the derivation means them. -/

namespace TreeSelect.Derivation
open TreeSelect.Text Capture Placed

variable {matched : MatchedText} {start : Nat}

theorem Placed.stringOf {text : List Char} {part : List Capture} {outer : List String}
    (placed : Placed matched start text part outer) (rule : String) :
    matched.stringOf ⟨rule, start, start + width text⟩ = String.ofList text := by
  rw [MatchedText.stringOf, placed.textOf]

section Filters
variable {keep : Capture → Bool} {rule : String} {text : List Char} {parts : List Capture}

theorem filter_closing (dropped : keep ⟨rule, start, start + width text⟩ = false) :
    (closing rule start text parts).filter keep = parts.filter keep := by
  simp [closing, dropped]

theorem filter_own (kept : keep ⟨rule, start, start + width text⟩ = true)
    (apart : parts.filter keep = []) :
    (closing rule start text parts).filter keep = [⟨rule, start, start + width text⟩] := by
  simp [closing, kept, apart]

end Filters

theorem Spans.filter_isOf {rules : List String} {stop : Nat} {captures : List Capture}
    (spans : Spans rules start stop captures) {rule : String} (absent : rule ∉ rules) :
    captures.filter (isOf rule) = [] :=
  spans.filter_nil (not_isOf absent)

def Name.mark (start : Nat) (name : Name) : Capture :=
  ⟨Rule.identifier, start, start + width name.text⟩

theorem Name.filter_mark (start : Nat) (name : Name) :
    (name.captures start).filter (isOf Rule.identifier) = [name.mark start] := by
  simp [Name.captures, closing, isOf, Name.mark]

/-- A name in front of all other captures is the first identifier of the part. -/
theorem Placed.identifier {text : List Char} {part later : List Capture}
    {outer inner rules others : List String} {position stop : Nat} {name : Name}
    (placed : Placed matched start text part outer)
    (spans : Spans rules start (start + width text) part) (absent : Rule.identifier ∉ outer)
    (named : Placed matched position name.text (name.captures position) inner)
    (found : part.filter (isOf Rule.identifier) =
      name.mark position :: later.filter (isOf Rule.identifier))
    (behind : Spans others (position + width name.text) stop later) (region rule : String) :
    matched.identifier ⟨region, start, start + width text⟩ rule = .ok name.string := by
  have least : ∀ capture ∈ later.filter (isOf Rule.identifier),
      (name.mark position).NoLater capture := by
    intro capture member
    have extent := behind capture (List.mem_filter.mp member).1
    have long := width_pos name.text_ne_nil
    exact .inl (Nat.lt_of_lt_of_le (Nat.lt_add_of_pos_right long) extent.1)
  rw [MatchedText.identifier, placed.firstInside spans absent found least region]
  exact congrArg Except.ok (named.stringOf Rule.identifier)

section Kinds
variable (matched : MatchedText) (start stop : Nat)

theorem condition?_id :
    matched.condition? ⟨Rule.idSelector, start, stop⟩ = (do
      let name ← matched.identifier ⟨Rule.idSelector, start, stop⟩ Rule.idSelector
      .ok (some (.id name))) := by
  simp [MatchedText.condition?, Rule.idSelector, Rule.typeSelector, Rule.universalSelector]

theorem condition?_attribute :
    matched.condition? ⟨Rule.attributeSelector, start, stop⟩ = (do
      let name ← matched.identifier ⟨Rule.attributeSelector, start, stop⟩ Rule.attributeSelector
      let comparison ← matched.comparison ⟨Rule.attributeSelector, start, stop⟩
      .ok (some (.attribute name comparison))) := by
  simp [MatchedText.condition?, Rule.attributeSelector, Rule.typeSelector, Rule.universalSelector,
    Rule.idSelector]

theorem condition?_pseudo :
    matched.condition? ⟨Rule.pseudoSelector, start, stop⟩ = (do
      let name ← matched.identifier ⟨Rule.pseudoSelector, start, stop⟩ Rule.pseudoSelector
      .ok (some (.pseudo name
        ((matched.firstInside? Rule.pseudoArgs ⟨Rule.pseudoSelector, start, stop⟩).map
          fun arguments =>
            String.ofList (MatchedText.withoutParentheses (matched.textOf arguments)))))) := by
  simp [MatchedText.condition?, Rule.pseudoSelector, Rule.typeSelector, Rule.universalSelector,
    Rule.idSelector, Rule.attributeSelector]

end Kinds

/-- The rules that may enclose a sequence of conditions. -/
def sequenceOuter : List String := [Rule.combinatorSeq, Rule.selector]

/-- The rules that may enclose the capture of the kind of a condition. -/
def kindOuter : List String := Rule.simpleSelector :: Rule.simpleSelectorSeq :: sequenceOuter

theorem Value.filter_mark (start : Nat) (value : Value) :
    (value.captures start).filter (isOf Rule.attributeValue) =
      [⟨Rule.attributeValue, start, start + width value.text⟩] := by
  cases value with
  | name word => exact filter_own rfl ((word.spans start).filter_isOf (by decide))
  | quoted string => exact filter_own rfl ((string.spans start).filter_isOf (by decide))

namespace AttributeTest

/-- Where the value of a test begins. -/
def valueStart (start : Nat) (test : AttributeTest) : Nat :=
  start + width test.before.text + width test.operator.token.toList + width test.between.text

theorem placed {outer : List String} {test : AttributeTest}
    (placed : Placed matched start test.text (test.captures start) outer) :
    Placed matched (start + width test.before.text) test.operator.token.toList
        (closing Rule.comparisonOp (start + width test.before.text) test.operator.token.toList [])
        outer ∧
      Placed matched (test.valueStart start) test.value.text
        (test.value.captures (test.valueStart start)) outer := by
  have behind := placed.skip
  have operator : Spans [Rule.comparisonOp] _ _ (closing Rule.comparisonOp
      (start + width test.before.text) test.operator.token.toList []) :=
    spans_closing (token_ne_nil test.operator) Spans.nil
  have value := test.value.spans (test.valueStart start)
  exact ⟨behind.left (value.weaken (Nat.le_add_right ..) (Nat.le_refl _) fun _ named => named),
    (behind.right operator).skip⟩

theorem filter_operator (start : Nat) (test : AttributeTest) :
    (test.captures start).filter (isOf Rule.comparisonOp) =
      [⟨Rule.comparisonOp, start + width test.before.text,
        start + width test.before.text + width test.operator.token.toList⟩] := by
  rw [AttributeTest.captures, List.filter_append, (test.value.spans _).filter_isOf (by decide),
    List.append_nil]
  exact filter_own rfl (List.filter_nil ..)

theorem filter_value (start : Nat) (test : AttributeTest) :
    (test.captures start).filter (isOf Rule.attributeValue) =
      [⟨Rule.attributeValue, test.valueStart start,
        test.valueStart start + width test.value.text⟩] := by
  rw [AttributeTest.captures, List.filter_append, filter_closing rfl]
  exact Value.filter_mark _ test.value

end AttributeTest

namespace Attribute
variable {brackets : Attribute} {outer : List String}

def nameStart (start : Nat) (brackets : Attribute) : Nat := start + 1 + width brackets.before.text

def testStart (start : Nat) (brackets : Attribute) : Nat :=
  brackets.nameStart start + width brackets.name.text

theorem placed_inner (placed : Placed matched start brackets.text (brackets.captures start) outer) :
    Placed matched (brackets.nameStart start)
      (brackets.name.text ++ ((brackets.test.map AttributeTest.text).getD [] ++
        (brackets.after.text ++ [']'])))
      (brackets.name.captures (brackets.nameStart start) ++
        optional AttributeTest.captures (brackets.testStart start) brackets.test)
      (Rule.attributeSelector :: outer) := by
  have opened : Placed matched start (['['] ++ (brackets.before.text ++ (brackets.name.text ++
      ((brackets.test.map AttributeTest.text).getD [] ++ (brackets.after.text ++ [']']))))) _ _ :=
    placed.inner
  exact opened.skip.skip

theorem filter_test (rule : String) (apart : Rule.attributeSelector ≠ rule)
    (unnamed : Rule.identifier ≠ rule) (start : Nat) (brackets : Attribute) :
    (brackets.captures start).filter (isOf rule) =
      (optional AttributeTest.captures (brackets.testStart start) brackets.test).filter
        (isOf rule) := by
  rw [Attribute.captures, filter_closing (by simpa [isOf] using apart), List.filter_append,
    (brackets.name.spans _).filter_isOf (by simpa using unnamed.symm), List.nil_append]
  rfl

/-- The operator and the value within brackets, if there is a test. -/
theorem read_comparison
    (placed : Placed matched start brackets.text (brackets.captures start) kindOuter) :
    matched.comparison ⟨Rule.attributeSelector, start, start + width brackets.text⟩ =
      .ok (brackets.test.map fun test => (test.operator, test.value.literal)) := by
  have spans := brackets.spans start
  have operators := filter_test Rule.comparisonOp (by decide) (by decide) start brackets
  have values := filter_test Rule.attributeValue (by decide) (by decide) start brackets
  have inner : Placed matched (brackets.testStart start) _ _ _ :=
    (placed_inner placed).right (brackets.name.spans _)
  rw [MatchedText.comparison]
  cases found : brackets.test with
  | none =>
    rw [found] at operators
    rw [placed.firstInside_none spans (by decide) operators]
    rfl
  | some test =>
    rw [found] at operators values inner
    have ⟨operator, value⟩ := AttributeTest.placed inner.cut
    rw [optional, AttributeTest.filter_operator] at operators
    rw [optional, AttributeTest.filter_value] at values
    rw [placed.firstInside spans (by decide) operators (by simp),
      placed.firstInside spans (by decide) values (by simp)]
    simp only [operator.stringOf, value.textOf, String.ofList_toList, Comparison.ofToken?_token]
    rfl

/-- The name within brackets, with the operator and the value. -/
theorem read
    (placed : Placed matched start brackets.text (brackets.captures start) kindOuter) :
    matched.condition? ⟨Rule.attributeSelector, start, start + width brackets.text⟩ =
      .ok (some (Condition.attribute brackets).reading) := by
  have behind := spans_optional AttributeTest.spans (brackets.testStart start) brackets.test
  have named := (placed_inner placed).left behind
  have found : (brackets.captures start).filter (isOf Rule.identifier) =
      brackets.name.mark (brackets.nameStart start) ::
        (optional AttributeTest.captures (brackets.testStart start) brackets.test).filter
          (isOf Rule.identifier) := by
    rw [Attribute.captures, filter_closing rfl, List.filter_append, Name.filter_mark]
    rfl
  have identified := placed.identifier (brackets.spans start) (by decide) named found behind
    Rule.attributeSelector Rule.attributeSelector
  rw [condition?_attribute, identified, read_comparison placed]
  rfl

end Attribute

/-- The name behind a number sign. -/
theorem Name.read_id {name : Name}
    (placed : Placed matched start ('#' :: name.text)
      (closing Rule.idSelector start ('#' :: name.text) (name.captures (start + 1))) kindOuter) :
    matched.condition? ⟨Rule.idSelector, start, start + width ('#' :: name.text)⟩ =
      .ok (some (Condition.id name).reading) := by
  have spans := (Condition.id name).spans_kind start
  have opened : Placed matched start (['#'] ++ name.text) _ _ := placed.inner
  have found : (closing Rule.idSelector start ('#' :: name.text)
      (name.captures (start + 1))).filter (isOf Rule.identifier) =
        name.mark (start + 1) :: List.filter (isOf Rule.identifier) [] := by
    rw [filter_closing rfl, Name.filter_mark]
    rfl
  have nothing : Spans [] (start + 1 + width name.text) (start + 1) [] := Spans.nil
  have identified := placed.identifier spans (by decide) opened.skip found nothing
    Rule.idSelector Rule.idSelector
  rw [condition?_id, identified]
  rfl

theorem withoutParentheses_text (arguments : Arguments) :
    MatchedText.withoutParentheses arguments.text = arguments.inner := by
  simp [MatchedText.withoutParentheses, Arguments.text]

theorem Arguments.filter_mark (start : Nat) (arguments : Arguments) :
    (arguments.captures start).filter (isOf Rule.pseudoArgs) =
      [⟨Rule.pseudoArgs, start, start + width arguments.text⟩] :=
  filter_own rfl ((spans_spread Argument.spans (start + 1) arguments.items).filter_isOf (by decide))

/-- The name behind a colon, and what stands between the outer parentheses. -/
theorem Name.read_pseudo {name : Name} {arguments : Option Arguments}
    (placed : Placed matched start (Condition.pseudo name arguments).text
      ((Condition.pseudo name arguments).kindCaptures start) kindOuter) :
    matched.condition?
        ⟨Rule.pseudoSelector, start, start + width (Condition.pseudo name arguments).text⟩ =
      .ok (some (Condition.pseudo name arguments).reading) := by
  have spans := (Condition.pseudo name arguments).spans_kind start
  have opened : Placed matched start ([':'] ++ (name.text ++
      (arguments.map Arguments.text).getD [])) _ _ := placed.inner
  have behind := spans_optional Arguments.spans (start + 1 + width name.text) arguments
  have named := opened.skip.left behind
  have called : Placed matched (start + 1 + width name.text) _ _ _ :=
    opened.skip.right (name.spans _)
  have found (rule : String) (apart : Rule.pseudoSelector ≠ rule) :
      ((Condition.pseudo name arguments).kindCaptures start).filter (isOf rule) =
        (name.captures (start + 1)).filter (isOf rule) ++
          (optional Arguments.captures (start + 1 + width name.text) arguments).filter
            (isOf rule) := by
    rw [Condition.kindCaptures, filter_closing (by simpa [isOf] using apart), List.filter_append]
  have identified := placed.identifier spans (by decide) named
    (by rw [found _ (by decide), Name.filter_mark]; rfl) behind
    Rule.pseudoSelector Rule.pseudoSelector
  have inParentheses := found Rule.pseudoArgs (by decide)
  rw [(name.spans _).filter_isOf (by decide), List.nil_append] at inParentheses
  rw [condition?_pseudo, identified]
  cases arguments with
  | none =>
    rw [placed.firstInside_none spans (by decide) inParentheses]
    rfl
  | some arguments =>
    rw [optional, Arguments.filter_mark] at inParentheses
    have text : matched.textOf ⟨Rule.pseudoArgs, start + 1 + width name.text,
        start + 1 + width name.text + width arguments.text⟩ = arguments.text :=
      called.textOf Rule.pseudoArgs
    rw [placed.firstInside spans (by decide) inParentheses (by simp)]
    simp only [Option.map_some, text, withoutParentheses_text]
    rfl

/-- The capture of the kind of a condition. -/
def Condition.mark (start : Nat) (condition : Condition) : Capture :=
  match condition with
  | .attribute brackets => ⟨Rule.attributeSelector, start, start + width brackets.text⟩
  | .id name => ⟨Rule.idSelector, start, start + width ('#' :: name.text)⟩
  | .pseudo name arguments =>
      ⟨Rule.pseudoSelector, start, start + width (Condition.pseudo name arguments).text⟩

theorem Condition.read {condition : Condition}
    (placed : Placed matched start condition.text (condition.captures start)
      (Rule.simpleSelectorSeq :: sequenceOuter)) :
    matched.condition? (condition.mark start) = .ok (some condition.reading) := by
  have inner := placed.inner
  rcases condition with brackets | name | ⟨name, arguments⟩
  · exact Attribute.read inner
  · exact Name.read_id inner
  · exact Name.read_pseudo inner

def Head.mark (start : Nat) : Head → Capture
  | .type name => ⟨Rule.typeSelector, start, start + width name.text⟩
  | .universal => ⟨Rule.universalSelector, start, start + width ['*']⟩

theorem Head.read {head : Head} {outer : List String}
    (placed : Placed matched start head.text (head.captures start) outer) :
    matched.condition? (head.mark start) = .ok (some head.reading) := by
  cases head with
  | type name =>
    have string : matched.stringOf ⟨Rule.typeSelector, start, start + width name.text⟩ =
        name.string := placed.stringOf Rule.typeSelector
    simp [MatchedText.condition?, Head.mark, Head.reading, string]
  | universal => rfl

end TreeSelect.Derivation
