import TreeSelect.Grammar.Selectors
import TreeSelect.Proofs.Derivation.Shipped

/-! Each pattern of the selector grammar matches exactly the derivations of its rule, and the
grammar is compiled from these patterns. -/

namespace TreeSelect.Derivation
open TreeSelect.Text Way

theorem spread_silent {Tree : Type} (text : Tree → List Char) (start : Nat) (trees : List Tree) :
    spread text (fun _ _ => []) start trees = [] := by
  induction trees generalizing start with
  | nil => rfl
  | cons tree trees ih => simpa [spread] using ih _

/-- A run is a list of admitted letters. -/
theorem spells_run (set : CharClass) :
    Spells (.repeated (.oneOf set) .star) (fun run : Run set.contains => run.text)
      (fun _ _ => []) := by
  apply (Spells.oneOf set).repeated.present fun letters =>
    ⟨letters.map Subtype.val, by
      intro letter member
      obtain ⟨admitted, _, rfl⟩ := List.mem_map.mp member
      exact admitted.property⟩
  · rintro ⟨text, admitted⟩
    refine ⟨text.attach.map fun letter => ⟨letter.val, admitted letter.val letter.property⟩, ?_⟩
    simp
  · intro letters
    simp
  · intro start letters
    exact (spread_silent _ start letters).symm

theorem contains_blank (letter : Char) :
    (⟨false, [.blank]⟩ : CharClass).contains letter = isBlank letter := by
  simp [CharClass.contains, ClassItem.contains]

theorem spells_blanks :
    Spells Rules.blanks (fun blanks : Blanks => blanks.text) (fun _ _ => []) := by
  apply (spells_run ⟨false, [.blank]⟩).present fun run =>
    ⟨run.text, fun letter member => contains_blank letter ▸ run.admitted letter member⟩
  · rintro ⟨text, admitted⟩
    exact ⟨⟨text, fun letter member => contains_blank letter ▸ admitted letter member⟩, rfl⟩
  · exact fun _ => rfl
  · exact fun _ _ => rfl

theorem spells_name : Spells Rules.name Name.text Name.captures := by
  have parts := ((Spells.char '-').maybe.cons
    ((Spells.oneOf nameStart).cons (spells_run nameLetter).last)).capture Rule.identifier
  apply parts.present fun parts => ⟨parts.1, parts.2.1.val, parts.2.1.property, parts.2.2⟩
  · rintro ⟨dash, first, starts, more⟩
    exact ⟨(dash, ⟨first, starts⟩, more), rfl⟩
  · rintro ⟨_ | _, first, more⟩ <;> rfl
  · rintro start ⟨_ | _, first, more⟩ <;> rfl

theorem spells_quotedItem (mark : Char) :
    Spells (Rules.quotedItem mark) (fun item : QuotedItem mark => item.text) (fun _ _ => []) := by
  have parts := (Spells.oneOf (quotedLetter mark)).orElse
    (((Spells.char '\\').cons ((Spells.char '\r').cons (Spells.char '\n').last)).orElse
      ((Spells.char '\\').cons Spells.anyChar.last).otherwise)
  apply parts.present (Sum.elim (fun letter => .plain letter.val letter.property)
    (Sum.elim (fun _ => .lineEnd) fun pair => .escaped pair.2))
  · rintro (⟨letter, ordinary⟩ | _ | letter)
    · exact ⟨.inl ⟨letter, ordinary⟩, rfl⟩
    · exact ⟨.inr (.inl ((), (), ())), rfl⟩
    · exact ⟨.inr (.inr ((), letter)), rfl⟩
  · rintro (_ | _ | _) <;> rfl
  · rintro start (_ | _ | _) <;> rfl

theorem spells_quotedBy (mark : Char) :
    Spells (Rules.quotedBy mark)
      (fun items : List (QuotedItem mark) => mark :: items.flatMap QuotedItem.text ++ [mark])
      (fun _ _ => []) := by
  have parts := (Spells.char mark).cons
    ((spells_quotedItem mark).repeated.cons (Spells.char mark).last)
  apply parts.present fun parts => parts.2.1
  · exact fun items => ⟨((), items, ()), rfl⟩
  · exact fun _ => rfl
  · rintro start ⟨_, items, _⟩
    simp [spread_silent]

theorem spells_quoted : Spells Rules.quoted Quoted.text Quoted.captures := by
  have parts := ((spells_quotedBy '"').orElse (spells_quotedBy '\'').otherwise).capture
    Rule.quotedString
  apply parts.present (Sum.elim .double .single)
  · rintro (items | items)
    · exact ⟨.inl items, rfl⟩
    · exact ⟨.inr items, rfl⟩
  · rintro (_ | _) <;> rfl
  · rintro start (_ | _) <;> rfl

theorem spells_value : Spells Rules.value Value.text Value.captures := by
  have parts := (Spells.orElse spells_name (Spells.otherwise spells_quoted)).capture
    Rule.attributeValue
  apply parts.present (Sum.elim .name .quoted)
  · rintro (word | string)
    · exact ⟨.inl word, rfl⟩
    · exact ⟨.inr string, rfl⟩
  · rintro (_ | _) <;> rfl
  · rintro start (_ | _) <;> rfl

/-- The comparison whose token begins with a letter in front of the equals sign. -/
def comparisonOf : Char → Comparison
  | '~' => .includes
  | '|' => .dashMatch
  | '^' => .startsWith
  | '$' => .endsWith
  | '*' => .contains
  | _ => .lacks

theorem operatorLetter_iff (letter : Char) :
    Rules.operatorLetter.contains letter = true ↔
      letter = '~' ∨ letter = '^' ∨ letter = '$' ∨ letter = '*' ∨ letter = '|' ∨ letter = '!' := by
  simp only [CharClass.contains, Rules.operatorLetter, List.any_cons, List.any_nil, Bool.or_false,
    Bool.bne_false, Bool.or_eq_true, range_contains_iff]

theorem token_comparisonOf {letter : Char}
    (admitted : Rules.operatorLetter.contains letter = true) :
    (comparisonOf letter).token.toList = [letter, '='] := by
  rcases (operatorLetter_iff letter).mp admitted with rfl | rfl | rfl | rfl | rfl | rfl <;> rfl

theorem spells_operator :
    Spells Rules.operator (fun operator : Comparison => operator.token.toList)
      (fun start operator => closing Rule.comparisonOp start operator.token.toList []) := by
  have parts := ((Spells.oneOf Rules.operatorLetter).maybe.cons
    (Spells.char '=').last).capture Rule.comparisonOp
  have token : ∀ parts : Option { letter : Char // Rules.operatorLetter.contains letter = true } ×
      Unit, (parts.1.elim Comparison.equals fun letter => comparisonOf letter.val).token.toList =
        ((parts.1.map fun letter => [letter.val]).getD []) ++ ['='] := by
    rintro ⟨_ | ⟨letter, admitted⟩, _⟩
    · exact (by decide : Comparison.equals.token.toList = ['='])
    · exact token_comparisonOf admitted
  apply parts.present fun parts => parts.1.elim .equals fun letter => comparisonOf letter.val
  · have begins (letter : Char) (admitted : Rules.operatorLetter.contains letter = true) :
        ∃ parts : Option { letter : Char // Rules.operatorLetter.contains letter = true } × Unit,
          (parts.1.elim Comparison.equals fun letter => comparisonOf letter.val) =
            comparisonOf letter :=
      ⟨(some ⟨letter, admitted⟩, ()), rfl⟩
    intro operator
    cases operator with
    | equals => exact ⟨(none, ()), rfl⟩
    | includes => exact begins '~' (by decide)
    | dashMatch => exact begins '|' (by decide)
    | startsWith => exact begins '^' (by decide)
    | endsWith => exact begins '$' (by decide)
    | contains => exact begins '*' (by decide)
    | lacks => exact begins '!' (by decide)
  · exact token
  · intro start parts
    rw [token]
    rcases parts with ⟨_ | _, _⟩ <;> rfl

theorem spells_test : Spells Rules.test AttributeTest.text AttributeTest.captures := by
  have parts := Spells.cons spells_blanks (Spells.cons spells_operator
    (Spells.cons spells_blanks (Spells.last spells_value)))
  apply parts.present fun parts => ⟨parts.1, parts.2.1, parts.2.2.1, parts.2.2.2⟩
  · exact fun test => ⟨(test.before, test.operator, test.between, test.value), rfl⟩
  · exact fun _ => rfl
  · exact fun _ _ => rfl

theorem spells_brackets : Spells Rules.brackets Attribute.text Attribute.captures := by
  have parts := ((Spells.char '[').cons (Spells.cons spells_blanks (Spells.cons spells_name
    ((Spells.maybe spells_test).cons (Spells.cons spells_blanks (Spells.char ']').last))))).capture
      Rule.attributeSelector
  apply parts.present fun parts =>
    ⟨parts.2.1, parts.2.2.1, parts.2.2.2.1, parts.2.2.2.2.1⟩
  · exact fun brackets =>
      ⟨((), brackets.before, brackets.name, brackets.test, brackets.after, ()), rfl⟩
  · exact fun _ => rfl
  · rintro start ⟨_, before, name, test, after, _⟩
    have one : '['.utf8Size = 1 := rfl
    simp [Attribute.captures, Attribute.text, closing, width, one]

theorem spells_argument : Spells Rules.argument Argument.text Argument.captures := by
  have parts := Spells.orElse spells_quoted (Spells.oneOf argumentLetter).otherwise
  apply parts.present (Sum.elim .quoted fun letter => .plain letter.val letter.property)
  · rintro (string | ⟨letter, ordinary⟩)
    · exact ⟨.inl string, rfl⟩
    · exact ⟨.inr ⟨letter, ordinary⟩, rfl⟩
  · rintro (_ | _) <;> rfl
  · rintro start (_ | _) <;> rfl

theorem spells_arguments : Spells Rules.arguments Arguments.text Arguments.captures := by
  have parts := ((Spells.char '(').cons
    ((Spells.repeated spells_argument).cons (Spells.char ')').last)).capture Rule.pseudoArgs
  apply parts.present fun parts => ⟨parts.2.1⟩
  · exact fun arguments => ⟨((), arguments.items, ()), rfl⟩
  · exact fun _ => rfl
  · rintro start ⟨_, items, _⟩
    have one : '('.utf8Size = 1 := rfl
    simp [Arguments.captures, Arguments.text, Arguments.inner, closing, width, one]

theorem spells_condition : Spells Rules.condition Condition.text Condition.captures := by
  have id := ((Spells.char '#').cons (Spells.last spells_name)).capture Rule.idSelector
  have pseudo := ((Spells.char ':').cons
    (Spells.cons spells_name (Spells.maybe spells_arguments).last)).capture Rule.pseudoSelector
  have parts := (Spells.orElse spells_brackets (id.orElse pseudo.otherwise)).capture
    Rule.simpleSelector
  apply parts.present (Sum.elim .attribute
    (Sum.elim (fun parts => .id parts.2) fun parts => .pseudo parts.2.1 parts.2.2))
  · rintro (brackets | name | ⟨name, arguments⟩)
    · exact ⟨.inl brackets, rfl⟩
    · exact ⟨.inr (.inl ((), name)), rfl⟩
    · exact ⟨.inr (.inr ((), name, arguments)), rfl⟩
  · rintro (_ | _ | _) <;> rfl
  · rintro start (_ | _ | _) <;> rfl

theorem spells_head : Spells Rules.head Head.text Head.captures := by
  have parts := (Spells.capture spells_name Rule.typeSelector).orElse
    ((Spells.char '*').capture Rule.universalSelector).otherwise
  apply parts.present (Sum.elim .type fun _ => .universal)
  · rintro (name | _)
    · exact ⟨.inl name, rfl⟩
    · exact ⟨.inr (), rfl⟩
  · rintro (_ | _) <;> rfl
  · rintro start (_ | _) <;> rfl

theorem spells_sequence : Spells Rules.sequence Sequence.text Sequence.captures := by
  have parts := ((Spells.cons spells_head (Spells.repeated spells_condition).last).orElse
    (Spells.atLeastOnce spells_condition).otherwise).capture Rule.simpleSelectorSeq
  apply parts.present (Sum.elim (fun parts => .headed parts.1 parts.2)
    fun parts => .bare parts.1 parts.2)
  · rintro (⟨head, conditions⟩ | ⟨first, more⟩)
    · exact ⟨.inl (head, conditions), rfl⟩
    · exact ⟨.inr (first, more), rfl⟩
  · rintro (_ | _) <;> rfl
  · rintro start (_ | _) <;> rfl

theorem spells_joint : Spells Rules.joint Joint.text Joint.captures := by
  have parts := (Spells.cons spells_blanks (((Spells.oneOf combinatorLetter).capture
    Rule.combinator).cons (Spells.cons spells_blanks (Spells.last spells_sequence)))).capture
      Rule.combinatorSeq
  apply parts.present fun parts =>
    ⟨parts.1, ⟨parts.2.1.val, parts.2.1.property⟩, parts.2.2.1, parts.2.2.2⟩
  · exact fun joint => ⟨(joint.before, ⟨joint.token.letter, joint.token.valid⟩, joint.after,
      joint.sequence), rfl⟩
  · exact fun _ => rfl
  · exact fun _ _ => rfl

theorem spells_element :
    Spells Rules.element (fun name => ':' :: ':' :: name.text) elementCaptures := by
  have parts := ((Spells.char ':').cons
    ((Spells.char ':').cons (Spells.last spells_name))).capture Rule.pseudoElement
  apply parts.present fun parts => parts.2.2
  · exact fun name => ⟨((), (), name), rfl⟩
  · exact fun _ => rfl
  · exact fun _ _ => rfl

theorem spells_selector : Spells Rules.selector Selector.text Selector.captures := by
  have parts := (Spells.cons spells_sequence
    ((Spells.repeated spells_joint).cons (Spells.maybe spells_element).last)).capture Rule.selector
  apply parts.present fun parts => ⟨parts.1, parts.2.1, parts.2.2⟩
  · exact fun selector => ⟨(selector.first, selector.joints, selector.pseudoElement), rfl⟩
  · exact fun _ => rfl
  · exact fun _ _ => rfl

theorem spells_alternative :
    Spells Rules.alternative Alternative.text Alternative.captures := by
  have parts := Spells.cons spells_blanks ((Spells.char ',').cons
    (Spells.cons spells_blanks (Spells.last spells_selector)))
  apply parts.present fun parts => ⟨parts.1, parts.2.2.1, parts.2.2.2⟩
  · exact fun alternative =>
      ⟨(alternative.before, (), alternative.after, alternative.selector), rfl⟩
  · exact fun _ => rfl
  · rintro start ⟨before, _, after, selector⟩
    have one : ','.utf8Size = 1 := rfl
    simp [Alternative.captures, width, one]

/-- Each way to match a text from its start is a derivation of the whole text. -/
theorem exists_group_of_way {text : List Char} {way : Way}
    (member : way ∈ Rules.group.ways (.start text)) :
    ∃ group : Group, group.text = text ∧ way.captures = group.captures := by
  obtain ⟨start, atStart, _, behindStart, rfl⟩ := (mem_followedBy _ _ _).mp member
  have unmoved : start = ⟨.start text, []⟩ := by
    simpa [Pattern.ways, Place.start] using atStart
  subst unmoved
  obtain ⟨_, left, _, behindLeft, rfl⟩ := (mem_followedBy _ _ _).mp behindStart
  obtain ⟨_, middle, _, behindMiddle, rfl⟩ := (mem_followedBy _ _ _).mp behindLeft
  obtain ⟨_, right, _, behindRight, rfl⟩ := (mem_followedBy _ _ _).mp behindMiddle
  obtain ⟨last, ending, stop, atEnd, rfl⟩ := (mem_followedBy _ _ _).mp behindRight
  obtain ⟨before, beforeLeads, beforeCaptures⟩ := Spells.sound spells_blanks _ _ left
  obtain ⟨first, firstLeads, firstCaptures⟩ := Spells.sound spells_selector _ _ middle
  obtain ⟨more, moreLeads, moreCaptures⟩ := (Spells.repeated spells_alternative).sound _ _ right
  obtain ⟨after, afterLeads, afterCaptures⟩ := Spells.sound spells_blanks _ _ ending
  have stops : last.stop.rest = [] ∧ stop = ⟨last.stop, []⟩ := by
    have closing : stop ∈ (Pattern.sequence [.atEnd]).ways last.stop := atEnd
    rw [Pattern.ways_sequence_last] at closing
    simpa [Pattern.ways] using closing
  have whole := beforeLeads.trans (firstLeads.trans (moreLeads.trans afterLeads))
  refine ⟨⟨before, first, more, after⟩, ?_, ?_⟩
  · have rest := whole.rest
    rw [stops.1, List.append_nil] at rest
    exact rest.symm
  · have behind := beforeLeads.position
    rw [stops.2]
    simp [beforeCaptures, firstCaptures, moreCaptures, afterCaptures, firstLeads.position, behind,
      Group.captures, Place.start]

/-- The text of every derivation is matched. -/
theorem accepts_group (group : Group) : Rules.group.Accepts group.text := by
  have whole : (Place.start group.text).Leads group.text ⟨width group.text, []⟩ :=
    ⟨(List.append_nil _).symm, by simp [Place.start]⟩
  obtain ⟨_, before, further⟩ := whole.split
  obtain ⟨_, first, further⟩ := further.split
  obtain ⟨_, more, after⟩ := further.split
  refine ⟨⟨width group.text, []⟩, ?_, rfl⟩
  exact .sequenceMore (.atStart rfl) (.sequenceMore (Spells.complete spells_blanks _ _ _ before)
    (.sequenceMore (Spells.complete spells_selector _ _ _ first) (.sequenceMore
      ((Spells.repeated spells_alternative).complete _ _ _ more)
        (.sequenceMore (Spells.complete spells_blanks _ _ _ after)
          (.sequenceMore (.atEnd rfl) .sequenceDone)))))

/-- The language of the grammar of selectors is the texts of its derivations. -/
theorem accepts_iff_exists_group (text : List Char) :
    Rules.group.Accepts text ↔ ∃ group : Group, group.text = text := by
  constructor
  · intro accepts
    obtain ⟨way, first⟩ :=
      Option.isSome_iff_exists.mp ((Rules.group.accepts_iff_firstWay? text).mp accepts)
    obtain ⟨group, same, _⟩ := exists_group_of_way (List.mem_of_find?_eq_some first)
    exact ⟨group, same⟩
  · rintro ⟨group, rfl⟩
    exact accepts_group group

/-- The expanded text of the grammar of selectors is read as the patterns of its rules. The names
and templates are turned into lists of letters before anything is evaluated. -/
theorem parse_selectors :
    ((RuleTable.selectors.expand Rule.groupOfSelectors).bind Pattern.parse).toOption =
      some Rules.group := by
  simp only [RuleTable.selectors, RuleTable.expand, RuleTable.ofList, List.map_cons, List.map_nil,
    Rule.groupOfSelectors, Rule.selector, Rule.combinatorSeq, Rule.simpleSelectorSeq,
    Rule.simpleSelector, Rule.typeSelector, Rule.universalSelector, Rule.attributeSelector,
    Rule.idSelector, Rule.pseudoSelector, Rule.pseudoElement, Rule.pseudoArgs, Rule.comparisonOp,
    Rule.combinator, Rule.identifier, Rule.attributeValue, Rule.quotedString]
  repeat rw [String.toList_ofList]
  decide +kernel

theorem program_ofOk (result : Except GrammarError Grammar) (succeeded : result.isOk = true)
    (grammar : Grammar) (same : result = .ok grammar) :
    (Grammar.ofOk result succeeded).program = grammar.program := by
  subst same
  rfl

/-- The grammar of selectors is compiled from the patterns of its rules. -/
theorem program_selectors : Grammar.selectors.program = Rules.group.compile := by
  have parsed := parse_selectors
  cases expanded : RuleTable.selectors.expand Rule.groupOfSelectors with
  | error error =>
    rw [expanded] at parsed
    cases parsed
  | ok source =>
    rw [expanded] at parsed
    change (Pattern.parse source).toOption = some Rules.group at parsed
    cases read : Pattern.parse source with
    | error error =>
      rw [read] at parsed
      cases parsed
    | ok pattern =>
      rw [read] at parsed
      have same : pattern = Rules.group := Option.some.inj parsed
      apply program_ofOk _ _ ⟨Rule.groupOfSelectors, source, Rules.group.compile⟩
      rw [RuleTable.compile, expanded, ← same]
      change (Pattern.parse source).bind _ = _
      rw [read]
      rfl

end TreeSelect.Derivation
