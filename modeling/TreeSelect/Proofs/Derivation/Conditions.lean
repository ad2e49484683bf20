import TreeSelect.Proofs.Derivation.Opening

/-! The conditions on one element are settled by their text and by what may follow: names end where
no further letter of names stands, and brackets, quotes and parentheses where they are closed. -/

namespace TreeSelect.Derivation
open TreeSelect.Text

theorem settles_blanks : Settles (fun blanks : Blanks => blanks.text) (fun _ => ()) (Bars isBlank) :=
  (settles_run isBlank).present (fun blanks => blanks) (fun _ => ()) (fun _ => rfl) fun _ => rfl

theorem settles_name : Settles Name.text Name.text (Bars nameLetter.contains) :=
  fun first second _ _ _ barred otherBarred same =>
    run_unique first.letters second.letters barred otherBarred same

theorem ne_of_quotedLetter {mark letter : Char}
    (ordinary : (quotedLetter mark).contains letter = true) :
    letter ≠ '\\' ∧ letter ≠ mark ∧ letter ≠ '\n' := by
  simp only [CharClass.contains, quotedLetter, List.any_cons, List.any_nil, Bool.or_false,
    Bool.bne_true, Bool.not_eq_true', Bool.or_eq_false_iff] at ordinary
  have apart (other : Char) (outside : (ClassItem.range other other).contains letter = false) :
      letter ≠ other := by
    intro same
    rw [(range_contains_iff other letter).mpr same] at outside
    cases outside
  exact ⟨apart _ ordinary.1, apart _ ordinary.2.1, apart _ ordinary.2.2.2⟩

/-- A line end may stand escaped but not by itself, so the two letters of an escaped one are not
taken apart. -/
theorem settles_quotedItem (mark : Char) :
    Settles (fun item : QuotedItem mark => item.text) QuotedItem.text (Bars (· == '\n')) := by
  rintro (⟨letter, ordinary⟩ | _ | letter) (⟨further, alike⟩ | _ | further) rest other _ barred
    otherBarred same
  · cases same
    exact ⟨rfl, rfl⟩
  · cases same
    exact absurd rfl (ne_of_quotedLetter ordinary).1
  · cases same
    exact absurd rfl (ne_of_quotedLetter ordinary).1
  · cases same
    exact absurd rfl (ne_of_quotedLetter alike).1
  · cases same
    exact ⟨rfl, rfl⟩
  · cases same
    simp at otherBarred
  · cases same
    exact absurd rfl (ne_of_quotedLetter alike).1
  · cases same
    simp at barred
  · cases same
    exact ⟨rfl, rfl⟩

theorem QuotedItem.head {mark : Char} (item : QuotedItem mark) (rest : List Char) :
    ∃ letter more, item.text ++ rest = letter :: more ∧ (letter = '\\' ∨
      (letter ≠ mark ∧ letter ≠ '\n')) := by
  cases item with
  | plain letter ordinary =>
    exact ⟨letter, rest, rfl, .inr (ne_of_quotedLetter ordinary).2⟩
  | lineEnd => exact ⟨_, _, rfl, .inl rfl⟩
  | escaped letter => exact ⟨_, _, rfl, .inl rfl⟩

/-- The letters between two quotes are settled by what stands between them. -/
theorem settles_quotedBy (mark : Char) (proper : mark ≠ '\\') (visible : mark ≠ '\n') :
    Settles (fun items : List (QuotedItem mark) => mark :: items.flatMap QuotedItem.text ++ [mark])
      (fun items => mark :: items.flatMap QuotedItem.text ++ [mark]) fun _ => True := by
  have items : Settles (fun items : List (QuotedItem mark) => items.flatMap QuotedItem.text)
      (List.map QuotedItem.text) (fun rest => ∃ more, rest = mark :: more) := by
    apply (settles_quotedItem mark).repeated
    · intro item rest _
      obtain ⟨letter, more, same, escape | ⟨_, ordinary⟩⟩ := item.head rest
      · simp [same, escape]
      · simpa [same] using ordinary
    · rintro _ _ ⟨more, rfl⟩
      simpa using visible
    · rintro item rest _ _ ⟨more, rfl⟩ same
      obtain ⟨letter, further, begins, escape | ⟨ordinary, _⟩⟩ := item.head rest
      · rw [begins, escape] at same
        exact proper (List.cons.inj same).1.symm
      · rw [begins] at same
        exact ordinary (List.cons.inj same).1
  have parts := (settles_letter mark).sequence
    (items.sequence (settles_letter mark) fun _ rest _ _ => ⟨rest, rfl⟩) fun _ _ _ _ => trivial
  apply parts.present (fun items => ((), items, ())) fun parts => mark :: parts.2.1.flatten ++ [mark]
  · exact fun _ => rfl
  · intro items
    rw [List.flatMap_def]

def Quoted.parts : Quoted → List (QuotedItem '"') ⊕ List (QuotedItem '\'')
  | .double items => .inl items
  | .single items => .inr items

theorem settles_quoted : Settles Quoted.text Quoted.text fun _ => True := by
  have parts := (settles_quotedBy '"' (by decide) (by decide)).choice
    (settles_quotedBy '\'' (by decide) (by decide)) (by simp)
  apply parts.present Quoted.parts (Sum.elim (fun text => text) fun text => text)
  · rintro (_ | _) <;> rfl
  · rintro (_ | _) <;> rfl

theorem Quoted.opens (string : Quoted) :
    Opens (fun letter => letter == '"' || letter == '\'') string.text := by
  cases string with
  | double items => exact ⟨'"', _, rfl, rfl⟩
  | single items => exact ⟨'\'', _, rfl, rfl⟩

def Value.parts : Value → Name ⊕ Quoted
  | .name word => .inl word
  | .quoted string => .inr string

theorem settles_value : Settles Value.text Value.text (Bars nameLetter.contains) := by
  have parts := Settles.choice settles_name (Settles.narrow settles_quoted fun _ _ _ => trivial)
    fun name string rest other same => by
      have opens := (string.opens).append other
      rw [← same] at opens
      have barred : Bars (fun letter => letter == '"' || letter == '\'') (name.text ++ rest) :=
        (name.opens.append rest).bars fun letter _ named => by
          simp only [Bool.or_eq_false_iff, beq_eq_false_iff_ne]
          constructor <;> rintro rfl <;> exact absurd named (by decide)
      exact opens.not_bars barred
  apply parts.present Value.parts (Sum.elim (fun text => text) fun text => text)
  · rintro (_ | _) <;> rfl
  · rintro (_ | _) <;> rfl

theorem settles_operator :
    Settles (fun operator : Comparison => operator.token.toList) (fun operator => operator)
      fun _ => True := by
  intro first second rest other _ _ _ same
  cases first <;> cases second <;> simp_all [Comparison.token]

/-- The letters that do not go on with a name or a run of blanks, and do not close brackets. -/
def tokenLetter (letter : Char) : Bool :=
  !(nameLetter.contains letter || isBlank letter || letter == ']')

theorem tokenLetter_iff (letter : Char) :
    tokenLetter letter = true ↔
      nameLetter.contains letter = false ∧ isBlank letter = false ∧ letter ≠ ']' := by
  simp [tokenLetter, and_assoc]

theorem token_opens (operator : Comparison) : Opens tokenLetter operator.token.toList := by
  cases operator with
  | equals => exact ⟨'=', [], by decide, by decide⟩
  | includes => exact ⟨'~', ['='], by decide, by decide⟩
  | dashMatch => exact ⟨'|', ['='], by decide, by decide⟩
  | startsWith => exact ⟨'^', ['='], by decide, by decide⟩
  | endsWith => exact ⟨'$', ['='], by decide, by decide⟩
  | contains => exact ⟨'*', ['='], by decide, by decide⟩
  | lacks => exact ⟨'!', ['='], by decide, by decide⟩

theorem Value.opens (value : Value) : Opens valueLetter value.text := by
  cases value with
  | name word => exact word.opens.weaken fun letter named => by simp [valueLetter, named]
  | quoted string =>
    refine string.opens.weaken fun letter quote => ?_
    simp only [Bool.or_eq_true] at quote
    simpa [valueLetter, or_assoc] using Or.inr quote

theorem Value.bars_blanks (value : Value) {rest : List Char}
    (unmixed : Unmixed (value.text ++ rest)) : Bars isBlank (value.text ++ rest) :=
  (value.opens.append rest).bars fun letter member =>
    not_blank_of_valueLetter (unmixed letter member)

theorem Name.bars_blanks (name : Name) {rest : List Char}
    (unmixed : Unmixed (name.text ++ rest)) : Bars isBlank (name.text ++ rest) :=
  (name.opens.append rest).bars fun letter member named =>
    not_blank_of_valueLetter (unmixed letter member) (by simp [valueLetter, named])

/-- A name ends at blanks, and behind them it does not go on. -/
theorem bars_names_of_blanks (blanks : Blanks) {rest : List Char}
    (unmixed : Unmixed (blanks.text ++ rest)) (barred : Bars nameLetter.contains rest) :
    Bars nameLetter.contains (blanks.text ++ rest) := by
  rcases blanks with ⟨_ | ⟨letter, text⟩, admitted⟩
  · exact barred
  · have blank := admitted letter (List.mem_cons_self ..)
    have narrow := unmixed letter (List.mem_cons_self ..)
    refine (bars_cons _ _ _).mpr (Bool.eq_false_iff.mpr fun named => ?_)
    have apart := not_blank_of_valueLetter narrow (by simp [valueLetter, named])
    rw [blank] at apart
    cases apart

/-- The operator, the value with its quotes, and where they end. -/
theorem settles_test :
    Settles AttributeTest.text (fun test => (test.operator, test.value.text))
      (Bars nameLetter.contains) := by
  have right := Settles.sequence settles_blanks settles_value fun value _ unmixed _ =>
    value.bars_blanks unmixed
  have middle := Settles.sequence settles_operator right fun _ _ _ _ => trivial
  have parts := Settles.sequence settles_blanks middle fun parts rest _ _ => by
    rw [List.append_assoc]
    exact ((token_opens parts.1).append _).bars fun letter _ begins =>
      ((tokenLetter_iff letter).mp begins).2.1
  exact parts.present (fun test => (test.before, test.operator, test.between, test.value))
    (fun parts => (parts.2.1, parts.2.2.2)) (fun _ => rfl) fun _ => rfl

/-- What may stand between the name of an attribute with its test and the end of the brackets. -/
def Closes (rest : List Char) : Prop := ∃ (blanks : Blanks) (more : List Char),
  rest = blanks.text ++ ']' :: more

theorem Closes.bars {rest : List Char} (unmixed : Unmixed rest) (closes : Closes rest) :
    Bars nameLetter.contains rest := by
  obtain ⟨blanks, more, rfl⟩ := closes
  exact bars_names_of_blanks blanks unmixed ((bars_cons _ _ _).mpr (by decide))

theorem AttributeTest.not_closes (test : AttributeTest) (rest : List Char) :
    ¬ Closes (test.text ++ rest) := by
  rintro ⟨blanks, more, same⟩
  obtain ⟨letter, further, token, begins⟩ := token_opens test.operator
  obtain ⟨_, solid, unclosed⟩ := (tokenLetter_iff letter).mp begins
  have whole : test.before.text ++ (letter :: (further ++ (test.between.text ++
      (test.value.text ++ rest)))) = blanks.text ++ ']' :: more := by
    simpa [AttributeTest.text, token] using same
  have rests := (run_unique test.before.admitted blanks.admitted
    ((bars_cons _ _ _).mpr solid) ((bars_cons _ _ _).mpr (by decide)) whole).2
  exact unclosed (List.cons.inj rests).1

theorem settles_brackets :
    Settles Attribute.text (fun brackets => (Condition.attribute brackets).reading)
      fun _ => True := by
  have closing := Settles.sequence settles_blanks (settles_letter ']') fun _ _ _ _ => by
    simp; decide
  have tested := (Settles.maybe settles_test (fun _ => Closes.bars) fun test rest _ _ closes same =>
    test.not_closes rest (same ▸ closes)).sequence closing fun parts rest _ _ =>
      ⟨parts.1, rest, by simp⟩
  have named := Settles.sequence settles_name tested fun parts rest unmixed _ => by
    rcases parts with ⟨_ | test, after, _⟩
    · exact Closes.bars unmixed ⟨after, rest, by simp⟩
    · have behind : Bars nameLetter.contains (test.operator.token.toList ++ (test.between.text ++
          (test.value.text ++ (after.text ++ ']' :: rest)))) :=
        ((token_opens test.operator).append _).bars fun letter _ begins =>
          ((tokenLetter_iff letter).mp begins).1
      simp only [Option.map_some, Option.getD_some, AttributeTest.text, List.append_assoc,
        List.singleton_append] at unmixed ⊢
      exact bars_names_of_blanks test.before unmixed behind
  have inner := Settles.sequence settles_blanks named fun parts rest unmixed _ => by
    rw [List.append_assoc] at unmixed ⊢
    exact parts.1.bars_blanks unmixed
  have parts := (settles_letter '[').sequence inner fun _ _ _ _ => trivial
  apply parts.present (fun brackets => ((), brackets.before, brackets.name, brackets.test,
      brackets.after, ())) fun parts => .attribute (String.ofList parts.2.2.1)
    (parts.2.2.2.1.map fun test => (test.1, String.ofList (unquote test.2)))
  · exact fun _ => rfl
  · rintro ⟨before, name, _ | test, after⟩ <;> rfl

theorem ne_of_argumentLetter {letter : Char} (ordinary : argumentLetter.contains letter = true) :
    letter ≠ ')' ∧ letter ≠ '\'' ∧ letter ≠ '"' := by
  refine ⟨?_, ?_, ?_⟩ <;> rintro rfl <;> exact absurd ordinary (by decide)

theorem Argument.opens (argument : Argument) :
    Opens (fun letter => letter != ')') argument.text := by
  cases argument with
  | quoted string =>
    refine string.opens.weaken fun letter quote => ?_
    rw [bne_iff_ne]
    rintro rfl
    exact absurd quote (by decide)
  | plain letter ordinary =>
    exact ⟨letter, [], rfl, by simpa using (ne_of_argumentLetter ordinary).1⟩

theorem settles_argument : Settles Argument.text Argument.text fun _ => True := by
  rintro (string | ⟨letter, ordinary⟩) (further | ⟨another, alike⟩) rest other unmixed _ _ same
  · exact settles_quoted string further rest other unmixed trivial trivial same
  · have plain := ne_of_argumentLetter alike
    refine absurd same ((string.opens.append rest).ne_cons ?_ other)
    simp [plain.2.1, plain.2.2]
  · have plain := ne_of_argumentLetter ordinary
    refine absurd same.symm ((further.opens.append other).ne_cons ?_ rest)
    simp [plain.2.1, plain.2.2]
  · cases same
    exact ⟨rfl, rfl⟩

theorem settles_arguments : Settles Arguments.text Arguments.inner fun _ => True := by
  have items : Settles (fun items : List Argument => items.flatMap Argument.text)
      (List.map Argument.text) (fun rest => ∃ more, rest = ')' :: more) := by
    apply Settles.repeated settles_argument (fun _ _ _ => trivial) (fun _ _ _ => trivial)
    rintro argument rest _ _ ⟨more, rfl⟩
    exact (argument.opens.append rest).ne_cons (by decide) more
  have parts := (settles_letter '(').sequence
    (items.sequence (settles_letter ')') fun _ rest _ _ => ⟨rest, rfl⟩) fun _ _ _ _ => trivial
  apply parts.present (fun arguments => ((), arguments.items, ())) fun parts => parts.2.1.flatten
  · exact fun _ => rfl
  · exact fun arguments => List.flatMap_def

/-- A condition with a name at its end goes on with more letters of the name, or with arguments. -/
def EndsCondition (rest : List Char) : Prop :=
  Bars nameLetter.contains rest ∧ Bars (· == '(') rest

theorem settles_pseudo :
    Settles (fun pseudo : Name × Option Arguments => (Condition.pseudo pseudo.1 pseudo.2).text)
      (fun pseudo => (Condition.pseudo pseudo.1 pseudo.2).reading) EndsCondition := by
  have called : Settles (fun arguments : Option Arguments =>
      (arguments.map Arguments.text).getD []) (Option.map Arguments.inner) EndsCondition := by
    apply Settles.maybe settles_arguments (fun _ _ _ => trivial)
    rintro arguments rest _ _ ends rfl
    exact absurd ends.2 (by simp [Arguments.text])
  have named := Settles.sequence settles_name called fun arguments rest _ ends => by
    cases arguments with
    | none => exact ends.1
    | some arguments => exact (bars_cons _ _ _).mpr (by decide)
  have parts := (settles_letter ':').sequence named fun _ _ _ _ => trivial
  apply parts.present (fun pseudo => ((), pseudo)) fun parts =>
    .pseudo (String.ofList parts.2.1) (parts.2.2.map String.ofList)
  · exact fun _ => rfl
  · rintro ⟨name, _ | arguments⟩ <;> rfl

def Condition.parts : Condition → Attribute ⊕ (Unit × Name) ⊕ (Name × Option Arguments)
  | .attribute brackets => .inl brackets
  | .id name => .inr (.inl ((), name))
  | .pseudo name arguments => .inr (.inr (name, arguments))

theorem settles_condition : Settles Condition.text Condition.reading EndsCondition := by
  have named := (settles_letter '#').sequence settles_name fun _ _ _ _ => trivial
  have id := named.narrow fun _ _ (ends : EndsCondition _) => ends.1
  have parts := (Settles.narrow settles_brackets fun _ _ _ => trivial).choice
    (id.choice settles_pseudo fun _ _ _ _ same => by cases (List.cons.inj same).1)
    fun brackets others rest _ same => by
      rcases others with _ | _ <;> cases (List.cons.inj same).1
  apply parts.present Condition.parts
    (Sum.elim (fun reading => reading)
      (Sum.elim (fun parts => .id (String.ofList parts.2)) fun reading => reading))
  · rintro (_ | _ | _) <;> rfl
  · rintro (_ | _ | _) <;> rfl

/-- A sequence of conditions ends at a combinator, a comma, a pseudo-element, or the end. -/
def EndsSequence (rest : List Char) : Prop :=
  rest = [] ∨ Opens (fun letter => combinatorLetter.contains letter || letter == ',') rest ∨
    ∃ more, rest = ':' :: ':' :: more

theorem EndsSequence.endsCondition {rest : List Char} (unmixed : Unmixed rest)
    (ends : EndsSequence rest) : EndsCondition rest := by
  rcases ends with rfl | ⟨letter, more, rfl, joins⟩ | ⟨more, rfl⟩
  · exact ⟨bars_nil _, bars_nil _⟩
  · have narrow := unmixed letter (List.mem_cons_self ..)
    rw [Bool.or_eq_true, beq_iff_eq] at joins
    rcases joins with combines | rfl
    · constructor
      · refine (bars_cons _ _ _).mpr (Bool.eq_false_iff.mpr fun named => ?_)
        have apart := not_combinatorLetter narrow (by simp [sequenceLetter, named])
        rw [combines] at apart
        cases apart
      · refine (bars_cons _ _ _).mpr (beq_eq_false_iff_ne.mpr ?_)
        rintro rfl
        exact absurd combines (by decide)
    · constructor <;> exact (bars_cons _ _ _).mpr (by decide)
  · constructor <;> exact (bars_cons _ _ _).mpr (by decide)

theorem Condition.opens (condition : Condition) : Opens conditionLetter condition.text := by
  rcases condition with brackets | name | ⟨name, arguments⟩
  · exact ⟨'[', _, rfl, rfl⟩
  · exact ⟨'#', _, rfl, rfl⟩
  · exact ⟨':', _, rfl, rfl⟩

theorem Condition.endsCondition (condition : Condition) (rest : List Char) :
    EndsCondition (condition.text ++ rest) := by
  constructor
  · refine (condition.opens.append rest).bars fun letter _ begins => ?_
    simp only [conditionLetter, Bool.or_eq_true, beq_iff_eq] at begins
    rcases begins with (rfl | rfl) | rfl <;> decide
  · refine (condition.opens.append rest).bars fun letter _ begins => ?_
    simp only [conditionLetter, Bool.or_eq_true, beq_iff_eq] at begins
    rcases begins with (rfl | rfl) | rfl <;> decide

/-- A pseudo-class has one colon, so no condition begins where a sequence ends. -/
theorem Condition.not_endsSequence (condition : Condition) (rest : List Char) :
    ¬ EndsSequence (condition.text ++ rest) := by
  rintro (empty | joins | ⟨more, same⟩)
  · obtain ⟨letter, further, begins, _⟩ := condition.opens.append rest
    rw [begins] at empty
    cases empty
  · refine joins.not_bars ((condition.opens.append rest).bars fun letter _ begins => ?_)
    simp only [conditionLetter, Bool.or_eq_true, beq_iff_eq] at begins
    rcases begins with (rfl | rfl) | rfl <;> decide
  · rcases condition with brackets | name | ⟨name, arguments⟩
    · cases (List.cons.inj same).1
    · cases (List.cons.inj same).1
    · have behind : name.text ++ (arguments.map Arguments.text).getD [] ++ rest = ':' :: more :=
        (List.cons.inj same).2
      rw [List.append_assoc] at behind
      exact (name.opens.append _).ne_cons (by decide) more behind

theorem settles_conditions :
    Settles (fun conditions : List Condition => conditions.flatMap Condition.text)
      (List.map Condition.reading) EndsSequence :=
  Settles.repeated settles_condition (fun condition rest _ => condition.endsCondition rest)
    (fun _ => EndsSequence.endsCondition) fun condition rest _ _ ends same =>
      condition.not_endsSequence rest (same ▸ ends)

theorem endsCondition_conditions (conditions : List Condition) {rest : List Char}
    (unmixed : Unmixed (conditions.flatMap Condition.text ++ rest)) (ends : EndsSequence rest) :
    EndsCondition (conditions.flatMap Condition.text ++ rest) := by
  cases conditions with
  | nil => exact ends.endsCondition unmixed
  | cons condition conditions =>
    rw [List.flatMap_cons, List.append_assoc]
    exact condition.endsCondition _

theorem Head.opens (head : Head) :
    Opens (fun letter => nameLetter.contains letter || letter == '*') head.text := by
  cases head with
  | type name => exact name.opens.weaken fun letter named => by simp [named]
  | universal => exact ⟨'*', [], rfl, by decide⟩

def Head.parts : Head → Name ⊕ Unit
  | .type name => .inl name
  | .universal => .inr ()

theorem settles_head : Settles Head.text Head.reading (Bars nameLetter.contains) := by
  have parts := Settles.choice settles_name ((settles_letter '*').narrow fun _ _ _ => trivial)
    fun name _ rest other => (name.opens.append rest).ne_cons (by decide) other
  apply parts.present Head.parts
    (Sum.elim (fun text => .type (String.ofList text)) fun _ => .universal)
  · rintro (_ | _) <;> rfl
  · rintro (_ | _) <;> rfl

def Sequence.parts : Sequence → (Head × List Condition) ⊕ (Condition × List Condition)
  | .headed head conditions => .inl (head, conditions)
  | .bare first more => .inr (first, more)

theorem settles_sequence : Settles Sequence.text Sequence.reading EndsSequence := by
  have headed := Settles.sequence settles_head settles_conditions fun conditions rest unmixed ends =>
    (endsCondition_conditions conditions unmixed ends).1
  have bare := Settles.sequence settles_condition settles_conditions
    fun conditions rest unmixed ends => endsCondition_conditions conditions unmixed ends
  have parts := headed.choice bare fun first second rest other same => by
    rw [List.append_assoc, List.append_assoc] at same
    refine (first.1.opens.append _).not_bars (same ▸ (second.1.opens.append _).bars ?_)
    intro letter _ begins
    simp only [conditionLetter, Bool.or_eq_true, beq_iff_eq] at begins
    rcases begins with (rfl | rfl) | rfl <;> decide
  apply parts.present Sequence.parts
    (Sum.elim (fun parts => parts.1 :: parts.2) fun parts => parts.1 :: parts.2)
  · rintro (_ | _) <;> rfl
  · rintro (_ | _) <;> rfl

end TreeSelect.Derivation
