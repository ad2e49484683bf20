import TreeSelect.Proofs.Derivation.GroupReading
import TreeSelect.Proofs.Grammar.SelectorSyntax
import TreeSelect.Proofs.Machine.Effort
import TreeSelect.Proofs.Text.Quoting
import TreeSelect.Selector.Printer

/-! Selectors printed and read again. What a selector is printed as has a derivation of its own,
one with the least blanks and with every value between double quotes; its meaning is that of the
selector up to the literals, which are read in another notation than they are written in. -/

namespace TreeSelect
open TreeSelect.Text

/-- The literal of an attribute that is compared. -/
def SimpleSelector.literal? : SimpleSelector → Option String
  | .attribute _ (some (_, value)) => some value
  | _ => none

/-- The condition with its literal read back from how it is written. -/
def SimpleSelector.reread : SimpleSelector → SimpleSelector
  | .attribute name (some (comparison, value)) =>
      .attribute name (some (comparison, String.ofList (unquote (literal value.toList))))
  | condition => condition

namespace ComplexSelector

def literals (selector : ComplexSelector) : List String :=
  selector.compounds.flatten.filterMap SimpleSelector.literal?

def reread (selector : ComplexSelector) : ComplexSelector :=
  { selector with compounds := selector.compounds.map (·.map SimpleSelector.reread) }

end ComplexSelector

theorem SimpleSelector.reread_eq_iff (condition : SimpleSelector) :
    condition.reread = condition ↔
      ∀ value ∈ condition.literal?, ∀ letter ∈ value.toList, isVisible letter = true := by
  rcases condition with tag | _ | name | ⟨name, _ | ⟨comparison, value⟩⟩ | ⟨name, arguments⟩
  case attribute.some =>
    have same : String.ofList (unquote (literal value.toList)) = value ↔
        unquote (literal value.toList) = value.toList := by
      rw [← String.toList_inj, String.toList_ofList]
    simp [reread, literal?, same, unquote_literal_eq_iff]
  all_goals simp [reread, literal?]

theorem map_eq_self_iff {Item : Type} (change : Item → Item) (items : List Item) :
    items.map change = items ↔ ∀ item ∈ items, change item = item := by
  constructor
  · intro same item member
    exact List.map_eq_map_iff.mp (same.trans (List.map_id items).symm) item member
  · exact fun each => (List.map_congr_left each).trans (List.map_id items)

/-- A selector survives exactly if all letters of its literals are visible. -/
theorem ComplexSelector.reread_eq_iff (selector : ComplexSelector) :
    selector.reread = selector ↔
      ∀ value ∈ selector.literals, ∀ letter ∈ value.toList, isVisible letter = true := by
  have parts : selector.reread = selector ↔
      selector.compounds.map (·.map SimpleSelector.reread) = selector.compounds :=
    ⟨fun same => congrArg compounds same, fun same => by rw [reread, same]⟩
  simp only [parts, map_eq_self_iff, SimpleSelector.reread_eq_iff, literals, List.mem_filterMap,
    List.mem_flatten, Option.mem_def]
  grind

namespace Derivation

@[simp] theorem unmixed_nil : Unmixed [] := List.forall_mem_nil _

@[simp] theorem unmixed_cons (letter : Char) (rest : List Char) :
    Unmixed (letter :: rest) ↔
      (isBlank letter = true → letter.toNat < 0xA0) ∧ Unmixed rest := List.forall_mem_cons

@[simp] theorem unmixed_append (front back : List Char) :
    Unmixed (front ++ back) ↔ Unmixed front ∧ Unmixed back := List.forall_mem_append

@[simp] theorem unmixed_flatMap {Tree : Type} (text : Tree → List Char) (trees : List Tree) :
    Unmixed (trees.flatMap text) ↔ ∀ tree ∈ trees, Unmixed (text tree) := by
  simp only [Unmixed, List.mem_flatMap]
  grind

/-- What may stand between double quotes may stand there one behind the other. -/
theorem exists_items_append {front back : List Char}
    (first : ∃ items : List (QuotedItem '"'), items.flatMap QuotedItem.text = front)
    (second : ∃ items : List (QuotedItem '"'), items.flatMap QuotedItem.text = back) :
    ∃ items : List (QuotedItem '"'), items.flatMap QuotedItem.text = front ++ back := by
  obtain ⟨items, rfl⟩ := first
  obtain ⟨others, rfl⟩ := second
  exact ⟨items ++ others, List.flatMap_append⟩

theorem exists_items_plain {text : List Char}
    (ordinary : ∀ letter ∈ text, (quotedLetter '"').contains letter = true) :
    ∃ items : List (QuotedItem '"'), items.flatMap QuotedItem.text = text := by
  refine ⟨text.attach.map fun letter => .plain letter.val (ordinary _ letter.property), ?_⟩
  simp [List.flatMap_map, QuotedItem.text]

theorem quotedLetter_of_visible {letter : Char} (visible : isVisible letter = true)
    (quote : letter ≠ '"') (backslash : letter ≠ '\\') :
    (quotedLetter '"').contains letter = true := by
  refine (SelectorSyntax.quotedLetter_iff _ _).mpr ⟨quote, backslash, ?_, ?_⟩
  · rintro rfl
    exact absurd visible (by decide)
  · rintro rfl
    exact absurd visible (by decide)

/-- A letter has a short escape, shows itself or is written as a code point. -/
theorem literalLetter_cases (letter : Char) :
    (∃ short : Char, short.toNat < 0xA0 ∧ literalLetter letter = ['\\', short]) ∨
      (isVisible letter = true ∧ letter ≠ '"' ∧ letter ≠ '\\' ∧ literalLetter letter = [letter]) ∨
      literalLetter letter = '\\' :: 'u' :: '\x7b' :: (hexadecimal letter.toNat ++ ['\x7d']) := by
  unfold literalLetter
  split
  next => exact .inl ⟨'0', by decide, rfl⟩
  next => exact .inl ⟨'t', by decide, rfl⟩
  next => exact .inl ⟨'n', by decide, rfl⟩
  next => exact .inl ⟨'r', by decide, rfl⟩
  next => exact .inl ⟨'"', by decide, rfl⟩
  next => exact .inl ⟨'\\', by decide, rfl⟩
  next quote backslash =>
    split
    next visible => exact .inr (.inl ⟨visible, quote, backslash, rfl⟩)
    next => exact .inr (.inr rfl)

/-- However a letter is escaped, it may stand between double quotes. -/
theorem exists_items_literalLetter (letter : Char) :
    ∃ items : List (QuotedItem '"'), items.flatMap QuotedItem.text = literalLetter letter := by
  have escaped (letter : Char) :
      ∃ items : List (QuotedItem '"'), items.flatMap QuotedItem.text = ['\\', letter] :=
    ⟨[.escaped letter], rfl⟩
  rcases literalLetter_cases letter with ⟨short, _, same⟩ | ⟨visible, quote, backslash, same⟩ | same
  · exact same ▸ escaped short
  · exact same ▸ exists_items_plain (List.forall_mem_singleton.mpr
      (quotedLetter_of_visible visible quote backslash))
  · have numbered : ∀ other ∈ '\x7b' :: (hexadecimal letter.toNat ++ ['\x7d']),
        (quotedLetter '"').contains other = true := by
      rw [List.forall_mem_cons, List.forall_mem_append]
      refine ⟨by decide, fun other member => ?_, List.forall_mem_singleton.mpr (by decide)⟩
      obtain ⟨digit, small, rfl⟩ := exists_digit_of_mem_hexadecimal _ other member
      exact (by decide : ∀ digit < 16, (quotedLetter '"').contains (Nat.digitChar digit) = true)
        digit small
    exact same ▸ exists_items_append (escaped 'u') (exists_items_plain numbered)

theorem exists_items_literal (text : List Char) :
    ∃ items : List (QuotedItem '"'),
      items.flatMap QuotedItem.text = text.flatMap literalLetter := by
  induction text with
  | nil => exact ⟨[], rfl⟩
  | cons letter text ih => exact exists_items_append (exists_items_literalLetter letter) ih

/-- The least derivation of a run. -/
def nothing : Blanks := ⟨[], List.forall_mem_nil _⟩

def space : Blanks := ⟨[' '], List.forall_mem_singleton.mpr (by decide)⟩

/-- A pseudo-class is printed as it was written. -/
theorem Condition.print_pseudo (name : Name) (arguments : Option Arguments) :
    (Condition.pseudo name arguments).reading.print =
      (Condition.pseudo name arguments).text := by
  cases arguments with
  | none => simp [reading, SimpleSelector.print, text, Name.string]
  | some arguments => simp [reading, SimpleSelector.print, text, Name.string, Arguments.text]

theorem Condition.exists_printed (condition : Condition) :
    ∃ printed : Condition, printed.text = condition.reading.print ∧
      printed.reading = condition.reading.reread := by
  rcases condition with ⟨before, name, _ | test, after⟩ | name | ⟨name, arguments⟩
  case attribute.none =>
    exact ⟨.attribute ⟨nothing, name, none, nothing⟩,
      by simp [text, Attribute.text, reading, SimpleSelector.print, nothing, Name.string], rfl⟩
  case attribute.some =>
    obtain ⟨items, spelled⟩ := exists_items_literal test.value.literal.toList
    have written : (Value.quoted (.double items)).text = literal test.value.literal.toList := by
      rw [Value.text, Quoted.text, spelled, literal]
    refine ⟨.attribute ⟨nothing, name,
      some ⟨nothing, test.operator, nothing, .quoted (.double items)⟩, nothing⟩, ?_, ?_⟩
    · simp [text, Attribute.text, AttributeTest.text, reading, SimpleSelector.print, nothing,
        Name.string, written]
    · simp [reading, SimpleSelector.reread, Value.literal, written]
  case id => exact ⟨.id name, by simp [text, reading, SimpleSelector.print, Name.string], rfl⟩
  case pseudo => exact ⟨.pseudo name arguments, (print_pseudo name arguments).symm, rfl⟩

theorem exists_printed_conditions (conditions : List Condition) :
    ∃ printed : List Condition,
      printed.flatMap Condition.text = printCompound (conditions.map Condition.reading) ∧
      printed.map Condition.reading =
        (conditions.map Condition.reading).map SimpleSelector.reread := by
  induction conditions with
  | nil => exact ⟨[], rfl, rfl⟩
  | cons condition conditions ih =>
    obtain ⟨first, text, reading⟩ := condition.exists_printed
    obtain ⟨others, texts, readings⟩ := ih
    exact ⟨first :: others, by simp [text, texts, printCompound], by simp [reading, readings]⟩

theorem Head.text_eq_print (head : Head) : head.text = head.reading.print := by
  cases head <;> simp [text, reading, SimpleSelector.print, Name.string]

theorem Head.reread_reading (head : Head) : head.reading.reread = head.reading := by
  cases head <;> rfl

theorem Sequence.exists_printed (sequence : Sequence) :
    ∃ printed : Sequence, printed.text = printCompound sequence.reading ∧
      printed.reading = sequence.reading.map SimpleSelector.reread := by
  cases sequence with
  | headed head conditions =>
    obtain ⟨printed, texts, readings⟩ := exists_printed_conditions conditions
    exact ⟨.headed head printed, by simp [text, reading, texts, printCompound, head.text_eq_print],
      by simp [reading, readings, head.reread_reading]⟩
  | bare first more =>
    obtain ⟨start, text, reading⟩ := first.exists_printed
    obtain ⟨printed, texts, readings⟩ := exists_printed_conditions more
    exact ⟨.bare start printed,
      by simp [Sequence.text, Sequence.reading, text, texts, printCompound],
      by simp [Sequence.reading, reading, readings]⟩

/-- A combinator with its spaces, in front of a sequence. -/
theorem exists_printed_joint (combinator : Combinator) (sequence : Sequence) :
    ∃ printed : Joint, printed.text = Combinator.print (some combinator) ++ sequence.text ∧
      printed.token.reading = combinator ∧ printed.sequence = sequence := by
  cases combinator with
  | descendant => exact ⟨⟨nothing, ⟨' ', by decide⟩, nothing, sequence⟩, rfl, rfl, rfl⟩
  | child => exact ⟨⟨space, ⟨'>', by decide⟩, space, sequence⟩, rfl, rfl, rfl⟩
  | nextSibling => exact ⟨⟨space, ⟨'+', by decide⟩, space, sequence⟩, rfl, rfl, rfl⟩
  | laterSibling => exact ⟨⟨space, ⟨'~', by decide⟩, space, sequence⟩, rfl, rfl, rfl⟩

theorem exists_printed_joints (joints : List Joint) :
    ∃ printed : List Joint,
      printed.flatMap Joint.text = printChain (joints.map fun joint => joint.sequence.reading)
        (joints.map fun joint => joint.token.reading) ∧
      (printed.map fun joint => joint.sequence.reading) =
        (joints.map fun joint => joint.sequence.reading).map (·.map SimpleSelector.reread) ∧
      (printed.map fun joint => joint.token.reading) =
        joints.map fun joint => joint.token.reading := by
  induction joints with
  | nil => exact ⟨[], rfl, rfl, rfl⟩
  | cons joint joints ih =>
    obtain ⟨sequence, text, reading⟩ := joint.sequence.exists_printed
    obtain ⟨first, written, token, rfl⟩ := exists_printed_joint joint.token.reading sequence
    obtain ⟨others, texts, readings, tokens⟩ := ih
    exact ⟨first :: others, by simp [written, text, texts, printChain], by simp [reading, readings],
      by simp [token, tokens]⟩

/-- What a selector is printed as has a derivation. -/
theorem Selector.exists_printed (selector : Selector) :
    ∃ printed : Selector, printed.text = selector.reading.print ∧
      printed.reading = selector.reading.reread := by
  obtain ⟨first, text, reading⟩ := selector.first.exists_printed
  obtain ⟨joints, texts, readings, tokens⟩ := exists_printed_joints selector.joints
  refine ⟨⟨first, joints, selector.pseudoElement⟩, ?_, ?_⟩
  · cases element : selector.pseudoElement with
    | none =>
      simp [Selector.text, Selector.reading, ComplexSelector.print, ComplexSelector.printCompounds,
        text, texts, element]
    | some name =>
      simp [Selector.text, Selector.reading, ComplexSelector.print, ComplexSelector.printCompounds,
        text, texts, element, Name.string]
  · simp [Selector.reading, ComplexSelector.reread, reading, readings, tokens]

theorem unmixed_small {text : List Char}
    (small : text.all (fun letter => letter.toNat < 0xA0) = true) : Unmixed text :=
  fun letter member _ => of_decide_eq_true (List.all_eq_true.mp small letter member)

theorem unmixed_hexadecimal (code : Nat) : Unmixed (hexadecimal code) := by
  intro letter member _
  obtain ⟨digit, small, rfl⟩ := exists_digit_of_mem_hexadecimal code letter member
  exact (by decide : ∀ digit < 16, (Nat.digitChar digit).toNat < 0xA0) digit small

theorem unmixed_literalLetter (letter : Char) : Unmixed (literalLetter letter) := by
  rcases literalLetter_cases letter with ⟨short, small, same⟩ | ⟨visible, _, _, same⟩ | same
  · exact same ▸ unmixed_small (by simp [small])
  · exact same ▸ List.forall_mem_singleton.mpr (small_of_visible_blank visible)
  · rw [same]
    simp [unmixed_hexadecimal]

/-- A literal that is written down has no letter that is both blank and a letter of names. -/
theorem unmixed_literal (text : List Char) : Unmixed (literal text) := by
  simp [literal, unmixed_literalLetter]

theorem unmixed_token (comparison : Comparison) : Unmixed comparison.token.toList := by
  cases comparison <;> exact unmixed_small (by decide)

theorem unmixed_combinator (combinator : Combinator) :
    Unmixed (Combinator.print (some combinator)) := by
  cases combinator <;> exact unmixed_small (by decide)

theorem Condition.unmixed_print {condition : Condition} (unmixed : Unmixed condition.text) :
    Unmixed condition.reading.print := by
  rcases condition with ⟨before, name, _ | test, after⟩ | name | ⟨name, _ | arguments⟩ <;>
    simp only [text, Attribute.text, Option.map_none, Option.map_some, Option.getD_none,
      Option.getD_some, Arguments.text, unmixed_cons, unmixed_append] at unmixed <;>
    simp [reading, SimpleSelector.print, Name.string, unmixed, unmixed_literal, unmixed_token]

theorem unmixed_printCompound {conditions : List Condition}
    (unmixed : Unmixed (conditions.flatMap Condition.text)) :
    Unmixed (printCompound (conditions.map Condition.reading)) := by
  rw [printCompound, List.flatMap_map, unmixed_flatMap]
  exact fun condition member => Condition.unmixed_print (unmixed_flatMap .. |>.mp unmixed _ member)

theorem Sequence.unmixed_print {sequence : Sequence} (unmixed : Unmixed sequence.text) :
    Unmixed (printCompound sequence.reading) := by
  cases sequence with
  | headed head conditions =>
    have parts := (unmixed_append ..).mp unmixed
    refine (unmixed_append ..).mpr ⟨?_, unmixed_printCompound parts.2⟩
    exact head.text_eq_print ▸ parts.1
  | bare first more =>
    have whole : Unmixed ((first :: more).flatMap Condition.text) := unmixed
    exact unmixed_printCompound whole

theorem unmixed_printChain {joints : List Joint} (unmixed : Unmixed (joints.flatMap Joint.text)) :
    Unmixed (printChain (joints.map fun joint => joint.sequence.reading)
      (joints.map fun joint => joint.token.reading)) := by
  induction joints with
  | nil => exact unmixed_nil
  | cons joint joints ih =>
    have ⟨first, others⟩ := (unmixed_append ..).mp unmixed
    simp only [Joint.text, unmixed_append, unmixed_cons] at first
    simp only [List.map_cons, printChain, List.head?_cons, List.tail_cons, unmixed_append]
    exact ⟨⟨unmixed_combinator _, Sequence.unmixed_print first.2.2.2⟩, ih others⟩

theorem Selector.unmixed_print {selector : Selector} (unmixed : Unmixed selector.text) :
    Unmixed selector.reading.print := by
  have ⟨first, others⟩ := (unmixed_append ..).mp unmixed
  have ⟨joints, element⟩ := (unmixed_append ..).mp others
  refine (unmixed_append ..).mpr ⟨(unmixed_append ..).mpr
    ⟨Sequence.unmixed_print first, unmixed_printChain joints⟩, ?_⟩
  cases named : selector.pseudoElement with
  | none => simp [reading, named]
  | some name => simpa [reading, named, Name.string] using element

/-- Every alternative of a group is derived somewhere within the text. -/
theorem Group.exists_alternative {group : Group} (unmixed : Unmixed group.text)
    {selector : ComplexSelector} (member : selector ∈ group.reading.alternatives) :
    ∃ derived : Selector, derived.reading = selector ∧ Unmixed derived.text := by
  simp only [text, unmixed_append, unmixed_flatMap] at unmixed
  rcases List.mem_cons.mp member with rfl | later
  · exact ⟨group.first, rfl, unmixed.2.1⟩
  · obtain ⟨alternative, found, rfl⟩ := List.mem_map.mp later
    have parts := unmixed.2.2.1 alternative found
    simp only [Alternative.text, unmixed_append, unmixed_cons] at parts
    exact ⟨alternative.selector, rfl, parts.2.2.2⟩

/-- The text of a derivation is read as what the derivation means, if the machine decides. -/
theorem Group.read_spelled {group : Group} (unmixed : Unmixed group.text)
    (decided : Machine.matchAll Rules.group.compile group.text ≠ .exhausted) :
    SelectorGroup.read .selectors (String.ofList group.text) = .ok group.reading := by
  have spelled : group.text = (String.ofList group.text).toList := String.toList_ofList.symm
  rcases read_of_decided (String.ofList group.text) (spelled ▸ decided) with
    ⟨found, same, answer⟩ | ⟨nowhere, _⟩
  · have text : found.text = group.text := same.trans spelled.symm
    rw [answer, reading_unique (text ▸ unmixed) text]
  · exact absurd spelled (nowhere group)

/-- What is read is derived by some derivation of the text. -/
theorem exists_group_of_read {text : String} {group : SelectorGroup}
    (read : SelectorGroup.read .selectors text = .ok group) :
    ∃ derived : Group, derived.text = text.toList ∧ derived.reading = group := by
  obtain ⟨derived, _, same, means, _⟩ := exists_way_of_read read
  exact ⟨derived, same, means⟩

/-- What an alternative is printed as is read as one selector, unless the budget runs out. -/
theorem read_print {text : String} (unmixed : Unmixed text.toList) {group : SelectorGroup}
    (read : SelectorGroup.read .selectors text = .ok group) {selector : ComplexSelector}
    (member : selector ∈ group.alternatives)
    (decided : SelectorGroup.read .selectors (String.ofList selector.print) ≠
      .error (.tooComplex (String.ofList selector.print))) :
    SelectorGroup.read .selectors (String.ofList selector.print) = .ok ⟨[selector.reread]⟩ := by
  obtain ⟨derived, same, rfl⟩ := exists_group_of_read read
  obtain ⟨original, rfl, within⟩ := derived.exists_alternative (same ▸ unmixed) member
  obtain ⟨printed, written, reading⟩ := original.exists_printed
  let whole : Group := ⟨nothing, printed, [], nothing⟩
  have spelled : whole.text = original.reading.print := by
    rw [← written]
    simp [whole, Group.text, nothing]
  have runs : Machine.matchAll Rules.group.compile whole.text ≠ .exhausted := by
    rwa [ne_eq, read_tooComplex_iff, String.toList_ofList, ← spelled] at decided
  rw [← spelled, Group.read_spelled (spelled ▸ Selector.unmixed_print within) runs, Group.reading,
    reading]
  rfl

/-- Printing undoes reading exactly if every letter of the literals is visible. -/
theorem read_print_eq_iff {text : String} (unmixed : Unmixed text.toList) {group : SelectorGroup}
    (read : SelectorGroup.read .selectors text = .ok group) {selector : ComplexSelector}
    (member : selector ∈ group.alternatives)
    (decided : SelectorGroup.read .selectors (String.ofList selector.print) ≠
      .error (.tooComplex (String.ofList selector.print))) :
    SelectorGroup.read .selectors (String.ofList selector.print) = .ok ⟨[selector]⟩ ↔
      ∀ value ∈ selector.literals, ∀ letter ∈ value.toList, isVisible letter = true := by
  rw [read_print unmixed read member decided, ← selector.reread_eq_iff]
  simp

/-- A tab is written as a backslash and a letter, and that is read as the letter. -/
theorem read_print_eq_iff_tab :
    SelectorGroup.read .selectors "[a=\"\t\"]" =
        .ok ⟨[⟨[[.attribute "a" (some (.equals, "\t"))]], [], none⟩]⟩ ∧
      SelectorGroup.read .selectors (String.ofList
        (ComplexSelector.print ⟨[[.attribute "a" (some (.equals, "\t"))]], [], none⟩)) ≠
          .ok ⟨[⟨[[.attribute "a" (some (.equals, "\t"))]], [], none⟩]⟩ := by
  let name : Name := ⟨none, 'a', by decide, ⟨[], List.forall_mem_nil _⟩⟩
  let value : Value := .quoted (.double [.plain '\t' (by decide)])
  let condition : Condition := .attribute ⟨nothing, name, some ⟨nothing, .equals, nothing, value⟩,
    nothing⟩
  let group : Group := ⟨nothing, ⟨.bare condition [], [], none⟩, [], nothing⟩
  have text : group.text = "[a=\"\t\"]".toList := by decide
  have unmixed : Unmixed group.text := unmixed_small (by decide)
  have decided : Machine.matchAll Rules.group.compile group.text ≠ .exhausted :=
    Machine.matchAll_ne_exhausted (by decide +kernel)
  have read := Group.read_spelled unmixed decided
  rw [text, String.ofList_toList] at read
  refine ⟨read, fun same => ?_⟩
  have again : SelectorGroup.read .selectors (String.ofList group.first.reading.print) ≠
      .error (.tooComplex (String.ofList group.first.reading.print)) := by
    rw [ne_eq, read_tooComplex_iff, String.toList_ofList]
    exact Machine.matchAll_ne_exhausted (by decide +kernel)
  have visible := (read_print_eq_iff (text ▸ unmixed) read (List.mem_cons_self ..) again).mp same
  exact absurd (visible "\t" (List.mem_cons_self ..) '\t' (by decide)) (by decide)

end Derivation
end TreeSelect
