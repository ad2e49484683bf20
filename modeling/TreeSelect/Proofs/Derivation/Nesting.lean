import TreeSelect.Proofs.Derivation.Conditions

/-! Where commas separate. A text is read letter by letter, keeping count of open brackets,
parentheses and strings. No derivation of a part of a selector ends inside any of these, and its
own commas all stand inside one; so a comma outside of them is one between two alternatives. -/

namespace TreeSelect.Derivation
open TreeSelect.Text

/-- What a letter stands inside: nothing, brackets or parentheses up to their closing letter, a
string inside these up to its quotation mark, or an escape inside that. -/
inductive Nest where
  | outside
  | inside (closer : Char)
  | quoted (closer mark : Char)
  | escaped (closer mark : Char)
  deriving DecidableEq, Repr

namespace Nest

/-- What the letter behind stands inside. -/
def next : Nest → Char → Nest
  | .outside, letter =>
      if letter = '[' then .inside ']' else if letter = '(' then .inside ')' else .outside
  | .inside closer, letter =>
      if letter = closer then .outside
      else if letter = '"' ∨ letter = '\'' then .quoted closer letter
      else .inside closer
  | .quoted closer mark, letter =>
      if letter = mark then .inside closer
      else if letter = '\\' then .escaped closer mark
      else .quoted closer mark
  | .escaped closer mark, _ => .quoted closer mark

/-- What stands behind the whole text. -/
def scan (nest : Nest) (text : List Char) : Nest := text.foldl next nest

@[simp] theorem scan_append (nest : Nest) (front back : List Char) :
    nest.scan (front ++ back) = (nest.scan front).scan back := List.foldl_append

/-- The text leads from one nest into another, and none of its commas stands outside. -/
def Passes (nest : Nest) : List Char → Nest → Prop
  | [], last => nest = last
  | letter :: rest, last => (letter = ',' → nest ≠ .outside) ∧ Passes (nest.next letter) rest last

theorem Passes.append {first middle last : Nest} {front back : List Char}
    (left : first.Passes front middle) (right : middle.Passes back last) :
    first.Passes (front ++ back) last := by
  induction front generalizing first with
  | nil =>
    have same : first = middle := left
    rw [same]
    exact right
  | cons letter front ih => exact ⟨left.1, ih left.2⟩

theorem Passes.scan {first last : Nest} {text : List Char} (passes : first.Passes text last) :
    first.scan text = last := by
  induction text generalizing first with
  | nil => exact passes
  | cons letter text ih => exact ih passes.2

/-- A comma on the way stands inside something. -/
theorem Passes.comma {first last : Nest} {front back : List Char}
    (passes : first.Passes (front ++ ',' :: back) last) : first.scan front ≠ .outside := by
  induction front generalizing first with
  | nil => exact passes.1 rfl
  | cons letter front ih => exact ih passes.2

/-- Letters that change nothing, and of which none is a comma outside. -/
theorem passes_letters {nest : Nest} {text : List Char}
    (still : ∀ letter ∈ text, nest.next letter = nest ∧ (letter = ',' → nest ≠ .outside)) :
    nest.Passes text nest := by
  induction text with
  | nil => rfl
  | cons letter text ih =>
    obtain ⟨⟨same, comma⟩, others⟩ := List.forall_mem_cons.mp still
    refine ⟨comma, ?_⟩
    rw [same]
    exact ih others

theorem passes_flatMap {Tree : Type} {nest : Nest} (text : Tree → List Char) {trees : List Tree}
    (each : ∀ tree ∈ trees, nest.Passes (text tree) nest) :
    nest.Passes (trees.flatMap text) nest := by
  induction trees with
  | nil => rfl
  | cons tree trees ih =>
    obtain ⟨first, others⟩ := List.forall_mem_cons.mp each
    exact first.append (ih others)

/-- The letters that open, close, quote or separate. -/
def delimiters : List Char := [',', '[', ']', '(', '"', '\'']

/-- Outside, or in brackets, other letters change nothing. -/
theorem passes_ordinary {text : List Char} (ordinary : ∀ letter ∈ text, letter ∉ delimiters) :
    outside.Passes text .outside ∧ (inside ']').Passes text (.inside ']') := by
  constructor
  · apply passes_letters
    intro letter member
    have apart := ordinary letter member
    simp only [delimiters, List.mem_cons, List.not_mem_nil, not_or] at apart
    simp [next, apart]
  · apply passes_letters
    intro letter member
    have apart := ordinary letter member
    simp only [delimiters, List.mem_cons, List.not_mem_nil, not_or] at apart
    simp [next, apart]

end Nest
open Nest

theorem not_delimiter {admits : Char → Bool}
    (barred : delimiters.all (fun other => !admits other) = true) {letter : Char}
    (admitted : admits letter = true) : letter ∉ delimiters := by
  intro member
  have excluded := List.all_eq_true.mp barred letter member
  rw [admitted] at excluded
  cases excluded

theorem Blanks.ordinary (blanks : Blanks) : ∀ letter ∈ blanks.text, letter ∉ delimiters :=
  fun letter member => not_delimiter (by decide) (blanks.admitted letter member)

theorem Name.ordinary (name : Name) : ∀ letter ∈ name.text, letter ∉ delimiters :=
  fun letter member => not_delimiter (by decide) (name.letters letter member)

theorem Token.ordinary (token : Token) : ∀ letter ∈ [token.letter], letter ∉ delimiters :=
  List.forall_mem_singleton.mpr (not_delimiter (by decide) token.valid)

theorem token_ordinary (operator : Comparison) :
    ∀ letter ∈ operator.token.toList, letter ∉ delimiters := by
  have apart : operator.token.toList.all (fun letter => !delimiters.contains letter) = true := by
    cases operator <;> decide
  intro letter member inside
  have excluded := List.all_eq_true.mp apart letter member
  rw [List.contains_iff_mem.mpr inside] at excluded
  cases excluded

theorem passes_quotedItem {mark : Char} (quote : mark = '"' ∨ mark = '\'') (closer : Char)
    (item : QuotedItem mark) :
    (quoted closer mark).Passes item.text (.quoted closer mark) := by
  have inner : ∀ letter, letter = ',' → quoted closer mark ≠ .outside := fun _ _ => nofun
  have still {letter : Char} (other : letter ≠ mark) (plain : letter ≠ '\\') :
      (quoted closer mark).next letter = .quoted closer mark := by simp [next, other, plain]
  have escape : (quoted closer mark).next '\\' = .escaped closer mark := by
    rcases quote with rfl | rfl <;> rfl
  cases item with
  | plain letter ordinary =>
    obtain ⟨plain, other, _⟩ := ne_of_quotedLetter ordinary
    exact ⟨inner letter, still other plain⟩
  | lineEnd =>
    have newline : '\n' ≠ mark := by rcases quote with rfl | rfl <;> decide
    refine ⟨inner '\\', ?_⟩
    rw [escape]
    exact ⟨nofun, inner '\n', still newline (by decide)⟩
  | escaped letter =>
    refine ⟨inner '\\', ?_⟩
    rw [escape]
    exact ⟨fun _ => nofun, rfl⟩

theorem passes_quoted {closer : Char} (apart : closer ≠ '"' ∧ closer ≠ '\'') (string : Quoted) :
    (inside closer).Passes string.text (.inside closer) := by
  cases string with
  | double items =>
    refine ⟨nofun, ?_⟩
    rw [next, if_neg (Ne.symm apart.1), if_pos (.inl rfl)]
    exact (passes_flatMap _ fun item _ => passes_quotedItem (.inl rfl) closer item).append
      ⟨nofun, rfl⟩
  | single items =>
    refine ⟨nofun, ?_⟩
    rw [next, if_neg (Ne.symm apart.2), if_pos (.inr rfl)]
    exact (passes_flatMap _ fun item _ => passes_quotedItem (.inr rfl) closer item).append
      ⟨nofun, rfl⟩

theorem passes_value (value : Value) : (inside ']').Passes value.text (.inside ']') := by
  cases value with
  | name word => exact (passes_ordinary word.ordinary).2
  | quoted string => exact passes_quoted (by decide) string

theorem passes_test (test : AttributeTest) : (inside ']').Passes test.text (.inside ']') :=
  (passes_ordinary test.before.ordinary).2.append
    ((passes_ordinary (token_ordinary test.operator)).2.append
      ((passes_ordinary test.between.ordinary).2.append (passes_value test.value)))

theorem passes_brackets (brackets : Attribute) : outside.Passes brackets.text .outside := by
  have test : (inside ']').Passes ((brackets.test.map AttributeTest.text).getD [])
      (.inside ']') := by
    cases brackets.test with
    | none => rfl
    | some test => exact passes_test test
  exact ⟨nofun, (passes_ordinary brackets.before.ordinary).2.append
    ((passes_ordinary brackets.name.ordinary).2.append (test.append
      ((passes_ordinary brackets.after.ordinary).2.append ⟨nofun, rfl⟩)))⟩

theorem passes_argument (argument : Argument) :
    (inside ')').Passes argument.text (.inside ')') := by
  cases argument with
  | quoted string => exact passes_quoted (by decide) string
  | plain letter ordinary =>
    obtain ⟨closes, single, double⟩ := ne_of_argumentLetter ordinary
    exact ⟨fun _ => nofun, by simp [Passes, next, closes, single, double]⟩

theorem passes_arguments (arguments : Arguments) : outside.Passes arguments.text .outside :=
  ⟨nofun, (passes_flatMap _ fun argument _ => passes_argument argument).append ⟨nofun, rfl⟩⟩

theorem passes_condition (condition : Condition) : outside.Passes condition.text .outside := by
  rcases condition with brackets | name | ⟨name, _ | arguments⟩
  · exact passes_brackets brackets
  · exact ⟨nofun, (passes_ordinary name.ordinary).1⟩
  · exact ⟨nofun, (passes_ordinary name.ordinary).1.append rfl⟩
  · exact ⟨nofun, (passes_ordinary name.ordinary).1.append (passes_arguments arguments)⟩

theorem passes_conditions (conditions : List Condition) :
    outside.Passes (conditions.flatMap Condition.text) .outside :=
  passes_flatMap _ fun condition _ => passes_condition condition

theorem passes_sequence (sequence : Sequence) : outside.Passes sequence.text .outside := by
  cases sequence with
  | headed head conditions =>
    refine Passes.append ?_ (passes_conditions conditions)
    cases head with
    | type name => exact (passes_ordinary name.ordinary).1
    | universal => exact ⟨nofun, rfl⟩
  | bare first more => exact (passes_condition first).append (passes_conditions more)

theorem passes_joint (joint : Joint) : outside.Passes joint.text .outside :=
  (passes_ordinary joint.before.ordinary).1.append
    ((passes_ordinary joint.token.ordinary).1.append
      ((passes_ordinary joint.after.ordinary).1.append (passes_sequence joint.sequence)))

theorem passes_selector (selector : Selector) : outside.Passes selector.text .outside := by
  have element : outside.Passes
      ((selector.pseudoElement.map fun name => ':' :: ':' :: name.text).getD []) .outside := by
    cases selector.pseudoElement with
    | none => rfl
    | some name => exact ⟨nofun, nofun, (passes_ordinary name.ordinary).1⟩
  exact (passes_sequence selector.first).append
    ((passes_flatMap _ fun joint _ => passes_joint joint).append element)

/-- Behind a whole group nothing is open. -/
theorem scan_group (group : Group) : outside.scan group.text = .outside := by
  have blanks : ∀ blanks : Blanks, outside.scan blanks.text = .outside := fun blanks =>
    (passes_ordinary blanks.ordinary).1.scan
  have selector : ∀ selector : Selector, outside.scan selector.text = .outside := fun selector =>
    (passes_selector selector).scan
  have more : outside.scan (group.more.flatMap Alternative.text) = .outside := by
    induction group.more with
    | nil => rfl
    | cons alternative more ih =>
      have comma : ∀ rest, outside.scan (',' :: rest) = outside.scan rest := fun _ => rfl
      rw [List.flatMap_cons, scan_append, Alternative.text, scan_append, blanks, comma, scan_append,
        blanks, selector, ih]
  rw [Group.text, scan_append, blanks, scan_append, selector, scan_append, more, blanks]

end TreeSelect.Derivation
