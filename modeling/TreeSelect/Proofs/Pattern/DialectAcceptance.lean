import TreeSelect.Proofs.Pattern.DialectReading
import TreeSelect.Proofs.Text.Hexadecimal

/-! The reader of patterns accepts the texts of the dialect and no others. One reader after the
other takes off its text what the grammar writes there; what a round takes is then an item, a
quantifier, a bar or one of the ends of a group, and the rounds together make up a derivation. -/

namespace TreeSelect.Dialect

/-- What the reader takes off a text is what the grammar writes for the value. -/
def Conforms {Value : Type} (reader : List Char → Pattern.Reading (Value × List Char))
    (Written : List Char → Value → Prop) : Prop :=
  ∀ text value rest, reader text = .ok (value, rest) →
    ∃ written, text = written ++ rest ∧ Written written value

/-! ### Code points -/

theorem number_eq_some_iff {text : List Char} {letter : Char} :
    (Text.hexNumber? text).bind Text.scalar? = some letter ↔ text ≠ [] ∧ ∃ digits : List Nat,
      text.map Text.hexDigit? = digits.map some ∧ Nat.ofDigits 16 digits.reverse = letter.toNat := by
  simp only [Option.bind_eq_some_iff, Text.scalar?_eq_some_iff]
  cases text with
  | nil => simp [Text.hexNumber?]
  | cons first rest =>
    rw [Text.hexNumber?]
    · simp only [Text.hexNumberFrom_eq_some_iff, Nat.mul_zero, Nat.zero_add]
      constructor
      · rintro ⟨_, ⟨digits, same, rfl⟩, value⟩
        exact ⟨List.cons_ne_nil _ _, digits, same, value⟩
      · rintro ⟨_, digits, same, value⟩
        exact ⟨_, ⟨digits, same, rfl⟩, value⟩
    · exact List.cons_ne_nil _ _

/-- The text writes the number of the letter: hexadecimal digits, the first one worth most, which one
plus sign may precede. -/
def WritesCodePoint (text : List Char) (letter : Char) : Prop :=
  ∃ (number : List Char) (digits : List Nat), (text = number ∨ text = '+' :: number) ∧
    number ≠ [] ∧ number.map Text.hexDigit? = digits.map some ∧
      Nat.ofDigits 16 digits.reverse = letter.toNat

theorem codePoint?_eq_some_iff {text : List Char} {letter : Char} :
    Pattern.codePoint? text = some letter ↔ WritesCodePoint text letter := by
  have unsigned {digits : List Nat} {rest : List Char} :
      ('+' :: rest).map Text.hexDigit? ≠ digits.map some := by
    intro same
    cases digits <;> cases same
  unfold Pattern.codePoint?
  split
  next rest =>
    rw [number_eq_some_iff]
    constructor
    · rintro ⟨nonempty, digits, same, value⟩
      exact ⟨rest, digits, .inr rfl, nonempty, same, value⟩
    · rintro ⟨number, digits, rfl | shape, nonempty, same, value⟩
      · exact absurd same unsigned
      · cases shape
        exact ⟨nonempty, digits, same, value⟩
  next plain =>
    rw [number_eq_some_iff]
    constructor
    · rintro ⟨nonempty, digits, same, value⟩
      exact ⟨text, digits, .inl rfl, nonempty, same, value⟩
    · rintro ⟨number, digits, rfl | rfl, nonempty, same, value⟩
      · exact ⟨nonempty, digits, same, value⟩
      · exact absurd rfl (plain number)

/-! ### Escapes -/

theorem eq_of_expect {letter : Char} {text rest : List Char}
    (read : Pattern.expect letter text = .ok rest) : text = letter :: rest := by
  unfold Pattern.expect at read
  split at read
  next => cases read
  next found rest =>
    split at read
    next same =>
      cases read
      rw [same]
    next => cases read

/-- What stands before the closing brace is the number, whatever letters it has. -/
theorem eq_of_closingBrace {text rest : List Char}
    (closed : text.dropWhile (· ≠ '\x7d') = '\x7d' :: rest) :
    text = text.takeWhile (· ≠ '\x7d') ++ '\x7d' :: rest ∧
      '\x7d' ∉ text.takeWhile (· ≠ '\x7d') := by
  constructor
  · rw [← closed, List.takeWhile_append_dropWhile]
  · intro member
    have other := List.all_eq_true.mp List.all_takeWhile _ member
    exact of_decide_eq_true other rfl

theorem escapedLetter_conforms (start : List Char) (selector : Char) :
    Conforms (Pattern.escapedLetter start selector) fun written letter =>
      EscapedLetter (selector :: written) letter := by
  intro text letter rest read
  unfold Pattern.escapedLetter at read
  split at read
  next =>
    cases read
    exact ⟨[], rfl, .tab⟩
  next =>
    cases read
    exact ⟨[], rfl, .carriageReturn⟩
  next =>
    cases read
    exact ⟨[], rfl, .newline⟩
  next =>
    obtain ⟨body, opened, read⟩ := exists_of_bind read
    obtain ⟨behind, closed, read⟩ := exists_of_bind read
    obtain ⟨split, inside⟩ := eq_of_closingBrace (eq_of_expect closed)
    split at read
    next value =>
      cases read
      refine ⟨'\x7b' :: body.takeWhile (· ≠ '\x7d') ++ ['\x7d'], ?_, .codePoint inside value⟩
      rw [eq_of_expect opened, List.append_assoc, List.cons_append]
      exact congrArg (_ :: ·) split
    next => cases read
  next =>
    split at read
    next => cases read
    next other =>
      cases read
      exact ⟨[], rfl, .itself (Bool.eq_false_iff.mpr other)⟩

theorem escape_conforms : Conforms Pattern.escape Escape := by
  intro text pattern rest read
  cases text with
  | nil => cases read
  | cons selector after =>
    cases known : namedClass? selector with
    | some set =>
      rw [escape_named known] at read
      cases read
      exact ⟨[selector], rfl, .named known⟩
    | none =>
      rw [escape_unnamed known] at read
      obtain ⟨⟨letter, behind⟩, one, same⟩ := exists_of_bind read
      obtain ⟨written, rfl, meant⟩ := escapedLetter_conforms _ _ _ _ _ one
      cases same
      exact ⟨selector :: written, rfl, .letter meant⟩

/-! ### Classes -/

theorem classLetter_conforms : Conforms Pattern.classLetter ClassLetter := by
  intro text letter rest read
  unfold Pattern.classLetter at read
  split at read
  next => cases read
  next => cases read
  next selector after =>
    obtain ⟨written, rfl, meant⟩ := escapedLetter_conforms _ _ _ _ _ read
    exact ⟨'\\' :: selector :: written, rfl, .escaped meant⟩
  next alone escaped =>
    cases read
    refine ⟨[letter], rfl, .plain fun backslash => ?_⟩
    subst backslash
    cases rest with
    | nil => exact alone rfl rfl
    | cons selector further => exact escaped selector further rfl rfl

/-- A letter that stands alone is not followed by what would begin a range. -/
theorem beginsRange_eq_false {text : List Char}
    (alone : ∀ next rest, text = '-' :: next :: rest → next = ']') : beginsRange text = false := by
  unfold beginsRange
  split
  next next rest => exact decide_eq_false (not_not_intro (alone next rest rfl))
  next => rfl

/-- What is taken for an item is one, whatever items follow it. -/
theorem exists_of_classItem {text after : List Char} {item : ClassItem}
    (read : Pattern.classItem text = .ok (item, after)) :
    ∃ written, written ≠ [] ∧ text = written ++ after ∧
      ∀ {atFirst : Bool} {inner rest : List Char} {items : List ClassItem},
        (atFirst = true ∨ text.head? ≠ some ']') → after = inner ++ rest →
        ClassItems false inner items → ClassItems atFirst (written ++ inner) (item :: items) := by
  by_cases named : ∃ letter behind, text = '\\' :: letter :: behind ∧ namedItem? letter ≠ none
  · obtain ⟨letter, behind, rfl, known⟩ := named
    obtain ⟨own, known⟩ := Option.ne_none_iff_exists'.mp known
    rw [classItem_named known] at read
    cases read
    exact ⟨['\\', letter], by simp, rfl, fun _ _ further => .named known further⟩
  · have unnamed : ∀ letter behind, text = '\\' :: letter :: behind → namedItem? letter = none :=
      fun letter behind same => by_contra fun known => named ⟨letter, behind, same, known⟩
    rw [classItem_unnamed unnamed] at read
    obtain ⟨⟨first, behind⟩, one, others⟩ := exists_of_bind read
    obtain ⟨low, rfl, lower⟩ := classLetter_conforms _ _ _ one
    obtain ⟨opening, tail, rfl, _⟩ := lower.opening
    have not_bracket {atFirst : Bool} (inside : atFirst = true ∨
        (opening :: tail ++ behind).head? ≠ some ']') : atFirst = true ∨ opening :: tail ≠ [']'] :=
      inside.imp_right fun other same => other (by rw [same]; rfl)
    have single (alone : beginsRange behind = false) {atFirst : Bool} {inner rest : List Char}
        {items : List ClassItem} (inside : atFirst = true ∨
          (opening :: tail ++ behind).head? ≠ some ']') (shape : behind = inner ++ rest)
        (further : ClassItems false inner items) :
        ClassItems atFirst (opening :: tail ++ inner) (.range first first :: items) := by
      rw [shape, further.beginsRange_append] at alone
      exact .single lower (not_bracket inside) alone further
    unfold Pattern.itemFrom at others
    dsimp only at others
    split at others
    next next rest =>
      split at others
      next bracket =>
        cases others
        refine ⟨opening :: tail, by simp, rfl, single (beginsRange_eq_false ?_)⟩
        rintro _ _ ⟨⟩
        exact bracket
      next further =>
        obtain ⟨⟨last, remaining⟩, two, checked⟩ := exists_of_bind others
        obtain ⟨high, same, upper⟩ := classLetter_conforms _ _ _ two
        split at checked
        next => cases checked
        next ordered =>
          cases checked
          refine ⟨opening :: tail ++ '-' :: high, by simp, by rw [same]; simp, ?_⟩
          intro atFirst inner rest items inside shape others
          rw [List.append_assoc, List.cons_append]
          refine .range lower (not_bracket inside) upper ?_ (Char.not_lt.mp ordered) others
          rintro rfl
          exact further (List.cons.inj same).1
    next alone =>
      cases others
      have apart := beginsRange_eq_false fun next rest same => absurd same (alone next rest)
      exact ⟨opening :: tail, by simp, rfl, single apart⟩

theorem length_of_classItem {text after : List Char} {item : ClassItem}
    (read : Pattern.classItem text = .ok (item, after)) : after.length < text.length := by
  obtain ⟨written, nonempty, rfl, _⟩ := exists_of_classItem read
  have longer := List.length_pos_iff.mpr nonempty
  rw [List.length_append]
  omega

theorem classItems_conforms (fuel : Nat) : ∀ atFirst,
    Conforms (Pattern.classItems fuel atFirst) (ClassItems atFirst) := by
  induction fuel with
  | zero =>
    intro atFirst text items rest read
    cases read
  | succ fuel ih =>
    intro atFirst text items rest read
    cases text with
    | nil => cases read
    | cons letter text =>
      rw [Pattern.classItems] at read
      split at read
      next closing =>
        obtain ⟨rfl, rfl⟩ := closing
        cases read
        exact ⟨[']'], rfl, .close⟩
      next inside =>
        obtain ⟨⟨item, after⟩, one, others⟩ := exists_of_bind read
        obtain ⟨⟨further, behind⟩, several, same⟩ := exists_of_bind others
        cases same
        obtain ⟨written, _, shape, items⟩ := exists_of_classItem one
        obtain ⟨inner, rfl, derived⟩ := ih false _ _ _ several
        refine ⟨written ++ inner, by rw [shape, List.append_assoc], items ?_ rfl derived⟩
        cases atFirst with
        | true => exact .inl rfl
        | false => exact .inr fun first => inside ⟨Option.some.inj first, rfl⟩

/-- Fuel that lasts for the text never decides what is read of a class. -/
theorem classItems_stable (fuel : Nat) : ∀ {more : Nat} {atFirst : Bool} {text : List Char},
    text.length ≤ fuel → text.length ≤ more →
      Pattern.classItems fuel atFirst text = Pattern.classItems more atFirst text := by
  induction fuel with
  | zero =>
    intro more atFirst text enough _
    rw [List.length_eq_zero_iff.mp (Nat.le_zero.mp enough)]
    cases more <;> rfl
  | succ fuel ih =>
    intro more atFirst text enough also
    cases text with
    | nil => cases more <;> rfl
    | cons letter text =>
      cases more with
      | zero => cases also
      | succ more =>
        rw [Pattern.classItems, Pattern.classItems]
        cases one : Pattern.classItem (letter :: text) with
        | error rejection => rfl
        | ok found =>
          have shorter := length_of_classItem one
          rw [List.length_cons] at enough also shorter
          have same : Pattern.classItems fuel false found.2 =
              Pattern.classItems more false found.2 := ih (by omega) (by omega)
          simp only [bind, Except.bind, same]

theorem classBody_conforms : Conforms Pattern.classBody ClassText := by
  intro text set rest read
  obtain ⟨⟨items, after⟩, several, same⟩ := exists_of_bind read
  cases same
  split at several
  next =>
    obtain ⟨inner, shape, derived⟩ := classItems_conforms _ _ _ _ _ several
    exact ⟨'^' :: inner, congrArg ('^' :: ·) shape, .negated derived⟩
  next unmarked =>
    obtain ⟨inner, shape, derived⟩ := classItems_conforms _ _ _ _ _ several
    refine ⟨inner, shape, .positive (fun marked => ?_) derived⟩
    obtain ⟨further, rfl⟩ := List.head?_eq_some_iff.mp marked
    exact unmarked _ shape

/-! ### Groups -/

theorem groupName_conforms : Conforms Pattern.groupName fun written name =>
    ∃ letters, isName letters = true ∧ written = letters ++ ['>'] ∧
      name = String.ofList letters := by
  intro text name rest read
  unfold Pattern.groupName at read
  split at read
  next => cases read
  next closed =>
    split at read
    next => cases read
    next nonempty =>
      cases read
      refine ⟨text.takeWhile Pattern.isNameLetter ++ ['>'], ?_, _, ?_, rfl, rfl⟩
      · rw [List.append_assoc, List.singleton_append, ← closed, List.takeWhile_append_dropWhile]
      · rw [isName, Bool.eq_false_iff.mpr nonempty, List.all_takeWhile]
        rfl
  next => cases read

theorem groupHeader_conforms : Conforms Pattern.groupHeader GroupHeader := by
  have named (front : List Char) (marked : ∀ {letters}, isName letters = true →
        GroupHeader (front ++ '<' :: letters ++ ['>']) (some (String.ofList letters)))
      {after rest : List Char} {name : Option String}
      (read : (Pattern.expect '<' after >>= fun behind => Pattern.groupName behind >>= fun found =>
        .ok (some found.1, found.2)) = Except.ok (name, rest)) :
      ∃ written, front ++ after = written ++ rest ∧ GroupHeader written name := by
    obtain ⟨behind, opened, others⟩ := exists_of_bind read
    obtain ⟨⟨letters, body⟩, one, same⟩ := exists_of_bind others
    obtain ⟨_, shape, name, valid, rfl, rfl⟩ := groupName_conforms _ _ _ one
    cases same
    refine ⟨_, ?_, marked valid⟩
    rw [eq_of_expect opened, shape]
    simp
  intro text name rest read
  unfold Pattern.groupHeader at read
  split at read
  next =>
    cases read
    exact ⟨['?', ':'], rfl, .unnamed⟩
  next => exact named ['?', 'P'] .marked read
  next => exact named ['?'] .named read
  next =>
    cases read
    exact ⟨[], rfl, .bare⟩

/-! ### Rounds -/

/-- What one round of the reader can do with the text that it takes. -/
inductive Turns : Stage → List Char → Stage → Prop where
  | item {level : Pattern.Level} {outer : List Pattern.Level} {read : List Char} {tree : Template}
      (pattern : Pattern) (derived : Derives (letters read) (.item tree)) :
      Turns (level, outer) read (level.push pattern, outer)
  | quantifier {level : Pattern.Level} {outer : List Pattern.Level} {letter : Char}
      {quantifier : Quantifier} (meant : Pattern.quantifier? letter = some quantifier)
      (item : Pattern) :
      Turns (level.push item, outer) [letter] (level.push (.repeated item quantifier), outer)
  | alternate (level : Pattern.Level) (outer : List Pattern.Level) :
      Turns (level, outer) ['|'] (level.alternate, outer)
  | opens {level : Pattern.Level} {outer : List Pattern.Level} {header : List Char}
      {name : Option String} (opened : GroupHeader header name) :
      Turns (level, outer) ('(' :: header) (.opened name, level :: outer)
  | closes (level enclosing : Pattern.Level) (outer : List Pattern.Level) :
      Turns (level, enclosing :: outer) [')'] (enclosing.push level.closed, outer)

/-- The reader rejects the text, or it takes a turn with what stands in front of it. -/
def Progresses (level : Pattern.Level) (outer : List Pattern.Level) (text : List Char) : Prop :=
  (∃ rejection, ∀ fuel, Pattern.readFrom (fuel + 1) level outer text = .error rejection) ∨
  ∃ stage read after, text = read ++ after ∧ read ≠ [] ∧ Turns (level, outer) read stage ∧
    ∀ fuel, Pattern.readFrom (fuel + 1) level outer text =
      Pattern.readFrom fuel stage.1 stage.2 after

variable {level : Pattern.Level} {outer : List Pattern.Level}

/-- A round that begins with another reader progresses if the grammar takes what that one does. -/
theorem Progresses.of_conforms {Value : Type} {letter : Char} {rest : List Char}
    {reader : List Char → Pattern.Reading (Value × List Char)}
    {Written : List Char → Value → Prop} (conforms : Conforms reader Written)
    (further : Value → Stage)
    (round : ∀ fuel, Pattern.readFrom (fuel + 1) level outer (letter :: rest) =
      reader rest >>= fun found =>
        Pattern.readFrom fuel (further found.1).1 (further found.1).2 found.2)
    (turns : ∀ {written value}, Written written value →
      Turns (level, outer) (letter :: written) (further value)) :
    Progresses level outer (letter :: rest) := by
  cases one : reader rest with
  | error rejection => exact .inl ⟨rejection, fun fuel => by rw [round, one]; rfl⟩
  | ok found =>
    obtain ⟨written, rfl, meant⟩ := conforms _ _ _ one
    refine .inr ⟨_, _, _, rfl, List.cons_ne_nil _ _, turns meant, fun fuel => ?_⟩
    rw [round, one]
    rfl

theorem Progresses.of_turn {letter : Char} {rest : List Char} {stage : Stage}
    (turns : Turns (level, outer) [letter] stage)
    (round : ∀ fuel, Pattern.readFrom (fuel + 1) level outer (letter :: rest) =
      Pattern.readFrom fuel stage.1 stage.2 rest) : Progresses level outer (letter :: rest) :=
  .inr ⟨stage, [letter], rest, rfl, List.cons_ne_nil _ _, turns, round⟩

theorem Progresses.of_quantifier {letter : Char} {quantifier : Quantifier}
    (meant : Pattern.quantifier? letter = some quantifier) (level : Pattern.Level)
    (outer : List Pattern.Level) (rest : List Char) : Progresses level outer (letter :: rest) := by
  obtain ⟨name, alternatives, items⟩ := level
  cases items with
  | nil =>
    refine .inl ⟨⟨.nothingToRepeat, letter :: rest⟩, fun fuel => ?_⟩
    unfold Pattern.quantifier? at meant
    split at meant <;> cases meant <;> cases outer <;> rfl
  | cons item items =>
    change Progresses (Pattern.Level.push ⟨name, alternatives, items⟩ item) outer _
    exact .of_turn (.quantifier meant item) (readFrom_quantifier _ outer meant item · rest)

theorem progresses (level : Pattern.Level) (outer : List Pattern.Level) (letter : Char)
    (rest : List Char) : Progresses level outer (letter :: rest) := by
  cases itself : ordinary letter with
  | true => exact .of_turn (.item _ (.letter itself)) (readFrom_ordinary level outer itself · rest)
  | false =>
    simp only [ordinary, decide_eq_false_iff_not, Decidable.not_not, List.mem_cons,
      List.not_mem_nil, or_false] at itself
    rcases itself with rfl | rfl | rfl | rfl | rfl | rfl | rfl | rfl | rfl | rfl | rfl
    · exact .of_conforms groupHeader_conforms (fun name => (.opened name, level :: outer))
        (readFrom_group level outer · rest) .opens
    · cases outer with
      | nil => exact .inl ⟨_, fun _ => rfl⟩
      | cons enclosing outer => exact .of_turn (.closes ..) fun _ => rfl
    · exact .of_conforms classBody_conforms (fun set => (level.push (.oneOf set), outer))
        (readFrom_class level outer · rest) fun inside => .item _ (.oneOf inside)
    · exact .of_turn (.item _ .anyChar) fun _ => by cases outer <;> rfl
    · exact .of_turn (.item _ .atStart) fun _ => by cases outer <;> rfl
    · exact .of_turn (.item _ .atEnd) fun _ => by cases outer <;> rfl
    · exact .of_conforms escape_conforms (fun pattern => (level.push pattern, outer))
        (readFrom_escape level outer · rest) fun meant => .item _ (.escape meant)
    · exact .of_turn (.alternate ..) fun _ => by cases outer <;> rfl
    · exact @Progresses.of_quantifier '*' .star rfl level outer rest
    · exact @Progresses.of_quantifier '+' .plus rfl level outer rest
    · exact @Progresses.of_quantifier '?' .optional rfl level outer rest

theorem readFrom_nil (fuel more : Nat) (level : Pattern.Level) (outer : List Pattern.Level) :
    Pattern.readFrom fuel level outer [] = Pattern.readFrom more level outer [] := by
  cases outer <;> cases fuel <;> cases more <;> rfl

/-- Fuel that lasts for the text never decides what is read of it. -/
theorem readFrom_stable (fuel : Nat) : ∀ {more : Nat} {level : Pattern.Level}
    {outer : List Pattern.Level} {text : List Char}, text.length ≤ fuel → text.length ≤ more →
      Pattern.readFrom fuel level outer text = Pattern.readFrom more level outer text := by
  induction fuel with
  | zero =>
    intro more level outer text enough _
    rw [List.length_eq_zero_iff.mp (Nat.le_zero.mp enough)]
    exact readFrom_nil ..
  | succ fuel ih =>
    intro more level outer text enough also
    cases text with
    | nil => exact readFrom_nil ..
    | cons letter text =>
      cases more with
      | zero => cases also
      | succ more =>
        rcases progresses level outer letter text with ⟨rejection, rejects⟩ |
          ⟨stage, read, after, shape, nonempty, _, round⟩
        · rw [rejects, rejects]
        · have longer := List.length_pos_iff.mpr nonempty
          rw [shape, List.length_append] at enough also
          rw [round, round]
          exact ih (by omega) (by omega)

/-! ### Derivations -/

theorem Derives.sequence_concat {front back : List Piece} {tree : Template}
    (last : Derives back (.item tree)) {items : List Template}
    (earlier : Derives front (.sequence items)) :
    Derives (front ++ back) (.sequence (items ++ [tree])) := by
  generalize same : Phrase.sequence items = phrase at earlier
  induction earlier generalizing items with
  | nothing =>
    cases same
    simpa using Derives.item last .nothing
  | @item text rest first others one further _ ih =>
    cases same
    rw [List.append_assoc]
    exact .item one (ih rfl)
  | _ => cases same

/-- The text that was read into a group since it was opened: items, some repeated, and bars. -/
inductive Gathers (name : Option String) : Pattern.Level → List Char → Prop where
  | opened : Gathers name (.opened name) []
  | item {level : Pattern.Level} {text read : List Char} {tree : Template} (pattern : Pattern)
      (earlier : Gathers name level text) (derived : Derives (letters read) (.item tree)) :
      Gathers name (level.push pattern) (text ++ read)
  | alternate {level : Pattern.Level} {text : List Char} (earlier : Gathers name level text) :
      Gathers name level.alternate (text ++ ['|'])

namespace Gathers

variable {name : Option String} {text : List Char}

/-- Where there is an item to repeat, it was the last to be read. -/
theorem quantifier {letter : Char} {quantifier : Quantifier} {item : Pattern}
    (gathers : Gathers name (level.push item) text)
    (meant : Pattern.quantifier? letter = some quantifier) :
    Gathers name (level.push (.repeated item quantifier)) (text ++ [letter]) := by
  generalize same : level.push item = whole at gathers
  cases gathers with
  | opened => cases congrArg Pattern.Level.items same
  | alternate _ => cases congrArg Pattern.Level.items same
  | @item before text read tree pattern earlier derived =>
    have unchanged : before = level := by
      obtain ⟨_, _, _⟩ := level
      obtain ⟨_, _, _⟩ := before
      cases same
      rfl
    have repeated : Derives (letters (read ++ [letter])) (.item (.repeated tree quantifier)) := by
      rw [letters, List.map_append]
      exact .repeated derived meant
    rw [List.append_assoc, ← unchanged]
    exact .item _ earlier repeated

/-- The bars divide the text into sequences of items, of which the last may go on. -/
theorem splits (gathers : Gathers name level text) : ∃ front current items,
    text = front ++ current ∧ Derives (letters current) (.sequence items) ∧
      ∀ {more alternatives}, Derives (letters more) (.alternation alternatives) →
        ∃ alternatives, Derives (letters (front ++ more)) (.alternation alternatives) := by
  induction gathers with
  | opened => exact ⟨[], [], [], rfl, .nothing, fun derived => ⟨_, derived⟩⟩
  | @item _ text read tree _ _ derived ih =>
    obtain ⟨front, current, items, rfl, sequence, whole⟩ := ih
    refine ⟨front, current ++ read, items ++ [tree], List.append_assoc .., ?_, whole⟩
    rw [letters, List.map_append]
    exact derived.sequence_concat sequence
  | alternate _ ih =>
    obtain ⟨front, current, items, rfl, sequence, whole⟩ := ih
    refine ⟨front ++ current ++ ['|'], [], [], by simp, .nothing, ?_⟩
    intro more alternatives derived
    have joined : Derives (letters (current ++ '|' :: more))
        (.alternation (.sequenceOf items :: alternatives)) := by
      rw [letters, List.map_append]
      exact .alternative sequence derived
    rw [List.append_assoc, List.append_assoc]
    exact whole joined

theorem derives (gathers : Gathers name level text) :
    ∃ alternatives, Derives (letters text) (.alternation alternatives) := by
  obtain ⟨front, current, items, rfl, sequence, whole⟩ := gathers.splits
  exact whole (.only sequence)

end Gathers

/-- The text that was read so far: what the innermost open group gathers, behind what each of those
around it had gathered before the next one was opened. -/
inductive Consumes : Stage → List Char → Prop where
  | outermost {level : Pattern.Level} {text : List Char} (gathers : Gathers none level text) :
      Consumes (level, []) text
  | inside {level enclosing : Pattern.Level} {outer : List Pattern.Level}
      {before header text : List Char} {name : Option String}
      (around : Consumes (enclosing, outer) before) (opened : GroupHeader header name)
      (gathers : Gathers name level text) :
      Consumes (level, enclosing :: outer) (before ++ '(' :: (header ++ text))

namespace Consumes

/-- What the innermost open group gathers is added to the whole. -/
theorem extend {after : Pattern.Level} {text read : List Char}
    (consumes : Consumes (level, outer) text) (gather : ∀ {name before},
      Gathers name level before → Gathers name after (before ++ read)) :
    Consumes (after, outer) (text ++ read) := by
  cases consumes with
  | outermost gathers => exact .outermost (gather gathers)
  | inside around opened gathers =>
    rw [List.append_assoc, List.cons_append, List.append_assoc]
    exact .inside around opened (gather gathers)

/-- A group that is closed is an item of the one around it. -/
theorem close {enclosing : Pattern.Level} {text : List Char}
    (consumes : Consumes (level, enclosing :: outer) text) :
    Consumes (enclosing.push level.closed, outer) (text ++ [')']) := by
  cases consumes with
  | @inside _ _ _ before header text name around opened gathers =>
    obtain ⟨alternatives, inner⟩ := gathers.derives
    have group : Derives (letters ('(' :: (header ++ text ++ [')'])))
        (.item (.grouped name (.choiceOf alternatives))) := by
      simpa [letters] using Derives.group opened inner
    rw [List.append_assoc, List.cons_append]
    exact around.extend fun earlier => .item _ earlier group

theorem turn {stage after : Stage} {text read : List Char} (consumes : Consumes stage text)
    (turns : Turns stage read after) : Consumes after (text ++ read) := by
  cases turns with
  | item pattern derived => exact consumes.extend fun earlier => .item pattern earlier derived
  | quantifier meant item => exact consumes.extend fun earlier => earlier.quantifier meant
  | alternate level outer => exact consumes.extend .alternate
  | @opens level outer header name opened =>
    have inside := Consumes.inside consumes opened .opened
    rwa [List.append_nil] at inside
  | closes level enclosing outer => exact consumes.close

/-- A run that succeeds has come to the end of the text outside all groups. -/
theorem run (fuel : Nat) : ∀ {level : Pattern.Level} {outer : List Pattern.Level}
    {before rest : List Char} {pattern : Pattern}, Consumes (level, outer) before →
      Pattern.readFrom fuel level outer rest = .ok pattern →
      ∃ alternatives, Derives (letters (before ++ rest)) (.alternation alternatives) := by
  have done {level : Pattern.Level} {outer : List Pattern.Level} {before : List Char}
      {pattern : Pattern} {fuel : Nat} (consumes : Consumes (level, outer) before)
      (read : Pattern.readFrom fuel level outer [] = .ok pattern) :
      ∃ alternatives, Derives (letters (before ++ [])) (.alternation alternatives) := by
    rw [List.append_nil]
    cases consumes with
    | outermost gathers => exact gathers.derives
    | inside _ _ _ => cases fuel <;> cases read
  induction fuel with
  | zero =>
    intro level outer before rest pattern consumes read
    cases rest with
    | nil => exact done consumes read
    | cons letter rest => cases outer <;> cases read
  | succ fuel ih =>
    intro level outer before rest pattern consumes read
    cases rest with
    | nil => exact done consumes read
    | cons letter rest =>
      rcases progresses level outer letter rest with ⟨rejection, rejects⟩ |
        ⟨stage, taken, after, shape, _, turns, round⟩
      · rw [rejects] at read
        cases read
      · rw [round] at read
        rw [shape, ← List.append_assoc]
        exact ih (consumes.turn turns) read

end Consumes

/-- Reading always comes to an end, and the fuel never decides. A pattern is returned for the texts
of the dialect and no others, and it is the one that the derivation of the text stands for. In the
escapes of the dialect code points are written as numbers. -/
theorem parse_accepts_iff (text : List Char) :
    (∀ fuel, text.length ≤ fuel → Pattern.readFrom fuel (.opened none) [] text =
      Pattern.readFrom text.length (.opened none) [] text) ∧
    (∀ fuel atFirst, text.length ≤ fuel → Pattern.classItems fuel atFirst text =
      Pattern.classItems text.length atFirst text) ∧
    ((∃ pattern, Pattern.parse text = .ok pattern) ↔
      ∃ alternatives, Derives (letters text) (.alternation alternatives)) ∧
    (∀ alternatives, Derives (letters text) (.alternation alternatives) → ∀ pattern,
      Pattern.parse text = .ok pattern ↔
        ∀ trees, (Template.choiceOf alternatives).fill trees = pattern) ∧
    ∀ letter, Pattern.codePoint? text = some letter ↔ WritesCodePoint text letter := by
  refine ⟨fun _ enough => readFrom_stable _ enough (Nat.le_refl _),
    fun _ _ enough => classItems_stable _ enough (Nat.le_refl _), ⟨?_, ?_⟩, ?_,
    fun _ => codePoint?_eq_some_iff⟩
  · rintro ⟨pattern, accepted⟩
    unfold Pattern.parse at accepted
    split at accepted
    next read => exact Consumes.run _ (.outermost .opened) read
    next => cases accepted
  · rintro ⟨alternatives, derived⟩
    exact ⟨_, derived.parse fun _ => .empty⟩
  · intro alternatives derived pattern
    constructor
    · intro accepted trees
      rw [derived.parse trees] at accepted
      exact Except.ok.inj accepted
    · intro stands
      rw [derived.parse fun _ => .empty, stands]

/-- A bracket in the first place, a mark behind it and a dash in the last place are letters. -/
example : Pattern.parse "[]-a^-]|b*?".toList =
    .ok (.choice [.oneOf ⟨false, [.range ']' 'a', .range '^' '^', .range '-' '-']⟩,
      .repeated (.repeated (.char 'b') .star) .optional]) := by
  decide +kernel

end TreeSelect.Dialect
