import TreeSelect.Proofs.Pattern.Dialect

/-! The reader of patterns follows the grammar of the dialect: on a stretch of a template with
every reference expanded, it builds the tree of the stretch, whatever stands around it. -/

namespace TreeSelect

/-- A computation that succeeds has succeeded in its first step. -/
theorem exists_of_bind {Failure Value Result : Type} {first : Except Failure Value}
    {further : Value → Except Failure Result} {result : Result}
    (succeeded : first >>= further = .ok result) :
    ∃ value, first = .ok value ∧ further value = .ok result := by
  cases first with
  | error error => cases succeeded
  | ok value => exact ⟨value, rfl, succeeded⟩

namespace Dialect

/-! ### Escapes and classes -/

theorem expect_self (letter : Char) (rest : List Char) :
    Pattern.expect letter (letter :: rest) = .ok rest := by
  simp [Pattern.expect]

/-- No escaped letter is mistaken for one of the named classes. -/
theorem EscapedLetter.reads {text : List Char} {letter : Char}
    (meant : EscapedLetter text letter) :
    ∃ selector after, text = selector :: after ∧ namedClass? selector = none ∧
      ∀ start rest, Pattern.escapedLetter start selector (after ++ rest) = .ok (letter, rest) := by
  cases meant with
  | tab => exact ⟨'t', [], rfl, rfl, fun _ _ => rfl⟩
  | carriageReturn => exact ⟨'r', [], rfl, rfl, fun _ _ => rfl⟩
  | newline => exact ⟨'n', [], rfl, rfl, fun _ _ => rfl⟩
  | @codePoint digits _ inside value =>
      refine ⟨'u', '\x7b' :: digits ++ ['\x7d'], rfl, rfl, fun start rest => ?_⟩
      have open_digits : ∀ found ∈ digits, decide (found ≠ '\x7d') = true := fun found member =>
        decide_eq_true fun closing => inside (closing ▸ member)
      have shape : '\x7b' :: digits ++ ['\x7d'] ++ rest = '\x7b' :: (digits ++ '\x7d' :: rest) := by
        simp
      rw [shape]
      simp only [Pattern.escapedLetter, expect_self, bind, Except.bind,
        List.dropWhile_append_of_pos open_digits, List.takeWhile_append_of_pos open_digits]
      simp [expect_self, value]
  | itself other =>
      have unnamed : ∀ selector : Char, selector.isAlphanum = true → letter ≠ selector :=
        fun selector named equal => by rw [equal, named] at other; cases other
      refine ⟨letter, [], rfl, ?_, fun start rest => ?_⟩
      · rw [namedClass?]
        all_goals exact unnamed _ (by decide)
      · rw [Pattern.escapedLetter, other]
        · rfl
        all_goals exact unnamed _ (by decide)

theorem namedItem?_of_namedClass? {letter : Char} (unknown : namedClass? letter = none) :
    namedItem? letter = none := by
  rw [namedItem?]
  all_goals
    rintro rfl
    cases unknown

/-- A letter of a class is read as itself, and never as a named class. -/
theorem ClassLetter.reads {text : List Char} {letter : Char} (meant : ClassLetter text letter)
    (rest : List Char) :
    Pattern.classLetter (text ++ rest) = .ok (letter, rest) ∧
      ∀ selector after, text ++ rest = '\\' :: selector :: after →
        namedItem? selector = none := by
  cases meant with
  | plain unescaped =>
      refine ⟨?_, fun selector after equal => absurd (List.cons.inj equal).1 unescaped⟩
      unfold Pattern.classLetter
      split <;> simp_all
  | escaped meant =>
      obtain ⟨selector, after, rfl, unnamed, reads⟩ := meant.reads
      refine ⟨reads _ rest, fun other behind equal => ?_⟩
      cases equal
      exact namedItem?_of_namedClass? unnamed

theorem ClassLetter.opening {text : List Char} {letter : Char} (meant : ClassLetter text letter) :
    ∃ first tail, text = first :: tail ∧ (first = ']' → text = [']']) := by
  cases meant with
  | plain _ => exact ⟨letter, [], rfl, fun bracket => by rw [bracket]⟩
  | @escaped text _ _ => exact ⟨'\\', text, rfl, fun bracket => absurd bracket (by decide)⟩

theorem classItem_named {letter : Char} {item : ClassItem} (known : namedItem? letter = some item)
    (rest : List Char) : Pattern.classItem ('\\' :: letter :: rest) = .ok (item, rest) := by
  unfold namedItem? at known
  split at known <;> cases known <;> rfl

theorem classItem_unnamed {text : List Char}
    (unnamed : ∀ letter after, text = '\\' :: letter :: after → namedItem? letter = none) :
    Pattern.classItem text =
      Pattern.classLetter text >>= fun found => Pattern.itemFrom found.1 found.2 := by
  rw [Pattern.classItem]
  all_goals
    intro after named
    exact absurd (unnamed _ after named) (by decide)

theorem ClassLetter.classItem_eq {text : List Char} {letter : Char}
    (meant : ClassLetter text letter) (rest : List Char) :
    Pattern.classItem (text ++ rest) = Pattern.itemFrom letter rest := by
  obtain ⟨reads, unnamed⟩ := meant.reads rest
  rw [classItem_unnamed unnamed, reads]
  rfl

theorem ClassLetter.classItem_single {text : List Char} {letter : Char}
    (meant : ClassLetter text letter) {rest : List Char} (alone : beginsRange rest = false) :
    Pattern.classItem (text ++ rest) = .ok (.range letter letter, rest) := by
  rw [meant.classItem_eq]
  unfold Pattern.itemFrom
  split
  next next behind =>
    have bracket : next = ']' := by simpa [beginsRange] using alone
    exact if_pos bracket
  next => rfl

theorem ClassLetter.classItem_range {low high : List Char} {first last : Char}
    (lower : ClassLetter low first) (upper : ClassLetter high last) (further : high ≠ [']'])
    (ordered : first ≤ last) (rest : List Char) :
    Pattern.classItem (low ++ '-' :: (high ++ rest)) = .ok (.range first last, rest) := by
  obtain ⟨next, tail, rfl, bracket⟩ := upper.opening
  have reads := (upper.reads rest).1
  rw [lower.classItem_eq]
  simp only [Pattern.itemFrom, List.cons_append] at reads ⊢
  rw [if_neg fun equal => further (bracket equal), reads]
  exact if_neg (Char.not_lt.mpr ordered)

theorem ClassItems.closes_or_long {atFirst : Bool} {text : List Char} {items : List ClassItem}
    (inside : ClassItems atFirst text items) : text = [']'] ∨ 2 ≤ text.length := by
  have long : ∀ {written behind : List Char} {letter : Char}, ClassLetter written letter →
      behind = [']'] ∨ 2 ≤ behind.length → 2 ≤ (written ++ behind).length := by
    intro written behind letter meant short
    obtain ⟨first, tail, rfl, -⟩ := meant.opening
    rcases short with rfl | short <;> simp only [List.length_append, List.length_cons] <;> omega
  induction inside with
  | close => exact .inl rfl
  | named _ _ _ => exact .inr (Nat.le_add_left 2 _)
  | single meant _ _ _ ih => exact .inr (long meant ih)
  | range lower _ upper _ _ _ ih =>
      exact .inr (long lower (.inr (Nat.succ_le_succ (Nat.le_of_succ_le (long upper ih)))))

/-- The look-ahead never passes the closing bracket. -/
theorem ClassItems.beginsRange_append {atFirst : Bool} {text : List Char} {items : List ClassItem}
    (inside : ClassItems atFirst text items) (rest : List Char) :
    beginsRange (text ++ rest) = beginsRange text := by
  rcases inside.closes_or_long with rfl | long
  · rfl
  · match text, long with
    | first :: next :: tail, _ =>
        by_cases dash : first = '-'
        · subst dash
          rfl
        · simp [beginsRange, dash]

theorem ClassItems.length_pos {atFirst : Bool} {text : List Char} {items : List ClassItem}
    (inside : ClassItems atFirst text items) : 0 < text.length := by
  rcases inside.closes_or_long with rfl | long
  · exact Nat.one_pos
  · omega

theorem classItems_item {fuel : Nat} {atFirst : Bool} {first : Char} {text after rest : List Char}
    {item : ClassItem} {items : List ClassItem} (inside : atFirst = true ∨ first ≠ ']')
    (one : Pattern.classItem (first :: text) = .ok (item, after))
    (others : Pattern.classItems fuel false after = .ok (items, rest)) :
    Pattern.classItems (fuel + 1) atFirst (first :: text) = .ok (item :: items, rest) := by
  have open_still : ¬(first = ']' ∧ atFirst = false) := by
    rintro ⟨rfl, rfl⟩
    rcases inside with false_true | other
    · cases false_true
    · exact other rfl
  simp only [Pattern.classItems, if_neg open_still, one, others, bind, Except.bind]

theorem ClassLetter.not_bracket {atFirst : Bool} {first : Char} {tail : List Char}
    (bracket : first = ']' → first :: tail = [']'])
    (inside : atFirst = true ∨ first :: tail ≠ [']']) : atFirst = true ∨ first ≠ ']' :=
  inside.imp_right fun other equal => other (bracket equal)

theorem ClassItems.reads {atFirst : Bool} {text : List Char} {items : List ClassItem}
    (inside : ClassItems atFirst text items) (rest : List Char) :
    ∀ fuel, text.length ≤ fuel →
      Pattern.classItems fuel atFirst (text ++ rest) = .ok (items, rest) := by
  induction inside with
  | close =>
      rintro (_ | fuel) enough
      · simp at enough
      · rfl
  | named known _ ih =>
      rintro (_ | fuel) enough
      · simp at enough
      · exact classItems_item (.inr (by decide)) (classItem_named known _)
          (ih fuel (by simp only [List.length_cons] at enough; omega))
  | @single _ _ text _ _ meant inside alone further ih =>
      obtain ⟨first, tail, rfl, bracket⟩ := meant.opening
      have alone_still : beginsRange (text ++ rest) = false := by
        rw [further.beginsRange_append, alone]
      have one := meant.classItem_single alone_still
      rintro (_ | fuel) enough
      · simp at enough
      · rw [List.append_assoc]
        exact classItems_item (ClassLetter.not_bracket bracket inside) one
          (ih fuel (by simp only [List.length_append, List.length_cons] at enough; omega))
  | @range _ low high text _ _ _ lower inside upper further ordered _ ih =>
      obtain ⟨first, tail, rfl, bracket⟩ := lower.opening
      have one := lower.classItem_range upper further ordered (text ++ rest)
      rintro (_ | fuel) enough
      · simp at enough
      · have shape : first :: tail ++ '-' :: (high ++ text) ++ rest =
            first :: (tail ++ '-' :: (high ++ (text ++ rest))) := by simp
        rw [shape]
        exact classItems_item (ClassLetter.not_bracket bracket inside) one
          (ih fuel (by simp only [List.length_append, List.length_cons] at enough; omega))

theorem classBody_unmarked {first : Char} (unmarked : first ≠ '^') (text : List Char) :
    Pattern.classBody (first :: text) =
      Pattern.classItems (text.length + 2) true (first :: text) >>= fun (items, after) =>
        .ok (⟨false, items⟩, after) := by
  simp [Pattern.classBody, unmarked]

theorem ClassText.reads {text : List Char} {set : CharClass} (inside : ClassText text set)
    (rest : List Char) : Pattern.classBody (text ++ rest) = .ok (set, rest) := by
  cases inside with
  | @positive _ items unmarked inside =>
      have read := inside.reads rest
      match text, inside.length_pos with
      | first :: tail, _ =>
          rw [List.cons_append, classBody_unmarked fun marked => unmarked (by rw [marked]; rfl),
            ← List.cons_append, read _ (by simp only [List.length_cons, List.length_append]; omega)]
          rfl
  | @negated text items inside =>
      have read := inside.reads rest ((text ++ rest).length + 1)
        (by rw [List.length_append]; omega)
      simp only [Pattern.classBody, List.cons_append, read, bind, Except.bind]

theorem escape_named {selector : Char} {set : CharClass}
    (known : namedClass? selector = some set) (after : List Char) :
    Pattern.escape (selector :: after) = .ok (.oneOf set, after) := by
  unfold namedClass? at known
  split at known <;> cases known <;> rfl

theorem escape_unnamed {selector : Char} (unnamed : namedClass? selector = none)
    (after : List Char) : Pattern.escape (selector :: after) =
      Pattern.escapedLetter ('\\' :: selector :: after) selector after >>= fun found =>
        .ok (.char found.1, found.2) := by
  rw [Pattern.escape]
  all_goals
    rintro rfl
    cases unnamed

theorem Escape.reads {text : List Char} {pattern : Pattern} (meant : Escape text pattern)
    (rest : List Char) : Pattern.escape (text ++ rest) = .ok (pattern, rest) := by
  cases meant with
  | named known => exact escape_named known rest
  | letter meant =>
      obtain ⟨selector, after, rfl, unnamed, reads⟩ := meant.reads
      rw [List.cons_append, escape_unnamed unnamed, reads]
      rfl

/-! ### Groups -/

theorem groupName_of_isName {name : List Char} (valid : isName name = true) (rest : List Char) :
    Pattern.groupName (name ++ '>' :: rest) = .ok (String.ofList name, rest) := by
  simp only [isName, Bool.and_eq_true, Bool.not_eq_true', List.all_eq_true] at valid
  obtain ⟨nonempty, letters⟩ := valid
  have closing : Pattern.isNameLetter '>' = false := by decide
  unfold Pattern.groupName
  rw [List.dropWhile_append_of_pos letters, List.takeWhile_append_of_pos letters,
    List.dropWhile_cons_of_neg (by simp [closing]), List.takeWhile_cons_of_neg (by simp [closing]),
    List.append_nil]
  simp only [nonempty]
  rfl

/-- A group without a header may begin with anything but a question mark. -/
theorem GroupHeader.reads {header : List Char} {name : Option String}
    (opened : GroupHeader header name) {body : List Char}
    (unmarked : header = [] → body.head? ≠ some '?') :
    Pattern.groupHeader (header ++ body) = .ok (name, body) := by
  cases opened with
  | bare =>
      specialize unmarked rfl
      rw [List.nil_append]
      unfold Pattern.groupHeader
      split <;> simp_all
  | unnamed => rfl
  | named valid | marked valid =>
      have read := groupName_of_isName valid body
      simp only [List.cons_append, List.append_assoc, List.nil_append]
      change (Pattern.groupName (_ ++ '>' :: body) >>= fun found =>
        Except.ok (some found.1, found.2)) = _
      rw [read]
      rfl

/-! ### Items, sequences and alternatives -/

/-- The group that is being read, and those around it from the inside out. -/
abbrev Stage := Pattern.Level × List Pattern.Level

/-- Reading `text` leads from one stage to the other, whatever text follows it. Fuel that lasts
for the text and what follows leaves enough for what follows. -/
def Advances (before : Stage) (text : List Char) (after : Stage) : Prop :=
  ∀ rest fuel, (text ++ rest).length ≤ fuel → ∃ left, rest.length ≤ left ∧
    Pattern.readFrom fuel before.1 before.2 (text ++ rest) =
      Pattern.readFrom left after.1 after.2 rest

namespace Advances

variable {before middle after : Stage} {first second text : List Char}

theorem nothing (stage : Stage) : Advances stage [] stage :=
  fun _ fuel enough => ⟨fuel, enough, rfl⟩

theorem append (one : Advances before first middle) (other : Advances middle second after) :
    Advances before (first ++ second) after := by
  intro rest fuel enough
  rw [List.append_assoc] at enough ⊢
  obtain ⟨between, enough, taken⟩ := one (second ++ rest) fuel enough
  obtain ⟨left, enough, further⟩ := other rest between enough
  exact ⟨left, enough, taken.trans further⟩

/-- One round of the reader takes a letter at least. -/
theorem of_round (nonempty : 0 < text.length)
    (round : ∀ fuel rest, Pattern.readFrom (fuel + 1) before.1 before.2 (text ++ rest) =
      Pattern.readFrom fuel after.1 after.2 rest) : Advances before text after := by
  rintro rest (_ | fuel) enough <;> rw [List.length_append] at enough
  · omega
  · exact ⟨fuel, by omega, round fuel rest⟩

end Advances

variable (level : Pattern.Level) (outer : List Pattern.Level)

theorem readFrom_ordinary {letter : Char} (itself : ordinary letter = true) (fuel : Nat)
    (rest : List Char) : Pattern.readFrom (fuel + 1) level outer (letter :: rest) =
      Pattern.readFrom fuel (level.push (.char letter)) outer rest := by
  have other : ∀ special : Char, ordinary special = false → letter ≠ special := by
    intro special taken equal
    rw [equal, taken] at itself
    cases itself
  have unquantified : Pattern.quantifier? letter = none := by
    rw [Pattern.quantifier?]
    all_goals exact other _ (by decide)
  cases outer
  all_goals
    rw [Pattern.readFrom, unquantified]
    all_goals exact other _ (by decide)

theorem readFrom_class (fuel : Nat) (rest : List Char) :
    Pattern.readFrom (fuel + 1) level outer ('[' :: rest) =
      Pattern.classBody rest >>= fun found =>
        Pattern.readFrom fuel (level.push (.oneOf found.1)) outer found.2 := by
  cases outer <;> rfl

theorem readFrom_escape (fuel : Nat) (rest : List Char) :
    Pattern.readFrom (fuel + 1) level outer ('\\' :: rest) =
      Pattern.escape rest >>= fun found =>
        Pattern.readFrom fuel (level.push found.1) outer found.2 := by
  cases outer <;> rfl

theorem readFrom_group (fuel : Nat) (rest : List Char) :
    Pattern.readFrom (fuel + 1) level outer ('(' :: rest) =
      Pattern.groupHeader rest >>= fun found =>
        Pattern.readFrom fuel (.opened found.1) (level :: outer) found.2 := by
  cases outer <;> rfl

theorem readFrom_quantifier {letter : Char} {quantifier : Quantifier}
    (meant : Pattern.quantifier? letter = some quantifier) (item : Pattern) (fuel : Nat)
    (rest : List Char) : Pattern.readFrom (fuel + 1) (level.push item) outer (letter :: rest) =
      Pattern.readFrom fuel (level.push (.repeated item quantifier)) outer rest := by
  unfold Pattern.quantifier? at meant
  split at meant <;> cases meant <;> cases outer <;> rfl

theorem advances_ordinary {letter : Char} (itself : ordinary letter = true) :
    Advances (level, outer) [letter] (level.push (.char letter), outer) :=
  .of_round Nat.one_pos (readFrom_ordinary level outer itself)

theorem advances_class {text : List Char} {set : CharClass} (inside : ClassText text set) :
    Advances (level, outer) ('[' :: text) (level.push (.oneOf set), outer) := by
  refine .of_round (Nat.succ_pos _) fun fuel rest => ?_
  exact (readFrom_class level outer fuel (text ++ rest)).trans (by rw [inside.reads]; rfl)

theorem advances_escape {text : List Char} {pattern : Pattern} (meant : Escape text pattern) :
    Advances (level, outer) ('\\' :: text) (level.push pattern, outer) := by
  refine .of_round (Nat.succ_pos _) fun fuel rest => ?_
  exact (readFrom_escape level outer fuel (text ++ rest)).trans (by rw [meant.reads]; rfl)

/-- The quantifier finds the item that was read last. -/
theorem advances_quantifier {letter : Char} {quantifier : Quantifier}
    (meant : Pattern.quantifier? letter = some quantifier) (item : Pattern) :
    Advances (level.push item, outer) [letter]
      (level.push (.repeated item quantifier), outer) :=
  .of_round Nat.one_pos (readFrom_quantifier level outer meant item)

theorem advances_alternate : Advances (level, outer) ['|'] (level.alternate, outer) :=
  .of_round Nat.one_pos fun _ _ => by cases outer <;> rfl

theorem advances_group {header : List Char} {name : Option String} {body : List Char}
    {final : Pattern.Level} (opened : GroupHeader header name)
    (unmarked : header = [] → ∀ rest, (body ++ ')' :: rest).head? ≠ some '?')
    (inner : Advances (.opened name, level :: outer) body (final, level :: outer)) :
    Advances (level, outer) ('(' :: (header ++ body ++ [')']))
      (level.push final.closed, outer) := by
  have closing : Advances (final, level :: outer) [')'] (level.push final.closed, outer) :=
    .of_round Nat.one_pos fun _ _ => rfl
  rintro rest (_ | fuel) enough
  · simp at enough
  · obtain ⟨left, remains, read⟩ := inner.append closing rest fuel (by
      simp only [List.length_append, List.length_cons, List.length_nil] at enough ⊢
      omega)
    have round := readFrom_group level outer fuel (header ++ (body ++ ')' :: rest))
    rw [opened.reads fun bare => unmarked bare rest] at round
    refine ⟨left, remains, ?_⟩
    rw [← read]
    simpa [bind, Except.bind] using round

/-! ### Templates -/

/-- The text of a stretch in which every reference is a named group around the text of its rule. -/
def spelled (bodies : List Char → List Char) : List Piece → List Char
  | [] => []
  | .plain letter :: rest => letter :: spelled bodies rest
  | .reference rule :: rest => '(' :: '?' :: '<' :: rule ++ '>' :: bodies rule ++ ')' ::
      spelled bodies rest

variable {bodies : List Char → List Char} {trees : List Char → Pattern}

theorem spelled_append (bodies : List Char → List Char) (front back : List Piece) :
    spelled bodies (front ++ back) = spelled bodies front ++ spelled bodies back := by
  induction front with
  | nil => rfl
  | cons piece rest ih => cases piece <;> simp [spelled, ih]

theorem spelled_letters (bodies : List Char → List Char) (text : List Char) :
    spelled bodies (letters text) = text := by
  induction text with
  | nil => rfl
  | cons letter rest ih => exact congrArg (letter :: ·) ih

/-- What the reader makes of an expanded stretch, wherever it stands. -/
def Phrase.Read (trees : List Char → Pattern) (text : List Char) : Phrase → Prop
  | .item tree => ∀ level outer,
      Advances (level, outer) text (level.push (tree.fill trees), outer)
  | .sequence items => ∀ level outer,
      Advances (level, outer) text
        ({ level with items := (items.map (Template.fill trees)).reverse ++ level.items }, outer)
  | .alternation alternatives => ∀ level outer, level.items = [] → ∃ final : Pattern.Level,
      final.name = level.name ∧
      Pattern.sequenceOf final.items.reverse :: final.alternatives =
        (alternatives.map (Template.fill trees)).reverse ++ level.alternatives ∧
      Advances (level, outer) text (final, outer)

/-- No stretch begins like the header of a group, nor does what follows an empty one. -/
def Phrase.Unmarked (text : List Char) : Phrase → Prop
  | .item _ => ∀ rest, (text ++ rest).head? ≠ some '?'
  | .sequence _ | .alternation _ => ∀ rest : List Char, rest.head? ≠ some '?' →
      (text ++ rest).head? ≠ some '?'

theorem Derives.unmarked {pieces : List Piece} {phrase : Phrase} (derived : Derives pieces phrase)
    (bodies : List Char → List Char) : phrase.Unmarked (spelled bodies pieces) := by
  induction derived with
  | @letter letter itself =>
      intro rest marked
      cases Option.some.inj marked
      cases itself
  | anyChar | atStart | atEnd | oneOf _ | escape _ | reference _ | group _ _ _ =>
      intro rest marked
      cases Option.some.inj marked
  | repeated _ _ ih =>
      intro rest
      rw [spelled_append, List.append_assoc]
      exact ih _
  | nothing => exact fun rest unmarked => unmarked
  | item _ _ ih _ =>
      intro rest _
      rw [spelled_append, List.append_assoc]
      exact ih _
  | only _ ih => exact ih
  | alternative _ _ ih _ =>
      intro rest _
      rw [spelled_append, List.append_assoc]
      exact ih _ (by simp [spelled])

/-- The text between the parentheses of a group, of whatever name, reads as the tree. -/
def FillsGroup (text : List Char) (tree : Pattern) : Prop :=
  ∀ name outer, ∃ final : Pattern.Level, final.name = name ∧ final.content = tree ∧
    Advances (.opened name, outer) text (final, outer)

theorem FillsGroup.parse {text : List Char} {tree : Pattern} (fills : FillsGroup text tree) :
    Pattern.parse text = .ok tree := by
  obtain ⟨final, unnamed, content, read⟩ := fills none []
  obtain ⟨left, -, taken⟩ := read [] text.length (Nat.le_of_eq (by rw [List.append_nil]))
  have closed : final.closed = tree := by rw [Pattern.Level.closed, unnamed, ← content]
  rw [List.append_nil] at taken
  rw [Pattern.parse, taken]
  cases left <;> exact congrArg Except.ok closed

/-- A reference is read as a capture around the tree of its rule. -/
theorem FillsGroup.advances {rule : List Char} (valid : isName rule = true)
    (fills : FillsGroup (bodies rule) (trees rule)) (level : Pattern.Level)
    (outer : List Pattern.Level) :
    Advances (level, outer) (spelled bodies [.reference rule])
      (level.push (.capture (String.ofList rule) (trees rule)), outer) := by
  obtain ⟨final, named, content, read⟩ := fills (some (String.ofList rule)) (level :: outer)
  have group := advances_group level outer (.named valid) (fun bare => by cases bare) read
  have closed : final.closed = .capture (String.ofList rule) (trees rule) := by
    rw [Pattern.Level.closed, named, ← content]
  rw [closed] at group
  simpa [spelled] using group

theorem Phrase.Read.fillsGroup {alternatives : List Template} {text : List Char}
    (read : (Phrase.alternation alternatives).Read trees text) :
    FillsGroup text ((Template.choiceOf alternatives).fill trees) := by
  intro name outer
  obtain ⟨final, named, content, advances⟩ := read (.opened name) outer rfl
  refine ⟨final, named, ?_, advances⟩
  rw [Pattern.Level.content, content, Template.fill_choiceOf]
  simp [Pattern.Level.opened]

/-- The reader builds the tree of the stretch, with the tree of its rule in place of each
reference. -/
theorem Derives.reads {pieces : List Piece} {phrase : Phrase} (derived : Derives pieces phrase)
    (inner : ∀ rule, .reference rule ∈ pieces →
      isName rule = true ∧ FillsGroup (bodies rule) (trees rule)) :
    phrase.Read trees (spelled bodies pieces) := by
  induction derived with
  | letter itself => exact fun level outer => advances_ordinary level outer itself
  | anyChar | atStart | atEnd =>
      exact fun level outer => .of_round Nat.one_pos fun _ _ => by cases outer <;> rfl
  | oneOf inside =>
      intro level outer
      rw [spelled, spelled_letters]
      exact advances_class level outer inside
  | escape meant =>
      intro level outer
      rw [spelled, spelled_letters]
      exact advances_escape level outer meant
  | reference rule =>
      have ⟨valid, fills⟩ := inner rule (List.mem_singleton_self _)
      exact fills.advances valid
  | @group header name body alternatives opened derived ih =>
      intro level outer
      have read := ih fun rule member => inner rule (by simp [member])
      obtain ⟨final, named, content, advances⟩ := read.fillsGroup name (level :: outer)
      have group := advances_group level outer opened
        (fun _ rest => derived.unmarked bodies _ (by simp)) advances
      have closed : final.closed =
          (Template.grouped name (.choiceOf alternatives)).fill trees := by
        rw [Pattern.Level.closed, named, content]
        cases name <;> rfl
      rw [closed] at group
      simpa [spelled, spelled_append, spelled_letters] using group
  | repeated _ meant ih =>
      intro level outer
      have read := ih fun rule member => inner rule (by simp [member])
      rw [spelled_append]
      exact (read level outer).append (advances_quantifier level outer meant _)
  | nothing => exact fun level outer => .nothing _
  | @item _ _ tree items _ _ first further =>
      intro level outer
      have one := first (fun rule member => inner rule (by simp [member])) level outer
      have others := further (fun rule member => inner rule (by simp [member]))
        (level.push (tree.fill trees)) outer
      rw [spelled_append]
      simpa [Pattern.Level.push] using one.append others
  | @only _ items _ ih =>
      intro level outer fresh
      refine ⟨{ level with items := (items.map (Template.fill trees)).reverse ++ level.items },
        rfl, ?_, ih inner level outer⟩
      simp [fresh, Template.fill_sequenceOf]
  | @alternative _ _ items alternatives _ _ first further =>
      intro level outer fresh
      let ended : Pattern.Level :=
        { level with items := (items.map (Template.fill trees)).reverse ++ level.items }
      have one : Advances (level, outer) _ (ended, outer) :=
        first (fun rule member => inner rule (by simp [member])) level outer
      obtain ⟨final, named, content, others⟩ :=
        further (fun rule member => inner rule (by simp [member])) ended.alternate outer rfl
      refine ⟨final, named, ?_, ?_⟩
      · rw [content]
        simp [ended, Pattern.Level.alternate, fresh, Template.fill_sequenceOf]
      · rw [spelled_append]
        exact one.append ((advances_alternate ended outer).append others)

/-- A template without references is a pattern text, and its own tree is what it parses to. -/
theorem Derives.parse {text : List Char} {alternatives : List Template}
    (derived : Derives (letters text) (.alternation alternatives)) (trees : List Char → Pattern) :
    Pattern.parse text = .ok ((Template.choiceOf alternatives).fill trees) := by
  have closed : ∀ rule, .reference rule ∉ letters text := by simp [letters]
  have read := @Derives.reads id trees _ _ derived
    fun rule member => absurd member (closed rule)
  rw [spelled_letters] at read
  exact read.fillsGroup.parse

end Dialect
end TreeSelect
