import TreeSelect.Proofs.Derivation.Rules
import TreeSelect.Proofs.Machine.Effort
import TreeSelect.Proofs.Pattern.Denotation

/-! The syntax of selectors, said as languages rather than templates: one definition for each rule
of the notation, with blanks where they are allowed. The grammar of selectors accepts exactly the
texts of this syntax. -/

namespace TreeSelect
open Pattern
open scoped Computability

namespace SelectorSyntax

/-- The letters of the given text, and nothing else. -/
def token (text : String) : Language Char := {text.toList}

def possibly (language : Language Char) : Language Char := 1 + language

def several (language : Language Char) : Language Char := language * language∗

def blank : Language Char :=
  letterLanguage fun letter => Text.isBlank letter = true

/-- White space, which may be missing. -/
def spaces : Language Char := blank∗

def IsNameStart (letter : Char) : Prop :=
  letter.isAlpha = true ∨ letter = '_' ∨ 0xA0 ≤ letter.toNat

def IsNameLetter (letter : Char) : Prop :=
  IsNameStart letter ∨ letter.isDigit = true ∨ letter = '-'

def identifier : Language Char :=
  possibly (token "-") * letterLanguage IsNameStart * (letterLanguage IsNameLetter)∗

/-- A letter that may stand between two marks as it is. -/
def IsOrdinary (mark letter : Char) : Prop :=
  letter ≠ mark ∧ letter ≠ '\\' ∧ letter ≠ '\r' ∧ letter ≠ '\n'

/-- A backslash with any letter behind it, or with a line end of two letters. -/
def escaped : Language Char :=
  token "\\" * letterLanguage (fun _ => True) + token "\\\r\n"

def quotedBy (mark : Char) : Language Char :=
  {[mark]} * (letterLanguage (IsOrdinary mark) + escaped)∗ * {[mark]}

def quotedString : Language Char := quotedBy '"' + quotedBy '\''

def attributeValue : Language Char := identifier + quotedString

def comparisonOp : Language Char :=
  token "=" + token "~=" + token "^=" + token "$=" + token "*=" + token "!=" + token "|="

def attributeSelector : Language Char :=
  token "[" * spaces * identifier *
    possibly (spaces * comparisonOp * spaces * attributeValue) * spaces * token "]"

def idSelector : Language Char := token "#" * identifier

/-- Neither the end of the arguments nor a quote, as a quote always opens a quoted string. -/
def IsArgument (letter : Char) : Prop := letter ≠ ')' ∧ letter ≠ '"' ∧ letter ≠ '\''

def pseudoArgs : Language Char :=
  token "(" * (quotedString + letterLanguage IsArgument)∗ * token ")"

def pseudoSelector : Language Char := token ":" * identifier * possibly pseudoArgs

def pseudoElement : Language Char := token "::" * identifier

def simpleSelector : Language Char := attributeSelector + idSelector + pseudoSelector

def typeSelector : Language Char := identifier

def universalSelector : Language Char := token "*"

def simpleSelectorSeq : Language Char :=
  (typeSelector + universalSelector) * simpleSelector∗ + several simpleSelector

/-- Any single blank letter joins like a space. -/
def combinator : Language Char := blank + token ">" + token "+" + token "~"

def selector : Language Char :=
  simpleSelectorSeq * (spaces * combinator * spaces * simpleSelectorSeq)∗ * possibly pseudoElement

def groupOfSelectors : Language Char :=
  spaces * selector * (spaces * token "," * spaces * selector)∗ * spaces

theorem letterLanguage_congr {admits others : Char → Prop}
    (same : ∀ letter, admits letter ↔ others letter) :
    letterLanguage admits = letterLanguage others :=
  congrArg letterLanguage (funext fun letter => propext (same letter))

theorem singleton_mul_singleton (front back : List Char) :
    ({front} * {back} : Language Char) = {front ++ back} := by
  ext text
  constructor
  · rintro ⟨_, rfl, _, rfl, rfl⟩
    rfl
  · rintro rfl
    exact ⟨front, rfl, back, rfl, rfl⟩

/-- A class of letters is a sum over its items. -/
theorem letterLanguage_or (admits others : Char → Prop) :
    letterLanguage (fun letter => admits letter ∨ others letter) =
      letterLanguage admits + letterLanguage others := by
  ext text
  simp only [Language.mem_add, mem_letterLanguage, or_and_right, exists_or]

theorem letterLanguage_eq (one : Char) : letterLanguage (fun letter => letter = one) = {[one]} := by
  ext text
  simp only [mem_letterLanguage, exists_eq_left, mem_singleton_language]

theorem isAlpha_iff (letter : Char) :
    letter.isAlpha = true ↔ (ClassItem.range 'a' 'z').contains letter = true ∨
      (ClassItem.range 'A' 'Z').contains letter = true := by
  change (decide ('A'.val ≤ letter.val ∧ letter.val ≤ 'Z'.val) ||
    decide ('a'.val ≤ letter.val) && decide (letter.val ≤ 'z'.val)) = true ↔ _
  rw [or_comm]
  simp only [Bool.or_eq_true, Bool.and_eq_true, decide_eq_true_eq, ClassItem.contains]
  rfl

theorem isDigit_iff (letter : Char) :
    letter.isDigit = true ↔ (ClassItem.range '0' '9').contains letter = true := by
  simp only [Char.isDigit, Bool.and_eq_true, decide_eq_true_eq, ClassItem.contains]
  rfl

/-- The last range of the templates ends where the letters end. -/
theorem high_range_iff (letter : Char) :
    (ClassItem.range '\u00A0' (Char.ofNat 0x10FFFF)).contains letter = true ↔
      0xA0 ≤ letter.toNat := by
  have bound : letter.toNat ≤ 0x10FFFF := by
    have valid : letter.toNat.isValidChar := letter.valid
    rcases valid with low | high <;> omega
  have top : (Char.ofNat 0x10FFFF).toNat = 0x10FFFF := by decide
  simp only [ClassItem.contains, Bool.and_eq_true, decide_eq_true_eq]
  exact and_iff_left (Nat.le_trans bound (Nat.le_of_eq top.symm))

theorem not_range_iff (one letter : Char) :
    (ClassItem.range one one).contains letter = false ↔ letter ≠ one := by
  rw [← Bool.not_eq_true, Derivation.range_contains_iff]

theorem nameStart_iff (letter : Char) :
    Derivation.nameStart.contains letter = true ↔ IsNameStart letter := by
  simp only [CharClass.contains, Derivation.nameStart, List.any_cons, List.any_nil, Bool.or_false,
    Bool.bne_false, Bool.or_eq_true, Derivation.range_contains_iff, high_range_iff, IsNameStart,
    isAlpha_iff, or_assoc]

theorem nameLetter_iff (letter : Char) :
    Derivation.nameLetter.contains letter = true ↔ IsNameLetter letter := by
  simp only [CharClass.contains, Derivation.nameLetter, List.any_cons, List.any_nil, Bool.or_false,
    Bool.bne_false, Bool.or_eq_true, Derivation.range_contains_iff, high_range_iff, IsNameLetter,
    IsNameStart, isAlpha_iff, isDigit_iff]
  grind

theorem quotedLetter_iff (mark letter : Char) :
    (Derivation.quotedLetter mark).contains letter = true ↔ IsOrdinary mark letter := by
  simp only [CharClass.contains, Derivation.quotedLetter, List.any_cons, List.any_nil,
    Bool.or_false, Bool.bne_true, Bool.not_eq_true', Bool.or_eq_false_iff, not_range_iff,
    IsOrdinary]
  exact and_left_comm

theorem argumentLetter_iff (letter : Char) :
    Derivation.argumentLetter.contains letter = true ↔ IsArgument letter := by
  simp only [CharClass.contains, Derivation.argumentLetter, List.any_cons, List.any_nil,
    Bool.or_false, Bool.bne_true, Bool.not_eq_true', Bool.or_eq_false_iff, not_range_iff,
    IsArgument, and_comm (a := letter ≠ '"')]

theorem combinatorLetter_iff (letter : Char) :
    Derivation.combinatorLetter.contains letter = true ↔
      Text.isBlank letter = true ∨ letter = '>' ∨ letter = '+' ∨ letter = '~' := by
  simp only [CharClass.contains, Derivation.combinatorLetter, List.any_cons, List.any_nil,
    Bool.or_false, Bool.bne_false, Bool.or_eq_true, Derivation.range_contains_iff]
  rfl

end SelectorSyntax

open SelectorSyntax

namespace Derivation.Rules

theorem language_blanks : blanks.language = spaces :=
  congrArg KStar.kstar (letterLanguage_congr fun letter => by rw [contains_blank])

theorem language_name : name.language = identifier := by
  change (1 + {['-']}) * (letterLanguage (fun letter => nameStart.contains letter = true) *
    ((letterLanguage fun letter => nameLetter.contains letter = true)∗ * 1)) = _
  rw [letterLanguage_congr nameStart_iff, letterLanguage_congr nameLetter_iff]
  simp only [identifier, possibly, token, String.reduceToList, mul_assoc, mul_one]

theorem language_quotedItem (mark : Char) :
    (quotedItem mark).language = letterLanguage (IsOrdinary mark) + escaped := by
  change letterLanguage (fun letter => (quotedLetter mark).contains letter = true) +
    ({['\\']} * ({['\r']} * ({['\n']} * 1)) +
      {['\\']} * ((letterLanguage fun _ => True) * 1)) = _
  rw [letterLanguage_congr (quotedLetter_iff mark), mul_one, mul_one, singleton_mul_singleton,
    singleton_mul_singleton, add_comm {_}]
  simp only [escaped, token, String.reduceToList, List.cons_append, List.nil_append]

theorem language_quotedBy (mark : Char) :
    (Rules.quotedBy mark).language = SelectorSyntax.quotedBy mark := by
  change {[mark]} * ((quotedItem mark).language∗ * ({[mark]} * 1)) = _
  rw [language_quotedItem, SelectorSyntax.quotedBy, mul_one, mul_assoc]

theorem language_quoted : quoted.language = quotedString :=
  congrArg₂ (· + ·) (language_quotedBy '"') (language_quotedBy '\'')

theorem language_value : value.language = attributeValue :=
  congrArg₂ (· + ·) language_name language_quoted

theorem language_operator : operator.language = comparisonOp := by
  change (1 + letterLanguage fun letter => operatorLetter.contains letter = true) *
    ({['=']} * 1) = _
  rw [letterLanguage_congr operatorLetter_iff, mul_one]
  simp only [letterLanguage_or, letterLanguage_eq, add_mul, one_mul, singleton_mul_singleton,
    List.cons_append, List.nil_append, comparisonOp, token, String.reduceToList, add_assoc]
  rw [add_comm {['|', '=']}]

theorem language_test : test.language = spaces * comparisonOp * spaces * attributeValue := by
  change blanks.language * (operator.language * (blanks.language * (value.language * 1))) = _
  rw [language_blanks, language_operator, language_value, mul_one, mul_assoc, mul_assoc]

theorem language_brackets : brackets.language = attributeSelector := by
  change {['[']} * (blanks.language * (name.language * ((1 + test.language) *
    (blanks.language * ({[']']} * 1))))) = _
  rw [language_blanks, language_name, language_test, mul_one]
  simp only [attributeSelector, possibly, token, String.reduceToList, mul_assoc]

theorem language_arguments : arguments.language = pseudoArgs := by
  change {['(']} * ((quoted.language +
    letterLanguage fun letter => argumentLetter.contains letter = true)∗ * ({[')']} * 1)) = _
  rw [language_quoted, letterLanguage_congr argumentLetter_iff, mul_one]
  simp only [pseudoArgs, token, String.reduceToList, mul_assoc]

theorem language_condition : condition.language = simpleSelector := by
  change brackets.language + ({['#']} * (name.language * 1) +
    {[':']} * (name.language * ((1 + arguments.language) * 1))) = _
  rw [language_brackets, language_name, language_arguments, mul_one, mul_one]
  simp only [simpleSelector, idSelector, pseudoSelector, possibly, token, String.reduceToList,
    mul_assoc, add_assoc]

theorem language_head : head.language = typeSelector + universalSelector := by
  change name.language + {['*']} = _
  rw [language_name]
  simp only [typeSelector, universalSelector, token, String.reduceToList]

theorem language_sequence : sequence.language = simpleSelectorSeq := by
  change head.language * (condition.language∗ * 1) +
    condition.language * condition.language∗ = _
  rw [language_head, language_condition, mul_one, simpleSelectorSeq, several]

theorem language_combinator :
    letterLanguage (fun letter => combinatorLetter.contains letter = true) = combinator := by
  rw [letterLanguage_congr combinatorLetter_iff]
  simp only [letterLanguage_or, letterLanguage_eq, combinator, blank, token, String.reduceToList,
    add_assoc]

theorem language_joint : joint.language = spaces * combinator * spaces * simpleSelectorSeq := by
  change blanks.language * (letterLanguage (fun letter => combinatorLetter.contains letter = true) *
    (blanks.language * (sequence.language * 1))) = _
  rw [language_blanks, language_combinator, language_sequence, mul_one, mul_assoc, mul_assoc]

theorem language_element : element.language = pseudoElement := by
  change {[':']} * ({[':']} * (name.language * 1)) = _
  rw [language_name, mul_one, ← mul_assoc, singleton_mul_singleton]
  simp only [pseudoElement, token, String.reduceToList, List.cons_append, List.nil_append]

theorem language_selector : selector.language = SelectorSyntax.selector := by
  change sequence.language * (joint.language∗ * ((1 + element.language) * 1)) = _
  rw [language_sequence, language_joint, language_element, mul_one]
  simp only [SelectorSyntax.selector, possibly, mul_assoc]

theorem language_alternative :
    alternative.language = spaces * token "," * spaces * SelectorSyntax.selector := by
  change blanks.language * ({[',']} * (blanks.language * (selector.language * 1))) = _
  rw [language_blanks, language_selector, mul_one]
  simp only [token, String.reduceToList, mul_assoc]

/-- The patterns of the rules accept the texts of the syntax. -/
theorem accepts_group_iff (text : List Char) : group.Accepts text ↔ text ∈ groupOfSelectors := by
  have plain : ∀ item ∈ [blanks, selector, .repeated alternative .star, blanks],
      item.unanchored = true := List.all_eq_true.mp rfl
  have parts : ([blanks, selector, .repeated alternative .star, blanks].map language).prod =
      groupOfSelectors := by
    change blanks.language * (selector.language * (alternative.language∗ *
      (blanks.language * 1))) = _
    rw [language_blanks, language_selector, language_alternative, mul_one]
    simp only [groupOfSelectors, mul_assoc]
  rw [← parts]
  exact accepts_anchored_iff plain text

end Derivation.Rules

/-- The grammar of selectors compiles to the program of its rules. -/
theorem RuleTable.exists_compile_selectors :
    ∃ grammar, RuleTable.selectors.compile Rule.groupOfSelectors = .ok grammar ∧
      grammar.program = Derivation.Rules.group.compile := by
  have known : Grammar.selectors.program = Derivation.Rules.group.compile :=
    Derivation.program_selectors
  cases compiled : RuleTable.selectors.compile Rule.groupOfSelectors with
  | error error =>
    have succeeded := compile_selectors
    rw [compiled] at succeeded
    cases succeeded
  | ok grammar =>
    exact ⟨grammar, rfl, (Derivation.program_ofOk _ _ grammar compiled).symm.trans known⟩

/-- The grammar of selectors compiles. Whenever it decides about a text, it accepts the text if and
only if this is a group of selectors by the syntax, and otherwise there is no match. -/
theorem RuleTable.selectors_accepts_iff :
    ∃ grammar, RuleTable.selectors.compile Rule.groupOfSelectors = .ok grammar ∧
      ∀ text, grammar.matchAll text ≠ .error (.tooComplex (String.ofList text)) →
        ((∃ matched, grammar.matchAll text = .ok matched) ↔ text ∈ groupOfSelectors) ∧
        (grammar.matchAll text = .error (.noMatch (String.ofList text)) ↔
          text ∉ groupOfSelectors) := by
  obtain ⟨grammar, compiled, program⟩ := exists_compile_selectors
  refine ⟨grammar, compiled, fun text decided => ?_⟩
  rw [← Derivation.Rules.accepts_group_iff, Pattern.accepts_iff_firstWay?]
  rw [Grammar.matchAll, program] at decided ⊢
  have answers := Machine.answers_of_decided Derivation.Rules.group text
    fun exhausted => decided (by rw [exhausted])
  cases first : Derivation.Rules.group.firstWay? text with
  | none =>
    rw [first] at answers
    have failed : Machine.matchAll Derivation.Rules.group.compile text = .noMatch := answers
    simp [failed]
  | some way =>
    rw [first] at answers
    obtain ⟨history, matched, _⟩ := answers
    simp [matched]

/-- A blank in front of a combinator belongs to it; behind a comma there must be a selector. -/
theorem RuleTable.selectors_accepts_iff_chain :
    "a >b".toList ∈ groupOfSelectors ∧ "a,".toList ∉ groupOfSelectors := by
  obtain ⟨grammar, compiled, program⟩ := exists_compile_selectors
  obtain ⟨same, recompiled, decides⟩ := selectors_accepts_iff
  obtain rfl : grammar = same := Except.ok.inj (compiled.symm.trans recompiled)
  have member (text : List Char)
      (enough : (Derivation.Rules.group.search text).steps ≤ Machine.budget text) :
      (Derivation.Rules.group.search text).accepted = true ↔ text ∈ groupOfSelectors := by
    have runs := Machine.matchAll_ne_exhausted enough
    have found := Machine.run_matched_iff Derivation.Rules.group text (Machine.budget text)
    rw [← Machine.matchAll, and_iff_right enough] at found
    rw [← (decides text ?_).1, ← found, Grammar.matchAll, program]
    · split
      next matched => simp [matched]
      next failed => simp [failed]
      next exhausted => exact absurd exhausted runs
    · rw [Grammar.matchAll, program]
      split
      next => simp
      next => simp
      next exhausted => exact absurd exhausted runs
  exact ⟨(member "a >b".toList (by decide +kernel)).mp (by decide +kernel),
    mt (member "a,".toList (by decide +kernel)).mpr (by decide +kernel)⟩

end TreeSelect
