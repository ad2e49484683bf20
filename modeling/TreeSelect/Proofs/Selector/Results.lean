import TreeSelect.Proofs.Derivation.GroupReading
import TreeSelect.Proofs.Machine.Integrity
import TreeSelect.Proofs.Pattern.DialectReading
import TreeSelect.Proofs.Selector.CheckedReading

/-! The results of the reader. With the grammar of selectors a text is read, does not match, or runs
the machine out of its budget. With any other grammar the reader may find captures it has no use for;
but it never takes a text out that is not a slice, and in what it reads there is one combinator
between every two neighbouring compounds. -/

namespace TreeSelect
open Text

/-- There is one combinator between every two neighbouring compounds. -/
structure ComplexSelector.Linked (selector : ComplexSelector) : Prop where
  compounds : selector.compounds ≠ []
  combinators : selector.combinators.length + 1 = selector.compounds.length

/-- All compounds but the last are paired with a combinator, and all combinators with a compound. -/
theorem ComplexSelector.Linked.unzip_zip {selector : ComplexSelector} (linked : selector.Linked) :
    (selector.compounds.dropLast.zip selector.combinators).unzip =
      (selector.compounds.dropLast, selector.combinators) := by
  apply List.unzip_zip
  rw [List.length_dropLast, ← linked.combinators, Nat.add_sub_cancel]

theorem exists_program_of_compile {table : RuleTable} {start : String} {grammar : Grammar}
    (compiled : table.compile start = .ok grammar) :
    ∃ pattern : Pattern, grammar.program = pattern.compile := by
  obtain ⟨_, _, parsed⟩ := exists_of_bind compiled
  obtain ⟨pattern, _, same⟩ := exists_of_bind parsed
  cases same
  exact ⟨pattern, rfl⟩

/-- The rest of the text is a slice in every state that the machine comes to. -/
theorem Machine.slice?_of_traced {pattern : Pattern} {text : List Char} {state : State}
    {trail : Trail} (traced : Traced pattern.compile text state trail) :
    slice? state.position (width text) text = some state.rest := by
  obtain ⟨_, branches⟩ := branches_of_traced traced
  rw [State.threads, List.forall₂_cons] at branches
  exact (tracks_of_branch branches.1).slice?_place

/-- The text of every capture of a match is a slice of the text that was matched. -/
theorem Machine.slice?_of_matched {pattern : Pattern} {text : List Char}
    {history : List Boundary} (matched : matchAll pattern.compile text = .matched history)
    {capture : Capture} (member : capture ∈ Capture.ofBoundaries history) :
    slice? capture.start capture.stop text = some (slice capture.start capture.stop text) := by
  have answers := answers_of_decided pattern text (by rw [matched]; exact nofun)
  rw [matched] at answers
  cases first : pattern.firstWay? text with
  | none =>
    rw [first] at answers
    cases answers
  | some way =>
    rw [first] at answers
    obtain ⟨_, same, tells⟩ := answers
    cases same
    -- sorting only changes the order, so the capture is one of the way
    rw [ofBoundaries_of_tells tells, (Capture.perm_sorted _).mem_iff] at member
    obtain ⟨letters, leads, covered⟩ :=
      pattern.captures_covered (.start text) way (List.mem_of_find?_eq_some first)
    obtain ⟨before, within, behind, rfl, start, stop⟩ := covered capture member
    have whole : text = before ++ (within ++ (behind ++ way.stop.rest)) := by
      simpa [Place.start] using leads.rest
    rw [stop, start, Place.start, Nat.zero_add, whole, slice?_append, slice_append]

theorem sliceable_of_matchAll {grammar : Grammar} {pattern : Pattern}
    (program : grammar.program = pattern.compile) {text : List Char} {matched : MatchedText}
    (found : grammar.matchAll text = .ok matched) : Checked.Sliceable matched := by
  rw [Grammar.matchAll, program] at found
  split at found
  next history succeeded =>
    cases found
    exact fun capture member => Machine.slice?_of_matched succeeded member
  next => cases found
  next => cases found

/-- No slice of the reader fails, whatever the grammar was compiled from. -/
theorem Checked.agrees_read {grammar : Grammar} {pattern : Pattern}
    (program : grammar.program = pattern.compile) (text : String) :
    Agrees (read grammar text) (SelectorGroup.read grammar text) := by
  rw [read, SelectorGroup.read]
  cases found : grammar.matchAll text.toList with
  | error error => rfl
  | ok matched => exact agrees_group (sliceable_of_matchAll program found)

/-- What holds of every success holds of all results of a list. -/
theorem forall_of_mapM {Failure Value Result : Type} {further : Value → Except Failure Result}
    {holds : Result → Prop} (each : ∀ value result, further value = .ok result → holds result)
    {list : List Value} {results : List Result} (succeeded : list.mapM further = .ok results) :
    ∀ result ∈ results, holds result := by
  induction list generalizing results with
  | nil =>
    cases succeeded
    exact List.forall_mem_nil _
  | cons value list ih =>
    rw [List.mapM_cons] at succeeded
    obtain ⟨result, first, others⟩ := exists_of_bind succeeded
    obtain ⟨rest, mapped, same⟩ := exists_of_bind others
    cases same
    exact List.forall_mem_cons.mpr ⟨each value result first, ih mapped⟩

namespace MatchedText
variable {matched : MatchedText}

theorem linked_of_complex {region : Capture} {selector : ComplexSelector}
    (succeeded : matched.complex region = .ok selector) : selector.Linked := by
  obtain ⟨compounds, _, further⟩ := exists_of_bind succeeded
  obtain ⟨combinators, _, checked⟩ := exists_of_bind further
  split at checked
  next => cases checked
  next linked =>
    obtain ⟨pseudoElement, _, same⟩ := exists_of_bind checked
    cases same
    rw [List.isEmpty_iff, not_or, not_not] at linked
    exact ⟨linked.1, linked.2⟩

theorem linked_of_group {group : SelectorGroup} (succeeded : matched.group = .ok group) :
    group.alternatives ≠ [] ∧ ∀ selector ∈ group.alternatives, selector.Linked := by
  obtain ⟨alternatives, mapped, checked⟩ := exists_of_bind succeeded
  split at checked
  next => cases checked
  next some =>
    cases checked
    rw [List.isEmpty_iff] at some
    exact ⟨some, forall_of_mapM (fun _ _ => linked_of_complex) mapped⟩

end MatchedText

namespace SelectorGroup

theorem linked_of_read {grammar : Grammar} {text : String} {group : SelectorGroup}
    (succeeded : read grammar text = .ok group) :
    group.alternatives ≠ [] ∧ ∀ selector ∈ group.alternatives, selector.Linked := by
  obtain ⟨matched, _, grouped⟩ := exists_of_bind succeeded
  exact MatchedText.linked_of_group grouped

/-- The grammar of selectors captures nothing that the reader has no use for. -/
theorem read_selectors_results (text : String) :
    (∃ group, read .selectors text = .ok group) ∨
      read .selectors text = .error (.noMatch text) ∨
        read .selectors text = .error (.tooComplex text) := by
  by_cases exhausted : Machine.matchAll Derivation.Rules.group.compile text.toList = .exhausted
  · exact .inr (.inr ((Derivation.read_tooComplex_iff text).mpr exhausted))
  · rcases Derivation.read_of_decided text exhausted with ⟨group, _, succeeded⟩ | ⟨_, rejected⟩
    · exact .inl ⟨group.reading, succeeded⟩
    · exact .inr (.inl rejected)

/-- With the grammar of selectors every text is read, does not match, or is too complex. Whatever the
grammar was compiled from, the machine goes on along slices of the text, no slice of the reader fails,
and in what is read there are alternatives, each with one combinator between every two neighbouring
compounds; so none is lost where they are paired. -/
theorem read_results :
    (∀ text : String, (∃ group, read .selectors text = .ok group) ∨
      read .selectors text = .error (.noMatch text) ∨
        read .selectors text = .error (.tooComplex text)) ∧
    ∀ (table : RuleTable) (start : String) (grammar : Grammar),
      table.compile start = .ok grammar → ∀ text : String,
        (∀ state trail, Machine.Traced grammar.program text.toList state trail →
          slice? state.position (width text.toList) text.toList = some state.rest) ∧
        Checked.read grammar text = some (read grammar text) ∧
        ∀ group, read grammar text = .ok group →
          group.alternatives ≠ [] ∧ ∀ selector ∈ group.alternatives,
            selector.compounds ≠ [] ∧
            selector.combinators.length + 1 = selector.compounds.length ∧
            (selector.compounds.dropLast.zip selector.combinators).unzip =
              (selector.compounds.dropLast, selector.combinators) := by
  refine ⟨read_selectors_results, fun table start grammar compiled text => ?_⟩
  obtain ⟨pattern, program⟩ := exists_program_of_compile compiled
  refine ⟨fun state trail traced => ?_, Checked.agrees_read program text, fun group succeeded => ?_⟩
  · rw [program] at traced
    exact Machine.slice?_of_traced traced
  · obtain ⟨some, linked⟩ := linked_of_read succeeded
    exact ⟨some, fun selector member => ⟨(linked selector member).compounds,
      (linked selector member).combinators, (linked selector member).unzip_zip⟩⟩

/-- A selector of two compounds, with one letter of two bytes each. -/
def accented : RuleTable := .ofList
  [("Start", "{Selector}"),
    (Rule.selector, "{SimpleSelectorSeq}{Combinator}{SimpleSelectorSeq}"),
    (Rule.simpleSelectorSeq, "{TypeSelector}"), (Rule.typeSelector, "é"), (Rule.combinator, ">")]

def accentedCompound : Pattern :=
  .capture Rule.simpleSelectorSeq (.capture Rule.typeSelector (.char 'é'))

def accentedGrammar : Grammar where
  start := "Start"
  source := ("(?<Selector>(?<SimpleSelectorSeq>(?<TypeSelector>é))(?<Combinator>>)" ++
    "(?<SimpleSelectorSeq>(?<TypeSelector>é)))").toList
  program := Pattern.compile (.capture Rule.selector (.sequence
    [accentedCompound, .capture Rule.combinator (.char '>'), accentedCompound]))

/-- The state is the one behind the first letter. -/
theorem read_results_accented : accented.compile "Start" = .ok accentedGrammar ∧
    (∃ state trail, Machine.Traced accentedGrammar.program ['é', '>', 'é'] state trail ∧
      state.rest = ['>', 'é'] ∧ slice? state.position 5 ['é', '>', 'é'] = some state.rest) ∧
    ∃ group, read accentedGrammar "é>é" = .ok group ∧
      Checked.read accentedGrammar "é>é" = some (.ok group) ∧
      ∀ selector ∈ group.alternatives,
        (selector.compounds.dropLast.zip selector.combinators).unzip =
          ([[.type "é"]], [.child]) := by
  have compiled : accented.compile "Start" = .ok accentedGrammar := by decide +kernel
  obtain ⟨running, checked, linked⟩ := read_results.2 accented "Start" _ compiled "é>é"
  have succeeded : read accentedGrammar "é>é" =
      .ok ⟨[⟨[[.type "é"], [.type "é"]], [.child], none⟩]⟩ := by decide +kernel
  have letters : "é>é".toList = ['é', '>', 'é'] := by decide
  rw [letters] at running
  refine ⟨compiled, ?_, _, succeeded, succeeded ▸ checked, fun selector member => ?_⟩
  · have traced : Machine.Traced accentedGrammar.program ['é', '>', 'é'] _ _ :=
      .step (.step (.step (.step .start rfl) rfl) rfl) rfl
    exact ⟨_, _, traced, rfl, running _ _ traced⟩
  · rw [((linked _ succeeded).2 selector member).2.2, List.mem_singleton.mp member]
    rfl

end SelectorGroup
end TreeSelect
