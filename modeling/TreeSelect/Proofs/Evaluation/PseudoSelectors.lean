import TreeSelect.Proofs.Derivation.PseudoTexts
import TreeSelect.Proofs.Evaluation.Collecting

/-! Pseudo selectors in a text that is read: where they are rejected the first of them is named as
it is written, and where they are ignored the answer is the one without them. -/

namespace TreeSelect

def SimpleSelector.isPseudo : SimpleSelector → Bool
  | .pseudo _ _ => true
  | _ => false

def Compound.withoutPseudo (compound : Compound) : Compound :=
  compound.filter fun condition => !condition.isPseudo

/-- The same chain without its pseudo-classes and its pseudo-element. A compound of nothing else
stays as one without conditions. -/
def ComplexSelector.withoutPseudo (selector : ComplexSelector) : ComplexSelector where
  compounds := selector.compounds.map Compound.withoutPseudo
  combinators := selector.combinators
  pseudoElement := none

def SelectorGroup.withoutPseudo (group : SelectorGroup) : SelectorGroup :=
  ⟨group.alternatives.map ComplexSelector.withoutPseudo⟩

namespace Index
variable {Node : Type} (index : Index Node) (tree : Tree Node)

theorem restrict?_of_isPseudo (known : Option Ordinals) {condition : SimpleSelector}
    (pseudo : condition.isPseudo = true) : index.restrict? tree known condition = none := by
  cases condition with
  | pseudo name arguments => rfl
  | _ => cases pseudo

theorem candidatesAmong_withoutPseudo (known : Option Ordinals) (compound : Compound) :
    index.candidatesAmong tree known compound.withoutPseudo =
      index.candidatesAmong tree known compound := by
  induction compound generalizing known with
  | nil => rfl
  | cons condition rest ih =>
    cases pseudo : condition.isPseudo with
    | true =>
      have dropped : Compound.withoutPseudo (condition :: rest) = Compound.withoutPseudo rest :=
        List.filter_cons_of_neg (by simp [pseudo])
      rw [dropped, ih, candidatesAmong, index.restrict?_of_isPseudo tree known pseudo]
    | false =>
      have kept : Compound.withoutPseudo (condition :: rest) =
          condition :: Compound.withoutPseudo rest :=
        List.filter_cons_of_pos (by simp [pseudo])
      simp only [kept, candidatesAmong, ih]

theorem candidates_withoutPseudo (compound : Compound) :
    index.candidates tree compound.withoutPseudo = index.candidates tree compound :=
  index.candidatesAmong_withoutPseudo tree none compound

variable [DecidableEq Node]

theorem keepRelated_withoutPseudo (pairs : List (Compound × Combinator)) (found : Ordinals) :
    index.keepRelated tree (pairs.map (Prod.map Compound.withoutPseudo id)) found =
      index.keepRelated tree pairs found := by
  induction pairs generalizing found with
  | nil => rfl
  | cons pair pairs ih =>
    rw [List.map_cons, keepRelated, Prod.map, candidates_withoutPseudo, keepRelated]
    simp only [ih, id_eq]

theorem evaluate_withoutPseudo (selector : ComplexSelector) :
    index.evaluate tree selector.withoutPseudo = index.evaluate tree selector := by
  rw [evaluate, evaluate, ComplexSelector.withoutPseudo, List.getLast?_map]
  cases selector.compounds.getLast? with
  | none => rfl
  | some anchor =>
    simp only [Option.map_some]
    rw [candidates_withoutPseudo, ← List.map_dropLast, List.zip_map_left, ← List.map_reverse,
      keepRelated_withoutPseudo]

end Index

theorem Matches.collect_withoutPseudo {Node : Type} [DecidableEq Node] (index : Index Node)
    (tree : Tree Node) (group : SelectorGroup) :
    collect index tree group.withoutPseudo = collect index tree group := by
  simp only [collect, SelectorGroup.withoutPseudo, List.flatMap_map, Index.evaluate_withoutPseudo]

namespace Context
open TreeSelect.Derivation

/-- The pseudo selectors of a text that is read are the slices that their captures cover, in the
order of the text. The first of them is named where they are rejected; where they are ignored, the
answer is the one without them. -/
theorem select_pseudo {text : String} {group : SelectorGroup}
    (read : SelectorGroup.read .selectors text = .ok group) :
    ∃ matched, Grammar.selectors.matchAll text.toList = .ok matched ∧
      (matched.captures.filter Capture.isPseudo).Pairwise Capture.EndsBefore ∧
      group.pseudoTexts = matched.pseudoSlices ∧
      ∀ {Node : Type} [DecidableEq Node] (context : Context Node),
        (context.pseudoPolicy = .reject → ∀ warnings,
          (∀ pseudo, context.select .selectors text warnings = .error (.unsupported pseudo) ↔
            matched.pseudoSlices.head? = some pseudo) ∧
          (matched.pseudoSlices = [] →
            context.select .selectors text warnings = .ok (.ofGroup group, warnings))) ∧
        (context.pseudoPolicy = .ignore →
          context.Answers text
            (Matches.collect context.index context.tree group.withoutPseudo)) := by
  obtain ⟨derived, way, _, rfl, _, _, matched⟩ := exists_way_of_read read
  have reports := derived.reports_matched
  have slices : derived.reading.pseudoTexts = derived.matchedText.pseudoSlices :=
    reports.slices.symm
  refine ⟨_, matched, reports.ordered, slices, fun context => ⟨fun strict warnings => ?_,
    fun lenient => ?_⟩⟩
  · rw [select_of_reject strict read warnings, slices]
    cases derived.matchedText.pseudoSlices with
    | nil => simp
    | cons first others => simp
  · rw [Matches.collect_withoutPseudo]
    exact answers_of_read lenient read

/-- The arguments hold a parenthesis in quotes and a pair of brackets, and the pseudo-element stands
in front of a comma. -/
theorem select_pseudo_quoted :
    SelectorGroup.read .selectors "a:b(')',[x])::c,:d" =
        .ok ⟨[⟨[[.type "a", .pseudo "b" (some "')',[x]")]], [], some "c"⟩,
          ⟨[[.pseudo "d" none]], [], none⟩]⟩ ∧
      ∃ matched, Grammar.selectors.matchAll "a:b(')',[x])::c,:d".toList = .ok matched ∧
        (matched.captures.filter Capture.isPseudo).Pairwise Capture.EndsBefore ∧
        [":b(')',[x])", "::c", ":d"] = matched.pseudoSlices ∧
        (∀ warnings, (new .new 0 bordered.tree [] (some ⟨none, none, .reject⟩)).1.select .selectors
          "a:b(')',[x])::c,:d" warnings = .error (.unsupported ":b(')',[x])")) ∧
        let context := (new .new 0 bordered.tree [] none).1
        context.Answers "a:b(')',[x])::c,:d" (Matches.collect context.index context.tree
          ⟨[⟨[[.type "a"]], [], none⟩, ⟨[[]], [], none⟩]⟩) := by
  let name (first : Char) (starts : nameStart.contains first = true) : Name :=
    ⟨none, first, starts, ⟨[], List.forall_mem_nil _⟩⟩
  let arguments : Arguments := ⟨[.quoted (.single [.plain ')' (by decide)]), .plain ',' (by decide),
    .plain '[' (by decide), .plain 'x' (by decide), .plain ']' (by decide)]⟩
  let called : Selector := ⟨.headed (.type (name 'a' (by decide)))
    [.pseudo (name 'b' (by decide)) (some arguments)], [], some (name 'c' (by decide))⟩
  let bare : Selector := ⟨.bare (.pseudo (name 'd' (by decide)) none) [], [], none⟩
  let group : Group := ⟨nothing, called, [⟨nothing, nothing, bare⟩], nothing⟩
  have text : String.ofList group.text = "a:b(')',[x])::c,:d" := by decide
  have read : SelectorGroup.read .selectors (String.ofList group.text) = .ok group.reading :=
    Group.read_of_first
      (by decide +kernel : Rules.group.firstWay? group.text = some ⟨⟨18, []⟩, group.captures⟩) rfl
      (Machine.matchAll_ne_exhausted (by decide +kernel))
  rw [text] at read
  obtain ⟨matched, found, ordered, slices, selects⟩ := select_pseudo read
  have same : group.reading.pseudoTexts = [":b(')',[x])", "::c", ":d"] := by decide
  rw [same] at slices
  refine ⟨read, matched, found, ordered, slices, fun warnings => ?_, (selects _).2 rfl⟩
  exact (((selects _).1 rfl warnings).1 _).mpr (by rw [← slices]; rfl)

end Context
end TreeSelect
