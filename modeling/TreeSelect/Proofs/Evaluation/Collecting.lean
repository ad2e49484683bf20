import TreeSelect.Context
import TreeSelect.Proofs.Derivation.Concatenation
import TreeSelect.Tree.Outline

/-! What a context answers when all matches of a selector text are collected, one after the other.
A comma between two texts appends their answers. -/

namespace TreeSelect

/-- Ordinals that no element has are passed over. -/
theorem Matches.filterMap_node? {Node : Type} (index : Index Node) (ordinals : List Nat) :
    ordinals.filterMap index.node? =
      match firstKnown index ordinals with
      | some (node, rest) => node :: rest.filterMap index.node?
      | none => [] := by
  induction ordinals with
  | nil => rfl
  | cons ordinal ordinals ih =>
    rw [firstKnown]
    cases found : index.node? ordinal with
    | some node => rw [List.filterMap_cons_some found]
    | none => rw [List.filterMap_cons_none found, ih]

namespace Context
open TreeSelect.Derivation
variable {Node : Type} [DecidableEq Node]

/-- The next match is the first of those that are left. -/
theorem remaining_eq (context : Context Node) (found : Matches) :
    context.remaining found =
      match context.next found with
      | (some node, rest) => node :: context.remaining rest
      | (none, _) => [] := by
  rcases found with ⟨pending, buffered⟩
  rw [next, Matches.next]
  -- by induction on the alternatives not yet looked at
  induction pending generalizing buffered with
  | nil =>
    rw [Matches.nextFrom, remaining, Matches.filterMap_node?]
    cases Matches.firstKnown context.index buffered with
    | some known => rfl
    | none => rfl
  | cons selector pending ih =>
    rw [Matches.nextFrom, remaining, Matches.filterMap_node?]
    cases Matches.firstKnown context.index buffered with
    | some known => rfl
    | none => exact ih (context.index.evaluate context.tree selector).toList

/-- Asking for the next match until there is none gives these nodes. -/
inductive Yields (context : Context Node) : Matches → List Node → Prop where
  | done {found rest} (nothing : context.next found = (none, rest)) : Yields context found []
  | more {found rest node nodes} (first : context.next found = (some node, rest))
      (others : Yields context rest nodes) : Yields context found (node :: nodes)

/-- It comes to an end, with all that is left. -/
theorem yields_remaining (context : Context Node) (found : Matches) :
    Yields context found (context.remaining found) := by
  generalize left : context.remaining found = nodes
  induction nodes generalizing found with
  | nil =>
    rw [remaining_eq] at left
    split at left
    next => cases left
    next nothing => exact .done nothing
  | cons node nodes ih =>
    rw [remaining_eq] at left
    split at left
    next first =>
      obtain ⟨rfl, others⟩ := List.cons.inj left
      exact .more first (ih _ others)
    next => cases left

theorem yields_iff (context : Context Node) (found : Matches) (nodes : List Node) :
    Yields context found nodes ↔ nodes = context.remaining found := by
  constructor
  · intro yields
    induction yields with
    | done nothing => rw [remaining_eq, nothing]
    | more first _ ih => rw [remaining_eq, first, ih]
  · intro same
    rw [same]
    exact yields_remaining context found

/-- The text is accepted, whatever was warned of before, and its matches are these nodes. -/
def Answers (context : Context Node) (text : String) (nodes : List Node) : Prop :=
  ∀ warnings, ∃ found given, context.select .selectors text warnings = .ok (found, given) ∧
    ∀ collected, Yields context found collected ↔ collected = nodes

omit [DecidableEq Node] in
/-- Where pseudo selectors are errors, a text that is read is accepted if it has none of them. -/
theorem select_of_reject {context : Context Node} (strict : context.pseudoPolicy = .reject)
    {grammar : Grammar} {text : String} {group : SelectorGroup}
    (read : SelectorGroup.read grammar text = .ok group) (warnings : Warnings) :
    context.select grammar text warnings =
      match group.pseudoTexts with
      | [] => .ok (.ofGroup group, warnings)
      | first :: _ => .error (.unsupported first) := by
  unfold select
  rw [read]
  change (group.applyPolicy context.pseudoPolicy warnings).bind _ = _
  rw [strict]
  cases pseudo : group.pseudoTexts with
  | nil => simp [SelectorGroup.applyPolicy, pseudo, Except.bind]
  | cons first others => simp [SelectorGroup.applyPolicy, pseudo, Except.bind]

/-- A text that is read has an answer, unless pseudo selectors are errors. -/
theorem answers_of_read {context : Context Node} (lenient : context.pseudoPolicy = .ignore)
    {text : String} {group : SelectorGroup}
    (read : SelectorGroup.read .selectors text = .ok group) :
    context.Answers text (Matches.collect context.index context.tree group) := by
  intro warnings
  obtain ⟨given, accepted⟩ :
      ∃ given, group.applyPolicy context.pseudoPolicy warnings = .ok given := by
    rw [lenient]
    exact ⟨_, rfl⟩
  refine ⟨.ofGroup group, given, ?_, yields_iff context (.ofGroup group)⟩
  unfold select
  rw [read]
  change (group.applyPolicy context.pseudoPolicy warnings).bind _ = _
  rw [accepted]
  rfl

/-- A comma is concatenation. Of two texts that are read, with a comma between them, the
alternatives are those of the first and then those of the second, unless the budget runs out; and
where pseudo selectors are ignored, so are the nodes that any context answers with. -/
theorem select_comma {first second : String} {group other : SelectorGroup}
    (left : SelectorGroup.read .selectors first = .ok group)
    (right : SelectorGroup.read .selectors second = .ok other)
    (decided : SelectorGroup.read .selectors (first ++ "," ++ second) ≠
      .error (.tooComplex (first ++ "," ++ second))) :
    SelectorGroup.read .selectors (first ++ "," ++ second) =
        .ok ⟨group.alternatives ++ other.alternatives⟩ ∧
      ∀ {Node : Type} [DecidableEq Node] (context : Context Node),
        context.pseudoPolicy = .ignore →
          ∃ nodes others, context.Answers first nodes ∧ context.Answers second others ∧
            context.Answers (first ++ "," ++ second) (nodes ++ others) := by
  have joined := read_comma left right decided
  refine ⟨joined, fun context lenient => ?_⟩
  have whole := answers_of_read lenient joined
  unfold Matches.collect at whole
  rw [List.flatMap_append] at whole
  exact ⟨_, _, answers_of_read lenient left, answers_of_read lenient right, whole⟩

/-- A document with an element that has an attribute, and one of type `b` behind it. -/
def bordered : Outline := ⟨[⟨none, [], 0⟩, ⟨some "x", [("a", ",")], 0⟩, ⟨some "b", [], 0⟩]⟩

/-- The first text has a comma in quotes, the second begins with a letter that is both blank and a
letter of names. -/
theorem select_comma_quoted :
    SelectorGroup.read .selectors "[a=\",\"],\u00A0b" =
        .ok ⟨[⟨[[.attribute "a" (some (.equals, ","))]], [], none⟩, ⟨[[.type "b"]], [], none⟩]⟩ ∧
      ∃ nodes others,
        (new .new 0 bordered.tree [] none).1.Answers "[a=\",\"]" nodes ∧
          (new .new 0 bordered.tree [] none).1.Answers "\u00A0b" others ∧
          (new .new 0 bordered.tree [] none).1.Answers "[a=\",\"],\u00A0b" (nodes ++ others) := by
  let value : Value := .quoted (.double [.plain ',' (by decide)])
  let brackets : Attribute := ⟨nothing, ⟨none, 'a', by decide, ⟨[], List.forall_mem_nil _⟩⟩,
    some ⟨nothing, .equals, nothing, value⟩, nothing⟩
  let one : Group := ⟨nothing, ⟨.bare (.attribute brackets) [], [], none⟩, [], nothing⟩
  let two : Group := ⟨⟨['\u00A0'], List.forall_mem_singleton.mpr (by decide)⟩,
    ⟨.headed (.type ⟨none, 'b', by decide, ⟨[], List.forall_mem_nil _⟩⟩) [], [], none⟩, [], nothing⟩
  have left : SelectorGroup.read .selectors (String.ofList one.text) = .ok one.reading :=
    Group.read_of_first
      (by decide +kernel : Rules.group.firstWay? one.text = some ⟨⟨7, []⟩, one.captures⟩) rfl
      (Machine.matchAll_ne_exhausted (by decide +kernel))
  have right : SelectorGroup.read .selectors (String.ofList two.text) = .ok two.reading :=
    Group.read_of_first
      (by decide +kernel : Rules.group.firstWay? two.text = some ⟨⟨3, []⟩, two.captures⟩) rfl
      (Machine.matchAll_ne_exhausted (by decide +kernel))
  have decided : SelectorGroup.read .selectors ("[a=\",\"]" ++ "," ++ "\u00A0b") ≠
      .error (.tooComplex ("[a=\",\"]" ++ "," ++ "\u00A0b")) := by
    rw [ne_eq, read_tooComplex_iff]
    exact Machine.matchAll_ne_exhausted (by decide +kernel)
  have texts : String.ofList one.text = "[a=\",\"]" ∧ String.ofList two.text = "\u00A0b" := by
    decide
  rw [texts.1] at left
  rw [texts.2] at right
  have comma := select_comma left right decided
  exact ⟨comma.1, comma.2 _ rfl⟩

end Context
end TreeSelect
