import TreeSelect.Proofs.Grammar.Expansion

/-! Expansion is hygienic: the text that a rule expands to reads as the tree of its template with
the trees of the rules it refers to in the places of the references, whatever alternatives,
quantifiers and classes meet in the text. -/

namespace TreeSelect.RuleTable
open Dialect Relation

variable {table : RuleTable}

/-- The rule has a template of the dialect, written with these pieces, and these are the trees of
its alternatives. References name rules; no other group in braces does. -/
structure InDialect (table : RuleTable) (rule : List Char) (pieces : List Piece)
    (alternatives : List Template) : Prop where
  template : table.rules.get? rule = some (Piece.written pieces)
  derived : Derives pieces (.alternation alternatives)
  references : ∀ other, .reference other ∈ pieces →
    isName other = true ∧ table.rules.contains other = true
  others : ∀ front back, pieces = front ++ .plain '\x7b' :: back →
    Piece.named? table.rules.contains (Piece.written back) = none

theorem brace_not_mem_of_isName {name : List Char} (valid : isName name = true) :
    '\x7d' ∉ name := by
  intro member
  simp only [isName, Bool.and_eq_true, List.all_eq_true] at valid
  exact absurd (valid.2 _ member) (by decide)

theorem InDialect.pieces_eq {rule : List Char} {pieces : List Piece}
    {alternatives : List Template} (own : table.InDialect rule pieces alternatives) :
    table.pieces (Piece.written pieces) = pieces :=
  Piece.scan_written (fun other member =>
    have ⟨valid, known⟩ := own.references other member
    ⟨known, brace_not_mem_of_isName valid⟩) own.others

theorem InDialect.refers_iff {rule other : List Char} {pieces : List Piece}
    {alternatives : List Template} (own : table.InDialect rule pieces alternatives) :
    table.Refers rule other ↔ .reference other ∈ pieces := by
  constructor
  · rintro ⟨template, found, member⟩
    cases own.template.symm.trans found
    rwa [own.pieces_eq] at member
  · exact fun member => ⟨_, own.template, own.pieces_eq.symm ▸ member⟩

/-- The tree of a rule: the tree of its template, each reference replaced by a capture, named
after the rule that it refers to, of the tree of that rule. -/
inductive Composed (table : RuleTable) : List Char → Pattern → Prop
  | rule {rule : List Char} {pieces : List Piece} {alternatives : List Template}
      {trees : List Char → Pattern} (own : table.InDialect rule pieces alternatives)
      (inner : ∀ other, .reference other ∈ pieces → Composed table other (trees other)) :
      Composed table rule ((Template.choiceOf alternatives).fill trees)

/-- What the start leads to is written in the dialect, and nothing there leads back to itself. -/
structure Composable (table : RuleTable) (start : List Char) : Prop where
  acyclic : table.Acyclic start
  dialect : ∀ rule, ReflTransGen table.Refers start rule →
    ∃ pieces alternatives, table.InDialect rule pieces alternatives

/-- The expansion of a rule reads as the tree of the rule, whatever way led to the rule. The
induction is on the composition of the tree, so that no bound on the depth is in its way. -/
theorem Composed.fillsGroup {rule : List Char} {tree : Pattern}
    (composed : table.Composed rule tree) :
    ∀ {depth : Nat} {entered : List (List Char)} {text : List Char},
      table.expandFrom depth entered rule = .ok text → FillsGroup text tree := by
  induction composed with
  | rule own _ ih =>
      intro depth entered text expanded
      obtain ⟨depth, template, bodies, rfl, found, rfl, each⟩ := expandFrom_ok expanded
      cases own.template.symm.trans found
      rw [own.pieces_eq] at each ⊢
      exact (own.derived.reads fun other member =>
        ⟨(own.references other member).1, ih other member (each other member)⟩).fillsGroup

/-- What expands has a tree: the induction is on the depth, as the expansion went no deeper. -/
theorem exists_composed {start : List Char} (composable : table.Composable start) (depth : Nat) :
    ∀ {entered : List (List Char)} {rule text : List Char},
      ReflTransGen table.Refers start rule → table.expandFrom depth entered rule = .ok text →
      ∃ tree, table.Composed rule tree := by
  induction depth with
  | zero =>
      intro entered rule text _ expanded
      cases expanded
  | succ depth ih =>
      intro entered rule text reached expanded
      obtain ⟨pieces, alternatives, own⟩ := composable.dialect rule reached
      obtain ⟨further, template, bodies, fewer, found, -, each⟩ := expandFrom_ok expanded
      cases fewer
      cases own.template.symm.trans found
      rw [own.pieces_eq] at each
      have inner : ∀ other, ∃ tree, .reference other ∈ pieces → table.Composed other tree := by
        intro other
        by_cases member : .reference other ∈ pieces
        · exact (ih (reached.tail (own.refers_iff.mpr member)) (each other member)).imp
            fun _ composed _ => composed
        · exact ⟨.empty, fun present => absurd present member⟩
      choose trees composed using inner
      exact ⟨_, .rule own composed⟩

/-- A measure that falls from every rule to those it refers to rules out cycles. -/
theorem acyclic_of_rank {rank : List Char → Nat}
    (falls : ∀ rule other, table.Refers rule other → rank other < rank rule)
    (start : List Char) : table.Acyclic start := by
  intro rule _ around
  have descent : ∀ other, TransGen table.Refers rule other → rank other < rank rule := by
    intro other path
    induction path with
    | single refers => exact falls _ _ refers
    | tail _ refers ih => exact Nat.lt_trans (falls _ _ refers) ih
  exact Nat.lt_irrefl _ (descent rule around)

/-- Letters, alone or in angle brackets: an alternation inside a repeated reference, and a class
inside the alternation. -/
def letterLists : RuleTable :=
  .ofList [("List", "{Entry}*"), ("Entry", r"<{Letter}>|\d"), ("Letter", "[a-c]")]

theorem others_of_no_brace {known : List Char → Bool} {pieces : List Piece}
    (absent : .plain '\x7b' ∉ pieces) : ∀ front back, pieces = front ++ .plain '\x7b' :: back →
      Piece.named? known (Piece.written back) = none :=
  fun front back equal => absurd (by simp [equal]) absent

theorem letterLists_list : letterLists.InDialect "List".toList
    [.reference "Entry".toList, .plain '*'] [.repeated (.reference "Entry".toList) .star] where
  template := by decide
  derived := .only (@Derives.item _ [] _ _
    (@Derives.repeated [.reference _] _ '*' _ (.reference _) rfl) .nothing)
  references := by simp; decide
  others := others_of_no_brace (by decide)

theorem letterLists_entry : letterLists.InDialect "Entry".toList
    [.plain '<', .reference "Letter".toList, .plain '>', .plain '|', .plain '\\', .plain 'd']
    [.sequence [.fixed (.char '<'), .reference "Letter".toList, .fixed (.char '>')],
      .fixed (.oneOf ⟨false, [.digit]⟩)] where
  template := by decide
  derived :=
    have bracketed : Derives [.plain '<', .reference "Letter".toList, .plain '>'] (.sequence _) :=
      @Derives.item [.plain '<'] _ _ _ (.letter rfl) <|
        @Derives.item [.reference _] _ _ _ (.reference _) <|
        @Derives.item [.plain '>'] _ _ _ (.letter rfl) .nothing
    have digit : Derives [.plain '\\', .plain 'd'] (.sequence _) :=
      @Derives.item _ [] _ _ (@Derives.escape ['d'] _ (.named rfl)) .nothing
    @Derives.alternative [_, _, _] _ _ _ bracketed (.only digit)
  references := by simp; decide
  others := others_of_no_brace (by decide)

theorem letterLists_letter : letterLists.InDialect "Letter".toList
    (letters ['[', 'a', '-', 'c', ']']) [.fixed (.oneOf ⟨false, [.range 'a' 'c']⟩)] where
  template := by decide
  derived :=
    have range : ClassItems true ['a', '-', 'c', ']'] [.range 'a' 'c'] :=
      @ClassItems.range _ ['a'] ['c'] [']'] 'a' 'c' _ (.plain (by decide)) (.inl rfl)
        (.plain (by decide)) (by decide) (by decide) .close
    .only (@Derives.item _ [] _ _ (.oneOf (.positive (by decide) range)) .nothing)
  references := by simp [letters]
  others := others_of_no_brace (by decide)

theorem letterLists_refers {rule other : List Char} (refers : letterLists.Refers rule other) :
    rule = "List".toList ∧ other = "Entry".toList ∨
      rule = "Entry".toList ∧ other = "Letter".toList := by
  obtain ⟨template, found, -⟩ := id refers
  have key := Association.mem_keys_of_get? found
  have keys : letterLists.rules.keys = ["List".toList, "Entry".toList, "Letter".toList] := by
    decide
  rw [keys] at key
  simp only [List.mem_cons, List.not_mem_nil, or_false] at key
  rcases key with rfl | rfl | rfl
  · simpa using letterLists_list.refers_iff.mp refers
  · simpa using letterLists_entry.refers_iff.mp refers
  · simpa [letters] using letterLists_letter.refers_iff.mp refers

theorem letterLists_composable : letterLists.Composable "List".toList where
  acyclic := by
    refine @acyclic_of_rank _ (fun rule =>
      if rule = "List".toList then 2 else if rule = "Entry".toList then 1 else 0) ?_ _
    intro rule other refers
    rcases letterLists_refers refers with ⟨rfl, rfl⟩ | ⟨rfl, rfl⟩ <;> decide
  dialect := by
    intro rule reached
    rcases reached.cases_tail with rfl | ⟨before, -, refers⟩
    · exact ⟨_, _, letterLists_list⟩
    · rcases letterLists_refers refers with ⟨-, rfl⟩ | ⟨-, rfl⟩
      · exact ⟨_, _, letterLists_entry⟩
      · exact ⟨_, _, letterLists_letter⟩

/-- Expanding the text and parsing it gives the tree that parsing each template on its own and
putting the trees together gives, and no other. -/
theorem expand_composes (table : RuleTable) (start : String)
    (composable : table.Composable start.toList) :
    ∃ source tree, table.expand start = .ok source ∧ Pattern.parse source = .ok tree ∧
      ∀ other, table.Composed start.toList other ↔ other = tree := by
  obtain ⟨pieces, alternatives, own⟩ := composable.dialect _ .refl
  obtain ⟨source, expanded⟩ := exists_expand composable.acyclic own.template
  obtain ⟨tree, composed⟩ := exists_composed composable _ .refl expanded
  have parsed := (composed.fillsGroup expanded).parse
  refine ⟨source, tree, expanded, parsed, fun other => ⟨fun also => ?_, fun equal => ?_⟩⟩
  · exact Except.ok.inj ((also.fillsGroup expanded).parse.symm.trans parsed)
  · exact equal ▸ composed

theorem expand_composes_letterLists :
    letterLists.Composable "List".toList ∧
      ∃ source tree, letterLists.expand "List" = .ok source ∧ Pattern.parse source = .ok tree ∧
        ∀ other, letterLists.Composed "List".toList other ↔ other = tree :=
  ⟨letterLists_composable, expand_composes letterLists "List" letterLists_composable⟩

example : letterLists.expand "List" =
    .ok r"(?<Entry><(?<Letter>[a-c])>|\d)*".toList := by
  decide

end TreeSelect.RuleTable
