import TreeSelect.Proofs.Derivation.Rules
import TreeSelect.Proofs.Derivation.SelectorReading
import TreeSelect.Proofs.Derivation.Unambiguous
import TreeSelect.Proofs.Machine.Decision
import TreeSelect.Proofs.Machine.Effort

/-! Groups of selectors read from whole texts. -/

namespace TreeSelect.Derivation
open TreeSelect.Text Capture Placed

namespace Group

def matchedText (group : Group) : MatchedText := ⟨group.text, sorted group.captures⟩

theorem placed (group : Group) :
    Placed group.matchedText (width group.before.text)
      (group.first.text ++ (group.more.flatMap Alternative.text ++ group.after.text))
      group.captures [] := by
  refine ⟨⟨group.before.text, [], ?_, rfl⟩, [], [], ?_, ?_, ?_⟩
  · rw [List.append_nil]
    rfl
  · rw [List.append_nil]
    rfl
  · exact fun capture member => absurd member List.not_mem_nil
  · exact fun capture member => absurd member List.not_mem_nil

theorem all_selectors (group : Group) :
    group.matchedText.all Rule.selector =
      group.first.mark (width group.before.text) ::
        spread Alternative.text (fun start alternative => [alternative.mark start])
          (width group.before.text + width group.first.text) group.more := by
  have found : group.captures.filter (isOf Rule.selector) =
      group.first.mark (width group.before.text) ::
        spread Alternative.text (fun start alternative => [alternative.mark start])
          (width group.before.text + width group.first.text) group.more := by
    rw [Group.captures, List.filter_append, Selector.filter_mark, filter_spread]
    simp only [Alternative.filter_mark]
    rfl
  have ordered : (group.captures.filter (isOf Rule.selector)).Pairwise NoLater := by
    rw [Group.captures, List.filter_append]
    apply ((group.first.spans _).filter _).ordered_append
      ((spans_spread Alternative.spans _ group.more).filter _)
    · rw [Selector.filter_mark]
      exact List.pairwise_singleton ..
    · rw [filter_spread]
      apply ordered_spread fun start alternative => (alternative.spans start).filter _
      intro start alternative
      rw [Alternative.filter_mark]
      exact List.pairwise_singleton ..
  have kept := filter_sorted (isOf Rule.selector) group.captures
  rw [sorted_of_ordered ordered, found] at kept
  exact kept

/-- The reader gives back what the derivation means. -/
theorem read (group : Group) : group.matchedText.group = .ok group.reading := by
  have behind := spans_spread Alternative.spans
    (width group.before.text + width group.first.text) group.more
  have first := Selector.read (group.placed.left behind)
  have each (start : Nat) (alternative : Alternative)
      (placed : Placed group.matchedText start alternative.text (alternative.captures start) []) :
      group.matchedText.complex (alternative.mark start) = .ok alternative.selector.reading :=
    Selector.read (Alternative.placed_selector placed)
  have rest := mapM_spread Alternative.spans each _ group.more
    (group.placed.right (group.first.spans _)).cut
  have whole : (group.matchedText.all Rule.selector).mapM group.matchedText.complex =
      .ok (group.first.reading :: group.more.map fun more => more.selector.reading) := by
    rw [all_selectors, List.mapM_cons, first, rest]
    rfl
  rw [MatchedText.group, whole]
  rfl

end Group

/-- Whatever derivation makes the captures of the preferred way, they are those of the match. -/
theorem Group.matchAll_of_first {group : Group} {way : Way}
    (first : Rules.group.firstWay? group.text = some way) (captured : way.captures = group.captures)
    (decided : Machine.matchAll Rules.group.compile group.text ≠ .exhausted) :
    Grammar.selectors.matchAll group.text = .ok group.matchedText := by
  have answers := Machine.answers_of_decided Rules.group group.text decided
  rw [first] at answers
  obtain ⟨history, matched, tells⟩ := answers
  rw [Grammar.matchAll, program_selectors, matched]
  simp only [Machine.ofBoundaries_of_tells tells, captured]
  rfl

theorem Group.read_of_first {group : Group} {way : Way}
    (first : Rules.group.firstWay? group.text = some way) (captured : way.captures = group.captures)
    (decided : Machine.matchAll Rules.group.compile group.text ≠ .exhausted) :
    SelectorGroup.read .selectors (String.ofList group.text) = .ok group.reading := by
  rw [SelectorGroup.read, String.toList_ofList, Group.matchAll_of_first first captured decided]
  exact group.read

/-- The text the machine has matched is read as one of its derivations. -/
theorem read_of_matched {text : String} {way : Way}
    (first : Rules.group.firstWay? text.toList = some way)
    (decided : Machine.matchAll Rules.group.compile text.toList ≠ .exhausted) :
    ∃ group : Group, group.text = text.toList ∧ way.captures = group.captures ∧
      SelectorGroup.read .selectors text = .ok group.reading := by
  obtain ⟨group, same, captured⟩ := exists_group_of_way (List.mem_of_find?_eq_some first)
  have read := Group.read_of_first (same ▸ first) captured (same ▸ decided)
  rw [same, String.ofList_toList] at read
  exact ⟨group, same, captured, read⟩

theorem isSome_firstWay?_iff (text : List Char) :
    (Rules.group.firstWay? text).isSome = true ↔ ∃ group : Group, group.text = text := by
  rw [← Pattern.accepts_iff_firstWay?]
  exact accepts_iff_exists_group text

/-- Whenever the machine decides, the reader answers with a derivation, or there is none. -/
theorem read_of_decided (text : String)
    (decided : Machine.matchAll Rules.group.compile text.toList ≠ .exhausted) :
    (∃ group : Group, group.text = text.toList ∧
      SelectorGroup.read .selectors text = .ok group.reading) ∨
      ((∀ group : Group, group.text ≠ text.toList) ∧
        SelectorGroup.read .selectors text = .error (.noMatch text)) := by
  have answers := Machine.answers_of_decided Rules.group text.toList decided
  cases first : Rules.group.firstWay? text.toList with
  | some way =>
    obtain ⟨group, same, _, read⟩ := read_of_matched first decided
    exact .inl ⟨group, same, read⟩
  | none =>
    rw [first] at answers
    have failed : Machine.matchAll Rules.group.compile text.toList = .noMatch := answers
    refine .inr ⟨fun group same => ?_, ?_⟩
    · have found := (isSome_firstWay?_iff text.toList).mpr ⟨group, same⟩
      rw [first] at found
      cases found
    · rw [SelectorGroup.read, Grammar.matchAll, program_selectors, failed, String.ofList_toList]
      rfl

theorem read_tooComplex_iff (text : String) :
    SelectorGroup.read .selectors text = .error (.tooComplex text) ↔
      Machine.matchAll Rules.group.compile text.toList = .exhausted := by
  constructor
  · intro complex
    by_contra decided
    rcases read_of_decided text decided with ⟨group, _, read⟩ | ⟨_, rejected⟩
    · rw [read] at complex
      cases complex
    · rw [rejected] at complex
      cases complex
  · intro exhausted
    rw [SelectorGroup.read, Grammar.matchAll, program_selectors, exhausted, String.ofList_toList]
    rfl

/-- What is read is derived by some derivation of the text, whose captures are those of the
preferred way and of the match. -/
theorem exists_way_of_read {text : String} {group : SelectorGroup}
    (read : SelectorGroup.read .selectors text = .ok group) :
    ∃ (derived : Group) (way : Way), derived.text = text.toList ∧ derived.reading = group ∧
      Rules.group.firstWay? text.toList = some way ∧ way.captures = derived.captures ∧
      Grammar.selectors.matchAll text.toList = .ok derived.matchedText := by
  have decided : Machine.matchAll Rules.group.compile text.toList ≠ .exhausted := by
    rw [ne_eq, ← read_tooComplex_iff, read]
    exact nofun
  rcases read_of_decided text decided with ⟨known, spelled, _⟩ | ⟨_, rejected⟩
  · obtain ⟨way, first⟩ := Option.isSome_iff_exists.mp
      ((isSome_firstWay?_iff text.toList).mpr ⟨known, spelled⟩)
    obtain ⟨derived, same, captured, again⟩ := read_of_matched first decided
    have matched := Group.matchAll_of_first (same ▸ first) captured (same ▸ decided)
    exact ⟨derived, way, same, Except.ok.inj (again.symm.trans read), first, captured,
      same ▸ matched⟩
  · rw [read] at rejected
    cases rejected

/-- The texts of the derivations are the language of the grammar of selectors. Whatever it derives,
and whichever of the derivations the machine finds, the reader answers with the one meaning of the
text; a text without a derivation is rejected. -/
theorem read_selectors (text : String) (unmixed : Unmixed text.toList) :
    (∃ pattern : Pattern,
      ((RuleTable.selectors.expand Rule.groupOfSelectors).bind Pattern.parse).toOption =
        some pattern ∧
      (pattern.Accepts text.toList ↔ ∃ group : Group, group.text = text.toList)) ∧
    (∀ first second : Group, first.text = text.toList → second.text = text.toList →
      first.reading = second.reading) ∧
    (SelectorGroup.read .selectors text ≠ .error (.tooComplex text) →
      (∀ group : Group, group.text = text.toList →
        SelectorGroup.read .selectors text = .ok group.reading) ∧
      ((∀ group : Group, group.text ≠ text.toList) →
        SelectorGroup.read .selectors text = .error (.noMatch text))) := by
  have one : ∀ first second : Group, first.text = text.toList → second.text = text.toList →
      first.reading = second.reading := fun first second left right =>
    reading_unique (left ▸ unmixed) (left.trans right.symm)
  refine ⟨⟨Rules.group, parse_selectors, accepts_iff_exists_group text.toList⟩, one,
    fun decided => ?_⟩
  have answered := read_of_decided text (mt (read_tooComplex_iff text).mpr decided)
  rcases answered with ⟨found, same, read⟩ | ⟨nowhere, rejected⟩
  · refine ⟨fun group derives => ?_, fun underivable => absurd same (underivable found)⟩
    rw [read, one found group same derives]
  · exact ⟨fun group derives => absurd derives (nowhere group), fun _ => rejected⟩

/-- A blank in front of a combinator is no combinator of its own. -/
theorem read_selectors_chain :
    ∃ group : Group, group.text = "a >b".toList ∧
      group.reading = ⟨[⟨[[.type "a"], [.type "b"]], [.child], none⟩]⟩ ∧
      SelectorGroup.read .selectors "a >b" = .ok group.reading := by
  let nothing : Blanks := ⟨[], by simp⟩
  let first : Sequence := .headed (.type ⟨none, 'a', by decide, ⟨[], by simp⟩⟩) []
  let second : Sequence := .headed (.type ⟨none, 'b', by decide, ⟨[], by simp⟩⟩) []
  let blank : Blanks := ⟨[' '], List.forall_mem_singleton.mpr (by decide)⟩
  let joint : Joint := ⟨blank, ⟨'>', by decide⟩, nothing, second⟩
  have unmixed : Unmixed "a >b".toList := by
    intro letter member _
    have low : "a >b".toList.all (·.toNat < 0xA0) = true := by decide
    exact of_decide_eq_true (List.all_eq_true.mp low letter member)
  have enough : (Rules.group.search "a >b".toList).steps ≤ Machine.budget "a >b".toList := by
    decide +kernel
  have decided : SelectorGroup.read .selectors "a >b" ≠ .error (.tooComplex "a >b") :=
    mt (read_tooComplex_iff _).mp (Machine.matchAll_ne_exhausted enough)
  refine ⟨⟨nothing, ⟨first, [joint], none⟩, [], nothing⟩, by decide, by decide, ?_⟩
  exact ((read_selectors "a >b" unmixed).2.2 decided).1 _ (by decide)

end TreeSelect.Derivation
