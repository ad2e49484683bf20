import TreeSelect.Grammar.Selectors
import TreeSelect.Proofs.Capture.Brackets
import TreeSelect.Proofs.Machine.Course

/-! The geometry of captures. No two captures of a match overlap without one containing the other, and
containment tells the nesting of the groups that made them, except where two groups have one extent
or one of them captures nothing. Of two nested groups the outer one is reported first, unless they
have one extent: then the inner one is, as it was closed first. -/

namespace TreeSelect
open Machine

/-- The two captures begin and end at the same positions. -/
def Capture.Coextensive (one other : Capture) : Prop :=
  one.start = other.start ∧ one.stop = other.stop

instance (one other : Capture) : Decidable (one.Coextensive other) :=
  inferInstanceAs (Decidable (_ ∧ _))

theorem Capture.contains_iff {region other : Capture} : region.contains other = true ↔
    region.start ≤ other.start ∧ other.stop ≤ region.stop := by
  rw [contains, Bool.and_eq_true, decide_eq_true_eq, decide_eq_true_eq]

/-- The groups that were opened and closed on the course of a match, in the order of their
captures. -/
def Grammar.Groups (grammar : Grammar) (text : List Char) (brackets : List Bracket) : Prop :=
  ∃ course, Accepted grammar.program text course ∧
    Bracket.Listing (grammar.program.boundaries course) brackets

theorem Grammar.exists_history {grammar : Grammar} {text : List Char} {matched : MatchedText}
    (found : grammar.matchAll text = .ok matched) :
    ∃ history, Machine.matchAll grammar.program text = .matched history ∧
      matched = ⟨text, Capture.ofBoundaries history⟩ := by
  rw [Grammar.matchAll] at found
  split at found
  next history succeeded =>
    cases found
    exact ⟨history, succeeded, rfl⟩
  next => cases found
  next => cases found

/-- Captures are made by the groups of a course, whose boundaries are placed. -/
theorem Grammar.exists_groups {grammar : Grammar} {text : List Char} {matched : MatchedText}
    (found : grammar.matchAll text = .ok matched) :
    ∃ brackets history, grammar.Groups text brackets ∧ Placed text history ∧
      (∀ bracket ∈ brackets, bracket.On history) ∧ brackets.Pairwise Bracket.Precedes ∧
      brackets.map Bracket.capture = matched.captures := by
  obtain ⟨history, succeeded, rfl⟩ := exists_history found
  obtain ⟨course, accepted, reported, placed⟩ := exists_course succeeded
  obtain ⟨brackets, listing, captures⟩ := Bracket.exists_listing history
  exact ⟨brackets, history, ⟨course, accepted, reported ▸ listing⟩, placed,
    fun bracket member => (listing.mem_iff bracket).mp member, listing.ordered, captures⟩

namespace Bracket

variable {text : List Char} {history : List Boundary} {first second inner outer : Bracket}

theorem On.boundaries (on : first.On history) :
    history[first.opened]? = some (.opened first.capture.rule first.capture.start) ∧
      history[first.closed]? = some (.closed first.capture.stop) := by
  obtain ⟨before, inner, after, rfl, _, opened, closed⟩ := on
  rw [opened, closed]
  constructor
  · exact List.getElem?_append_right (Nat.le_refl _) |>.trans (by simp)
  · rw [List.getElem?_append_right (by omega), Nat.add_assoc, Nat.add_sub_cancel_left,
      Nat.add_comm 1, List.getElem?_cons_succ, List.getElem?_append_right (Nat.le_refl _)]
    simp

/-- What is met later lies no further to the front. -/
theorem position_le (placed : Placed text history) {place later : Nat} (order : place ≤ later)
    {boundary other : Boundary} (one : history[place]? = some boundary)
    (next : history[later]? = some other) : boundary.position ≤ other.position := by
  obtain ⟨_, rfl⟩ := List.getElem?_eq_some_iff.mp one
  obtain ⟨_, rfl⟩ := List.getElem?_eq_some_iff.mp next
  rcases Nat.lt_or_eq_of_le order with less | rfl
  · exact List.pairwise_iff_getElem.mp placed.ordered _ _ _ _ less
  · exact Nat.le_refl _

theorem On.sited (on : first.On history) (placed : Placed text history) :
    first.capture.start ≤ first.capture.stop ∧ first.capture.stop ≤ Text.width text ∧
      Text.isBoundary first.capture.start text = true ∧
      Text.isBoundary first.capture.stop text = true := by
  obtain ⟨opened, closed⟩ := on.boundaries
  have front := placed.sited _ (List.mem_of_getElem? opened)
  have back := placed.sited _ (List.mem_of_getElem? closed)
  exact ⟨position_le placed (Nat.le_of_lt on.opened_lt_closed) opened closed, back.1, front.2,
    back.2⟩

theorem Within.contains (within : inner.Within outer) (one : inner.On history)
    (other : outer.On history) (placed : Placed text history) :
    outer.capture.contains inner.capture = true := by
  have start : outer.capture.start ≤ inner.capture.start :=
    position_le placed (Nat.le_of_lt within.1) other.boundaries.1 one.boundaries.1
  have stop : inner.capture.stop ≤ outer.capture.stop :=
    position_le placed (Nat.le_of_lt within.2) one.boundaries.2 other.boundaries.2
  exact Capture.contains_iff.mpr ⟨start, stop⟩

/-- What was opened after the end of a group begins no earlier than the group stops. -/
theorem On.stop_le_start (one : first.On history) (other : second.On history)
    (placed : Placed text history) (apart : first.closed < second.opened) :
    first.capture.stop ≤ second.capture.start :=
  position_le placed (Nat.le_of_lt apart) one.boundaries.2 other.boundaries.1

theorem On.nested_or_disjoint (one : first.On history) (other : second.On history)
    (placed : Placed text history) :
    first.capture.contains second.capture = true ∨ second.capture.contains first.capture = true ∨
      first.capture.stop ≤ second.capture.start ∨ second.capture.stop ≤ first.capture.start := by
  by_cases same : first = second
  · exact .inl (Capture.contains_iff.mpr ⟨by rw [same], by rw [same]⟩)
  · rcases one.untangled other same with (within | within) | (before | before)
    · exact .inr (.inl (within.contains one other placed))
    · exact .inl (within.contains other one placed)
    · exact .inr (.inr (.inl (one.stop_le_start other placed before)))
    · exact .inr (.inr (.inr (other.stop_le_start one placed before)))

/-- Containment tells nesting. -/
theorem On.contains_iff (one : inner.On history) (other : outer.On history)
    (placed : Placed text history) (different : ¬ outer.capture.Coextensive inner.capture)
    (proper : inner.capture.start < inner.capture.stop) :
    outer.capture.contains inner.capture = true ↔ inner.Within outer := by
  refine ⟨fun contained => ?_, fun within => within.contains one other placed⟩
  obtain ⟨start, stop⟩ := Capture.contains_iff.mp contained
  by_cases same : inner = outer
  · exact absurd ⟨by rw [same], by rw [same]⟩ different
  · rcases one.untangled other same with (within | within) | (before | before)
    · exact within
    · -- each contains the other
      have back := within.contains other one placed
      simp only [Capture.contains, Bool.and_eq_true, decide_eq_true_eq] at back
      exact absurd ⟨by omega, by omega⟩ different
    · have apart := one.stop_le_start other placed before
      omega
    · have apart := other.stop_le_start one placed before
      omega

end Bracket

theorem Bracket.filter_captures (brackets : List Bracket) (keep : Capture → Bool) :
    (brackets.map capture).filter keep =
      (brackets.filter fun bracket => keep bracket.capture).map capture := by
  rw [List.filter_map]
  rfl

/-- The group was opened and closed inside the region, under the name of the rule, and captured
something. -/
def Bracket.MadeIn (region : Bracket) (rule : String) (bracket : Bracket) : Prop :=
  bracket.Within region ∧ bracket.capture.rule = rule ∧
    bracket.capture.start < bracket.capture.stop

instance (region : Bracket) (rule : String) (bracket : Bracket) :
    Decidable (region.MadeIn rule bracket) :=
  inferInstanceAs (Decidable (_ ∧ _))

/-- The captures come in their order, among them all that were made in the region; apart from those
of its own extent and empty ones there are no others. -/
structure Bracket.Lists (brackets : List Bracket) (region : Bracket) (rule : String)
    (captures : List Capture) : Prop where
  ordered : captures.Pairwise Capture.NoLater
  all : ((brackets.filter fun bracket => decide (region.MadeIn rule bracket)).map
    capture).Sublist captures
  only : captures.filter (fun capture =>
      decide (capture.start < capture.stop ∧ ¬ region.capture.Coextensive capture)) =
    (brackets.filter fun bracket => decide (region.MadeIn rule bracket ∧
      ¬ region.capture.Coextensive bracket.capture)).map capture

/-- Whatever is found within a region is told by nesting. -/
theorem Bracket.lists_inside {text : List Char} {history : List Boundary}
    {brackets : List Bracket} {matched : MatchedText} (placed : Placed text history)
    (on : ∀ bracket ∈ brackets, bracket.On history)
    (captures : brackets.map capture = matched.captures)
    (sorted : matched.captures.Pairwise Capture.NoLater) {region : Bracket}
    (enclosing : region ∈ brackets) (rule : String) :
    Lists brackets region rule (matched.inside rule region.capture) where
  ordered := sorted.filter _
  all := by
    have chosen : ∀ bracket ∈ brackets, decide (region.MadeIn rule bracket) =
        (decide (region.MadeIn rule bracket) &&
          (region.capture.contains bracket.capture && decide (bracket.capture.rule = rule))) := by
      intro bracket listed
      rw [Bool.eq_iff_iff, Bool.and_eq_true, decide_eq_true_eq, Bool.and_eq_true, decide_eq_true_eq]
      refine ⟨fun made => ⟨made, ?_, made.2.1⟩, And.left⟩
      exact made.1.contains (on bracket listed) (on region enclosing) placed
    rw [MatchedText.inside, ← captures, filter_captures, List.filter_congr chosen,
      ← List.filter_filter]
    exact List.filter_sublist.map capture
  only := by
    rw [MatchedText.inside, ← captures, filter_captures, filter_captures, List.filter_filter]
    refine congrArg _ (List.filter_congr fun bracket listed => ?_)
    rw [Bool.eq_iff_iff]
    simp only [Bool.and_eq_true, decide_eq_true_eq]
    constructor
    · rintro ⟨⟨proper, different⟩, contained, named⟩
      have within := ((on bracket listed).contains_iff (on region enclosing) placed different
        proper).mp contained
      exact ⟨⟨within, named, proper⟩, different⟩
    · rintro ⟨⟨within, named, proper⟩, different⟩
      exact ⟨⟨proper, different⟩,
        within.contains (on bracket listed) (on region enclosing) placed, named⟩

/-- Captures of a match lie between letters, come by their start and then the longer ones first, and
are nested or disjoint. They are made by groups, and one group was opened and closed inside another
if and only if its capture lies in that of the other, where the two are not of one extent and it has
captured something. What is found within a group is therefore what was captured in it. -/
theorem Grammar.captures_nested (grammar : Grammar) (text : List Char) (matched : MatchedText)
    (found : grammar.matchAll text = .ok matched) :
    matched.captures.Pairwise Capture.NoLater ∧
    (∀ capture ∈ matched.captures, capture.start ≤ capture.stop ∧
      capture.stop ≤ Text.width text ∧ Text.isBoundary capture.start text = true ∧
        Text.isBoundary capture.stop text = true) ∧
    (∀ one ∈ matched.captures, ∀ other ∈ matched.captures, one.contains other = true ∨
      other.contains one = true ∨ one.stop ≤ other.start ∨ other.stop ≤ one.start) ∧
    ∃ brackets, grammar.Groups text brackets ∧
      brackets.map Bracket.capture = matched.captures ∧
      (∀ outer ∈ brackets, ∀ inner ∈ brackets, ¬ outer.capture.Coextensive inner.capture →
        inner.capture.start < inner.capture.stop →
          (outer.capture.contains inner.capture = true ↔ inner.Within outer)) ∧
      ∀ region ∈ brackets, ∀ rule,
        Bracket.Lists brackets region rule (matched.inside rule region.capture) := by
  obtain ⟨brackets, history, groups, placed, on, ordered, captures⟩ := exists_groups found
  have sorted : matched.captures.Pairwise Capture.NoLater := by
    rw [← captures]
    exact List.pairwise_map.mpr (ordered.imp Bracket.Precedes.noLater)
  refine ⟨sorted, fun capture member => ?_, fun one first other second => ?_, brackets, groups,
    captures, fun outer enclosing inner enclosed different proper =>
      (on inner enclosed).contains_iff (on outer enclosing) placed different proper,
    fun region enclosing rule => Bracket.lists_inside placed on captures sorted enclosing rule⟩
  · obtain ⟨bracket, listed, rfl⟩ := List.mem_map.mp (captures ▸ member)
    exact (on bracket listed).sited placed
  · obtain ⟨left, leftListed, rfl⟩ := List.mem_map.mp (captures ▸ first)
    obtain ⟨right, rightListed, rfl⟩ := List.mem_map.mp (captures ▸ second)
    exact (on left leftListed).nested_or_disjoint (on right rightListed) placed

/-- Words joined by dashes, each with a stem and an ending that may be empty. -/
def phrases : RuleTable := .ofList
  [("Phrase", "{Word}(-{Word})*"), ("Word", "{Stem}{Ending}"), ("Stem", "[a-z]+"), ("Ending", "!?")]

def phraseGrammar : Grammar := .ofOk (phrases.compile "Phrase") (by decide +kernel)

/-- The first word has no ending, so that its stem is of its extent. -/
def phraseCaptures : List Capture :=
  [⟨"Stem", 0, 2⟩, ⟨"Word", 0, 2⟩, ⟨"Ending", 2, 2⟩, ⟨"Word", 3, 5⟩, ⟨"Stem", 3, 4⟩,
    ⟨"Ending", 4, 5⟩]

theorem captures_nested_phrase :
    phraseGrammar.matchAll "ab-c!".toList = .ok ⟨"ab-c!".toList, phraseCaptures⟩ ∧
      phraseCaptures.Pairwise Capture.NoLater ∧
      ∃ brackets, phraseGrammar.Groups "ab-c!".toList brackets ∧
        brackets.map Bracket.capture = phraseCaptures ∧
        ∀ outer ∈ brackets, ∀ inner ∈ brackets, outer.capture = ⟨"Word", 3, 5⟩ →
          inner.capture = ⟨"Stem", 3, 4⟩ → inner.Within outer := by
  have found : phraseGrammar.matchAll "ab-c!".toList = .ok ⟨"ab-c!".toList, phraseCaptures⟩ := by
    decide +kernel
  obtain ⟨sorted, _, _, brackets, groups, captures, nested, _⟩ :=
    Grammar.captures_nested _ _ _ found
  refine ⟨found, sorted, brackets, groups, captures, fun outer first inner second word stem => ?_⟩
  refine (nested outer first inner second ?_ ?_).mp ?_
  · rw [word, stem]
    decide
  · rw [stem]
    decide
  · rw [word, stem]
    decide

/-! ### Enclosing captures -/

theorem Bracket.Precedes.asymm {first second : Bracket} (precedes : first.Precedes second) :
    ¬ second.Precedes first := by
  unfold Precedes at *
  omega

theorem pair_sublist_or {Entry : Type} {first second : Entry} {list : List Entry}
    (one : first ∈ list) (other : second ∈ list) (different : first ≠ second) :
    [first, second].Sublist list ∨ [second, first].Sublist list := by
  obtain ⟨front, back, rfl⟩ := List.append_of_mem one
  rcases List.mem_append.mp other with before | after
  · exact .inr ((List.singleton_sublist.mpr before).append
      (List.singleton_sublist.mpr (List.mem_cons_self ..)))
  · have later := (List.mem_cons.mp after).resolve_left different.symm
    exact .inl (((List.singleton_sublist.mpr later).cons_cons first).trans
      (List.sublist_append_right front _))

/-- What precedes stands in front. -/
theorem Bracket.pair_sublist_iff {brackets : List Bracket} (ordered : brackets.Pairwise Precedes)
    {first second : Bracket} (one : first ∈ brackets) (other : second ∈ brackets)
    (different : first ≠ second) : [first, second].Sublist brackets ↔ first.Precedes second := by
  have precedes : ∀ {left right}, [left, right].Sublist brackets → left.Precedes right :=
    fun part => (List.pairwise_cons.mp (ordered.sublist part)).1 _ (List.mem_singleton_self _)
  refine ⟨precedes, fun before => ?_⟩
  exact (pair_sublist_or one other different).resolve_right fun back =>
    before.asymm (precedes back)

/-- Of two nested groups the outer one is reported first, unless the two have one extent; then the
inner one is. -/
theorem Grammar.outer_reported_first_iff (grammar : Grammar) (text : List Char)
    (matched : MatchedText) (found : grammar.matchAll text = .ok matched) :
    ∃ brackets, grammar.Groups text brackets ∧
      brackets.map Bracket.capture = matched.captures ∧
      ∀ outer ∈ brackets, ∀ inner ∈ brackets, inner.Within outer →
        ([outer, inner].Sublist brackets ↔ ¬ outer.capture.Coextensive inner.capture) ∧
        ([inner, outer].Sublist brackets ↔ outer.capture.Coextensive inner.capture) := by
  obtain ⟨brackets, history, groups, placed, on, ordered, captures⟩ := exists_groups found
  refine ⟨brackets, groups, captures, fun outer enclosing inner enclosed within => ?_⟩
  obtain ⟨start, stop⟩ := Capture.contains_iff.mp
    (within.contains (on inner enclosed) (on outer enclosing) placed)
  have different : outer ≠ inner := fun same => Nat.lt_irrefl _ (same ▸ within.1)
  have closed := within.2
  rw [Bracket.pair_sublist_iff ordered enclosing enclosed different,
    Bracket.pair_sublist_iff ordered enclosed enclosing different.symm]
  unfold Bracket.Precedes Capture.Coextensive
  omega

/-- The first word is reported behind its stem, the second one in front of it. -/
theorem outer_reported_first_iff_phrase :
    phraseGrammar.matchAll "ab-c!".toList = .ok ⟨"ab-c!".toList, phraseCaptures⟩ ∧
      ∃ brackets, phraseGrammar.Groups "ab-c!".toList brackets ∧
        brackets.map Bracket.capture = phraseCaptures ∧
        ∀ outer ∈ brackets, ∀ inner ∈ brackets, inner.Within outer →
          (outer.capture = ⟨"Word", 0, 2⟩ → inner.capture = ⟨"Stem", 0, 2⟩ →
            [inner, outer].Sublist brackets) ∧
          (outer.capture = ⟨"Word", 3, 5⟩ → inner.capture = ⟨"Stem", 3, 4⟩ →
            [outer, inner].Sublist brackets) := by
  have found : phraseGrammar.matchAll "ab-c!".toList = .ok ⟨"ab-c!".toList, phraseCaptures⟩ := by
    decide +kernel
  obtain ⟨brackets, groups, captures, order⟩ := Grammar.outer_reported_first_iff _ _ _ found
  refine ⟨found, brackets, groups, captures, fun outer enclosing inner enclosed within => ?_⟩
  obtain ⟨first, last⟩ := order outer enclosing inner enclosed within
  constructor
  · intro word stem
    exact last.mpr (by rw [word, stem]; decide)
  · intro word stem
    exact first.mpr (by rw [word, stem]; decide)

end TreeSelect
