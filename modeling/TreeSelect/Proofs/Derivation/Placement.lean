import TreeSelect.Proofs.Capture.Order
import TreeSelect.Proofs.Derivation.Extents

/-! Parts of a derivation in their places. The captures of a part are found again in the sorted
captures of the whole text by their extent alone, as long as no rule that is looked for encloses
the part. -/

namespace TreeSelect.Derivation
open TreeSelect.Text Capture

/-- The text stands at a position of the matched text, and the captures are those made there. All
others lie in front of it, lie behind it, or are of the rules `outer` that may enclose it. -/
structure Placed (matched : MatchedText) (start : Nat) (text : List Char) (part : List Capture)
    (outer : List String) : Prop where
  letters : ∃ front back, matched.text = front ++ (text ++ back) ∧ width front = start
  captures : ∃ earlier later, matched.captures = sorted (earlier ++ (part ++ later)) ∧
    (∀ capture ∈ earlier, capture.start < capture.stop ∧ capture.stop ≤ start) ∧
    ∀ capture ∈ later, (capture.start < capture.stop ∧ start + width text ≤ capture.start) ∨
      capture.rule ∈ outer

namespace Placed
variable {matched : MatchedText} {start stop : Nat} {text front back : List Char}
  {part before after : List Capture} {outer rules : List String}

theorem weaken {others : List String} (placed : Placed matched start text part outer)
    (known : outer ⊆ others) : Placed matched start text part others := by
  obtain ⟨earlier, later, all, left, right⟩ := placed.captures
  exact ⟨placed.letters, earlier, later, all, left, fun capture member =>
    (right capture member).imp_right fun named => known named⟩

/-- The capture of the part itself encloses the captures of its parts. -/
theorem inner {rule : String} (placed : Placed matched start text (closing rule start text part) outer) :
    Placed matched start text part (rule :: outer) := by
  obtain ⟨earlier, later, all, left, right⟩ := placed.captures
  refine ⟨placed.letters, earlier, ⟨rule, start, start + width text⟩ :: later, ?_, left, ?_⟩
  · rw [all, closing, List.append_assoc]
    rfl
  · intro capture member
    rcases List.mem_cons.mp member with rfl | member
    · exact .inr (List.mem_cons_self ..)
    · exact (right capture member).imp_right (List.mem_cons_of_mem rule)

theorem left (placed : Placed matched start (front ++ back) (before ++ after) outer)
    (spans : Spans rules (start + width front) stop after) :
    Placed matched start front before outer := by
  obtain ⟨ahead, behind, whole, position⟩ := placed.letters
  obtain ⟨earlier, later, all, left, right⟩ := placed.captures
  refine ⟨⟨ahead, back ++ behind, by rw [whole, List.append_assoc], position⟩,
    earlier, after ++ later, by rw [all, List.append_assoc], left, fun capture member => ?_⟩
  rcases List.mem_append.mp member with inside | outside
  · have extent := spans capture inside
    exact .inl ⟨extent.2.1, extent.1⟩
  · refine (right capture outside).imp_left fun apart => ⟨apart.1, ?_⟩
    have far := apart.2
    rw [width_append] at far
    omega

theorem right (placed : Placed matched start (front ++ back) (before ++ after) outer)
    (spans : Spans rules start (start + width front) before) :
    Placed matched (start + width front) back after outer := by
  obtain ⟨ahead, behind, whole, position⟩ := placed.letters
  obtain ⟨earlier, later, all, left, right⟩ := placed.captures
  refine ⟨⟨ahead ++ front, behind, by rw [whole]; simp only [List.append_assoc],
    by rw [width_append, position]⟩, earlier ++ before, later, by rw [all]; simp only
      [List.append_assoc], fun capture member => ?_, fun capture member => ?_⟩
  · rcases List.mem_append.mp member with outside | inside
    · have extent := left capture outside
      exact ⟨extent.1, by omega⟩
    · have extent := spans capture inside
      exact ⟨extent.2.1, extent.2.2.1⟩
  · have apart := right capture member
    rwa [width_append, ← Nat.add_assoc] at apart

/-- Nothing is captured in front of the part. -/
theorem skip (placed : Placed matched start (front ++ back) part outer) :
    Placed matched (start + width front) back part outer := by
  have nothing : Spans [] start (start + width front) [] := Spans.nil
  have behind : Placed matched start (front ++ back) ([] ++ part) outer := placed
  exact behind.right nothing

/-- Nothing is captured behind the part. -/
theorem cut (placed : Placed matched start (front ++ back) part outer) :
    Placed matched start front part outer := by
  rw [← List.append_nil part] at placed
  have nothing : Spans [] (start + width front) 0 [] := Spans.nil
  exact placed.left nothing

theorem textOf (placed : Placed matched start text part outer) (rule : String) :
    matched.textOf ⟨rule, start, start + width text⟩ = text := by
  obtain ⟨ahead, behind, whole, position⟩ := placed.letters
  simp only [MatchedText.textOf]
  rw [whole, ← position]
  exact slice_append ahead text behind

/-- What is kept of the captures within a part are captures of the part. -/
theorem filter_within (placed : Placed matched start text part outer)
    (spans : Spans rules start (start + width text) part) (rule : String) {keep : Capture → Bool}
    (apart : ∀ capture, capture.rule ∈ outer → keep capture = false) :
    (matched.captures.filter fun capture =>
      Capture.contains ⟨rule, start, start + width text⟩ capture && keep capture) =
        sorted (part.filter keep) := by
  obtain ⟨earlier, later, all, left, right⟩ := placed.captures
  rw [all, filter_sorted, List.filter_append, List.filter_append]
  have noneEarlier : (earlier.filter fun capture =>
      Capture.contains ⟨rule, start, start + width text⟩ capture && keep capture) = [] := by
    rw [List.filter_eq_nil_iff]
    intro capture member
    have extent := left capture member
    simp only [Capture.contains, Bool.and_eq_true, decide_eq_true_eq, not_and]
    omega
  have noneLater : (later.filter fun capture =>
      Capture.contains ⟨rule, start, start + width text⟩ capture && keep capture) = [] := by
    rw [List.filter_eq_nil_iff]
    intro capture member
    rcases right capture member with extent | named
    · simp only [Capture.contains, Bool.and_eq_true, decide_eq_true_eq, not_and]
      omega
    · simp [apart capture named]
  have allInside : (part.filter fun capture =>
      Capture.contains ⟨rule, start, start + width text⟩ capture && keep capture) =
        part.filter keep := by
    apply List.filter_congr
    intro capture member
    have extent := spans capture member
    have inside : Capture.contains ⟨rule, start, start + width text⟩ capture = true := by
      simp only [Capture.contains, Bool.and_eq_true, decide_eq_true_eq]
      omega
    rw [inside, Bool.true_and]
  rw [noneEarlier, noneLater, allInside, List.nil_append, List.append_nil]

/-- Whether a capture is of a rule. -/
def isOf (rule : String) (capture : Capture) : Bool := decide (capture.rule = rule)

theorem not_isOf {rule : String} (absent : rule ∉ rules) (capture : Capture)
    (named : capture.rule ∈ rules) : isOf rule capture = false := by
  rw [isOf, decide_eq_false_iff_not]
  rintro rfl
  exact absent named

theorem inside (placed : Placed matched start text part outer)
    (spans : Spans rules start (start + width text) part) {rule : String} (absent : rule ∉ outer)
    (ordered : (part.filter (isOf rule)).Pairwise NoLater) (region : String) :
    matched.inside rule ⟨region, start, start + width text⟩ = part.filter (isOf rule) := by
  rw [← sorted_of_ordered ordered]
  exact placed.filter_within spans region (not_isOf absent)

theorem firstInside (placed : Placed matched start text part outer)
    (spans : Spans rules start (start + width text) part) {rule : String} (absent : rule ∉ outer)
    {first : Capture} {more : List Capture} (found : part.filter (isOf rule) = first :: more)
    (least : ∀ capture ∈ more, first.NoLater capture) (region : String) :
    matched.firstInside? rule ⟨region, start, start + width text⟩ = some first := by
  have filtered := placed.filter_within spans region (not_isOf absent)
  rw [found, sorted_cons least] at filtered
  rw [MatchedText.firstInside?, ← List.head?_filter]
  exact congrArg List.head? filtered

theorem firstInside_none (placed : Placed matched start text part outer)
    (spans : Spans rules start (start + width text) part) {rule : String} (absent : rule ∉ outer)
    (nowhere : part.filter (isOf rule) = []) (region : String) :
    matched.firstInside? rule ⟨region, start, start + width text⟩ = none := by
  have filtered := placed.filter_within spans region (not_isOf absent)
  rw [nowhere] at filtered
  rw [MatchedText.firstInside?, ← List.head?_filter]
  exact congrArg List.head? filtered

end Placed

theorem filter_spread {Tree : Type} (text : Tree → List Char)
    (captures : Nat → Tree → List Capture) (keep : Capture → Bool) (start : Nat)
    (trees : List Tree) : (spread text captures start trees).filter keep =
      spread text (fun start tree => (captures start tree).filter keep) start trees := by
  induction trees generalizing start with
  | nil => rfl
  | cons tree trees ih => rw [spread, spread, List.filter_append, ih]

theorem Spans.ordered_append {rules others : List String} {start middle stop : Nat}
    {before after : List Capture} (left : Spans rules start middle before)
    (right : Spans others middle stop after) (first : before.Pairwise NoLater)
    (second : after.Pairwise NoLater) : (before ++ after).Pairwise NoLater := by
  refine List.pairwise_append.mpr ⟨first, second, fun capture member other later => ?_⟩
  have extent := left capture member
  have further := right other later
  exact .inl (by omega)

theorem ordered_spread {Tree : Type} {rules : List String} {text : Tree → List Char}
    {captures : Nat → Tree → List Capture}
    (spans : ∀ start tree, Spans rules start (start + width (text tree)) (captures start tree))
    (ordered : ∀ start tree, (captures start tree).Pairwise NoLater) (start : Nat)
    (trees : List Tree) : (spread text captures start trees).Pairwise NoLater := by
  induction trees generalizing start with
  | nil => exact List.Pairwise.nil
  | cons tree trees ih =>
    exact (spans start tree).ordered_append (spans_spread spans _ trees) (ordered start tree) (ih _)

/-- If each derivation in its place is read from its mark, all are read from theirs. -/
theorem mapM_spread {Tree Meaning Error : Type} {matched : MatchedText} {outer rules : List String}
    {text : Tree → List Char} {captures : Nat → Tree → List Capture} {mark : Nat → Tree → Capture}
    {read : Capture → Except Error Meaning} {meaning : Tree → Meaning}
    (spans : ∀ start tree, Spans rules start (start + width (text tree)) (captures start tree))
    (each : ∀ start tree, Placed matched start (text tree) (captures start tree) outer →
      read (mark start tree) = .ok (meaning tree)) (start : Nat) (trees : List Tree)
    (placed : Placed matched start (trees.flatMap text) (spread text captures start trees) outer) :
    (spread text (fun start tree => [mark start tree]) start trees).mapM read =
      .ok (trees.map meaning) := by
  induction trees generalizing start with
  | nil => rfl
  | cons tree trees ih =>
    rw [List.flatMap_cons] at placed
    have first := each start tree (placed.left (spans_spread spans _ trees))
    have rest := ih _ (placed.right (spans start tree))
    simp only [spread, List.singleton_append, List.mapM_cons, first, rest]
    rfl

end TreeSelect.Derivation
