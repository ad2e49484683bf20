import Mathlib.Data.List.Pairwise
import Mathlib.Data.List.Sort
import TreeSelect.Proofs.Capture.Order

/-! Groups of a history as pairs of brackets. An end belongs to a beginning if every group opened in
between is closed in between. Two groups are apart, or one was opened and closed inside the other;
each makes one of the reported captures, which come in the order of their extents, and those of one
extent in the order of their ends. -/

namespace TreeSelect

/-- Every group opened here is closed here, and no other is closed. -/
inductive Balanced : List Boundary → Prop where
  | nil : Balanced []
  | group {rule : String} {start stop : Nat} {inner after : List Boundary} (inside : Balanced inner)
      (further : Balanced after) :
      Balanced (.opened rule start :: (inner ++ .closed stop :: after))

theorem Balanced.append {front back : List Boundary} (first : Balanced front)
    (second : Balanced back) : Balanced (front ++ back) := by
  induction first with
  | nil => exact second
  | group inside _ _ ih =>
    rw [List.cons_append, List.append_assoc, List.cons_append]
    exact .group inside ih

/-- A group: the places in a history where it was opened and closed, and the capture it makes. -/
structure Bracket where
  opened : Nat
  closed : Nat
  capture : Capture
  deriving DecidableEq, Repr

namespace Bracket

/-- The history opens and closes the group at its places. -/
def On (history : List Boundary) (bracket : Bracket) : Prop :=
  ∃ before inner after,
    history = before ++ .opened bracket.capture.rule bracket.capture.start ::
      (inner ++ .closed bracket.capture.stop :: after) ∧
    Balanced inner ∧ bracket.opened = before.length ∧
    bracket.closed = before.length + 1 + inner.length

/-- The group was opened and closed inside the other. -/
def Within (inner outer : Bracket) : Prop :=
  outer.opened < inner.opened ∧ inner.closed < outer.closed

instance (inner outer : Bracket) : Decidable (inner.Within outer) :=
  inferInstanceAs (Decidable (_ ∧ _))

/-- An earlier start comes first, then a later stop, and then an earlier end in the history. -/
def Precedes (first second : Bracket) : Prop :=
  first.capture.start < second.capture.start ∨
    first.capture.start = second.capture.start ∧
      (second.capture.stop < first.capture.stop ∨
        second.capture.stop = first.capture.stop ∧ first.closed < second.closed)

instance (first second : Bracket) : Decidable (first.Precedes second) :=
  inferInstanceAs (Decidable (_ ∨ _))

/-- The groups of a history, all of them, in the order of their captures. -/
structure Listing (history : List Boundary) (brackets : List Bracket) : Prop where
  ordered : brackets.Pairwise Precedes
  mem_iff : ∀ bracket, bracket ∈ brackets ↔ bracket.On history

/-- Pairs boundaries as captures are paired, and notes their places, the first of which is given. -/
def pair (pending : List (Nat × String × Nat)) (place : Nat) : List Boundary → List Bracket
  | [] => []
  | .opened rule position :: rest => pair ((place, rule, position) :: pending) (place + 1) rest
  | .closed position :: rest =>
      match pending with
      | [] => pair [] (place + 1) rest
      | (opened, rule, start) :: outer =>
          ⟨opened, place, ⟨rule, start, position⟩⟩ :: pair outer (place + 1) rest

theorem pair_captures (pending : List (Nat × String × Nat)) (place : Nat)
    (history : List Boundary) :
    (pair pending place history).map capture = Capture.pair (pending.map Prod.snd) history := by
  induction history generalizing pending place with
  | nil => rfl
  | cons boundary rest ih =>
    cases boundary with
    | opened rule position => exact ih _ _
    | closed position =>
      cases pending with
      | nil => exact ih [] _
      | cons latest outer => exact congrArg _ (ih outer _)

/-! ### Membership -/

/-- What stands between the beginnings still open is balanced; in front of them anything may. -/
inductive Pending : List Boundary → List (Nat × String × Nat) → Prop where
  | none (done : List Boundary) : Pending done []
  | more {before inner : List Boundary} {pending : List (Nat × String × Nat)} {rule : String}
      {start : Nat} (outer : Pending before pending) (inside : Balanced inner) :
      Pending (before ++ .opened rule start :: inner) ((before.length, rule, start) :: pending)

theorem Pending.append {done group : List Boundary} {pending : List (Nat × String × Nat)}
    (opened : Pending done pending) (balanced : Balanced group) :
    Pending (done ++ group) pending := by
  cases opened with
  | none => exact .none _
  | more outer inside =>
    rw [List.append_assoc, List.cons_append]
    exact .more outer (inside.append balanced)

theorem on_of_mem_pair {done rest : List Boundary} {pending : List (Nat × String × Nat)}
    (opened : Pending done pending) {bracket : Bracket}
    (member : bracket ∈ pair pending done.length rest) : bracket.On (done ++ rest) := by
  induction rest generalizing done pending with
  | nil => cases member
  | cons boundary rest ih =>
    have next : (done ++ [boundary]).length = done.length + 1 := List.length_append
    rw [List.append_cons]
    cases boundary with
    | opened rule position =>
      rw [pair, ← next] at member
      exact ih (.more opened .nil) member
    | closed position =>
      cases opened with
      | none =>
        rw [pair, ← next] at member
        exact ih (.none _) member
      | @more before inner pending rule start outer inside =>
        rw [pair, ← next] at member
        rcases List.mem_cons.mp member with rfl | later
        · exact ⟨before, inner, rest, by simp, inside, rfl, by simp; omega⟩
        · -- the group that ends here becomes a part of what surrounds it
          have group : Balanced (.opened rule start :: (inner ++ [.closed position])) :=
            .group inside .nil
          have grown := outer.append group
          have whole : before ++ .opened rule start :: (inner ++ [.closed position]) =
              before ++ .opened rule start :: inner ++ [.closed position] := by simp
          rw [whole] at grown
          exact ih grown later

/-- A balanced stretch leaves the beginnings still open as they were. -/
theorem exists_pair_append {front : List Boundary} (balanced : Balanced front)
    (pending : List (Nat × String × Nat)) (place : Nat) (rest : List Boundary) :
    ∃ found, pair pending place (front ++ rest) =
      found ++ pair pending (place + front.length) rest := by
  induction balanced generalizing pending place rest with
  | nil => exact ⟨[], rfl⟩
  | @group rule start stop inner after _ _ innerPairs afterPairs =>
    obtain ⟨inside, first⟩ :=
      innerPairs ((place, rule, start) :: pending) (place + 1) (.closed stop :: (after ++ rest))
    obtain ⟨behind, second⟩ := afterPairs pending (place + 1 + inner.length + 1) rest
    refine ⟨inside ++ ⟨place, place + 1 + inner.length, ⟨rule, start, stop⟩⟩ :: behind, ?_⟩
    have count : place + (Boundary.opened rule start :: (inner ++ .closed stop :: after)).length =
        place + 1 + inner.length + 1 + after.length := by simp; omega
    rw [count, List.cons_append, List.append_assoc, List.cons_append, pair, first, pair, second,
      List.append_assoc, List.cons_append]

/-- Whatever stands in front leaves some beginnings open. -/
theorem exists_pair_of_append (pending : List (Nat × String × Nat)) (place : Nat)
    (front rest : List Boundary) :
    ∃ found opened, pair pending place (front ++ rest) =
      found ++ pair opened (place + front.length) rest := by
  induction front generalizing pending place with
  | nil => exact ⟨[], pending, rfl⟩
  | cons boundary front ih =>
    have count : place + (boundary :: front).length = place + 1 + front.length := by simp; omega
    rw [count, List.cons_append]
    cases boundary with
    | opened rule position => exact ih _ _
    | closed position =>
      cases pending with
      | nil => exact ih [] _
      | cons latest outer =>
        obtain ⟨found, opened, same⟩ := ih outer (place + 1)
        exact ⟨_ :: found, opened, by rw [pair, same, List.cons_append]⟩

/-- The pairs are the groups of the history. -/
theorem mem_pair_iff (history : List Boundary) (bracket : Bracket) :
    bracket ∈ pair [] 0 history ↔ bracket.On history := by
  constructor
  · exact on_of_mem_pair (.none [])
  · rintro ⟨before, inner, after, rfl, inside, opened, closed⟩
    obtain ⟨found, pending, first⟩ := exists_pair_of_append [] 0 before
      (.opened bracket.capture.rule bracket.capture.start ::
        (inner ++ .closed bracket.capture.stop :: after))
    obtain ⟨others, second⟩ := exists_pair_append inside
      ((0 + before.length, bracket.capture.rule, bracket.capture.start) :: pending)
      (0 + before.length + 1) (.closed bracket.capture.stop :: after)
    rw [first, pair, second, pair, Nat.zero_add, ← closed, ← opened]
    simp

/-! ### Nesting -/

theorem le_closed_of_mem_pair {pending : List (Nat × String × Nat)} {place : Nat}
    {history : List Boundary} {bracket : Bracket} (member : bracket ∈ pair pending place history) :
    place ≤ bracket.closed := by
  induction history generalizing pending place with
  | nil => cases member
  | cons boundary rest ih =>
    cases boundary with
    | opened rule position => exact Nat.le_of_succ_le (ih member)
    | closed position =>
      cases pending with
      | nil => exact Nat.le_of_succ_le (ih member)
      | cons latest outer =>
        rcases List.mem_cons.mp member with rfl | later
        · exact Nat.le_refl place
        · exact Nat.le_of_succ_le (ih later)

theorem opened_of_mem_pair {pending : List (Nat × String × Nat)} {place : Nat}
    {history : List Boundary} {bracket : Bracket} (member : bracket ∈ pair pending place history) :
    bracket.opened ∈ pending.map Prod.fst ∨ place ≤ bracket.opened := by
  induction history generalizing pending place with
  | nil => cases member
  | cons boundary rest ih =>
    cases boundary with
    | opened rule position =>
      rcases ih member with old | new
      · rcases List.mem_cons.mp old with here | earlier
        · exact .inr (Nat.le_of_eq here.symm)
        · exact .inl earlier
      · exact .inr (Nat.le_of_succ_le new)
    | closed position =>
      cases pending with
      | nil => exact .inr (Nat.le_of_succ_le ((ih member).resolve_left List.not_mem_nil))
      | cons latest outer =>
        rcases List.mem_cons.mp member with rfl | later
        · exact .inl (List.mem_cons_self ..)
        · exact (ih later).imp (List.mem_cons_of_mem _) Nat.le_of_succ_le

/-- Pairs come in the order of their ends; one that ends later began before the other or after
its end. -/
theorem pairwise_pair {pending : List (Nat × String × Nat)} {place : Nat}
    (descending : (pending.map Prod.fst).Pairwise fun latest earlier => earlier < latest)
    (below : ∀ opened ∈ pending.map Prod.fst, opened < place) (history : List Boundary) :
    (pair pending place history).Pairwise fun first second =>
      first.closed < second.closed ∧
        (second.opened < first.opened ∨ first.closed < second.opened) := by
  induction history generalizing pending place with
  | nil => exact .nil
  | cons boundary rest ih =>
    cases boundary with
    | opened rule position =>
      refine ih (List.pairwise_cons.mpr ⟨below, descending⟩) fun opened member => ?_
      rcases List.mem_cons.mp member with rfl | earlier
      · exact Nat.lt_succ_self _
      · exact Nat.lt_succ_of_lt (below opened earlier)
    | closed position =>
      cases pending with
      | nil => exact ih .nil fun opened member => absurd member List.not_mem_nil
      | cons latest outer =>
        obtain ⟨latestLast, outerDescending⟩ := List.pairwise_cons.mp descending
        have outerBelow : ∀ opened ∈ outer.map Prod.fst, opened < place + 1 := fun opened member =>
          Nat.lt_succ_of_lt (below opened (List.mem_cons_of_mem _ member))
        refine List.pairwise_cons.mpr ⟨fun bracket member => ?_, ih outerDescending outerBelow⟩
        exact ⟨le_closed_of_mem_pair member, (opened_of_mem_pair member).imp_left (latestLast _)⟩

theorem pairwise_pairs (history : List Boundary) :
    (pair [] 0 history).Pairwise fun first second =>
      first.closed < second.closed ∧
        (second.opened < first.opened ∨ first.closed < second.opened) :=
  pairwise_pair .nil (fun _ member => absurd member List.not_mem_nil) history

theorem On.opened_lt_closed {history : List Boundary} {bracket : Bracket}
    (on : bracket.On history) : bracket.opened < bracket.closed := by
  obtain ⟨before, inner, after, _, _, opened, closed⟩ := on
  omega

/-- One group was opened and closed inside the other, or after the end of the other. -/
def Untangled (first second : Bracket) : Prop :=
  (first.Within second ∨ second.Within first) ∨
    (first.closed < second.opened ∨ second.closed < first.opened)

theorem Untangled.symm {first second : Bracket} (untangled : first.Untangled second) :
    second.Untangled first := untangled.imp Or.symm Or.symm

instance : Std.Symm Untangled := ⟨fun _ _ => Untangled.symm⟩

theorem On.untangled {history : List Boundary} {first second : Bracket} (one : first.On history)
    (other : second.On history) (different : first ≠ second) : first.Untangled second := by
  have pairs : (pair [] 0 history).Pairwise Untangled := by
    refine (pairwise_pairs history).imp fun order => ?_
    rcases order.2 with outside | after
    · exact .inl (.inl ⟨outside, order.1⟩)
    · exact .inr (.inl after)
  exact pairs.forall ((mem_pair_iff history first).mpr one)
    ((mem_pair_iff history second).mpr other) different

/-! ### The order of the captures -/

theorem Precedes.noLater {first second : Bracket} (precedes : first.Precedes second) :
    first.capture.NoLater second.capture := by
  unfold Precedes at precedes
  unfold Capture.NoLater
  omega

/-- Sorting by what precedes, where the ends are distinct. -/
theorem exists_ordered {brackets : List Bracket}
    (distinct : brackets.Pairwise fun first second => first.closed ≠ second.closed) :
    ∃ sorted : List Bracket, sorted.Perm brackets ∧ sorted.Pairwise Precedes := by
  let noLater (first second : Bracket) : Bool := decide (¬ second.Precedes first)
  have perm : (brackets.mergeSort noLater).Perm brackets := List.mergeSort_perm ..
  have sorted : (brackets.mergeSort noLater).Pairwise fun first second => noLater first second := by
    apply List.pairwise_mergeSort
    · intro first second third
      simp only [noLater, decide_eq_true_eq]
      unfold Precedes
      omega
    · intro first second
      simp only [noLater, Bool.or_eq_true, decide_eq_true_eq]
      unfold Precedes
      omega
  have apart := (perm.pairwise_iff fun {_ _} => Ne.symm).mpr distinct
  refine ⟨brackets.mergeSort noLater, perm, (sorted.and apart).imp fun {first second} both => ?_⟩
  simp only [noLater, decide_eq_true_eq] at both
  unfold Precedes at both ⊢
  omega

theorem Precedes.closed_lt {first second : Bracket} (precedes : first.Precedes second)
    {start stop : Nat} (one : first.capture.hasExtent start stop = true)
    (other : second.capture.hasExtent start stop = true) : first.closed < second.closed := by
  simp only [Capture.hasExtent, Bool.and_eq_true, beq_iff_eq] at one other
  unfold Precedes at precedes
  omega

/-- The reported captures are those of the groups of the history. -/
theorem exists_listing (history : List Boundary) :
    ∃ brackets, Listing history brackets ∧
      brackets.map capture = Capture.ofBoundaries history := by
  have paired := pairwise_pairs history
  obtain ⟨brackets, perm, ordered⟩ :=
    exists_ordered (paired.imp fun order => Nat.ne_of_lt order.1)
  refine ⟨brackets, ⟨ordered, fun bracket => perm.mem_iff.trans (mem_pair_iff history bracket)⟩, ?_⟩
  have stable := Capture.stablySorted_sorted ((pair [] 0 history).map capture)
  have captures : Capture.ofBoundaries history =
      Capture.sorted ((pair [] 0 history).map capture) := by
    rw [pair_captures]
    rfl
  rw [captures]
  refine Capture.eq_of_ordered (List.pairwise_map.mpr (ordered.imp Precedes.noLater))
    stable.ordered fun start stop => ?_
  -- the groups of one extent stand in the order of their ends on both sides
  rw [stable.stable, List.filter_map, List.filter_map]
  refine congrArg (List.map capture) ?_
  have asymm {one other : List Bracket} : ∀ first second : Bracket, first ∈ one →
      second ∈ other → first.closed < second.closed → second.closed < first.closed →
      first = second := fun _ _ _ _ less more => absurd less (Nat.lt_asymm more)
  refine List.Perm.eq_of_pairwise asymm ?_ ((paired.imp And.left).filter _) (perm.filter _)
  refine (ordered.filter _).imp_of_mem fun {first second} one other precedes => ?_
  exact precedes.closed_lt (List.mem_filter.mp one).2 (List.mem_filter.mp other).2

end Bracket
end TreeSelect
