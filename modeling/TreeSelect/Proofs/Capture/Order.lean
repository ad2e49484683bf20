import TreeSelect.Capture

/-! The order of captures. Sorting keeps what has one extent in its order, so it is determined by
the captures of each extent; in particular it can be exchanged with leaving captures out. -/

namespace TreeSelect.Capture

/-- The first starts earlier, or where the second starts and does not stop before it. -/
def NoLater (first second : Capture) : Prop :=
  first.start < second.start ∨ first.start = second.start ∧ second.stop ≤ first.stop

def hasExtent (start stop : Nat) (capture : Capture) : Bool :=
  capture.start == start && capture.stop == stop

/-- The second list holds the captures of the first by start, those of one start by their stop,
the longer ones first, and those of one extent in the order of the first list. -/
structure StablySorted (captures sorted : List Capture) : Prop where
  ordered : sorted.Pairwise NoLater
  stable : ∀ start stop,
    sorted.filter (hasExtent start stop) = captures.filter (hasExtent start stop)

theorem NoLater.trans {first second third : Capture} (left : first.NoLater second)
    (right : second.NoLater third) : first.NoLater third := by
  unfold NoLater at *
  omega

theorem noLater_iff (first second : Capture) :
    first.NoLater second ↔ second.before first = false := by
  simp only [NoLater, before, Bool.or_eq_false_iff, Bool.and_eq_false_iff, decide_eq_false_iff_not,
    beq_eq_false_iff_ne, ne_eq]
  omega

theorem noLater_of_before {first second : Capture} (before : first.before second = true) :
    first.NoLater second := by
  simp only [Capture.before, Bool.or_eq_true, Bool.and_eq_true, decide_eq_true_eq, beq_iff_eq]
    at before
  unfold NoLater
  omega

theorem not_hasExtent_of_before {first second : Capture} (before : first.before second = true)
    {start stop : Nat} (extent : hasExtent start stop second = true) :
    hasExtent start stop first = false := by
  simp only [Capture.before, Bool.or_eq_true, Bool.and_eq_true, decide_eq_true_eq, beq_iff_eq]
    at before
  simp only [hasExtent, Bool.and_eq_true, beq_iff_eq, Bool.and_eq_false_iff,
    beq_eq_false_iff_ne, ne_eq] at extent ⊢
  omega

theorem mem_place (capture other : Capture) (placed : List Capture) :
    other ∈ place capture placed ↔ other = capture ∨ other ∈ placed := by
  induction placed with
  | nil => simp [place]
  | cons last earlier ih =>
    rw [place]
    split
    · rw [List.mem_cons, ih, List.mem_cons]
      exact or_left_comm
    · rw [List.mem_cons]

theorem filter_place (start stop : Nat) (capture : Capture) (placed : List Capture) :
    (place capture placed).filter (hasExtent start stop) =
      (capture :: placed).filter (hasExtent start stop) := by
  induction placed with
  | nil => rfl
  | cons last earlier ih =>
    rw [place]
    split
    next before =>
      cases extent : hasExtent start stop last with
      | true =>
        have absent := not_hasExtent_of_before before extent
        simp only [List.filter_cons, ih, extent, absent, Bool.false_eq_true, if_true, if_false]
      | false =>
        simp only [List.filter_cons, ih, extent, Bool.false_eq_true, if_false]
    next => rfl

theorem place_ordered (capture : Capture) (placed : List Capture)
    (ordered : placed.Pairwise fun last earlier => NoLater earlier last) :
    (place capture placed).Pairwise fun last earlier => NoLater earlier last := by
  induction placed with
  | nil => simp [place]
  | cons last earlier ih =>
    have ⟨latest, rest⟩ := List.pairwise_cons.mp ordered
    rw [place]
    split
    next before =>
      refine List.pairwise_cons.mpr ⟨fun other member => ?_, ih rest⟩
      rcases (mem_place capture other earlier).mp member with rfl | old
      · exact noLater_of_before before
      · exact latest other old
    next after =>
      have behind : last.NoLater capture :=
        (noLater_iff last capture).mpr (Bool.eq_false_iff.mpr after)
      refine List.pairwise_cons.mpr ⟨fun other member => ?_, ordered⟩
      rcases List.mem_cons.mp member with rfl | old
      · exact behind
      · exact (latest other old).trans behind

/-- What has been placed so far is sorted backwards, those of one extent backwards as well. -/
theorem stablySorted_foldl_place (done captures placed : List Capture)
    (sorted : StablySorted done placed.reverse) :
    StablySorted (done ++ captures)
      (captures.foldl (fun placed capture => place capture placed) placed).reverse := by
  induction captures generalizing done placed with
  | nil => simpa using sorted
  | cons capture captures ih =>
    rw [List.foldl_cons, List.append_cons]
    apply ih
    refine ⟨?_, fun start stop => ?_⟩
    · exact List.pairwise_reverse.mpr
        (place_ordered capture placed (List.pairwise_reverse.mp sorted.ordered))
    · have before := sorted.stable start stop
      rw [List.filter_reverse] at before
      rw [List.filter_reverse, filter_place, List.filter_append, ← before]
      cases extent : hasExtent start stop capture <;> simp [extent]

theorem stablySorted_sorted (captures : List Capture) : StablySorted captures (sorted captures) :=
  stablySorted_foldl_place [] captures [] ⟨List.Pairwise.nil, fun _ _ => rfl⟩

private theorem hasExtent_self (capture : Capture) :
    hasExtent capture.start capture.stop capture = true := by
  simp [hasExtent]

private theorem mem_of_same_filters {captures others : List Capture}
    (same : ∀ start stop,
      captures.filter (hasExtent start stop) = others.filter (hasExtent start stop))
    {capture : Capture} (member : capture ∈ captures) : capture ∈ others := by
  have inside : capture ∈ captures.filter (hasExtent capture.start capture.stop) :=
    List.mem_filter.mpr ⟨member, hasExtent_self capture⟩
  rw [same] at inside
  exact (List.mem_filter.mp inside).1

/-- Of all orders only one is stable. -/
theorem eq_of_ordered {first second : List Capture} (firstOrdered : first.Pairwise NoLater)
    (secondOrdered : second.Pairwise NoLater)
    (same : ∀ start stop,
      first.filter (hasExtent start stop) = second.filter (hasExtent start stop)) :
    first = second := by
  induction first generalizing second with
  | nil =>
    refine (List.eq_nil_iff_forall_not_mem.mpr fun capture member => ?_).symm
    exact List.not_mem_nil (mem_of_same_filters (fun start stop => (same start stop).symm) member)
  | cons least rest ih =>
    cases second with
    | nil => exact absurd (mem_of_same_filters same (List.mem_cons_self ..)) List.not_mem_nil
    | cons lowest others =>
      have ⟨leastFirst, restOrdered⟩ := List.pairwise_cons.mp firstOrdered
      have ⟨lowestFirst, othersOrdered⟩ := List.pairwise_cons.mp secondOrdered
      -- each head is no later than the other, so they have one extent
      have forth : least = lowest ∨ least.NoLater lowest := by
        have member := mem_of_same_filters (fun start stop => (same start stop).symm)
          (List.mem_cons_self (a := lowest) (l := others))
        exact (List.mem_cons.mp member).imp Eq.symm (leastFirst lowest)
      have back : lowest = least ∨ lowest.NoLater least := by
        have member := mem_of_same_filters same (List.mem_cons_self (a := least) (l := rest))
        exact (List.mem_cons.mp member).imp Eq.symm (lowestFirst least)
      have extent : hasExtent least.start least.stop lowest = true := by
        simp only [hasExtent, Bool.and_eq_true, beq_iff_eq]
        rcases forth with equal | forth
        · simp [equal]
        · rcases back with equal | back
          · simp [equal]
          · unfold NoLater at forth back
            omega
      have heads : least = lowest := by
        have both := same least.start least.stop
        rw [List.filter_cons_of_pos (hasExtent_self least), List.filter_cons_of_pos extent] at both
        exact (List.cons.inj both).1
      subst heads
      rw [ih restOrdered othersOrdered fun start stop => ?_]
      have both := same start stop
      cases present : hasExtent start stop least with
      | true =>
        rw [List.filter_cons_of_pos present, List.filter_cons_of_pos present] at both
        exact (List.cons.inj both).2
      | false =>
        have absent := Bool.eq_false_iff.mp present
        rwa [List.filter_cons_of_neg absent, List.filter_cons_of_neg absent] at both

/-- Leaving captures out before or after the sorting is the same. -/
theorem filter_sorted (keep : Capture → Bool) (captures : List Capture) :
    (sorted captures).filter keep = sorted (captures.filter keep) := by
  have whole := stablySorted_sorted captures
  have part := stablySorted_sorted (captures.filter keep)
  apply eq_of_ordered (whole.ordered.sublist List.filter_sublist) part.ordered
  intro start stop
  have swap : ∀ list : List Capture, (list.filter keep).filter (hasExtent start stop) =
      (list.filter (hasExtent start stop)).filter keep := fun list => by
    simp only [List.filter_filter, Bool.and_comm]
  rw [part.stable, swap, swap, whole.stable]

/-- A capture that is no later than the others is sorted to the front. -/
theorem sorted_cons {least : Capture} {rest : List Capture}
    (first : ∀ capture ∈ rest, least.NoLater capture) :
    sorted (least :: rest) = least :: sorted rest := by
  have whole := stablySorted_sorted (least :: rest)
  have part := stablySorted_sorted rest
  refine eq_of_ordered whole.ordered (List.pairwise_cons.mpr ⟨fun capture member => ?_,
    part.ordered⟩) fun start stop => ?_
  · exact first capture (mem_of_same_filters part.stable member)
  · rw [whole.stable, List.filter_cons, List.filter_cons, part.stable]

theorem sorted_of_ordered {captures : List Capture} (ordered : captures.Pairwise NoLater) :
    sorted captures = captures := by
  have whole := stablySorted_sorted captures
  exact eq_of_ordered whole.ordered ordered whole.stable

theorem perm_place (capture : Capture) (placed : List Capture) :
    (place capture placed).Perm (capture :: placed) := by
  induction placed with
  | nil => exact .refl _
  | cons last earlier ih =>
    rw [place]
    split
    · exact (ih.cons last).trans (.swap ..)
    · exact .refl _

/-- Sorting loses no capture and adds none. -/
theorem perm_sorted (captures : List Capture) : (sorted captures).Perm captures := by
  have kept : ∀ placed : List Capture,
      (captures.foldl (fun placed capture => place capture placed) placed).Perm
        (captures ++ placed) := by
    induction captures with
    | nil => exact .refl
    | cons capture captures ih =>
      exact fun placed => (ih (place capture placed)).trans
        (((perm_place capture placed).append_left captures).trans List.perm_middle)
  have whole := kept []
  rw [List.append_nil] at whole
  exact (List.reverse_perm _).trans whole

end TreeSelect.Capture
