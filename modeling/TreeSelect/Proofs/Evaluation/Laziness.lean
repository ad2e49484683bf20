import TreeSelect.Context
import TreeSelect.Proofs.Evaluation.Narrowing

/-! Matches that are worked out as they are asked for. The answers are those that all alternatives
together have, one alternative after the other, and none of these is evaluated before its turn. -/

namespace TreeSelect

/-- Of ordinals that are all known, the first is handed out. -/
theorem Matches.firstKnown_of_map {Node : Type} {index : Index Node} {buffered : List Nat}
    {nodes : List Node} (known : buffered.map index.node? = nodes.map some) :
    firstKnown index buffered = nodes.head?.map fun node => (node, buffered.tail) := by
  cases buffered with
  | nil =>
    cases nodes with
    | nil => rfl
    | cons node nodes => cases known
  | cons ordinal buffered =>
    cases nodes with
    | nil => cases known
    | cons node nodes =>
      have found : index.node? ordinal = some node := (List.cons.inj known).1
      rw [firstKnown, found]
      rfl

/-- Looked up one place after the other, a list gives its entries and nothing behind them. -/
theorem map_getElem?_range {α : Type} (entries : List α) (count : Nat) :
    (List.range' 0 count).map (entries[·]?) =
      (entries.take count).map some ++ List.replicate (count - entries.length) none := by
  rw [← List.range_eq_range']
  induction entries generalizing count with
  | nil => simp [List.map_const']
  | cons entry entries ih =>
    cases count with
    | zero => simp
    | succ count =>
      rw [List.range_succ_eq_map, List.map_cons, List.map_map, List.take_succ_cons,
        List.length_cons, Nat.add_sub_add_right, List.map_cons, List.cons_append, ← ih count]
      rfl

namespace Context
variable {Node : Type} [DecidableEq Node] (context : Context Node)

/-- All matches of some alternatives, one alternative after the other. -/
def answers (alternatives : List ComplexSelector) : List Node :=
  Matches.collect context.index context.tree ⟨alternatives⟩

/-- The answers to so many calls for the next match, and what is left then. -/
def ask : (calls : Nat) → Matches → List (Option Node) × Matches
  | 0, found => ([], found)
  | calls + 1, found =>
      let (answer, rest) := context.next found
      let (answers, left) := ask calls rest
      (answer :: answers, left)

@[simp] theorem answers_append (first second : List ComplexSelector) :
    context.answers (first ++ second) = context.answers first ++ context.answers second :=
  List.flatMap_append ..

/-- What is left of a group after some calls, and the alternatives that were evaluated for them. -/
structure Reached (group : SelectorGroup) (calls : Nat) (evaluated : List ComplexSelector)
    (left : Matches) : Prop where
  order : group.alternatives = evaluated ++ left.pending
  buffer : left.buffered.map context.index.node? =
    ((context.answers evaluated).drop calls).map some
  enough : calls ≤ (context.answers evaluated).length ∨ left.pending = []

/-- When the last of the alternatives was evaluated, the others had no match left for some call. -/
def Due (calls : Nat) (evaluated : List ComplexSelector) : Prop :=
  evaluated ≠ [] → (context.answers evaluated.dropLast).length < calls

theorem reached_ofGroup (group : SelectorGroup) : context.Reached group 0 [] (.ofGroup group) :=
  ⟨rfl, rfl, .inl (Nat.zero_le _)⟩

variable {context} {group : SelectorGroup} {calls : Nat}

theorem Reached.hand {evaluated pending : List ComplexSelector} {buffered : List Nat} {node : Node}
    (reached : context.Reached group calls evaluated ⟨pending, buffered⟩)
    (found : (context.answers evaluated)[calls]? = some node) :
    context.Reached group (calls + 1) evaluated ⟨pending, buffered.tail⟩ ∧
      (context.answers group.alternatives)[calls]? = some node := by
  have inside := (List.getElem?_eq_some_iff.mp found).1
  constructor
  · refine ⟨reached.order, ?_, .inl inside⟩
    rw [← List.tail_drop, List.map_tail, List.map_tail, reached.buffer]
  · rw [reached.order, answers_append, List.getElem?_append_left inside, found]

section Enclosed
variable (enclosed : context.index.Enclosed)
include enclosed

/-- Every match of an alternative is an element. -/
theorem map_node?_evaluate (selector : ComplexSelector) :
    (context.index.evaluate context.tree selector).toList.map context.index.node? =
      (context.answers [selector]).map some := by
  have elements : ∀ found ∈ (context.index.evaluate context.tree selector).toList.map
      context.index.node?, found.isSome = true := by
    intro found member
    obtain ⟨ordinal, listed, rfl⟩ := List.mem_map.mp member
    obtain ⟨node, known⟩ := Index.node?_of_lt (Index.lt_of_mem_evaluate enclosed listed)
    exact Option.isSome_iff_exists.mpr ⟨node, known⟩
  have resolved : context.answers [selector] =
      (context.index.evaluate context.tree selector).toList.filterMap context.index.node? :=
    List.append_nil _
  rw [resolved, List.map_filterMap_some_eq_filter_map_isSome, List.filter_eq_self.mpr elements]

/-- Once no match is left, the next alternative is evaluated. -/
theorem Reached.refill {evaluated pending : List ComplexSelector} {selector : ComplexSelector}
    {buffered : List Nat}
    (reached : context.Reached group calls evaluated ⟨selector :: pending, buffered⟩)
    (exhausted : (context.answers evaluated)[calls]? = none) :
    context.Reached group calls (evaluated ++ [selector])
        ⟨pending, (context.index.evaluate context.tree selector).toList⟩ ∧
      context.Due (calls + 1) (evaluated ++ [selector]) := by
  have few := List.getElem?_eq_none_iff.mp exhausted
  have many : calls ≤ (context.answers evaluated).length :=
    reached.enough.resolve_right (List.cons_ne_nil _ _)
  have none : calls - (context.answers evaluated).length = 0 := by omega
  constructor
  · refine ⟨?_, ?_, .inl ?_⟩
    · rw [reached.order, List.append_assoc]
      rfl
    · rw [answers_append, List.drop_append, List.drop_eq_nil_of_le few, none, List.drop_zero,
        List.nil_append, map_node?_evaluate enclosed]
    · rw [answers_append, List.length_append]
      omega
  · intro _
    rw [List.dropLast_concat]
    omega

/-- Within one call, alternatives are evaluated until one of them has a match. -/
theorem Reached.nextFrom {evaluated pending : List ComplexSelector} {buffered : List Nat}
    (reached : context.Reached group calls evaluated ⟨pending, buffered⟩)
    (due : context.Due (calls + 1) evaluated) :
    ∃ later,
      context.Reached group (calls + 1) later
        (Matches.nextFrom context.index context.tree pending buffered).2 ∧
      context.Due (calls + 1) later ∧
      (Matches.nextFrom context.index context.tree pending buffered).1 =
        (context.answers group.alternatives)[calls]? := by
  induction pending generalizing evaluated buffered with
  | nil =>
    rw [Matches.nextFrom, Matches.firstKnown_of_map reached.buffer, List.head?_drop]
    cases found : (context.answers evaluated)[calls]? with
    | some node =>
      obtain ⟨handed, same⟩ := reached.hand found
      exact ⟨evaluated, handed, due, same.symm⟩
    | none =>
      have few := List.getElem?_eq_none_iff.mp found
      refine ⟨evaluated, ⟨reached.order, ?_, .inr rfl⟩, due, ?_⟩
      · rw [List.drop_eq_nil_of_le (Nat.le_succ_of_le few)]
        rfl
      · rw [reached.order, List.append_nil, found]
        rfl
  | cons selector pending ih =>
    rw [Matches.nextFrom, Matches.firstKnown_of_map reached.buffer, List.head?_drop]
    cases found : (context.answers evaluated)[calls]? with
    | some node =>
      obtain ⟨handed, same⟩ := reached.hand found
      exact ⟨evaluated, handed, due, same.symm⟩
    | none =>
      obtain ⟨refilled, due⟩ := reached.refill enclosed found
      exact ih refilled due

/-- A run of calls hands out the matches of the whole group from one place on. -/
theorem Reached.ask {evaluated : List ComplexSelector} {found : Matches}
    (reached : context.Reached group calls evaluated found) (due : context.Due calls evaluated)
    (further : Nat) :
    ∃ later,
      context.Reached group (calls + further) later (context.ask further found).2 ∧
      context.Due (calls + further) later ∧
      (context.ask further found).1 =
        (List.range' calls further).map ((context.answers group.alternatives)[·]?) := by
  induction further generalizing calls evaluated found with
  | zero => exact ⟨evaluated, reached, due, rfl⟩
  | succ further ih =>
    obtain ⟨next, reached, due, first⟩ := reached.nextFrom enclosed fun started =>
      Nat.lt_succ_of_lt (due started)
    obtain ⟨later, reached, due, others⟩ := ih reached due
    rw [Nat.add_right_comm] at reached due
    exact ⟨later, reached, due, by rw [List.range'_succ, List.map_cons, ← first, ← others]; rfl⟩

end Enclosed

/-- What stands after some calls: the alternatives come apart into those that were evaluated and
those that are pending, and the buffer holds the matches of the last evaluated one that were not
handed out. -/
structure Progress (context : Context Node) (group : SelectorGroup) (calls : Nat) (left : Matches)
    (evaluated : List ComplexSelector) : Prop where
  order : group.alternatives = evaluated ++ left.pending
  demand : ∀ earlier selector later, group.alternatives = earlier ++ selector :: later →
    (earlier.length < evaluated.length ↔ (context.answers earlier).length < calls)
  buffer : left.buffered.map context.index.node? =
    ((context.answers evaluated.getLast?.toList).drop
      (calls - (context.answers evaluated.dropLast).length)).map some
  counts : left.describe = Text.openRecord "Matches"
    [("pending", toString (group.alternatives.length - evaluated.length)),
      ("buffered", toString ((context.answers evaluated.getLast?.toList).length -
        (calls - (context.answers evaluated.dropLast).length)))]

theorem length_answers_le_of_isPrefix {first second : List ComplexSelector}
    (begins : first <+: second) :
    (context.answers first).length ≤ (context.answers second).length := by
  obtain ⟨rest, rfl⟩ := begins
  rw [answers_append, List.length_append]
  exact Nat.le_add_right ..

/-- An alternative was evaluated once the earlier ones had too few matches, and not before. -/
theorem Reached.demand {evaluated earlier later : List ComplexSelector} {selector : ComplexSelector}
    {left : Matches} (reached : context.Reached group calls evaluated left)
    (due : context.Due calls evaluated)
    (written : group.alternatives = earlier ++ selector :: later) :
    earlier.length < evaluated.length ↔ (context.answers earlier).length < calls := by
  have begins : evaluated <+: group.alternatives := ⟨left.pending, reached.order.symm⟩
  have stands : earlier <+: group.alternatives := ⟨selector :: later, written.symm⟩
  constructor
  · intro shorter
    have started : evaluated ≠ [] := List.ne_nil_of_length_pos (Nat.zero_lt_of_lt shorter)
    have within : earlier <+: evaluated.dropLast :=
      List.prefix_of_prefix_length_le stands ((List.dropLast_prefix evaluated).trans begins)
        (by rw [List.length_dropLast]; omega)
    exact Nat.lt_of_le_of_lt (length_answers_le_of_isPrefix within) (due started)
  · intro few
    by_contra shorter
    have within : evaluated <+: earlier :=
      List.prefix_of_prefix_length_le begins stands (Nat.le_of_not_lt shorter)
    have none : left.pending = [] := reached.enough.resolve_left
      (Nat.not_le_of_lt (Nat.lt_of_le_of_lt (length_answers_le_of_isPrefix within) few))
    have whole : evaluated = group.alternatives := by rw [reached.order, none, List.append_nil]
    have long := congrArg List.length written
    rw [List.length_append, List.length_cons, ← whole] at long
    omega

theorem Reached.progress {evaluated : List ComplexSelector} {left : Matches}
    (reached : context.Reached group calls evaluated left) (due : context.Due calls evaluated) :
    context.Progress group calls left evaluated := by
  have buffer : left.buffered.map context.index.node? =
      ((context.answers evaluated.getLast?.toList).drop
        (calls - (context.answers evaluated.dropLast).length)).map some := by
    rw [reached.buffer]
    cases evaluated using List.reverseRecOn with
    | nil => rfl
    | append_singleton earlier last =>
      have exhausted := due (List.concat_ne_nil last earlier)
      rw [List.dropLast_concat] at exhausted
      rw [answers_append, List.drop_append, List.drop_eq_nil_of_le (Nat.le_of_lt exhausted),
        List.nil_append, List.dropLast_concat, List.getLast?_concat]
      rfl
  refine ⟨reached.order, fun _ _ _ => reached.demand due, buffer, ?_⟩
  have pending : left.pending.length = group.alternatives.length - evaluated.length := by
    rw [reached.order, List.length_append, Nat.add_sub_cancel_left]
  have buffered := congrArg List.length buffer
  rw [List.length_map, List.length_map, List.length_drop] at buffered
  rw [Matches.describe, pending, buffered]

end Context

/-- Every call for the next match is answered from the list of all matches, and by nothing behind
its end; an alternative is evaluated for the first call that the earlier ones have no match for. -/
theorem Context.ask_ofGroup {Node : Type} [DecidableEq Node] (session : Session) (treeNumber : Nat)
    (tree : Tree Node) (root : Node) (conventions : Option Conventions) (group : SelectorGroup)
    (calls : Nat) :
    let context := (Context.new session treeNumber tree root conventions).1
    let eager := Matches.collect context.index context.tree group
    let (answers, left) := context.ask calls (.ofGroup group)
    answers = (eager.take calls).map some ++ List.replicate (calls - eager.length) none ∧
      ∃ evaluated, context.Progress group calls left evaluated := by
  have enclosed : (Context.new session treeNumber tree root conventions).1.index.Enclosed :=
    Index.enclosed_build ..
  obtain ⟨evaluated, reached, due, answered⟩ :=
    (Context.reached_ofGroup _ group).ask enclosed (fun started => absurd rfl started) calls
  rw [Nat.zero_add] at reached due
  exact ⟨answered.trans (map_getElem?_range _ calls), evaluated, reached.progress due⟩

end TreeSelect
