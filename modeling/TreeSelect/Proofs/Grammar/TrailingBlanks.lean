import Mathlib.Tactic.Ring
import TreeSelect.Proofs.Derivation.Printing
import TreeSelect.Proofs.Machine.Effort

/-! A valid selector for which no budget of this kind suffices. The spaces behind a name could all
belong to a combinator that never comes, and the search divides them in every way between the blanks
in front of the combinator, the combinator itself and the blanks behind it. The steps grow with the
square of their number, the budget only with the number itself. -/

namespace TreeSelect
open Pattern Verdict Place TreeSelect.Derivation

namespace Verdict

theorem after_after (verdict : Verdict) (more further : Nat) :
    (verdict.after more).after further = verdict.after (further + more) := by
  simp only [after, Nat.add_assoc]

theorem failed_after (steps more : Nat) : (failed steps).after more = failed (more + steps) := rfl

theorem failed_orElse (steps : Nat) (other : Verdict) :
    (failed steps).orElse other = other.after steps := rfl

theorem orElse_after (first second : Verdict) (more : Nat) :
    (first.orElse second).after more = (first.after more).orElse second := by
  rcases first with ⟨steps, _ | _⟩
  · exact after_after second steps more
  · rfl

end Verdict

/-- A name of one letter with spaces behind it. -/
def trailing (count : Nat) : List Char := 'a' :: List.replicate count ' '

namespace Derivation.Rules

/-- A place with nothing but spaces in front. -/
def spaces (position count : Nat) : Place := ⟨position, List.replicate count ' '⟩

theorem blanks_none (next : Place → Verdict) (position : Nat) :
    blanks.verdict next (spaces position 0) = (next (spaces position 0)).after 3 := by
  have step : blanks.verdict next (spaces position 0) =
      ((failed 2).orElse (next (spaces position 0))).after 1 := rfl
  rw [step, failed_orElse, after_after]

/-- A space is consumed, and behind what it leads to the loop gives up on it. -/
theorem blanks_more (next : Place → Verdict) (position count : Nat) :
    blanks.verdict next (spaces position (count + 1)) =
      ((blanks.verdict next (spaces (position + 1) count)).after 5).orElse
        (next (spaces position (count + 1))) := by
  have moves : (spaces (position + 1) count).position ≠ (spaces position (count + 1)).position :=
    Nat.succ_ne_self position
  have length (place count : Nat) : (spaces place count).rest.length = count :=
    List.length_replicate ..
  let letter : (Place → Verdict) → Place → Verdict := (Pattern.oneOf ⟨false, [.blank]⟩).verdict
  have loop (place count : Nat) : blanks.verdict next (spaces place count) =
      greedy letter next count (spaces place count) := by
    have unrolled : blanks.verdict next (spaces place count) =
        greedy letter next (spaces place count).rest.length (spaces place count) := rfl
    rw [unrolled, length]
  have consumed (further : Place → Verdict) : letter further (spaces position (count + 1)) =
      (further (spaces (position + 1) count)).after 1 := rfl
  rw [loop, loop, greedy, iteration, consumed, if_neg moves]
  simp only [after_after, orElse_after]

/-- Where what follows fails everywhere, so do the blanks with it. -/
theorem blanks_failed {next : Place → Verdict} {costs : Nat → Nat} (total : Nat → Nat)
    (fails : ∀ position count, next (spaces position count) = failed (costs count))
    (none : total 0 = costs 0 + 3)
    (more : ∀ count, total (count + 1) = total count + costs (count + 1) + 5)
    (position count : Nat) :
    blanks.verdict next (spaces position count) = failed (total count) := by
  induction count generalizing position with
  | zero => rw [blanks_none, fails, failed_after, none, Nat.add_comm]
  | succ count ih =>
    rw [blanks_more, ih, failed_after, failed_orElse, fails, failed_after, more]
    congr 1
    omega

/-- Where what follows succeeds at the end of the text, the blanks lead straight to it. -/
theorem blanks_accepted {next : Place → Verdict} {steps : Nat}
    (succeeds : ∀ position, next (spaces position 0) = ⟨steps, true⟩) (position count : Nat) :
    blanks.verdict next (spaces position count) = ⟨5 * count + 3 + steps, true⟩ := by
  induction count generalizing position with
  | zero => rw [blanks_none, succeeds, after]
  | succ count ih =>
    rw [blanks_more, ih]
    simp only [after, orElse, if_true, Verdict.mk.injEq, and_true]
    omega

theorem sequence_spaces (next : Place → Verdict) (position count : Nat) :
    sequence.verdict next (spaces position count) = failed 19 := by
  cases count <;> rfl

/-- A loop whose body fails at once is left at once. -/
theorem star_failed {inner : Pattern} {next : Place → Verdict} {place : Place} {steps : Nat}
    (fails : ∀ further, inner.verdict further place = failed steps) :
    (Pattern.repeated inner .star).verdict next place = (next place).after (steps + 2) := by
  have loop (rounds : Nat) : greedy inner.verdict next rounds place =
      (next place).after (steps + 2) := by
    cases rounds <;>
      rw [greedy, iteration, fails, failed_after, failed_orElse, after_after] <;>
      congr 1 <;> omega
  exact loop _

/-- A combinator among the spaces takes one of them, and no sequence follows the others. -/
def combinatorCost : Nat → Nat
  | 0 => 2
  | count + 1 => 24 * count + 25

theorem combinator_spaces (next : Place → Verdict) (position count : Nat) :
    (Pattern.capture Rule.combinator (.oneOf combinatorLetter)).verdict
      (blanks.verdict (sequence.verdict next)) (spaces position count) =
        failed (combinatorCost count) := by
  cases count with
  | zero => rfl
  | succ count =>
    have behind := blanks_failed (fun count => 24 * count + 22) (sequence_spaces next) rfl
      (fun count => by omega) (position + 1) count
    have taken : (Pattern.capture Rule.combinator (.oneOf combinatorLetter)).verdict
        (blanks.verdict (sequence.verdict next)) (spaces position (count + 1)) =
          (((blanks.verdict (sequence.verdict next) (spaces (position + 1) count)).after 1).after
            1).after 1 := rfl
    rw [taken, behind, failed_after, failed_after, failed_after, combinatorCost]
    congr 1
    omega

/-- The spaces are divided in every way between the two runs of blanks around a combinator. -/
theorem joint_spaces (next : Place → Verdict) (position count : Nat) :
    joint.verdict next (spaces position count) = failed (12 * count ^ 2 + 18 * count + 6) := by
  have inner := blanks_failed (fun count => 12 * count ^ 2 + 18 * count + 5)
    (combinator_spaces fun later => (next later).after 1) rfl
    (fun count => by simp only [combinatorCost]; ring) position count
  have whole : joint.verdict next (spaces position count) =
      (blanks.verdict ((Pattern.capture Rule.combinator (.oneOf combinatorLetter)).verdict
        (blanks.verdict (sequence.verdict fun later => (next later).after 1)))
          (spaces position count)).after 1 := rfl
  rw [whole, inner, failed_after, Nat.add_comm]

theorem element_spaces (next : Place → Verdict) (position count : Nat) :
    element.verdict next (spaces position count) = failed 2 := by
  cases count <;> rfl

theorem alternative_spaces (next : Place → Verdict) (position count : Nat) :
    alternative.verdict next (spaces position count) = failed (6 * count + 4) := by
  have comma (place count : Nat) :
      (Pattern.char ',').verdict (blanks.verdict (selector.verdict next)) (spaces place count) =
        failed 1 := by
    cases count <;> rfl
  exact blanks_failed (fun count => 6 * count + 4) comma rfl (fun count => by omega) position count

/-- What comes behind the last compound, where only spaces are left. -/
theorem rest_spaces (position count : Nat) :
    (Pattern.repeated joint .star).verdict ((Pattern.repeated element .optional).verdict
      fun later => ((Pattern.repeated alternative .star).verdict
        (blanks.verdict (Pattern.atEnd.verdict atStop)) later).after 1) (spaces position count) =
      ⟨12 * count ^ 2 + 29 * count + 23, true⟩ := by
  have ending : blanks.verdict (Pattern.atEnd.verdict atStop) (spaces position count) =
      ⟨5 * count + 3 + 2, true⟩ := blanks_accepted (fun _ => rfl) position count
  have alternatives : (Pattern.repeated alternative .star).verdict
      (blanks.verdict (Pattern.atEnd.verdict atStop)) (spaces position count) =
        ⟨11 * count + 11, true⟩ := by
    rw [star_failed fun further => alternative_spaces further position count, ending]
    simp only [after, Verdict.mk.injEq, and_true]
    omega
  rw [star_failed fun further => joint_spaces further position count, verdict, element_spaces,
    alternatives, failed_orElse]
  simp only [after, Verdict.mk.injEq, and_true]
  omega

theorem name_letter (next : Place → Verdict) (count : Nat) :
    name.verdict next (.start (trailing count)) = (next (spaces 1 count)).after 8 := by
  have stops (further : Place → Verdict) :
      (Pattern.oneOf nameLetter).verdict further (spaces 1 count) = failed 1 := by
    cases count <;> rfl
  have first : name.verdict next (.start (trailing count)) =
      (((failed 1).orElse (((Pattern.repeated (.oneOf nameLetter) .star).verdict
        (fun later => (next later).after 1) (spaces 1 count)).after 1)).after 1).after 1 := rfl
  rw [first, star_failed stops]
  simp only [failed_orElse, after_after]

theorem condition_spaces (next : Place → Verdict) (position count : Nat) :
    condition.verdict next (spaces position count) = failed 9 := by
  cases count <;> rfl

/-- The only compound is read before any of the spaces is looked at. -/
theorem sequence_letter {next : Place → Verdict} {count steps : Nat}
    (succeeds : next (spaces 1 count) = ⟨steps, true⟩) :
    sequence.verdict next (.start (trailing count)) = ⟨steps + 27, true⟩ := by
  let conditions : Place → Verdict := (Pattern.repeated condition .star).verdict fun later =>
    ((next later).after 1).after 1
  have read : conditions (spaces 1 count) = ⟨steps + 13, true⟩ := by
    change (Pattern.repeated condition .star).verdict _ _ = _
    rw [star_failed fun further => condition_spaces further 1 count, succeeds]
    simp only [after, Verdict.mk.injEq, and_true]
    omega
  have named : head.verdict conditions (.start (trailing count)) = ⟨steps + 25, true⟩ := by
    have first : head.verdict conditions (.start (trailing count)) =
        ((((name.verdict (fun later => ((conditions later).after 1).after 1)
          (.start (trailing count))).after 1).orElse
            ((Pattern.capture Rule.universalSelector (.char '*')).verdict conditions
              (.start (trailing count)))).after 1) := rfl
    rw [first, name_letter, read]
    simp only [after, orElse, if_true, Verdict.mk.injEq, and_true]
    omega
  have first : sequence.verdict next (.start (trailing count)) =
      (((head.verdict conditions (.start (trailing count))).orElse
        ((Pattern.repeated condition .plus).verdict (fun later => (next later).after 1)
          (.start (trailing count)))).after 1).after 1 := rfl
  rw [first, named]
  simp only [after, orElse, if_true, Verdict.mk.injEq, and_true]
  omega

/-- Trailing spaces cost a number of steps that grows with their square. -/
theorem search_trailing_spaces (count : Nat) :
    group.search (trailing count) = ⟨12 * count ^ 2 + 29 * count + 55, true⟩ := by
  have stops (further : Place → Verdict) :
      (Pattern.oneOf ⟨false, [.blank]⟩).verdict further (.start (trailing count)) = failed 1 := rfl
  have whole : group.search (trailing count) =
      (blanks.verdict (selector.verdict ((Pattern.repeated alternative .star).verdict
        (blanks.verdict (Pattern.atEnd.verdict atStop)))) (.start (trailing count))).after 1 := rfl
  have compound := sequence_letter (rest_spaces 1 count)
  have first : selector.verdict ((Pattern.repeated alternative .star).verdict
      (blanks.verdict (Pattern.atEnd.verdict atStop))) (.start (trailing count)) =
        (⟨12 * count ^ 2 + 29 * count + 23 + 27, true⟩ : Verdict).after 1 :=
    congrArg (Verdict.after 1) compound
  have skipped (next : Place → Verdict) :
      blanks.verdict next (.start (trailing count)) = (next (.start (trailing count))).after 3 :=
    star_failed stops
  rw [whole, skipped, first]
  simp only [after, Verdict.mk.injEq, and_true]
  omega

end Derivation.Rules

theorem budget_trailing (count : Nat) :
    Machine.budget (trailing count) = 1048576 + 1024 * (count + 1) := by
  have spaces : Text.width (List.replicate count ' ') = count := by
    induction count with
    | zero => rfl
    | succ count ih =>
      have one : ' '.utf8Size = 1 := rfl
      rw [List.replicate_succ, Text.width, ih, one, Nat.add_comm]
  have one : 'a'.utf8Size = 1 := rfl
  rw [Machine.budget, trailing, Text.width, spaces, one, Nat.add_comm count]
  rfl

/-- The square outgrows the budget, which grows with the length alone. -/
theorem exhausted_trailing_iff (count : Nat) :
    Machine.matchAll Derivation.Rules.group.compile (trailing count) = .exhausted ↔
      340 < count := by
  have steps : (Derivation.Rules.group.search (trailing count)).steps =
      12 * count ^ 2 + 29 * count + 55 :=
    congrArg Verdict.steps (Derivation.Rules.search_trailing_spaces count)
  rw [Machine.matchAll, Machine.run_eq_exhausted_iff, steps, budget_trailing, pow_two]
  constructor
  · intro short
    by_contra few
    have square : count * count ≤ 340 * count := Nat.mul_le_mul_right count (Nat.not_lt.mp few)
    omega
  · intro (many : 341 ≤ count)
    have square : 341 * count ≤ count * count := Nat.mul_le_mul_right count many
    omega

/-- A name with spaces behind it is valid, however many these are; but it is read only up to a
certain number of them. -/
theorem SelectorGroup.read_trailing (count : Nat) :
    trailing count ∈ SelectorSyntax.groupOfSelectors ∧
      SelectorGroup.read .selectors (String.ofList (trailing count)) =
        if count ≤ 340 then .ok ⟨[⟨[[.type "a"]], [], none⟩]⟩
        else .error (.tooComplex (String.ofList (trailing count))) := by
  let blanks : Blanks := ⟨List.replicate count ' ', fun letter member =>
    (List.eq_of_mem_replicate member).symm ▸ rfl⟩
  let name : Name := ⟨none, 'a', by decide, ⟨[], List.forall_mem_nil _⟩⟩
  let group : Group := ⟨nothing, ⟨.headed (.type name) [], [], none⟩, [], blanks⟩
  have text : group.text = trailing count := rfl
  have valid : Derivation.Rules.group.Accepts (trailing count) :=
    (accepts_iff_exists_group _).mpr ⟨group, text⟩
  refine ⟨(Rules.accepts_group_iff _).mp valid, ?_⟩
  by_cases few : count ≤ 340
  · have unmixed : Unmixed group.text := by
      intro letter member _
      rcases List.mem_cons.mp member with rfl | space
      · decide
      · rw [List.eq_of_mem_replicate space]
        decide
    have decided : Machine.matchAll Derivation.Rules.group.compile group.text ≠ .exhausted :=
      mt (exhausted_trailing_iff count).mp (Nat.not_lt.mpr few)
    rw [if_pos few, ← text, Group.read_spelled unmixed decided]
    rfl
  · rw [if_neg few, read_tooComplex_iff, String.toList_ofList]
    exact (exhausted_trailing_iff count).mpr (Nat.lt_of_not_le few)

end TreeSelect
