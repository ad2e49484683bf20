import TreeSelect.Proofs.Capture.Order
import TreeSelect.Proofs.Machine.Lowering

/-! What the machine decides. The search for a pattern always comes to an end. Its outcome is the
preferred one of the ways that lead through the whole text, with the captures of that way; the text
is accepted exactly if it belongs to the language of the pattern. -/

namespace TreeSelect.Machine
open Pattern

/-- The outcome that belongs to the preferred way through a text, or to there being none. -/
def Outcome.Answers (outcome : Outcome) : Option Way → Prop
  | some way => ∃ history, outcome = .matched history ∧ Tells history way.captures
  | none => outcome = .noMatch

/-- At the last instruction the first thread that has come to the end of the text wins. -/
theorem decides_arrived {program : Program} {thread : Thread} {exit slot loops : Nat}
    (accept : program.code[exit]? = some .accept) (fresh : thread.history = []) {ways : List Way}
    {arrived : List Thread} (all : List.Forall₂ (thread.Arrives exit slot loops) ways arrived) :
    ∃ count outcome, Decides program count arrived outcome ∧
      outcome.Answers (ways.find? fun way => way.stop.rest.isEmpty) := by
  induction all with
  | nil => exact ⟨0, .noMatch, .noMatch, rfl⟩
  | @cons way later ways arrived first rest ih =>
    have here : program.code[later.target]? = some .accept := first.target ▸ accept
    cases done : way.stop.rest.isEmpty with
    | true =>
      have finished : later.place.rest = [] := by
        rw [first.place]
        exact List.isEmpty_iff.mp done
      obtain ⟨boundaries, history, tells⟩ := first.history
      rw [fresh, List.nil_append] at history
      simp only [List.find?_cons, done]
      exact ⟨1, _, .accept ⟨here, finished⟩, boundaries, by rw [history], tells⟩
    | false =>
      obtain ⟨count, outcome, decides, answers⟩ := ih
      have unfinished : later.place.rest ≠ [] := by
        rw [first.place]
        exact fun empty => by simp [empty] at done
      obtain ⟨total, whole⟩ :=
        Explores.of_unfinished here unfinished arrived count outcome decides
      simp only [List.find?_cons, done]
      exact ⟨total, outcome, whole, answers⟩

/-- The search for a pattern in a text is decided after finitely many steps. -/
theorem exists_decides (pattern : Pattern) (text : List Char) :
    ∃ count outcome, Decides pattern.compile count (initial pattern.compile text).threads outcome ∧
      outcome.Answers (pattern.firstWay? text) := by
  have holds : Holds pattern.compile 0 (pattern.lower 0 0 ++ [Instruction.accept]) :=
    holds_of_code [] (pattern.lower 0 0 ++ [Instruction.accept]) pattern.loops
  obtain ⟨body, accept, _⟩ := (holds_append _ 0 _ _).mp holds
  have enters : (initial pattern.compile text).running.Enters 0 0 pattern.loops :=
    ⟨rfl, by simp [State.running, initial, compile]⟩
  obtain ⟨arrived, explores, all⟩ := searches_lower pattern 0 0 body _ enters
  rw [lower_length] at accept
  obtain ⟨count, outcome, decides, answers⟩ := decides_arrived accept rfl all
  obtain ⟨total, whole⟩ := explores [] count outcome (by simpa using decides)
  exact ⟨total, outcome, whole, answers⟩

/-- Enough fuel gives the one outcome, and less fuel none. -/
theorem exists_run (pattern : Pattern) (text : List Char) :
    ∃ count outcome, outcome.Answers (pattern.firstWay? text) ∧
      ∀ fuel, run pattern.compile fuel (initial pattern.compile text) =
        if count ≤ fuel then outcome else .exhausted := by
  obtain ⟨count, outcome, decides, answers⟩ := exists_decides pattern text
  exact ⟨count, outcome, answers, fun fuel =>
    run_of_decides decides fuel _ (sound_initial _ _) rfl⟩

theorem Outcome.Answers.ne_exhausted {outcome : Outcome} {way : Option Way}
    (answers : outcome.Answers way) : outcome ≠ .exhausted := by
  rintro rfl
  cases way with
  | none => cases answers
  | some way =>
    obtain ⟨history, same, _⟩ := answers
    cases same

theorem Outcome.Answers.matched_iff {outcome : Outcome} {way : Option Way}
    (answers : outcome.Answers way) :
    (∃ history, outcome = .matched history) ↔ way.isSome = true := by
  cases way with
  | none =>
    have failed : outcome = .noMatch := answers
    simp [failed]
  | some way =>
    obtain ⟨history, same, _⟩ := answers
    simp [same]

/-- A decision within the budget is the preferred way through the text. -/
theorem answers_of_decided (pattern : Pattern) (text : List Char)
    (decided : matchAll pattern.compile text ≠ .exhausted) :
    (matchAll pattern.compile text).Answers (pattern.firstWay? text) := by
  obtain ⟨count, outcome, answers, runs⟩ := exists_run pattern text
  have result := runs (budget text)
  rw [← matchAll] at result
  split at result
  · rw [result]
    exact answers
  · exact absurd result decided

theorem ofBoundaries_of_tells {history : List Boundary} {captures : List Capture}
    (tells : Tells history captures) : Capture.ofBoundaries history = Capture.sorted captures := by
  have paired : Capture.pair [] history = captures := by
    simpa [Capture.pair] using tells [] []
  rw [Capture.ofBoundaries, paired]

/-- Whenever the machine decides within its budget, it reports the first of the ordered ways of
the pattern that leads through the whole text, with the captures of that way in stable order; it
reports no match if there is no such way. -/
theorem matchAll_eq_first_way (pattern : Pattern) (text : List Char)
    (decided : matchAll pattern.compile text ≠ .exhausted) :
    (∀ way, pattern.firstWay? text = some way →
      ∃ history, matchAll pattern.compile text = .matched history ∧
        Capture.StablySorted way.captures (Capture.ofBoundaries history)) ∧
      (pattern.firstWay? text = none → matchAll pattern.compile text = .noMatch) := by
  have answers := answers_of_decided pattern text decided
  constructor
  · intro way first
    rw [first] at answers
    obtain ⟨history, same, tells⟩ := answers
    refine ⟨history, same, ?_⟩
    rw [ofBoundaries_of_tells tells]
    exact Capture.stablySorted_sorted way.captures
  · intro nothing
    rw [nothing] at answers
    exact answers

set_option maxRecDepth 10000 in
/-- The first way through the text leaves a letter to the outer loop, whose iterations it divides
again between an optional group and an inner loop. -/
theorem matchAll_eq_first_way_nested :
    ∃ history, matchAll (Pattern.compile (.sequence
        [.capture "a" (.choice [.char 'x', .sequence [.char 'x', .char 'y']]),
        .repeated (.capture "b" (.sequence [.repeated (.capture "c" (.char 'y')) .optional,
          .repeated (.char 'z') .star])) .star])) "xyzzy".toList = .matched history ∧
      Capture.StablySorted
        [⟨"a", 0, 1⟩, ⟨"c", 1, 2⟩, ⟨"b", 1, 4⟩, ⟨"c", 4, 5⟩, ⟨"b", 4, 5⟩]
        (Capture.ofBoundaries history) :=
  (matchAll_eq_first_way _ _ (by decide +kernel)).1 ⟨⟨5, []⟩, _⟩ (by decide +kernel)

/-- Without a budget the machine always decides, and it accepts a text if and only if the text
belongs to the language of the pattern. -/
theorem unbounded_run_accepts_iff (pattern : Pattern) (text : List Char) :
    ∃ count, ∀ fuel, count ≤ fuel →
      run pattern.compile fuel (initial pattern.compile text) ≠ .exhausted ∧
        ((∃ history, run pattern.compile fuel (initial pattern.compile text) = .matched history) ↔
          pattern.Accepts text) := by
  obtain ⟨count, outcome, answers, runs⟩ := exists_run pattern text
  refine ⟨count, fun fuel enough => ?_⟩
  rw [runs fuel, if_pos enough]
  exact ⟨answers.ne_exhausted, answers.matched_iff.trans (pattern.accepts_iff_firstWay? text).symm⟩

end TreeSelect.Machine
