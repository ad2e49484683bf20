import TreeSelect.Proofs.Derivation.Conditions

/-! A text without letters that are both blank and letters of names has one meaning. The only
freedom is in how blanks are shared out around a combinator, and it does not change which
combinator is meant. -/

namespace TreeSelect.Derivation
open TreeSelect.Text

theorem Sequence.opens (sequence : Sequence) : Opens sequenceLetter sequence.text := by
  cases sequence with
  | headed head conditions =>
    exact (head.opens.append _).weaken fun letter begins => by simp [sequenceLetter, begins]
  | bare first more =>
    exact (first.opens.append _).weaken fun letter begins => by simp [sequenceLetter, begins]

theorem Sequence.bars_joint (sequence : Sequence) {rest : List Char}
    (unmixed : Unmixed (sequence.text ++ rest)) :
    Bars combinatorLetter.contains (sequence.text ++ rest) :=
  (sequence.opens.append rest).bars fun letter member =>
    not_combinatorLetter (unmixed letter member)

theorem Sequence.bars_blanks (sequence : Sequence) {rest : List Char}
    (unmixed : Unmixed (sequence.text ++ rest)) : Bars isBlank (sequence.text ++ rest) :=
  (sequence.opens.append rest).bars fun letter member =>
    not_blank_of_sequenceLetter (unmixed letter member)

theorem Blanks.combine (blanks : Blanks) :
    ∀ letter ∈ blanks.text, combinatorLetter.contains letter = true :=
  fun letter member => combinatorLetter_of_blank (blanks.admitted letter member)

/-- What stands between two sequences of conditions. -/
structure Glue where
  before : Blanks
  token : Token
  after : Blanks

namespace Glue

def text (glue : Glue) : List Char := glue.before.text ++ glue.token.letter :: glue.after.text

theorem letters (glue : Glue) :
    ∀ letter ∈ glue.text, combinatorLetter.contains letter = true := by
  intro letter member
  rcases List.mem_append.mp member with before | further
  · exact glue.before.combine letter before
  · rcases List.mem_cons.mp further with rfl | after
    · exact glue.token.valid
    · exact glue.after.combine letter after

theorem eq_token {glue : Glue} {letter : Char} (member : letter ∈ glue.text)
    (solid : isBlank letter = false) : letter = glue.token.letter := by
  have excluded : ∀ blanks : Blanks, letter ∉ blanks.text := fun blanks found => by
    rw [blanks.admitted letter found] at solid
    cases solid
  rcases List.mem_append.mp member with before | further
  · exact absurd before (excluded glue.before)
  · rcases List.mem_cons.mp further with same | after
    · exact same
    · exact absurd after (excluded glue.after)

theorem token_mem (glue : Glue) : glue.token.letter ∈ glue.text :=
  List.mem_append_right _ (List.mem_cons_self ..)

end Glue

theorem Token.reading_of_letter {first second : Token} (same : first.letter = second.letter) :
    first.reading = second.reading := by
  unfold Token.reading
  rw [same]

/-- Wherever the blanks between two sequences are divided, the same combinator is read. -/
theorem Glue.reading_unique {first second : Glue} (same : first.text = second.text) :
    first.token.reading = second.token.reading := by
  cases firstBlank : isBlank first.token.letter with
  | false =>
    exact Token.reading_of_letter (Glue.eq_token (same ▸ first.token_mem) firstBlank)
  | true =>
    cases secondBlank : isBlank second.token.letter with
    | false =>
      exact (Token.reading_of_letter
        (Glue.eq_token (same ▸ second.token_mem) secondBlank)).symm
    | true => rw [Token.reading_of_blank firstBlank, Token.reading_of_blank secondBlank]

theorem settles_glue :
    Settles Glue.text (fun glue => glue.token.reading) (Bars combinatorLetter.contains) := by
  intro first second rest other _ barred otherBarred same
  obtain ⟨texts, rests⟩ := run_unique first.letters second.letters barred otherBarred same
  exact ⟨Glue.reading_unique texts, rests⟩

theorem settles_joint :
    Settles Joint.text (fun joint => (joint.token.reading, joint.sequence.reading))
      EndsSequence := by
  have parts := Settles.sequence settles_glue settles_sequence fun sequence _ unmixed _ =>
    sequence.bars_joint unmixed
  apply parts.present
    (fun joint => (⟨joint.before, joint.token, joint.after⟩, joint.sequence)) fun parts => parts
  · intro joint
    simp [Joint.text, Glue.text]
  · exact fun _ => rfl

/-- An alternative ends at a comma or at the end, perhaps behind blanks. -/
def EndsSelector (rest : List Char) : Prop :=
  ∃ (blanks : Blanks) (more : List Char), rest = blanks.text ++ more ∧
    (more = [] ∨ ∃ further, more = ',' :: further)

/-- No joint goes on at a pseudo-element, a comma or the end. -/
def EndsJoints (rest : List Char) : Prop :=
  EndsSelector rest ∨ ∃ more, rest = ':' :: ':' :: more

theorem EndsSelector.endsSequence {rest : List Char} (ends : EndsSelector rest) :
    EndsSequence rest := by
  obtain ⟨blanks, more, rfl, comma⟩ := ends
  rcases blanks with ⟨_ | ⟨letter, text⟩, admitted⟩
  · rcases comma with rfl | ⟨further, rfl⟩
    · exact .inl rfl
    · exact .inr (.inl ⟨',', further, rfl, by decide⟩)
  · have blank := admitted letter (List.mem_cons_self ..)
    exact .inr (.inl ⟨letter, text ++ more, rfl, by simp [combinatorLetter_of_blank blank]⟩)

theorem EndsJoints.endsSequence {rest : List Char} (ends : EndsJoints rest) :
    EndsSequence rest := by
  rcases ends with selector | element
  · exact selector.endsSequence
  · exact .inr (.inr element)

theorem Joint.endsSequence (joint : Joint) (rest : List Char) :
    EndsSequence (joint.text ++ rest) := by
  have glued : Glue.text ⟨joint.before, joint.token, joint.after⟩ ++ (joint.sequence.text ++ rest) =
      joint.text ++ rest := by simp [Joint.text, Glue.text]
  cases glue : Glue.text ⟨joint.before, joint.token, joint.after⟩ with
  | nil => simp [Glue.text] at glue
  | cons letter text =>
    rw [glue] at glued
    have joins := Glue.letters ⟨joint.before, joint.token, joint.after⟩ letter (by simp [glue])
    exact .inr (.inl ⟨letter, _, glued.symm, by simp [joins]⟩)

theorem Joint.not_endsJoints (joint : Joint) {rest : List Char}
    (unmixed : Unmixed (joint.text ++ rest)) : ¬ EndsJoints (joint.text ++ rest) := by
  have glued : joint.text ++ rest =
      Glue.text ⟨joint.before, joint.token, joint.after⟩ ++ (joint.sequence.text ++ rest) := by
    simp [Joint.text, Glue.text]
  have letters := Glue.letters ⟨joint.before, joint.token, joint.after⟩
  rw [glued] at unmixed ⊢
  have barred := joint.sequence.bars_joint unmixed.behind
  have opens := joint.sequence.opens.append rest
  rintro (⟨blanks, more, same, ends⟩ | ⟨more, same⟩)
  · have outside : Bars combinatorLetter.contains more := by
      rcases ends with rfl | ⟨further, rfl⟩
      · exact bars_nil _
      · exact (bars_cons _ _ _).mpr (by decide)
    have rests := (run_unique letters blanks.combine barred outside same).2
    rcases ends with rfl | ⟨further, rfl⟩
    · rw [rests] at opens
      exact opens.not_bars (bars_nil _)
    · exact opens.ne_cons (by decide) further rests
  · have outside : Bars combinatorLetter.contains (':' :: ':' :: more) :=
      (bars_cons _ _ _).mpr (by decide)
    have none : ∀ letter ∈ ([] : List Char), combinatorLetter.contains letter = true := by simp
    have runs := (run_unique letters none barred outside same).1
    simp [Glue.text] at runs

theorem settles_joints :
    Settles (fun joints : List Joint => joints.flatMap Joint.text)
      (List.map fun joint => (joint.token.reading, joint.sequence.reading)) EndsJoints :=
  Settles.repeated settles_joint (fun joint rest _ => joint.endsSequence rest)
    (fun _ _ => EndsJoints.endsSequence) fun joint _ _ unmixed ends same =>
      joint.not_endsJoints (same ▸ unmixed) (same ▸ ends)

theorem settles_element :
    Settles (fun name : Name => ':' :: ':' :: name.text) Name.text (Bars nameLetter.contains) := by
  have parts := (settles_letter ':').sequence
    ((settles_letter ':').sequence settles_name fun _ _ _ _ => trivial) fun _ _ _ _ => trivial
  exact parts.present (fun name => ((), (), name)) (fun parts => parts.2.2) (fun _ => rfl)
    fun _ => rfl

theorem EndsSelector.bars {rest : List Char} (unmixed : Unmixed rest) (ends : EndsSelector rest) :
    Bars nameLetter.contains rest :=
  (ends.endsSequence.endsCondition unmixed).1

theorem not_endsSelector_element (rest : List Char) : ¬ EndsSelector (':' :: rest) := by
  rintro ⟨blanks, more, same, comma⟩
  rcases blanks with ⟨_ | ⟨letter, text⟩, admitted⟩
  · rcases comma with rfl | ⟨further, rfl⟩
    · cases same
    · cases (List.cons.inj same).1
  · have blank := admitted letter (List.mem_cons_self ..)
    rw [← (List.cons.inj same).1] at blank
    exact absurd blank (by decide)

theorem settles_selector : Settles Selector.text Selector.reading EndsSelector := by
  have element := Settles.maybe settles_element (fun _ => EndsSelector.bars)
    fun _ _ _ _ ends same => not_endsSelector_element _ (same ▸ ends)
  have joints := Settles.sequence settles_joints element fun name rest _ ends => by
    cases name with
    | none => exact .inl ends
    | some name => exact .inr ⟨name.text ++ rest, rfl⟩
  have parts := Settles.sequence settles_sequence joints fun parts rest unmixed ends => by
    rcases parts with ⟨_ | ⟨joint, joints⟩, name⟩
    · cases name with
      | none => exact ends.endsSequence
      | some name => exact .inr (.inr ⟨name.text ++ rest, rfl⟩)
    · simp only [List.flatMap_cons, List.append_assoc]
      exact joint.endsSequence _
  apply parts.present (fun selector => (selector.first, selector.joints, selector.pseudoElement))
    fun parts =>
      { compounds := parts.1 :: parts.2.1.map Prod.snd
        combinators := parts.2.1.map Prod.fst
        pseudoElement := parts.2.2.map String.ofList }
  · exact fun _ => rfl
  · rintro ⟨first, joints, _ | name⟩ <;> simp [Selector.reading, Name.string]

theorem Selector.bars_blanks (selector : Selector) {rest : List Char}
    (unmixed : Unmixed (selector.text ++ rest)) : Bars isBlank (selector.text ++ rest) := by
  rw [Selector.text, List.append_assoc] at unmixed ⊢
  exact selector.first.bars_blanks unmixed

theorem settles_alternative :
    Settles Alternative.text (fun alternative => alternative.selector.reading) EndsSelector := by
  have right := Settles.sequence settles_blanks settles_selector fun selector rest unmixed _ =>
    selector.bars_blanks unmixed
  have middle := (settles_letter ',').sequence right fun _ _ _ _ => trivial
  have parts := Settles.sequence settles_blanks middle fun _ _ _ _ =>
    (bars_cons _ _ _).mpr (by decide)
  exact parts.present
    (fun alternative => (alternative.before, (), alternative.after, alternative.selector))
    (fun parts => parts.2.2.2) (fun _ => rfl) fun _ => rfl

theorem Alternative.endsSelector (alternative : Alternative) (rest : List Char) :
    EndsSelector (alternative.text ++ rest) :=
  ⟨alternative.before, ',' :: (alternative.after.text ++ alternative.selector.text) ++ rest,
    by simp [Alternative.text], .inr ⟨_, rfl⟩⟩

theorem Alternative.ne_blanks (alternative : Alternative) (rest : List Char) (blanks : Blanks) :
    alternative.text ++ rest ≠ blanks.text := by
  intro same
  have member : ',' ∈ blanks.text := by
    rw [← same]
    simp [Alternative.text]
  exact absurd (blanks.admitted ',' member) (by decide)

theorem settles_group : Settles Group.text Group.reading (· = []) := by
  have alternatives : Settles (fun more : List Alternative => more.flatMap Alternative.text)
      (List.map fun alternative => alternative.selector.reading)
      (fun rest => ∃ blanks : Blanks, rest = blanks.text) := by
    apply settles_alternative.repeated
    · exact fun alternative rest _ => alternative.endsSelector rest
    · rintro rest _ ⟨blanks, rfl⟩
      exact ⟨blanks, [], (List.append_nil _).symm, .inl rfl⟩
    · rintro alternative rest other _ ⟨blanks, rfl⟩
      exact alternative.ne_blanks rest blanks
  have ending := Settles.narrow settles_blanks fun rest _ (empty : rest = []) =>
    empty ▸ bars_nil isBlank
  have right := alternatives.sequence ending fun blanks rest _ empty =>
    ⟨blanks, by rw [empty, List.append_nil]⟩
  have middle := Settles.sequence settles_selector right fun parts rest _ empty => by
    rcases parts with ⟨_ | ⟨alternative, alternatives⟩, blanks⟩
    · exact ⟨blanks, [], by simp [empty], .inl rfl⟩
    · simp only [List.flatMap_cons, List.append_assoc]
      exact alternative.endsSelector _
  have parts := Settles.sequence settles_blanks middle fun parts rest unmixed _ => by
    rw [List.append_assoc] at unmixed ⊢
    exact parts.1.bars_blanks unmixed
  exact parts.present (fun group => (group.before, group.first, group.more, group.after))
    (fun parts => ⟨parts.2.1 :: parts.2.2.1⟩) (fun _ => rfl) fun _ => rfl

/-- All derivations of a text have one reading, unless a letter of it is both blank and a letter of
names. -/
theorem reading_unique {first second : Group} (unmixed : Unmixed first.text)
    (same : first.text = second.text) : first.reading = second.reading := by
  have settled := settles_group first second [] []
  simp only [List.append_nil] at settled
  exact (settled unmixed trivial trivial same).1

end TreeSelect.Derivation
