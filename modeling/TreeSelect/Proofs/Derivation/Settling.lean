import TreeSelect.Proofs.Derivation.Basic

/-! When a text can be derived in one sense only, whatever stands behind it. What may follow a
derivation is said by its first letters. One law for each way to put derivations together. -/

namespace TreeSelect.Derivation
open TreeSelect.Text

/-- No letter from U+00A0 on is blank, so that no letter is both blank and a letter of names. -/
def Unmixed (text : List Char) : Prop :=
  ∀ letter ∈ text, isBlank letter = true → letter.toNat < 0xA0

/-- The next letter, if there is one, is not admitted. -/
def Bars (admits : Char → Bool) (rest : List Char) : Prop :=
  ∀ letter ∈ rest.head?, admits letter = false

/-- Two derivations from the start of one text mean the same and end at the same place, if what is
left behind each of them may follow. -/
def Settles {Tree Meaning : Type} (text : Tree → List Char) (meaning : Tree → Meaning)
    (Follows : List Char → Prop) : Prop :=
  ∀ first second rest other, Unmixed (text first ++ rest) → Follows rest → Follows other →
    text first ++ rest = text second ++ other → meaning first = meaning second ∧ rest = other

theorem Unmixed.behind {front rest : List Char} (unmixed : Unmixed (front ++ rest)) :
    Unmixed rest :=
  fun letter member => unmixed letter (List.mem_append_right _ member)

theorem bars_nil (admits : Char → Bool) : Bars admits [] := by
  simp [Bars]

@[simp] theorem bars_cons (admits : Char → Bool) (letter : Char) (rest : List Char) :
    Bars admits (letter :: rest) ↔ admits letter = false := by
  simp [Bars]

/-- A run ends where the next letter is not admitted. -/
theorem takeWhile_run {admits : Char → Bool} {text rest : List Char}
    (admitted : ∀ letter ∈ text, admits letter = true) (barred : Bars admits rest) :
    (text ++ rest).takeWhile admits = text := by
  have stops : rest.takeWhile admits = [] := by
    cases rest with
    | nil => rfl
    | cons letter rest =>
      have stop := (bars_cons admits letter rest).mp barred
      exact List.takeWhile_cons_of_neg (by simp [stop])
  rw [List.takeWhile_append_of_pos admitted, stops, List.append_nil]

/-- Two runs to which nothing can be added are equal. -/
theorem run_unique {admits : Char → Bool} {first second rest other : List Char}
    (firstAdmitted : ∀ letter ∈ first, admits letter = true)
    (secondAdmitted : ∀ letter ∈ second, admits letter = true) (barred : Bars admits rest)
    (otherBarred : Bars admits other) (same : first ++ rest = second ++ other) :
    first = second ∧ rest = other := by
  have runs : first = second := by
    rw [← takeWhile_run firstAdmitted barred, same, takeWhile_run secondAdmitted otherBarred]
  subst runs
  exact ⟨rfl, List.append_cancel_left same⟩

theorem settles_run (admits : Char → Bool) :
    Settles (fun run : Run admits => run.text) (fun run => run.text) (Bars admits) :=
  fun first second _ _ _ barred otherBarred same =>
    run_unique first.admitted second.admitted barred otherBarred same

theorem settles_letter (letter : Char) :
    Settles (fun _ : Unit => [letter]) (fun _ => ()) fun _ => True :=
  fun _ _ _ _ _ _ _ same => ⟨rfl, (List.cons.inj same).2⟩

namespace Settles
variable {Tree Other Meaning OtherMeaning : Type} {text : Tree → List Char}
  {meaning : Tree → Meaning} {Follows Middle : List Char → Prop} {otherText : Other → List Char}
  {otherMeaning : Other → OtherMeaning}

/-- Derivations may be presented differently, if their meaning is read off. -/
theorem present (settles : Settles otherText otherMeaning Follows) (view : Tree → Other)
    (reading : OtherMeaning → Meaning) (sameText : ∀ tree, text tree = otherText (view tree))
    (sameMeaning : ∀ tree, meaning tree = reading (otherMeaning (view tree))) :
    Settles text meaning Follows := by
  intro first second rest other unmixed follows otherFollows same
  rw [sameText] at unmixed
  rw [sameText, sameText] at same
  obtain ⟨equal, rests⟩ := settles _ _ rest other unmixed follows otherFollows same
  exact ⟨by rw [sameMeaning, sameMeaning, equal], rests⟩

/-- Less may be allowed to follow. -/
theorem narrow (settles : Settles text meaning Middle)
    (into : ∀ rest, Unmixed rest → Follows rest → Middle rest) : Settles text meaning Follows := by
  intro first second rest other unmixed follows otherFollows same
  have otherUnmixed : Unmixed other := (same ▸ unmixed).behind
  exact settles first second rest other unmixed (into rest unmixed.behind follows)
    (into other otherUnmixed otherFollows) same

theorem sequence (left : Settles text meaning Middle)
    (right : Settles otherText otherMeaning Follows)
    (joins : ∀ tree rest, Unmixed (otherText tree ++ rest) → Follows rest →
      Middle (otherText tree ++ rest)) :
    Settles (fun pair : Tree × Other => text pair.1 ++ otherText pair.2)
      (fun pair => (meaning pair.1, otherMeaning pair.2)) Follows := by
  rintro ⟨first, firstMore⟩ ⟨second, secondMore⟩ rest other unmixed follows otherFollows same
  simp only [List.append_assoc] at unmixed same
  have firstUnmixed := unmixed.behind
  have secondUnmixed := (same ▸ unmixed).behind
  obtain ⟨equal, further⟩ := left first second _ _ unmixed (joins _ _ firstUnmixed follows)
    (joins _ _ secondUnmixed otherFollows) same
  obtain ⟨otherEqual, rests⟩ :=
    right firstMore secondMore rest other firstUnmixed follows otherFollows further
  exact ⟨Prod.ext equal otherEqual, rests⟩

theorem choice (left : Settles text meaning Follows)
    (right : Settles otherText otherMeaning Follows)
    (apart : ∀ tree further rest other, text tree ++ rest ≠ otherText further ++ other) :
    Settles (Sum.elim text otherText) (Sum.map meaning otherMeaning) Follows := by
  rintro (first | first) (second | second) rest other unmixed follows otherFollows same
  · obtain ⟨equal, rests⟩ := left first second rest other unmixed follows otherFollows same
    exact ⟨congrArg Sum.inl equal, rests⟩
  · exact absurd same (apart first second rest other)
  · exact absurd same.symm (apart second first other rest)
  · obtain ⟨equal, rests⟩ := right first second rest other unmixed follows otherFollows same
    exact ⟨congrArg Sum.inr equal, rests⟩

theorem maybe (settles : Settles text meaning Middle)
    (into : ∀ rest, Unmixed rest → Follows rest → Middle rest)
    (apart : ∀ tree rest other, Unmixed other → Follows other → text tree ++ rest ≠ other) :
    Settles (fun tree : Option Tree => (tree.map text).getD []) (Option.map meaning) Follows := by
  rintro (_ | first) (_ | second) rest other unmixed follows otherFollows same
  · exact ⟨rfl, same⟩
  · exact absurd same.symm (apart second other rest unmixed follows)
  · have whole : text first ++ rest = other := same
    exact absurd whole (apart first rest other (whole ▸ unmixed) otherFollows)
  · obtain ⟨equal, rests⟩ :=
      settles.narrow into first second rest other unmixed follows otherFollows same
    exact ⟨congrArg some equal, rests⟩

theorem repeated (settles : Settles text meaning Middle)
    (more : ∀ tree rest, Unmixed (text tree ++ rest) → Middle (text tree ++ rest))
    (into : ∀ rest, Unmixed rest → Follows rest → Middle rest)
    (apart : ∀ tree rest other, Unmixed other → Follows other → text tree ++ rest ≠ other) :
    Settles (fun trees : List Tree => trees.flatMap text) (List.map meaning) Follows := by
  -- what stands behind one derivation is another one, or what may follow them all
  have middle : ∀ (trees : List Tree) (rest : List Char), Unmixed (trees.flatMap text ++ rest) →
      Follows rest → Middle (trees.flatMap text ++ rest) := by
    intro trees rest unmixed follows
    cases trees with
    | nil => exact into rest unmixed follows
    | cons tree trees =>
      rw [List.flatMap_cons, List.append_assoc] at unmixed ⊢
      exact more tree _ unmixed
  intro first
  induction first with
  | nil =>
    rintro (_ | ⟨tree, trees⟩) rest other unmixed follows otherFollows same
    · exact ⟨rfl, same⟩
    · simp only [List.flatMap_cons, List.append_assoc] at same
      exact absurd same.symm (apart tree _ rest unmixed follows)
  | cons first firsts ih =>
    rintro (_ | ⟨second, seconds⟩) rest other unmixed follows otherFollows same
    · simp only [List.flatMap_cons, List.append_assoc] at same unmixed
      have whole : text first ++ (firsts.flatMap text ++ rest) = other := same
      exact absurd whole (apart first _ other (whole ▸ unmixed) otherFollows)
    · simp only [List.flatMap_cons, List.append_assoc] at same unmixed
      have firstUnmixed := unmixed.behind
      have secondUnmixed := (same ▸ unmixed).behind
      obtain ⟨equal, further⟩ := settles first second _ _ unmixed
        (middle firsts rest firstUnmixed follows) (middle seconds other secondUnmixed otherFollows)
        same
      obtain ⟨others, rests⟩ := ih seconds rest other firstUnmixed follows otherFollows further
      exact ⟨by rw [List.map_cons, List.map_cons, equal, others], rests⟩

end Settles
end TreeSelect.Derivation
