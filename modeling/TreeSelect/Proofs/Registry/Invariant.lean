import Mathlib.Data.List.Dedup
import TreeSelect.Proofs.Registry.Runs

/-! What a registry keeps is decided by its history. The context of a key is the one that was
returned for it and has not ended since; at most one such context lives for each key, because one
is made only when there is none, and no context lives again once it has ended. -/

namespace TreeSelect

namespace Registry
variable {Node : Type}

/-- The contexts that the registry returned, the newest first. -/
def returned (history : List (Event Node)) : List (Context Node) :=
  history.filterMap Event.returned?

/-- The contexts that the client got to know, the newest first. -/
def obtained (history : List (Event Node)) : List (Context Node) :=
  history.filterMap Event.obtained?

/-- The contexts that were closed or whose guard was dropped, the newest first. -/
def ended (history : List (Event Node)) : List (Context Node) :=
  history.filterMap Event.ended?

/-- How often a close or the drop of a guard took a context out of the registry. -/
def removals (history : List (Event Node)) : Nat := history.countP Event.removes

/-- How many context objects the registry returned. -/
def objects (history : List (Event Node)) : Nat :=
  ((returned history).map Context.number).dedup.length

/-- No close met the context and no guard of it was dropped. -/
def Untouched (history : List (Event Node)) (context : Context Node) : Prop :=
  ∀ other ∈ ended history, other.number ≠ context.number

/-- The registry returned the context, and it has not ended. -/
def Live (history : List (Event Node)) (context : Context Node) : Prop :=
  context ∈ returned history ∧ Untouched history context

/-- A context may be returned if it has not ended and no other one lives for its key. -/
def Fits (past : List (Event Node)) (context : Context Node) : Prop :=
  Untouched past context ∧ ∀ other, Live past other → other.key = context.key → other = context

/-- Every context that was returned could be returned then, and every answer was right. -/
def Proper : List (Event Node) → Prop
  | [] => True
  | .returned context :: past => Fits past context ∧ Proper past
  | .asked key answer :: past =>
      (answer = true ↔ ∃ context, context.key = key ∧ Live past context) ∧ Proper past
  | _ :: past => Proper past

theorem returned_cons {history : List (Event Node)} {context : Context Node} :
    returned (.returned context :: history) = context :: returned history := rfl

theorem mem_obtained_of_returned {history : List (Event Node)} {context : Context Node}
    (known : context ∈ returned history) : context ∈ obtained history := by
  obtain ⟨event, member, shown⟩ := List.mem_filterMap.mp known
  refine List.mem_filterMap.mpr ⟨event, member, ?_⟩
  cases event with
  | returned => exact shown
  | made | closed | dropped | asked => cases shown

theorem untouched_append {later earlier : List (Event Node)} {context : Context Node} :
    Untouched (later ++ earlier) context ↔ Untouched later context ∧ Untouched earlier context := by
  simp only [Untouched, ended, List.filterMap_append, List.mem_append, or_imp, forall_and]

/-- An end shows the client no context. -/
theorem silent_of_ended {event : Event Node} {gone : Context Node}
    (shown : event.ended? = some gone) : event.obtained? = none ∧ event.returned? = none := by
  cases event with
  | closed | dropped => exact ⟨rfl, rfl⟩
  | returned | made | asked => cases shown

/-- An end touches one context only. -/
theorem live_ended {history : List (Event Node)} {event : Event Node} {gone context : Context Node}
    (shown : event.ended? = some gone) :
    Live (event :: history) context ↔ Live history context ∧ gone.number ≠ context.number := by
  simp only [Live, Untouched, returned, ended, List.filterMap_cons, shown,
    (silent_of_ended shown).2, List.forall_mem_cons]
  tauto

theorem live_returned {history : List (Event Node)} {new context : Context Node} :
    Live (.returned new :: history) context ↔
      (context = new ∨ context ∈ returned history) ∧ Untouched history context := by
  rw [Live, returned_cons, List.mem_cons]
  rfl

theorem Proper.suffix {later earlier : List (Event Node)} (proper : Proper (later ++ earlier)) :
    Proper earlier := by
  induction later with
  | nil => exact proper
  | cons event later ih =>
    cases event with
    | returned | asked => exact ih proper.2
    | made | closed | dropped => exact ih proper

theorem Proper.fits {later earlier : List (Event Node)} {context : Context Node}
    (proper : Proper (later ++ .returned context :: earlier)) : Fits earlier context :=
  proper.suffix.1

/-- Two calls for one key return the same context exactly if it did not end between them. -/
theorem Proper.same_iff {later between earlier : List (Event Node)} {first second : Context Node}
    (proper : Proper (later ++ .returned second :: between ++ .returned first :: earlier))
    (key : first.key = second.key) : second = first ↔ Untouched between first := by
  have before : Fits earlier first := proper.fits
  rw [List.append_assoc] at proper
  have again : Fits (between ++ .returned first :: earlier) second := proper.fits
  constructor
  · rintro rfl
    exact (untouched_append.mp again.1).1
  · intro untouched
    refine (again.2 first ⟨?_, untouched_append.mpr ⟨untouched, before.1⟩⟩ key).symm
    exact List.mem_filterMap.mpr ⟨.returned first, by simp, rfl⟩

/-- What holds of a registry after a history, when so many contexts have been made. -/
structure Sound [DecidableEq Node] (registry : Registry Node) (made : Nat)
    (history : List (Event Node)) : Prop where
  proper : Proper history
  fresh : ∀ context ∈ obtained history, context.number < made
  identity : ∀ first ∈ obtained history, ∀ second ∈ obtained history,
    first.number = second.number → first = second
  known : ∀ context ∈ ended history, context ∈ obtained history
  slot : ∀ key context,
    registry.slots.get? key = some context ↔ context.key = key ∧ Live history context
  builds : registry.builds = objects history
  size : registry.slots.size + removals history = registry.builds

variable [DecidableEq Node] {registry : Registry Node} {made : Nat} {history : List (Event Node)}
  {context : Context Node}

theorem sound_empty (made : Nat) : Sound (empty : Registry Node) made [] where
  proper := trivial
  fresh := fun _ member => absurd member List.not_mem_nil
  identity := fun _ member => absurd member List.not_mem_nil
  known := fun _ member => absurd member List.not_mem_nil
  slot := fun _ _ => ⟨by rintro ⟨⟩, fun live => absurd live.2.1 List.not_mem_nil⟩
  builds := rfl
  size := rfl

namespace Sound

theorem live_unique (sound : Sound registry made history) {other : Context Node}
    (live : Live history context) (lives : Live history other) (key : other.key = context.key) :
    other = context := by
  have found := (sound.slot context.key other).mpr ⟨key, lives⟩
  exact Option.some.inj (found.symm.trans ((sound.slot context.key context).mpr ⟨rfl, live⟩))

theorem untouched_next (sound : Sound registry made history) (next : context.number = made) :
    Untouched history context := by
  intro other member same
  exact absurd (sound.fresh other (sound.known other member)) (by omega)

theorem fresh_cons (sound : Sound registry made history) (next : context.number = made) :
    ∀ other ∈ context :: obtained history, other.number < made + 1 := by
  refine List.forall_mem_cons.mpr ⟨by omega, fun other member => ?_⟩
  exact Nat.lt_succ_of_lt (sound.fresh other member)

theorem identity_cons (sound : Sound registry made history) (next : context.number = made) :
    ∀ first ∈ context :: obtained history, ∀ second ∈ context :: obtained history,
      first.number = second.number → first = second := by
  intro first left second right same
  rcases List.mem_cons.mp left with rfl | old <;> rcases List.mem_cons.mp right with rfl | known
  · rfl
  · exact absurd (sound.fresh second known) (by omega)
  · exact absurd (sound.fresh first old) (by omega)
  · exact sound.identity first old second known same

/-- A context made beside the registry changes nothing in it. -/
theorem beside (sound : Sound registry made history) (next : context.number = made) :
    Sound registry (made + 1) (.made context :: history) :=
  ⟨sound.proper, sound.fresh_cons next, sound.identity_cons next,
    fun other member => List.mem_cons_of_mem _ (sound.known other member), sound.slot, sound.builds,
    sound.size⟩

theorem isOpen_iff (sound : Sound registry made history) (treeNumber : Nat) (root : Node) :
    registry.isOpen treeNumber root = true ↔
      ∃ context, context.key = (treeNumber, root) ∧ Live history context := by
  rw [isOpen, Association.contains, Option.isSome_iff_exists]
  exact exists_congr fun context => sound.slot (treeNumber, root) context

/-- Asking changes nothing. -/
theorem asking (sound : Sound registry made history) (treeNumber : Nat) (root : Node) :
    Sound registry made
      (.asked (treeNumber, root) (registry.isOpen treeNumber root) :: history) :=
  ⟨⟨sound.isOpen_iff treeNumber root, sound.proper⟩, sound.fresh, sound.identity, sound.known,
    sound.slot, sound.builds, sound.size⟩

/-- A context that is kept is returned again. -/
theorem reopening (sound : Sound registry made history)
    (present : registry.slots.get? context.key = some context) :
    Sound registry made (.returned context :: history) := by
  have live : Live history context := ((sound.slot _ _).mp present).2
  have old : context ∈ obtained history := mem_obtained_of_returned live.1
  have same : ∀ other, Live (.returned context :: history) other ↔ Live history other := by
    intro other
    rw [live_returned, or_iff_right_of_imp (by rintro rfl; exact live.1)]
    rfl
  have subset : ∀ other ∈ obtained (.returned context :: history), other ∈ obtained history :=
    List.forall_mem_cons.mpr ⟨old, fun _ member => member⟩
  have fits : Fits history context := ⟨live.2, fun _ lives key => sound.live_unique live lives key⟩
  exact {
    proper := ⟨fits, sound.proper⟩
    fresh := fun other member => sound.fresh other (subset other member)
    identity := fun first left second right =>
      sound.identity first (subset first left) second (subset second right)
    known := fun other member => List.mem_cons_of_mem _ (sound.known other member)
    slot := fun key other => by rw [same, sound.slot]
    builds := by
      rw [sound.builds, objects, objects, returned_cons, List.map_cons,
        List.dedup_cons_of_mem (List.mem_map_of_mem live.1)]
    size := sound.size }

/-- Where no context of the key lives, a new one is the only one that does. -/
theorem opening_slot (sound : Sound registry made history) (next : context.number = made)
    (alone : ∀ other, Live history other → other.key ≠ context.key) (key : Nat × Node)
    (other : Context Node) :
    (registry.slots.insert context.key context).get? key = some other ↔
      other.key = key ∧ Live (.returned context :: history) other := by
  have untouched : Untouched history context := sound.untouched_next next
  rw [Association.get?_insert, live_returned]
  split
  next same =>
    subst same
    constructor
    · rintro ⟨⟩
      exact ⟨rfl, .inl rfl, untouched⟩
    · rintro ⟨here, rfl | old, clean⟩
      · rfl
      · exact absurd here (alone other ⟨old, clean⟩)
  next elsewhere =>
    rw [sound.slot]
    constructor
    · rintro ⟨here, old, clean⟩
      exact ⟨here, .inr old, clean⟩
    · rintro ⟨here, rfl | old, clean⟩
      · exact absurd here.symm elsewhere
      · exact ⟨here, old, clean⟩

/-- Without a context for the key a new one is made and kept. -/
theorem opening (sound : Sound registry made history) (next : context.number = made)
    (absent : registry.slots.get? context.key = none) :
    Sound ⟨registry.slots.insert context.key context, registry.builds + 1⟩ (made + 1)
      (.returned context :: history) := by
  have alone : ∀ other, Live history other → other.key ≠ context.key := by
    intro other lives key
    have found := (sound.slot context.key other).mpr ⟨key, lives⟩
    rw [absent] at found
    cases found
  have unknown : context.number ∉ (returned history).map Context.number := by
    intro member
    obtain ⟨other, old, same⟩ := List.mem_map.mp member
    exact absurd (sound.fresh other (mem_obtained_of_returned old)) (by omega)
  have fits : Fits history context :=
    ⟨sound.untouched_next next, fun other lives key => absurd key (alone other lives)⟩
  exact {
    proper := ⟨fits, sound.proper⟩
    fresh := sound.fresh_cons next
    identity := sound.identity_cons next
    known := fun other member => List.mem_cons_of_mem _ (sound.known other member)
    slot := sound.opening_slot next alone
    builds := by
      rw [objects, returned_cons, List.map_cons, List.dedup_cons_of_notMem unknown,
        List.length_cons, sound.builds, objects]
    size := by
      have same : removals (.returned context :: history) = removals history := rfl
      rw [same, Association.size_insert_of_absent _ _ absent, Nat.add_right_comm, sound.size] }

theorem close_of_live (sound : Sound registry made history) (live : Live history context) :
    registry.close context = { registry with slots := registry.slots.erase context.key } := by
  have found : registry.slots.get? (context.treeNumber, context.root) = some context :=
    (sound.slot _ _).mpr ⟨rfl, live⟩
  rw [close, found]
  exact if_pos rfl

/-- A context that does not live, though the registry may keep another one for its key, is not
found by a close. -/
theorem close_of_not_live (sound : Sound registry made history)
    (known : context ∈ obtained history) (gone : ¬Live history context) :
    registry.close context = registry := by
  rw [close]
  split
  next kept found =>
    have live : Live history kept := ((sound.slot _ _).mp found).2
    refine if_neg fun same => gone ?_
    rwa [← sound.identity kept (mem_obtained_of_returned live.1) context known same]
  next => rfl

/-- An end takes away the context of the key if that is the one that ends. -/
theorem ending_slot (sound : Sound registry made history) (known : context ∈ obtained history)
    {event : Event Node} (shown : event.ended? = some context) (key : Nat × Node)
    (other : Context Node) :
    (registry.close context).slots.get? key = some other ↔
      other.key = key ∧ Live (event :: history) other := by
  have one : Live history other → context.number = other.number → context = other :=
    fun lives => sound.identity context known other (mem_obtained_of_returned lives.1)
  rw [live_ended shown]
  by_cases live : Live history context
  · rw [sound.close_of_live live, Association.get?_erase]
    split
    next here =>
      subst here
      refine ⟨by rintro ⟨⟩, fun lives => absurd ?_ lives.2.2⟩
      rw [sound.live_unique live lives.2.1 lives.1]
    next elsewhere =>
      rw [sound.slot]
      refine and_congr_right fun here => (and_iff_left_of_imp fun lives same => ?_).symm
      exact elsewhere (by rw [one lives same, here])
  · rw [sound.close_of_not_live known live, sound.slot]
    refine and_congr_right fun _ => (and_iff_left_of_imp fun lives same => live ?_).symm
    rwa [one lives same]

/-- An end takes away one slot, or none. -/
theorem ending_size (sound : Sound registry made history) (known : context ∈ obtained history) :
    (registry.close context).slots.size +
      (if Client.removal registry (registry.close context) context.key = true then 1 else 0) =
        registry.slots.size := by
  by_cases live : Live history context
  · have found : registry.slots.get? (context.key.1, context.key.2) = some context :=
      (sound.slot _ _).mpr ⟨rfl, live⟩
    have taken : Client.removal registry (registry.close context) context.key = true := by
      rw [sound.close_of_live live, Client.removal, isOpen, isOpen, Association.contains,
        Association.contains, Association.get?_erase, if_pos rfl, found]
      rfl
    rw [if_pos taken, sound.close_of_live live]
    exact Association.size_erase_of_present registry.slots found
  · rw [sound.close_of_not_live known live, Client.removal, Bool.and_not_self]
    rfl

/-- A close, or the drop of a guard. -/
theorem ending (sound : Sound registry made history) (known : context ∈ obtained history)
    {event : Event Node} (shown : event.ended? = some context)
    (removed : event.removes = Client.removal registry (registry.close context) context.key) :
    Sound (registry.close context) made (event :: history) := by
  have silent := silent_of_ended shown
  have met : obtained (event :: history) = obtained history := List.filterMap_cons_none silent.1
  have objects_same : objects (event :: history) = objects history := by
    rw [objects, returned, List.filterMap_cons_none silent.2]
    rfl
  have builds_same : (registry.close context).builds = registry.builds := by
    by_cases live : Live history context
    · rw [sound.close_of_live live]
    · rw [sound.close_of_not_live known live]
  exact {
    proper := by
      cases event with
      | closed | dropped => exact sound.proper
      | returned | made | asked => cases shown
    fresh := by rw [met]; exact sound.fresh
    identity := by rw [met]; exact sound.identity
    known := by
      rw [met, ended, List.filterMap_cons_some shown]
      exact List.forall_mem_cons.mpr ⟨known, sound.known⟩
    slot := sound.ending_slot known shown
    builds := by rw [builds_same, objects_same, sound.builds]
    size := by
      rw [builds_same, ← sound.size, ← sound.ending_size known, ← removed, removals,
        List.countP_cons, removals, Nat.add_right_comm, Nat.add_assoc] }

end Sound
end Registry
end TreeSelect
