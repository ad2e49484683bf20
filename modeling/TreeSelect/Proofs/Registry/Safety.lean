import TreeSelect.Proofs.Registry.Invariant

/-! What a client may rely on, in whatever order it opens, closes, drops and asks: calls for one
root share a context until that context ends, an old or foreign context never takes away its
successor, and nothing done for one root shows at another. -/

namespace TreeSelect

namespace Registry
variable {Node : Type}

/-- Some context was returned for the key, and the last of these has not ended. -/
def Standing (history : List (Event Node)) (key : Nat × Node) : Prop :=
  ∃ later last earlier, history = later ++ .returned last :: earlier ∧ last.key = key ∧
    (∀ other ∈ returned later, other.key ≠ key) ∧ Untouched history last

theorem exists_last_returned {history : List (Event Node)} {context : Context Node}
    (member : context ∈ returned history) :
    ∃ later last earlier, history = later ++ .returned last :: earlier ∧ last.key = context.key ∧
      ∀ other ∈ returned later, other.key ≠ context.key := by
  induction history with
  | nil => cases member
  | cons event past ih =>
    by_cases here : ∃ last, event = .returned last ∧ last.key = context.key
    · obtain ⟨last, rfl, key⟩ := here
      exact ⟨[], last, past, rfl, key, fun _ none => absurd none List.not_mem_nil⟩
    · have before : context ∈ returned past := by
        cases event with
        | returned last =>
          rcases List.mem_cons.mp member with rfl | before
          · exact absurd ⟨_, rfl, rfl⟩ here
          · exact before
        | made | closed | dropped | asked => exact member
      obtain ⟨later, last, earlier, rfl, key, others⟩ := ih before
      refine ⟨event :: later, last, earlier, rfl, key, fun other known same => ?_⟩
      cases event with
      | returned newest =>
        rcases List.mem_cons.mp known with rfl | old
        · exact here ⟨_, rfl, same⟩
        · exact others other old same
      | made | closed | dropped | asked => exact others other known same

/-- Of the contexts returned for a key only the last one can live. -/
theorem Proper.standing_iff {history : List (Event Node)} (proper : Proper history)
    (key : Nat × Node) :
    Standing history key ↔ ∃ context, context.key = key ∧ Live history context := by
  constructor
  · rintro ⟨later, last, earlier, rfl, here, _, untouched⟩
    exact ⟨last, here, List.mem_filterMap.mpr ⟨.returned last, by simp, rfl⟩, untouched⟩
  · rintro ⟨context, rfl, member, untouched⟩
    obtain ⟨later, last, earlier, rfl, key, others⟩ := exists_last_returned member
    have fits : Fits earlier last := proper.fits
    have same : context = last := by
      rw [returned, List.filterMap_append, List.mem_append] at member
      rcases member with newer | this | ⟨_, older⟩
      · exact absurd rfl (others context newer)
      · rfl
      · have clean := (untouched_append.mp untouched).2
        exact fits.2 context ⟨older, clean⟩ key.symm
    exact ⟨later, last, earlier, rfl, key, others, same ▸ untouched⟩

variable [DecidableEq Node]

def Client.subject (client : Client Node) : Command Node → Option (Nat × Node)
  | .openRoot treeNumber root _ | .scope treeNumber root _ => some (treeNumber, root)
  | .close place => client.contexts[place]?.map Context.key
  | .drop place => client.guards[place]?.map fun guard => guard.context.key
  | .make .. | .ask .. | .setDefault _ | .resetDefault => none

/-- What a client may rely on. -/
structure Client.Safe (forest : Nat → Tree Node) (client : Client Node) : Prop where
  identity : ∀ first ∈ obtained client.history, ∀ second ∈ obtained client.history,
    first.number = second.number → first = second
  /-- A root is opened, with or without a guard, by returning a context of its own. -/
  returns : ∀ treeNumber root conventions, ∃ context : Context Node,
    context.key = (treeNumber, root) ∧
      (client.perform forest (.openRoot treeNumber root conventions)).history =
        .returned context :: client.history ∧
      (client.perform forest (.scope treeNumber root conventions)).history =
        .returned context :: client.history
  /-- Two calls for one tree and root return the very same context exactly if in between it was
  not closed and no guard of it was dropped. -/
  same_iff : ∀ later between earlier first second,
    client.history = later ++ .returned second :: between ++ .returned first :: earlier →
      first.key = second.key → (second.number = first.number ↔ Untouched between first)
  /-- A root is open if some context was returned for it and the last of these has not ended. -/
  isOpen_iff : ∀ treeNumber root, client.registry.isOpen treeNumber root = true ↔
    Standing client.history (treeNumber, root)
  answer_iff : ∀ later key answer earlier,
    client.history = later ++ .asked key answer :: earlier →
      (answer = true ↔ Standing earlier key)
  /-- Closing a context that was not returned by the registry, or that ended before, does
  nothing. -/
  close_stale : ∀ context ∈ client.contexts, ¬Live client.history context →
    client.registry.close context = client.registry
  drop_stale : ∀ guard ∈ client.guards, ¬Live client.history guard.context →
    guard.drop client.registry = client.registry
  elsewhere : ∀ command key, client.subject command ≠ some key →
    (client.perform forest command).registry.slots.get? key = client.registry.slots.get? key
  builds_eq_objects : client.registry.builds = objects client.history
  /-- What was built is kept, or was taken away by a close or the drop of a guard. -/
  builds_eq_slots : client.registry.builds =
    client.registry.slots.size + removals client.history

theorem close_elsewhere (registry : Registry Node) (context : Context Node) {key : Nat × Node}
    (other : context.key ≠ key) :
    (registry.close context).slots.get? key = registry.slots.get? key := by
  rw [close]
  split
  next kept found =>
    split
    next => exact (Association.get?_erase _ _ _).trans (if_neg (Ne.symm other))
    next => rfl
  next => rfl

theorem openContext_elsewhere (registry : Registry Node) (session : Session) (treeNumber : Nat)
    (tree : Tree Node) (root : Node) (conventions : Option Conventions) {key : Nat × Node}
    (other : (treeNumber, root) ≠ key) :
    (registry.openContext session treeNumber tree root conventions).2.1.slots.get? key =
      registry.slots.get? key := by
  rw [openContext]
  split
  next => rfl
  next => exact (Association.get?_insert _ _ _ _).trans (if_neg (Ne.symm other))

/-- Whether the context is found or made, the call keeps what holds of the registry. -/
theorem Sound.openContext {registry : Registry Node} {session : Session}
    {history : List (Event Node)} (sound : Sound registry session.contexts history)
    (treeNumber : Nat) (tree : Tree Node) (root : Node) (conventions : Option Conventions) :
    let (context, changed, later) :=
      registry.openContext session treeNumber tree root conventions
    Sound changed later.contexts (.returned context :: history) := by
  rw [Registry.openContext]
  cases found : registry.slots.get? (treeNumber, root) with
  | some context =>
    have key : context.key = (treeNumber, root) := ((sound.slot _ _).mp found).1
    exact sound.reopening (key ▸ found)
  | none =>
    have next : (Context.new session treeNumber tree root conventions).1.number =
        session.contexts := rfl
    exact sound.opening next found

theorem Sound.openContext_key {registry : Registry Node} {made : Nat}
    {history : List (Event Node)} (sound : Sound registry made history) (session : Session)
    (treeNumber : Nat) (tree : Tree Node) (root : Node) (conventions : Option Conventions) :
    (registry.openContext session treeNumber tree root conventions).1.key = (treeNumber, root) := by
  rw [Registry.openContext]
  cases found : registry.slots.get? (treeNumber, root) with
  | some context => exact ((sound.slot _ _).mp found).1
  | none => rfl

namespace Client

structure Sound (client : Client Node) : Prop where
  registry : Registry.Sound client.registry client.session.contexts client.history
  contexts : ∀ context ∈ client.contexts, context ∈ obtained client.history
  guards : ∀ guard ∈ client.guards, guard.context ∈ obtained client.history

theorem sound_start (session : Session) : Sound (start session : Client Node) :=
  ⟨sound_empty session.contexts, by simp [start], by simp [start]⟩

theorem Sound.perform {client : Client Node} (sound : Sound client) (forest : Nat → Tree Node)
    (command : Command Node) : Sound (client.perform forest command) := by
  have append : ∀ {new : Context Node}, ∀ context ∈ client.contexts ++ [new],
      context ∈ new :: obtained client.history := by
    intro new context member
    rcases List.mem_append.mp member with old | this
    · exact List.mem_cons_of_mem _ (sound.contexts context old)
    · rw [List.mem_singleton.mp this]
      exact List.mem_cons_self
  cases command with
  | openRoot treeNumber root conventions =>
    have opened := sound.registry.openContext treeNumber (forest treeNumber) root conventions
    exact ⟨opened, append, fun guard member => List.mem_cons_of_mem _ (sound.guards guard member)⟩
  | scope treeNumber root conventions =>
    have opened := sound.registry.openContext treeNumber (forest treeNumber) root conventions
    refine ⟨opened, append, fun guard member => ?_⟩
    rcases List.mem_append.mp member with old | this
    · exact List.mem_cons_of_mem _ (sound.guards guard old)
    · rw [List.mem_singleton.mp this]
      exact List.mem_cons_self
  | make treeNumber root conventions =>
    exact ⟨sound.registry.beside rfl, append,
      fun guard member => List.mem_cons_of_mem _ (sound.guards guard member)⟩
  | close place =>
    rw [Client.perform]
    split
    next context found =>
      have known := sound.contexts context (List.mem_of_getElem? found)
      exact ⟨sound.registry.ending known rfl rfl, sound.contexts, sound.guards⟩
    next => exact sound
  | drop place =>
    rw [Client.perform]
    split
    next guard found =>
      have known := sound.guards guard (List.mem_of_getElem? found)
      exact ⟨sound.registry.ending known rfl rfl, sound.contexts,
        fun other member => sound.guards other (List.mem_of_mem_eraseIdx member)⟩
    next => exact sound
  | ask treeNumber root =>
    exact ⟨sound.registry.asking treeNumber root, sound.contexts, sound.guards⟩
  | setDefault | resetDefault => exact ⟨sound.registry, sound.contexts, sound.guards⟩

theorem sound_run (forest : Nat → Tree Node) (session : Session)
    (commands : List (Command Node)) : Sound (run forest session commands) :=
  List.foldlRecOn commands (perform forest) (sound_start session)
    fun _ sound command _ => sound.perform forest command

theorem perform_elsewhere (forest : Nat → Tree Node) (client : Client Node)
    (command : Command Node) {key : Nat × Node} (other : client.subject command ≠ some key) :
    (client.perform forest command).registry.slots.get? key = client.registry.slots.get? key := by
  cases command with
  | openRoot treeNumber root conventions =>
    exact openContext_elsewhere _ _ _ _ _ _ fun same => other (congrArg some same)
  | scope treeNumber root conventions =>
    exact openContext_elsewhere _ _ _ _ _ _ fun same => other (congrArg some same)
  | close place =>
    rw [perform]
    split
    next context found =>
      rw [subject, found] at other
      exact close_elsewhere _ _ fun same => other (congrArg some same)
    next => rfl
  | drop place =>
    rw [perform]
    split
    next guard found =>
      rw [subject, found] at other
      exact close_elsewhere _ _ fun same => other (congrArg some same)
    next => rfl
  | make | ask | setDefault | resetDefault => rfl

/-- Whatever the calls, over whatever trees, roots and conventions. -/
theorem run_safe (forest : Nat → Tree Node) (session : Session) (commands : List (Command Node)) :
    Safe forest (run forest session commands) := by
  obtain ⟨registry, contexts, guards⟩ := sound_run forest session commands
  generalize run forest session commands = client at registry contexts guards
  have same_object : ∀ later between earlier first second,
      client.history = later ++ .returned second :: between ++ .returned first :: earlier →
        (second = first ↔ second.number = first.number) := by
    intro later between earlier first second split
    have known : ∀ context, Event.returned context ∈ client.history →
        context ∈ obtained client.history :=
      fun context member => List.mem_filterMap.mpr ⟨_, member, rfl⟩
    exact ⟨congrArg Context.number, registry.identity second (known second (by simp [split])) first
      (known first (by simp [split]))⟩
  exact {
    identity := registry.identity
    returns := fun treeNumber root conventions =>
      ⟨_, registry.openContext_key client.session treeNumber (forest treeNumber) root conventions,
        rfl, rfl⟩
    same_iff := fun later between earlier first second split key =>
      (same_object later between earlier first second split).symm.trans
        (Proper.same_iff (split ▸ registry.proper) key)
    isOpen_iff := fun treeNumber root =>
      (registry.isOpen_iff treeNumber root).trans (registry.proper.standing_iff _).symm
    answer_iff := by
      intro later key answer earlier split
      have whole : Proper (later ++ .asked key answer :: earlier) := split ▸ registry.proper
      have proper : Proper (.asked key answer :: earlier) := whole.suffix
      exact proper.1.trans (proper.2.standing_iff key).symm
    close_stale := fun context member => registry.close_of_not_live (contexts context member)
    drop_stale := fun guard member => registry.close_of_not_live (guards guard member)
    elsewhere := fun command key => perform_elsewhere forest client command
    builds_eq_objects := registry.builds
    builds_eq_slots := registry.size.symm }

end Client
end Registry
end TreeSelect
