import Mathlib.Data.List.Induction
import TreeSelect.Proofs.Registry.Ledger

/-! When conventions are read: once for each context that is built, once for each description of
them, and at no other time. Whatever a context was built with it keeps. -/

namespace TreeSelect.Registry
variable {Node : Type} [DecidableEq Node]

section
variable {registry : Registry Node} {treeNumber : Nat} {root : Node} (session : Session)
  (tree : Tree Node) (given : Option Conventions)

/-- A root that is open gives the context that is kept, and nothing changes. -/
theorem exists_openContext_of_isOpen (opened : registry.isOpen treeNumber root = true) :
    ∃ context, registry.slots.get? (treeNumber, root) = some context ∧
      registry.openContext session treeNumber tree root given = (context, registry, session) := by
  obtain ⟨context, found⟩ := Option.isSome_iff_exists.mp opened
  exact ⟨context, found, by rw [openContext, found]⟩

theorem openContext_of_not_isOpen (shut : ¬registry.isOpen treeNumber root = true) :
    registry.openContext session treeNumber tree root given =
      let (context, later) := Context.new session treeNumber tree root given
      (context, ⟨registry.slots.insert (treeNumber, root) context, registry.builds + 1⟩, later) := by
  have absent : registry.slots.get? (treeNumber, root) = none :=
    Option.not_isSome_iff_eq_none.mp shut
  rw [openContext, absent]

end

namespace Client
variable {client : Client Node}

theorem perform_close (forest : Nat → Tree Node) (client : Client Node) (place : Nat) :
    (client.perform forest (.close place)).session = client.session ∧
      (client.perform forest (.close place)).contexts = client.contexts := by
  rw [perform]
  split
  next => exact ⟨rfl, rfl⟩
  next => exact ⟨rfl, rfl⟩

theorem perform_drop (forest : Nat → Tree Node) (client : Client Node) (place : Nat) :
    (client.perform forest (.drop place)).session = client.session ∧
      (client.perform forest (.drop place)).contexts = client.contexts := by
  rw [perform]
  split
  next => exact ⟨rfl, rfl⟩
  next => exact ⟨rfl, rfl⟩

theorem Knows.perform (knows : Knows client) (forest : Nat → Tree Node) (command : Command Node) :
    Knows (client.perform forest command) := by
  have append {new : Context Node} : ∀ context ∈ new :: obtained client.history,
      context ∈ client.contexts ++ [new] := by
    intro context member
    rcases List.mem_cons.mp member with rfl | old
    · simp
    · exact List.mem_append_left _ (knows context old)
  cases command with
  | openRoot | scope | make => exact append
  | close place =>
    rw [Client.perform]
    split
    next => exact knows
    next => exact knows
  | drop place =>
    rw [Client.perform]
    split
    next => exact knows
    next => exact knows
  | ask | setDefault | resetDefault => exact knows

/-- The contexts obtained are kept in their order, and no call changes any of them. -/
theorem contexts_perform (forest : Nat → Tree Node) (client : Client Node)
    (command : Command Node) : client.contexts <+: (client.perform forest command).contexts := by
  cases command with
  | openRoot | scope | make => exact List.prefix_append _ _
  | close place => exact (client.perform_close forest place).2 ▸ List.prefix_rfl
  | drop place => exact (client.perform_drop forest place).2 ▸ List.prefix_rfl
  | ask | setDefault | resetDefault => exact List.prefix_rfl

theorem Sound.number_ne (sound : Sound client) :
    ∀ other ∈ client.contexts, other.number ≠ client.session.contexts :=
  fun other member => Nat.ne_of_lt (sound.registry.fresh other (sound.contexts other member))

theorem contexts_act (forest : Nat → Tree Node) (describeNode : Node → String)
    (client : Client Node) (deed : Deed Node) :
    client.contexts <+: (client.act forest describeNode deed).contexts := by
  cases deed with
  | call command => exact contexts_perform forest client command
  | select place grammar selector =>
    obtain ⟨warnings, same⟩ := client.exists_select_eq place grammar selector
    have kept : (client.act forest describeNode (.select place grammar selector)).contexts =
        client.contexts := by rw [act, same]
    exact kept ▸ List.prefix_rfl
  | describe subject => exact List.prefix_rfl

theorem standing_act (forest : Nat → Tree Node) (describeNode : Node → String)
    (client : Client Node) (deed : Deed Node) :
    (client.act forest describeNode deed).session.standing =
      deed.standing client.session.standing := by
  cases deed with
  | call command =>
    cases command with
    | openRoot treeNumber root given | scope treeNumber root given =>
      by_cases opened : client.registry.isOpen treeNumber root = true
      · obtain ⟨context, -, same⟩ := exists_openContext_of_isOpen client.session
          (forest treeNumber) given opened
        simp only [act, perform, Guard.take, same, Deed.standing]
      · have made := openContext_of_not_isOpen client.session (forest treeNumber) given opened
        simp only [act, perform, Guard.take, made, Context.new_eq, Deed.standing]
    | make => simp only [act, perform, Context.new_eq, Deed.standing]
    | close place => exact congrArg Session.standing (client.perform_close forest place).1
    | drop place => exact congrArg Session.standing (client.perform_drop forest place).1
    | ask | setDefault | resetDefault => rfl
  | select place grammar selector =>
    obtain ⟨warnings, same⟩ := client.exists_select_eq place grammar selector
    rw [act, same]
    rfl
  | describe subject => rfl

end Client

namespace Ledger
variable {forest : Nat → Tree Node} {describeNode : Node → String} {session : Session}
  {ledger : Ledger Node} {command : Command Node} {deed : Deed Node}

theorem readings_of_record_none (record : ledger.record? forest describeNode deed = none) :
    (ledger.perform forest describeNode deed).readings = ledger.readings := by
  rw [perform, record, Option.toList_none, List.append_nil]

theorem readings_of_record {reading : Reading Node}
    (record : ledger.record? forest describeNode deed = some reading) :
    (ledger.perform forest describeNode deed).readings = ledger.readings ++ [reading] := by
  rw [perform, record, Option.toList_some]

/-- A call that asks no source and obtains no context, or one that is known, is not entered. -/
theorem quiet_call
    (sources : (ledger.client.perform forest command).session.sources = ledger.sources)
    (contexts : (ledger.client.perform forest command).contexts = ledger.client.contexts ∨
      ∃ context ∈ ledger.client.contexts,
        (ledger.client.perform forest command).contexts = ledger.client.contexts ++ [context]) :
    Quiet ledger (ledger.perform forest describeNode (.call command)) := by
  have known : Client.fresh? ledger.client (ledger.client.perform forest command) = none := by
    rcases contexts with same | ⟨context, known, longer⟩
    · exact Client.fresh?_of_same same
    · exact Client.fresh?_of_known longer known
  have members (context : Context Node) :
      context ∈ (ledger.client.perform forest command).contexts ↔
        context ∈ ledger.client.contexts := by
    rcases contexts with same | ⟨other, known, longer⟩
    · rw [same]
    · rw [longer, List.mem_append, List.mem_singleton]
      exact or_iff_left_of_imp fun same => same ▸ known
  exact ⟨readings_of_record_none (by rw [record?, known, Option.map_none]), sources, members⟩

/-- What the conventions say of a context, they say by the one answer they got for it. -/
theorem faithful_new (session : Session) (treeNumber : Nat) (tree : Tree Node) (root : Node)
    (given : Option Conventions) :
    let chosen := given.getD session.currentDefault
    Reading.Faithful session.sources ⟨chosen, chosen.asked session.sources,
      .built (Context.new session treeNumber tree root given).1⟩ := by
  rw [Context.new_eq]
  exact ⟨rfl, rfl, rfl⟩

theorem Sound.reads_call (sound : Sound session ledger) (treeNumber : Nat) (tree : Tree Node)
    (root : Node) {given : Option Conventions} (same : command.given = given)
    (longer : (ledger.client.perform forest command).contexts = ledger.client.contexts ++
      [(Context.new ledger.client.session treeNumber tree root given).1])
    (sources : (ledger.client.perform forest command).session.sources =
      (Context.new ledger.client.session treeNumber tree root given).2.sources) :
    ∃ reading, reading.conventions = given.getD ledger.client.session.currentDefault ∧
      Reads ledger (ledger.perform forest describeNode (.call command)) reading := by
  subst same
  let chosen := command.given.getD ledger.client.session.currentDefault
  let made := (Context.new ledger.client.session treeNumber tree root command.given).1
  have new : ∀ other ∈ ledger.client.contexts, other.number ≠ made.number :=
    sound.client.number_ne
  have members (context : Context Node) :
      context ∈ (ledger.client.perform forest command).contexts ↔
        some made = some context ∨ context ∈ ledger.client.contexts := by
    rw [longer, List.mem_append, List.mem_singleton, Option.some_inj, or_comm, eq_comm]
  exact ⟨⟨chosen, chosen.asked ledger.sources, .built made⟩, rfl, {
    readings := readings_of_record (by rw [record?, Client.fresh?_of_new longer new]; rfl)
    asked := rfl
    sources := sources.trans (by rw [Context.new_eq]; rfl)
    faithful := faithful_new ledger.client.session treeNumber tree root command.given
    fresh := by
      rintro context ⟨⟩
      exact new
    contexts := members }⟩

theorem reads_described {subject : Subject} {conventions : Conventions}
    (shown : ledger.client.shown? subject = some conventions)
    (described : ledger.client.describe describeNode subject =
      conventions.describe ledger.sources) :
    ∃ reading, reading.conventions = conventions ∧
      Reads ledger (ledger.perform forest describeNode (.describe subject)) reading := by
  rw [Conventions.describe_eq] at described
  exact ⟨⟨conventions, conventions.asked ledger.sources,
      .described (ledger.client.describe describeNode subject).1⟩, rfl, {
    readings := readings_of_record (by rw [record?, shown]; rfl)
    asked := rfl
    sources := congrArg Prod.snd described
    faithful := congrArg Prod.fst described
    fresh := nofun
    contexts := fun context => (or_iff_right nofun).symm }⟩

theorem Sound.quiet_of_needs_none (sound : Sound session ledger)
    (needs : ledger.needs? deed = none) :
    Quiet ledger (ledger.perform forest describeNode deed) := by
  cases deed with
  | call command =>
    cases command with
    | openRoot treeNumber root given | scope treeNumber root given =>
      rw [needs?] at needs
      split at needs
      next opened =>
        obtain ⟨context, found, same⟩ := exists_openContext_of_isOpen ledger.client.session
          (forest treeNumber) given opened
        have known : context ∈ ledger.client.contexts :=
          sound.knows context (mem_obtained_of_returned
            ((sound.client.registry.slot _ _).mp found).2.1)
        refine quiet_call ?_ (.inr ⟨context, known, ?_⟩)
        · simp only [Client.perform, Guard.take, same, Ledger.sources]
        · simp only [Client.perform, Guard.take, same]
      next => cases needs
    | make => cases needs
    | close place =>
      obtain ⟨session, contexts⟩ := ledger.client.perform_close forest place
      exact quiet_call (congrArg Session.sources session) (.inl contexts)
    | drop place =>
      obtain ⟨session, contexts⟩ := ledger.client.perform_drop forest place
      exact quiet_call (congrArg Session.sources session) (.inl contexts)
    | ask | setDefault | resetDefault => exact quiet_call rfl (.inl rfl)
  | select place grammar selector =>
    obtain ⟨warnings, same⟩ := ledger.client.exists_select_eq place grammar selector
    refine ⟨readings_of_record_none rfl, ?_, fun context => ?_⟩
    · exact congrArg (fun client => client.session.sources) same
    · exact iff_of_eq (congrArg (fun client => context ∈ client.contexts) same)
  | describe subject =>
    cases subject with
    | conventions | standing => cases needs
    | context | guard | registry => exact ⟨readings_of_record_none rfl, rfl, fun _ => Iff.rfl⟩

theorem Sound.exists_reads (sound : Sound session ledger) {conventions : Conventions}
    (needs : ledger.needs? deed = some conventions) :
    ∃ reading, reading.conventions = conventions ∧
      Reads ledger (ledger.perform forest describeNode deed) reading := by
  cases deed with
  | call command =>
    cases command with
    | openRoot treeNumber root given | scope treeNumber root given =>
      rw [needs?] at needs
      split at needs
      next => cases needs
      next shut =>
        cases needs
        have made := openContext_of_not_isOpen ledger.client.session (forest treeNumber) given shut
        refine sound.reads_call treeNumber (forest treeNumber) root rfl ?_ ?_
        · simp only [Client.perform, Guard.take, made]
        · simp only [Client.perform, Guard.take, made]
    | make treeNumber root given =>
      cases needs
      exact sound.reads_call treeNumber (forest treeNumber) root rfl rfl rfl
    | close | drop | ask | setDefault | resetDefault => cases needs
  | select => cases needs
  | describe subject =>
    cases subject with
    | conventions | standing =>
      cases needs
      exact reads_described rfl rfl
    | context | guard | registry => cases needs

/-- A deed changes the client in the same way whether or not it is entered. -/
theorem Sound.client_act (sound : Sound session ledger) (forest : Nat → Tree Node)
    (describeNode : Node → String) (deed : Deed Node) :
    Client.Sound (ledger.client.act forest describeNode deed) ∧
      Client.Knows (ledger.client.act forest describeNode deed) := by
  obtain ⟨registry, contexts, guards⟩ := sound.client
  cases deed with
  | call command => exact ⟨sound.client.perform forest command, sound.knows.perform forest command⟩
  | select place grammar selector =>
    obtain ⟨warnings, same⟩ := ledger.client.exists_select_eq place grammar selector
    rw [Client.act, same]
    exact ⟨⟨registry, contexts, guards⟩, sound.knows⟩
  | describe subject => exact ⟨⟨registry, contexts, guards⟩, sound.knows⟩

theorem Sound.perform (sound : Sound session ledger) (deed : Deed Node) :
    Sound session (ledger.perform forest describeNode deed) := by
  obtain ⟨client, knows⟩ := sound.client_act forest describeNode deed
  cases needs : ledger.needs? deed with
  | none => exact sound.quiet (sound.quiet_of_needs_none needs) client knows
  | some conventions =>
    obtain ⟨reading, -, reads⟩ := sound.exists_reads needs
    exact sound.reads reads client knows

theorem sound_start (session : Session) : Sound session (⟨.start session, []⟩ : Ledger Node) where
  client := Client.sound_start session
  knows := nofun
  length := rfl
  answers := fun _ _ => rfl
  calls := fun _ _ => rfl
  in_turn := fun _ _ => rfl
  built_once := List.nodup_nil
  mem_built := fun _ => Iff.rfl
  faithful := nofun

theorem sound_run (forest : Nat → Tree Node) (describeNode : Node → String) (session : Session)
    (deeds : List (Deed Node)) : Sound session (run forest describeNode session deeds) :=
  List.foldlRecOn deeds (perform forest describeNode) (sound_start session)
    fun _ sound deed _ => sound.perform deed

theorem standing_run (forest : Nat → Tree Node) (describeNode : Node → String) (session : Session)
    (deeds : List (Deed Node)) :
    (run forest describeNode session deeds).client.session.standing =
      deeds.foldl Deed.standing session.standing := by
  induction deeds using List.reverseRecOn with
  | nil => rfl
  | append_singleton deeds deed ih =>
    rw [List.foldl_concat, ← ih, run, List.foldl_concat]
    exact Client.standing_act forest describeNode _ deed

/-- What is certain of the readings after all deeds. -/
structure Accounted (forest : Nat → Tree Node) (describeNode : Node → String) (session : Session)
    (deeds : List (Deed Node)) (ledger : Ledger Node) : Prop where
  /-- A source has been asked once for each context built from conventions with it, and once for
  each description of such conventions. -/
  calls : ∀ number < session.sources.list.length,
    ledger.sources.calls number = session.sources.calls number +
      ((ledger.builtFrom number).length + (ledger.describedFrom number).length)
  /-- The readings of a source have its answers one by one, in their order. -/
  in_turn : ∀ number < session.sources.list.length,
    (ledger.readingsOf number).map Reading.asked =
      List.range' (session.sources.calls number) (ledger.readingsOf number).length
  built_once : (ledger.built.map Context.number).Nodup
  /-- The contexts that were built are those that the client obtained, in whatever way. -/
  mem_built : ∀ context, context ∈ ledger.built ↔ context ∈ ledger.client.contexts
  /-- The convention, the policy and the index of a context, and the text of a description, are
  those of the conventions with the answer they got. -/
  faithful : ∀ reading ∈ ledger.readings, reading.Faithful session.sources
  /-- A deed reads the conventions that it needs, once, and no others. -/
  reads : ∀ deed, (ledger.perform forest describeNode deed).readings.map Reading.conventions =
    ledger.readings.map Reading.conventions ++ (ledger.needs? deed).toList
  quiet : ∀ deed, ledger.needs? deed = none →
    (ledger.perform forest describeNode deed).sources = ledger.sources
  kept : ∀ deed,
    ledger.client.contexts <+: (ledger.perform forest describeNode deed).client.contexts
  /-- The default is the one set last, unless it was reset since. -/
  standing : ledger.client.session.standing = deeds.foldl Deed.standing session.standing

theorem Sound.readings_perform (sound : Sound session ledger) (deed : Deed Node) :
    (ledger.perform forest describeNode deed).readings.map Reading.conventions =
      ledger.readings.map Reading.conventions ++ (ledger.needs? deed).toList := by
  cases needs : ledger.needs? deed with
  | none => rw [(sound.quiet_of_needs_none needs).readings, Option.toList_none, List.append_nil]
  | some conventions =>
    obtain ⟨reading, rfl, reads⟩ := sound.exists_reads needs
    rw [reads.readings, List.map_append, List.map_singleton, Option.toList_some]

/-- Whatever the deeds, and whatever the sources answer from one time to the next. -/
theorem run_accounted (forest : Nat → Tree Node) (describeNode : Node → String)
    (session : Session) (deeds : List (Deed Node)) :
    Accounted forest describeNode session deeds (run forest describeNode session deeds) :=
  have sound := sound_run forest describeNode session deeds
  { calls := fun number present =>
      (sound.calls number present).trans
        (congrArg _ (Reading.length_built_add_described _).symm)
    in_turn := sound.in_turn
    built_once := sound.built_once
    mem_built := sound.mem_built
    faithful := sound.faithful
    reads := fun deed => sound.readings_perform deed
    quiet := fun _ needs => (sound.quiet_of_needs_none needs).sources
    kept := fun deed => Client.contexts_act forest describeNode _ deed
    standing := standing_run forest describeNode session deeds }

end Ledger
end TreeSelect.Registry
