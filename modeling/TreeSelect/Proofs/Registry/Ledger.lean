import TreeSelect.Proofs.Registry.Safety
import TreeSelect.Proofs.Registry.Sources

/-! A ledger of what conventions were read for. A client opens, makes, closes, drops, selects,
describes and changes the default in any order; every context object that comes up for the first
time is entered, and so is every description of conventions. -/

namespace TreeSelect

theorem Context.new_eq {Node : Type} [DecidableEq Node] (session : Session) (treeNumber : Nat)
    (tree : Tree Node) (root : Node) (given : Option Conventions) :
    Context.new session treeNumber tree root given =
      let chosen := given.getD session.currentDefault
      let convention := chosen.withName (chosen.nameAt session.sources (chosen.asked session.sources))
      (⟨session.contexts, treeNumber, tree, root, .build tree root convention, convention,
          chosen.pseudoPolicy⟩,
        { session with
          sources := chosen.read session.sources
          contexts := session.contexts + 1 }) := by
  rw [Context.new, Conventions.idConvention_eq]

namespace Registry
variable {Node : Type}

inductive Purpose (Node : Type) where
  | built (context : Context Node)
  | described (text : String)

/-- An entry of the ledger: the conventions, how often their source had been asked before, and what
came of it. -/
structure Reading (Node : Type) where
  conventions : Conventions
  asked : Nat
  purpose : Purpose Node

namespace Reading

def built? (reading : Reading Node) : Option (Context Node) :=
  match reading.purpose with
  | .built context => some context
  | .described _ => none

def described? (reading : Reading Node) : Option String :=
  match reading.purpose with
  | .built _ => none
  | .described text => some text

/-- Every reading was for a context or for a description. -/
theorem length_built_add_described (readings : List (Reading Node)) :
    (readings.filterMap built?).length + (readings.filterMap described?).length =
      readings.length := by
  induction readings with
  | nil => rfl
  | cons reading readings ih =>
    obtain ⟨conventions, asked, purpose⟩ := reading
    cases purpose with
    | built context =>
      simp only [List.filterMap_cons, built?, described?, List.length_cons, ← ih]
      exact Nat.add_right_comm ..
    | described text =>
      simp only [List.filterMap_cons, built?, described?, List.length_cons, ← ih]
      exact (Nat.add_assoc ..).symm

/-- What came of a reading follows from the one answer given then. -/
def Faithful [DecidableEq Node] (sources : NameSources) (reading : Reading Node) : Prop :=
  let name := reading.conventions.nameAt sources reading.asked
  match reading.purpose with
  | .built context =>
      context.idConvention = reading.conventions.withName name ∧
        context.pseudoPolicy = reading.conventions.pseudoPolicy ∧
          context.index = .build context.tree context.root context.idConvention
  | .described text => text = reading.conventions.describeWith name

end Reading

/-- What can be described: conventions, the default, a context or a guard by its place, and the
registry. -/
inductive Subject where
  | conventions (conventions : Conventions)
  | standing
  | context (place : Nat)
  | guard (place : Nat)
  | registry

/-- A call of the client, a selection in a context obtained before, or a description. -/
inductive Deed (Node : Type) where
  | call (command : Command Node)
  | select (place : Nat) (grammar : Grammar) (selector : String)
  | describe (subject : Subject)

/-- The default that is set after a deed, if one was set before or not. -/
def Deed.standing (before : Option Conventions) : Deed Node → Option Conventions
  | .call (.setDefault conventions) => some conventions
  | .call .resetDefault => none
  | _ => before

/-- The conventions that a call gives for a context. -/
def Command.given : Command Node → Option Conventions
  | .openRoot _ _ given | .scope _ _ given | .make _ _ given => given
  | _ => none

namespace Client

/-- Every context obtained is among those that the client keeps. -/
def Knows (client : Client Node) : Prop :=
  ∀ context ∈ obtained client.history, context ∈ client.contexts

/-- The latest context obtained, if the client has met its number for the first time. -/
def fresh? (before after : Client Node) : Option (Context Node) :=
  after.contexts.getLast?.filter fun context => context.number ∉ before.contexts.map Context.number

theorem fresh?_of_same {before after : Client Node} (same : after.contexts = before.contexts) :
    fresh? before after = none := by
  rw [fresh?, same, Option.filter_eq_none_iff]
  intro context last
  simpa using ⟨context, List.mem_of_getLast? last, rfl⟩

theorem fresh?_of_known {before after : Client Node} {context : Context Node}
    (longer : after.contexts = before.contexts ++ [context]) (known : context ∈ before.contexts) :
    fresh? before after = none := by
  rw [fresh?, longer, List.getLast?_concat, Option.filter_some, if_neg]
  simpa using ⟨context, known, rfl⟩

theorem fresh?_of_new {before after : Client Node} {context : Context Node}
    (longer : after.contexts = before.contexts ++ [context])
    (new : ∀ other ∈ before.contexts, other.number ≠ context.number) :
    fresh? before after = some context := by
  rw [fresh?, longer, List.getLast?_concat, Option.filter_some, if_pos]
  simpa using new

/-- The matches are worked out from the context alone; only the warnings change. -/
def select (client : Client Node) (place : Nat) (grammar : Grammar) (selector : String) :
    Client Node :=
  match client.contexts[place]? with
  | some context =>
      match context.select grammar selector client.session.warnings with
      | .ok (_, warnings) =>
          { client with session := { client.session with warnings := warnings } }
      | .error _ => client
  | none => client

/-- A selection can do no more than warn. -/
theorem exists_select_eq (client : Client Node) (place : Nat) (grammar : Grammar)
    (selector : String) : ∃ warnings, client.select place grammar selector =
      { client with session := { client.session with warnings := warnings } } := by
  rw [select]
  split
  next =>
    split
    next => exact ⟨_, rfl⟩
    next => exact ⟨_, rfl⟩
  next => exact ⟨_, rfl⟩

variable [DecidableEq Node]

def shown? (client : Client Node) : Subject → Option Conventions
  | .conventions conventions => some conventions
  | .standing => some client.session.currentDefault
  | _ => none

def describe (describeNode : Node → String) (client : Client Node) :
    Subject → String × NameSources
  | .conventions conventions => conventions.describe client.session.sources
  | .standing => client.session.currentDefault.describe client.session.sources
  | .context place =>
      ((client.contexts[place]?.map (·.describe describeNode)).getD "", client.session.sources)
  | .guard place =>
      ((client.guards[place]?.map (·.describe describeNode)).getD "", client.session.sources)
  | .registry => (client.registry.describe, client.session.sources)

def act (forest : Nat → Tree Node) (describeNode : Node → String) (client : Client Node) :
    Deed Node → Client Node
  | .call command => client.perform forest command
  | .select place grammar selector => client.select place grammar selector
  | .describe subject =>
      { client with
        session :=
          { client.session with sources := (client.describe describeNode subject).2 } }

end Client

/-- A client, and every reading of conventions so far, the first one in front. -/
structure Ledger (Node : Type) where
  client : Client Node
  readings : List (Reading Node)

namespace Ledger

def sources (ledger : Ledger Node) : NameSources := ledger.client.session.sources

def readingsOf (ledger : Ledger Node) (number : Nat) : List (Reading Node) :=
  ledger.readings.filter (·.conventions.idName = some number)

def builtFrom (ledger : Ledger Node) (number : Nat) : List (Context Node) :=
  (ledger.readingsOf number).filterMap Reading.built?

def describedFrom (ledger : Ledger Node) (number : Nat) : List String :=
  (ledger.readingsOf number).filterMap Reading.described?

/-- The contexts that were built, in the order of their making. -/
def built (ledger : Ledger Node) : List (Context Node) := ledger.readings.filterMap Reading.built?

/-- The deed reads no conventions, and shows no context that was not known. -/
structure Quiet (before after : Ledger Node) : Prop where
  readings : after.readings = before.readings
  sources : after.sources = before.sources
  contexts : ∀ context, context ∈ after.client.contexts ↔ context ∈ before.client.contexts

variable {ledger later : Ledger Node} {reading : Reading Node}

theorem readingsOf_append (readings : later.readings = ledger.readings ++ [reading]) (number : Nat) :
    later.readingsOf number = ledger.readingsOf number ++
      if reading.conventions.idName = some number then [reading] else [] := by
  rw [readingsOf, readingsOf, readings, List.filter_append]
  congr 1
  split
  next named => exact List.filter_cons_of_pos (by simpa using named)
  next other => exact List.filter_cons_of_neg (by simpa using other)

theorem Quiet.built (quiet : Quiet ledger later) : later.built = ledger.built := by
  rw [Ledger.built, Ledger.built, quiet.readings]

variable [DecidableEq Node]

/-- A context that was not known before is entered as built, with the conventions given for it or
else the default, and a description of conventions as such. -/
def record? (forest : Nat → Tree Node) (describeNode : Node → String) (ledger : Ledger Node) :
    Deed Node → Option (Reading Node)
  | .call command =>
      let conventions := command.given.getD ledger.client.session.currentDefault
      (Client.fresh? ledger.client (ledger.client.perform forest command)).map fun context =>
        ⟨conventions, conventions.asked ledger.sources, .built context⟩
  | .select _ _ _ => none
  | .describe subject =>
      (ledger.client.shown? subject).map fun conventions =>
        ⟨conventions, conventions.asked ledger.sources,
          .described (ledger.client.describe describeNode subject).1⟩

def perform (forest : Nat → Tree Node) (describeNode : Node → String) (ledger : Ledger Node)
    (deed : Deed Node) : Ledger Node :=
  ⟨ledger.client.act forest describeNode deed,
    ledger.readings ++ (ledger.record? forest describeNode deed).toList⟩

def run (forest : Nat → Tree Node) (describeNode : Node → String) (session : Session)
    (deeds : List (Deed Node)) : Ledger Node :=
  deeds.foldl (perform forest describeNode) ⟨.start session, []⟩

/-- The conventions that a deed has to read: those of a context that is not kept yet, and those it
describes. -/
def needs? (ledger : Ledger Node) : Deed Node → Option Conventions
  | .call (.openRoot treeNumber root given) | .call (.scope treeNumber root given) =>
      if ledger.client.registry.isOpen treeNumber root then none
      else some (given.getD ledger.client.session.currentDefault)
  | .call (.make _ _ given) => some (given.getD ledger.client.session.currentDefault)
  | .call _ => none
  | .select _ _ _ => none
  | .describe subject => ledger.client.shown? subject

/-- The deed reads conventions once, for a new context or for a description. -/
structure Reads (before after : Ledger Node) (reading : Reading Node) : Prop where
  readings : after.readings = before.readings ++ [reading]
  asked : reading.asked = reading.conventions.asked before.sources
  sources : after.sources = reading.conventions.read before.sources
  faithful : reading.Faithful before.sources
  fresh : ∀ context ∈ reading.built?, ∀ other ∈ before.client.contexts,
    other.number ≠ context.number
  contexts : ∀ context, context ∈ after.client.contexts ↔
    context ∈ reading.built? ∨ context ∈ before.client.contexts

/-- What holds of a ledger at any time. -/
structure Sound (session : Session) (ledger : Ledger Node) : Prop where
  client : Client.Sound ledger.client
  knows : Client.Knows ledger.client
  length : ledger.sources.list.length = session.sources.list.length
  answers : ∀ number asked, ledger.sources.answer number asked = session.sources.answer number asked
  calls : ∀ number < session.sources.list.length,
    ledger.sources.calls number = session.sources.calls number + (ledger.readingsOf number).length
  in_turn : ∀ number < session.sources.list.length,
    (ledger.readingsOf number).map Reading.asked =
      List.range' (session.sources.calls number) (ledger.readingsOf number).length
  built_once : (ledger.built.map Context.number).Nodup
  mem_built : ∀ context, context ∈ ledger.built ↔ context ∈ ledger.client.contexts
  faithful : ∀ reading ∈ ledger.readings, reading.Faithful session.sources

variable {session : Session}

theorem Reads.built (reads : Reads ledger later reading) :
    later.built = ledger.built ++ reading.built?.toList := by
  rw [Ledger.built, Ledger.built, reads.readings, List.filterMap_append]
  cases built : reading.built? with
  | none => simp [built]
  | some context => simp [built]

/-- The same source asked as often gives the same name, so what came of a reading can be judged by
the sources as they were in the beginning. -/
theorem faithful_congr {first second : NameSources}
    (same : ∀ number asked, first.answer number asked = second.answer number asked) :
    reading.Faithful first ↔ reading.Faithful second := by
  have name : reading.conventions.nameAt first reading.asked =
      reading.conventions.nameAt second reading.asked := by
    simp only [Conventions.nameAt, same]
  rw [Reading.Faithful, Reading.Faithful, name]

theorem Sound.quiet (sound : Sound session ledger) (quiet : Quiet ledger later)
    (client : Client.Sound later.client) (knows : Client.Knows later.client) :
    Sound session later := by
  have same (number : Nat) : later.readingsOf number = ledger.readingsOf number := by
    rw [readingsOf, readingsOf, quiet.readings]
  exact {
    client := client
    knows := knows
    length := by rw [quiet.sources, sound.length]
    answers := by rw [quiet.sources]; exact sound.answers
    calls := fun number present => by rw [quiet.sources, same, sound.calls number present]
    in_turn := fun number present => by rw [same, sound.in_turn number present]
    built_once := by rw [quiet.built]; exact sound.built_once
    mem_built := fun context => by rw [quiet.built, sound.mem_built, quiet.contexts]
    faithful := by rw [quiet.readings]; exact sound.faithful }

/-- A deed that reads conventions asks their source once, and the entry for it tells how often that
source had been asked before. -/
theorem Sound.reads (sound : Sound session ledger) (reads : Reads ledger later reading)
    (client : Client.Sound later.client) (knows : Client.Knows later.client) :
    Sound session later := by
  have calls (number : Nat) (present : number < session.sources.list.length) :
      later.sources.calls number =
        session.sources.calls number + (later.readingsOf number).length := by
    rw [reads.sources, Conventions.calls_read _ _ (sound.length ▸ present),
      sound.calls number present, readingsOf_append reads.readings, List.length_append, Nat.add_assoc]
    split
    next => rfl
    next => rfl
  have in_turn (number : Nat) (present : number < session.sources.list.length) :
      (later.readingsOf number).map Reading.asked =
        List.range' (session.sources.calls number) (later.readingsOf number).length := by
    rw [readingsOf_append reads.readings]
    split
    next named =>
      have asked : reading.asked =
          session.sources.calls number + (ledger.readingsOf number).length := by
        rw [reads.asked, Conventions.asked, named, ← sound.calls number present]
        rfl
      rw [List.map_append, sound.in_turn number present, List.map_singleton, asked,
        List.length_append, List.length_singleton, List.range'_concat, Nat.one_mul]
    next => rw [List.append_nil, sound.in_turn number present]
  have built_once : (later.built.map Context.number).Nodup := by
    rw [reads.built, List.map_append, List.nodup_append]
    refine ⟨sound.built_once, ?_, ?_⟩
    · cases reading.built? <;> simp
    · intro old member new fresh same
      obtain ⟨other, built, rfl⟩ := List.mem_map.mp member
      obtain ⟨context, this, rfl⟩ := List.mem_map.mp fresh
      exact reads.fresh context (by simpa using this) other ((sound.mem_built other).mp built) same
  exact {
    client := client
    knows := knows
    length := by rw [reads.sources, Conventions.length_read, sound.length]
    answers := fun number asked => by
      rw [reads.sources, Conventions.answer_read, sound.answers]
    calls := calls
    in_turn := in_turn
    built_once := built_once
    mem_built := fun context => by
      rw [reads.built, List.mem_append, sound.mem_built, reads.contexts, Option.mem_toList]
      exact or_comm
    faithful := by
      rw [reads.readings]
      refine List.forall_mem_append.mpr ⟨sound.faithful, List.forall_mem_singleton.mpr ?_⟩
      exact (faithful_congr sound.answers).mp reads.faithful }

end Ledger

end Registry
end TreeSelect
