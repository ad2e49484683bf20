import TreeSelect.Registry

/-! A registry in use. A client opens contexts, with or without a guard, makes some beside the
registry, and closes whatever it has obtained, as often as it likes. A run leaves a history: what
every call returned or took away, the newest call first. -/

namespace TreeSelect

namespace Context
variable {Node : Type}

/-- What a registry files a context under. -/
def key (context : Context Node) : Nat × Node := (context.treeNumber, context.root)

end Context

namespace Registry
variable {Node : Type}

/-- One call. A context is named by its place among those obtained so far, a guard by its place
among those not dropped yet. -/
inductive Command (Node : Type) where
  | openRoot (treeNumber : Nat) (root : Node) (conventions : Option Conventions)
  | scope (treeNumber : Nat) (root : Node) (conventions : Option Conventions)
  | make (treeNumber : Nat) (root : Node) (conventions : Option Conventions)
  | close (place : Nat)
  | drop (place : Nat)
  | ask (treeNumber : Nat) (root : Node)
  | setDefault (conventions : Conventions)
  | resetDefault

/-- What came of a call: a context that the registry returned, one made beside it, the end of a
context by a close or by the drop of a guard, or the answer to the question whether a root is
open. An end says whether it took a context out of the registry. -/
inductive Event (Node : Type) where
  | returned (context : Context Node)
  | made (context : Context Node)
  | closed (context : Context Node) (removed : Bool)
  | dropped (context : Context Node) (removed : Bool)
  | asked (key : Nat × Node) (answer : Bool)

namespace Event

def returned? : Event Node → Option (Context Node)
  | .returned context => some context
  | _ => none

/-- The context that the client got to know. -/
def obtained? : Event Node → Option (Context Node)
  | .returned context | .made context => some context
  | _ => none

def ended? : Event Node → Option (Context Node)
  | .closed context _ | .dropped context _ => some context
  | _ => none

def removes : Event Node → Bool
  | .closed _ removed | .dropped _ removed => removed
  | _ => false

end Event

/-- A registry and a session with their client, who keeps the contexts obtained and the guards not
dropped yet. -/
structure Client (Node : Type) where
  registry : Registry Node
  session : Session
  contexts : List (Context Node)
  guards : List (Guard Node)
  history : List (Event Node)

namespace Client
variable [DecidableEq Node]

def start (session : Session) : Client Node := ⟨.empty, session, [], [], []⟩

/-- Whether the change has taken the context of the key out of the registry. -/
def removal (before after : Registry Node) (key : Nat × Node) : Bool :=
  before.isOpen key.1 key.2 && !after.isOpen key.1 key.2

/-- One call. A place at which nothing stands calls nothing. -/
def perform (forest : Nat → Tree Node) (client : Client Node) :
    Command Node → Client Node
  | .openRoot treeNumber root conventions =>
      let (context, registry, session) :=
        client.registry.openContext client.session treeNumber (forest treeNumber) root conventions
      ⟨registry, session, client.contexts ++ [context], client.guards,
        .returned context :: client.history⟩
  | .scope treeNumber root conventions =>
      let (guard, registry, session) :=
        Guard.take client.registry client.session treeNumber (forest treeNumber) root conventions
      ⟨registry, session, client.contexts ++ [guard.context], client.guards ++ [guard],
        .returned guard.context :: client.history⟩
  | .make treeNumber root conventions =>
      let (context, session) :=
        Context.new client.session treeNumber (forest treeNumber) root conventions
      { client with
        session := session
        contexts := client.contexts ++ [context]
        history := .made context :: client.history }
  | .close place =>
      match client.contexts[place]? with
      | some context =>
          let registry := client.registry.close context
          { client with
            registry := registry
            history :=
              .closed context (removal client.registry registry context.key) :: client.history }
      | none => client
  | .drop place =>
      match client.guards[place]? with
      | some guard =>
          let registry := guard.drop client.registry
          { client with
            registry := registry
            guards := client.guards.eraseIdx place
            history :=
              .dropped guard.context (removal client.registry registry guard.context.key) ::
                client.history }
      | none => client
  | .ask treeNumber root =>
      { client with
        history :=
          .asked (treeNumber, root) (client.registry.isOpen treeNumber root) :: client.history }
  | .setDefault conventions =>
      { client with session := client.session.setDefault conventions }
  | .resetDefault => { client with session := client.session.resetDefault }

def run (forest : Nat → Tree Node) (session : Session) (commands : List (Command Node)) :
    Client Node :=
  commands.foldl (perform forest) (start session)

end Client
end Registry
end TreeSelect
