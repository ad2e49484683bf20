import TreeSelect.Context

namespace TreeSelect

/-- Contexts kept by tree and root, so that each root is indexed once until its context is
closed. -/
structure Registry (Node : Type) where
  slots : Association (Nat × Node) (Context Node)
  builds : Nat

namespace Registry
variable {Node : Type} [DecidableEq Node]

def empty : Registry Node := ⟨.empty, 0⟩

/-- The context kept for the root. If there is none it is made, and only then do the conventions
count. -/
def openContext (registry : Registry Node) (session : Session) (treeNumber : Nat)
    (tree : Tree Node) (root : Node) (conventions : Option Conventions) :
    Context Node × Registry Node × Session :=
  match registry.slots.get? (treeNumber, root) with
  | some context => (context, registry, session)
  | none =>
      let (context, later) := Context.new session treeNumber tree root conventions
      (context, ⟨registry.slots.insert (treeNumber, root) context, registry.builds + 1⟩, later)

/-- Forgets the context, if it is the one kept for its root. -/
def close (registry : Registry Node) (context : Context Node) : Registry Node :=
  match registry.slots.get? (context.treeNumber, context.root) with
  | some kept =>
      if kept.number = context.number then
        { registry with slots := registry.slots.erase (context.treeNumber, context.root) }
      else registry
  | none => registry

def isOpen (registry : Registry Node) (treeNumber : Nat) (root : Node) : Bool :=
  registry.slots.contains (treeNumber, root)

def describe (registry : Registry Node) : String :=
  Text.closedRecord "Registry"
    [("open", toString registry.slots.size), ("builds", toString registry.builds)]

end Registry

/-- Holds a context that is closed when the guard is dropped. -/
structure Guard (Node : Type) where
  context : Context Node

namespace Guard
variable {Node : Type} [DecidableEq Node]

/-- Opens a context under a guard. -/
def take (registry : Registry Node) (session : Session) (treeNumber : Nat) (tree : Tree Node)
    (root : Node) (conventions : Option Conventions) : Guard Node × Registry Node × Session :=
  let (context, changed, later) :=
    registry.openContext session treeNumber tree root conventions
  (⟨context⟩, changed, later)

def drop (guard : Guard Node) (registry : Registry Node) : Registry Node :=
  registry.close guard.context

def describe (guard : Guard Node) (describeNode : Node → String) : String :=
  "ScopedContext(" ++ guard.context.describe describeNode ++ ")"

end Guard
end TreeSelect
