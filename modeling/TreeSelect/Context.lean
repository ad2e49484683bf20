import TreeSelect.Conventions
import TreeSelect.Grammar
import TreeSelect.Matches
import TreeSelect.Selector.Reading

/-! One root of a tree made ready for queries. -/

namespace TreeSelect

/-- What outlives single queries: the sources of attribute names, the conventions for contexts made
without any, the warnings given, and the number of contexts made. -/
structure Session where
  sources : NameSources
  standing : Option Conventions
  warnings : Warnings
  contexts : Nat

namespace Session

def new : Session := ⟨.empty, none, .empty, 0⟩

def currentDefault (session : Session) : Conventions := session.standing.getD .standard

def setDefault (session : Session) (conventions : Conventions) : Session :=
  { session with standing := some conventions }

def resetDefault (session : Session) : Session := { session with standing := none }

end Session

/-- A root with its index. The conventions were read when it was made; the number tells it from
every other context of the session. -/
structure Context (Node : Type) where
  number : Nat
  treeNumber : Nat
  tree : Tree Node
  root : Node
  index : Index Node
  idConvention : IdConvention
  pseudoPolicy : PseudoPolicy

namespace Context
variable {Node : Type} [DecidableEq Node]

/-- Indexes a root of the tree with the given number. Without conventions the default of the
moment counts. -/
def new (session : Session) (treeNumber : Nat) (tree : Tree Node) (root : Node)
    (conventions : Option Conventions) : Context Node × Session :=
  let chosen := conventions.getD session.currentDefault
  let (idConvention, sources) := chosen.idConvention session.sources
  (⟨session.contexts, treeNumber, tree, root, .build tree root idConvention, idConvention,
      chosen.pseudoPolicy⟩,
    { session with sources := sources, contexts := session.contexts + 1 })

/-- Reads the selector at once; its matches are worked out as they are asked for. -/
def select (context : Context Node) (grammar : Grammar) (selector : String)
    (warnings : Warnings) : Except SelectError (Matches × Warnings) := do
  let group ← SelectorGroup.read grammar selector
  let given ← group.applyPolicy context.pseudoPolicy warnings
  .ok (.ofGroup group, given)

/-- The next match, and what is left then. -/
def next (context : Context Node) (found : Matches) : Option Node × Matches :=
  found.next context.index context.tree

/-- All matches that are left. -/
def remaining (context : Context Node) (found : Matches) : List Node :=
  found.buffered.filterMap context.index.node? ++
    Matches.collect context.index context.tree ⟨found.pending⟩

def describe (context : Context Node) (describeNode : Node → String) : String :=
  Text.openRecord "Context"
    [("root", describeNode context.root), ("elements", toString context.index.size),
      ("id_convention", context.idConvention.describe),
      ("pseudo_policy", context.pseudoPolicy.describe)]

end Context
end TreeSelect
