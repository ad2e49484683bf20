import TreeSelect.Association

/-! Trees of labelled nodes, seen through the ways to move about in them. A node without a tag (a
text or a document) is walked through but never selected. -/

namespace TreeSelect

structure Tree (Node : Type) where
  /-- The type name, for elements only. -/
  tag? : Node → Option String
  /-- Names with values, in their order. -/
  attributes : Node → List (String × String)
  attribute? : Node → String → Option String :=
    fun node name => Association.find name (attributes node)
  parent? : Node → Option Node
  /-- In their order. -/
  children : Node → List Node
  /-- The sibling just before a node, element or not. -/
  previousSibling? : Node → Option Node
  /-- No chain from parent to child has more nodes. -/
  depth : Nat
  /-- No chain of parents or of previous siblings that starts behind the node has more nodes. -/
  reach : Node → Nat

namespace Tree
variable {Node : Type}

def isElement (tree : Tree Node) (node : Node) : Bool := (tree.tag? node).isSome

/-- The nodes behind the first one along a chain, at most `limit` of them. -/
def walk (next : Node → Option Node) : (limit : Nat) → Node → List Node
  | 0, _ => []
  | limit + 1, node =>
      match next node with
      | none => []
      | some other => other :: walk next limit other

/-- The closest first. -/
def ancestors (tree : Tree Node) (node : Node) : List Node :=
  walk tree.parent? (tree.reach node) node

/-- The closest first. -/
def precedingSiblings (tree : Tree Node) (node : Node) : List Node :=
  walk tree.previousSibling? (tree.reach node) node

def precedingElements (tree : Tree Node) (node : Node) : List Node :=
  (tree.precedingSiblings node).filter tree.isElement

/-- The closest preceding sibling that is an element. -/
def previousElementSibling? (tree : Tree Node) (node : Node) : Option Node :=
  (tree.precedingSiblings node).find? tree.isElement

/-- The number of nodes met below and including a node, a node met twice counting twice. -/
def visits (children : Node → List Node) : (depth : Nat) → Node → Nat
  | 0, _ => 1
  | depth + 1, node => 1 + ((children node).map (visits children depth)).foldr (· + ·) 0

/-- Takes the first node off the agenda and puts its children in its place. -/
def sweep (children : Node → List Node) : (rounds : Nat) → (agenda : List Node) → List Node
  | 0, _ => []
  | _ + 1, [] => []
  | rounds + 1, node :: agenda => node :: sweep children rounds (children node ++ agenda)

/-- The nodes from `root` down, each before its children and these in their order. -/
def preorder (tree : Tree Node) (root : Node) : List Node :=
  sweep tree.children (visits tree.children tree.depth root) [root]

end Tree
end TreeSelect
