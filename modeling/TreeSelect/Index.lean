import TreeSelect.Association
import TreeSelect.Conventions.IdConvention
import TreeSelect.Ordinals
import TreeSelect.Tree

/-! The elements below a root, numbered in document order, with look-ups by identifier, type and
attribute name. -/

namespace TreeSelect

structure Index (Node : Type) where
  /-- The place of an element is its ordinal. -/
  nodes : Array Node
  ordinals : Association Node Nat
  ids : Association String Nat
  types : Association String Ordinals
  attributes : Association String Ordinals

namespace Index
variable {Node : Type} [DecidableEq Node]

def empty : Index Node := ⟨#[], .empty, .empty, .empty, .empty⟩

/-- The set that a table has for a key gains a member. -/
def enlist (table : Association String Ordinals) (key : String) (ordinal : Nat) :
    Association String Ordinals :=
  table.alter key fun known => (known.getD .empty).insert ordinal

/-- Enters an attribute of the element with the given ordinal. Of several elements with one
identifier the last counts. -/
def addAttribute (convention : IdConvention) (ordinal : Nat) (index : Index Node)
    (entry : String × String) : Index Node :=
  { index with
    ids :=
      if convention.accepts entry.1 then index.ids.insert entry.2 ordinal else index.ids
    attributes := enlist index.attributes entry.1 ordinal }

/-- Enters a node, if it is an element, under the next ordinal. -/
def add (tree : Tree Node) (convention : IdConvention) (index : Index Node) (node : Node) :
    Index Node :=
  match tree.tag? node with
  | none => index
  | some tag =>
      let ordinal := index.nodes.size
      let entered := (tree.attributes node).foldl (addAttribute convention ordinal) index
      { entered with
        nodes := index.nodes.push node
        ordinals := index.ordinals.insert node ordinal
        types := enlist index.types tag ordinal }

def build (tree : Tree Node) (root : Node) (convention : IdConvention) : Index Node :=
  (tree.preorder root).foldl (add tree convention) empty

def size (index : Index Node) : Nat := index.nodes.size

def isEmpty (index : Index Node) : Bool := index.nodes.isEmpty

def node? (index : Index Node) (ordinal : Nat) : Option Node := index.nodes[ordinal]?

def ordinal? (index : Index Node) (node : Node) : Option Nat := index.ordinals.get? node

def all (index : Index Node) : Ordinals := .below index.size

def byId? (index : Index Node) (id : String) : Option Nat := index.ids.get? id

def byType? (index : Index Node) (tag : String) : Option Ordinals := index.types.get? tag

def byAttribute? (index : Index Node) (name : String) : Option Ordinals :=
  index.attributes.get? name

/-- The elements with the given ordinals; unknown ones are left out. -/
def resolve (index : Index Node) (set : Ordinals) : List Node := set.toList.filterMap index.node?

end Index
end TreeSelect
