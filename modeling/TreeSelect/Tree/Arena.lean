import TreeSelect.Association
import TreeSelect.Tree

/-! Trees whose nodes are numbered in the order in which they are made. Node 0 is the document. -/

namespace TreeSelect

structure Element where
  tag : String
  attributes : Association String String

/-- An attribute that is given again keeps its place and takes the later value. -/
def Element.ofList (tag : String) (attributes : List (String × String)) : Element :=
  ⟨tag, .ofList attributes⟩

inductive Content where
  | document
  | element (element : Element)
  | text (text : String)

namespace Arena

structure Node where
  content : Content
  parent : Option Nat
  children : List Nat
  previousSibling : Option Nat

end Arena

structure Arena where
  nodes : Array Arena.Node

namespace Arena

/-- A node that is attached nowhere. -/
def Node.detached (content : Content) : Node := ⟨content, none, [], none⟩

/-- The document alone. -/
def new : Arena := ⟨#[.detached .document]⟩

def root : Nat := 0

def size (arena : Arena) : Nat := arena.nodes.size

def get? (arena : Arena) (id : Nat) : Option Node := arena.nodes[id]?

/-- The number of the new node is the former size. -/
def alloc (arena : Arena) (content : Content) : Nat × Arena :=
  (arena.size, ⟨arena.nodes.push (.detached content)⟩)

/-- Makes `child` the last child of `parent`. It is not taken from the children of an earlier
parent. Both must exist. -/
def appendChild? (arena : Arena) (parent child : Nat) : Option Arena :=
  match arena.get? parent with
  | none => none
  | some above =>
      if child < arena.size then
        some ⟨(arena.nodes.modify parent fun node =>
            { node with children := node.children ++ [child] }).modify child fun node =>
          { node with parent := some parent, previousSibling := above.children.getLast? }⟩
      else none

/-- A new last child of `parent`, which must exist. -/
def append? (arena : Arena) (parent : Nat) (content : Content) : Option (Nat × Arena) :=
  let (id, larger) := arena.alloc content
  (larger.appendChild? parent id).map fun attached => (id, attached)

def parent? (arena : Arena) (id : Nat) : Option Nat := (arena.get? id).bind Node.parent

def children (arena : Arena) (id : Nat) : List Nat :=
  match arena.get? id with
  | some node => node.children
  | none => []

def previousSibling? (arena : Arena) (id : Nat) : Option Nat :=
  (arena.get? id).bind Node.previousSibling

def element? (arena : Arena) (id : Nat) : Option Element :=
  match arena.get? id with
  | some ⟨.element element, _, _, _⟩ => some element
  | _ => none

def text? (arena : Arena) (id : Nat) : Option String :=
  match arena.get? id with
  | some ⟨.text text, _, _, _⟩ => some text
  | _ => none

def tree (arena : Arena) : Tree Nat where
  tag? id := (arena.element? id).map Element.tag
  attributes id :=
    match arena.element? id with
    | some element => element.attributes.entries
    | none => []
  attribute? id name := (arena.element? id).bind fun element => element.attributes.get? name
  parent? := arena.parent?
  children := arena.children
  previousSibling? := arena.previousSibling?
  depth := arena.size
  reach _ := arena.size

/-- What a node adds to the text of those above it: its own text, if it is one. -/
def chunk (arena : Arena) (id : Nat) : String := (arena.text? id).getD ""

/-- Takes the top off the stack, adds its chunk, and puts its children in its place, the first of them
on top. There is no result if the rounds end before the stack is empty. -/
def textFrom (arena : Arena) : (rounds : Nat) → (text : String) → (stack : List Nat) →
    Option String
  | _, text, [] => some text
  | 0, _, _ :: _ => none
  | rounds + 1, text, id :: stack =>
      textFrom arena rounds (text ++ arena.chunk id) (arena.children id ++ stack)

/-- The texts from a node down, one after another. -/
def textContent (arena : Arena) (id : Nat) : String :=
  (arena.textFrom (Tree.visits arena.children arena.size id) "" [id]).getD ""

end Arena
end TreeSelect
