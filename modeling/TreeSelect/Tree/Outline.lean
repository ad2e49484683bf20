import TreeSelect.Tree

/-! Trees whose nodes are paths: the positions among the children that lead from the top to the
node. A path may lead nowhere. -/

namespace TreeSelect

/-- An entry of an outline; entries other than the first name the entry they belong to. -/
structure OutlineEntry where
  label : Option String
  attributes : List (String × String)
  parent : Nat
  deriving DecidableEq, Repr

/-- The first entry is the top; the others are children in the order of the list. -/
structure Outline where
  entries : List OutlineEntry
  deriving DecidableEq, Repr

namespace Outline

/-- The entries that belong to one. -/
def belonging (outline : Outline) (owner : Nat) : List Nat :=
  (outline.entries.zipIdx.filter fun (entry, index) =>
    decide (0 < index) && decide (entry.parent = owner)).map Prod.snd

/-- The entry that a path leads to from another one. -/
def locateFrom (outline : Outline) : (entry : Nat) → List Nat → Option Nat
  | entry, [] => some entry
  | entry, position :: rest =>
      match (outline.belonging entry)[position]? with
      | some child => locateFrom outline child rest
      | none => none

def locate (outline : Outline) (path : List Nat) : Option Nat :=
  if outline.entries.isEmpty then none else outline.locateFrom 0 path

def entry? (outline : Outline) (path : List Nat) : Option OutlineEntry :=
  (outline.locate path).bind fun index => outline.entries[index]?

def parent? (path : List Nat) : Option (List Nat) :=
  if path.isEmpty then none else some path.dropLast

def previousSibling? (path : List Nat) : Option (List Nat) :=
  match path.getLast? with
  | some (position + 1) => some (path.dropLast ++ [position])
  | _ => none

def children (outline : Outline) (path : List Nat) : List (List Nat) :=
  match outline.locate path with
  | some index => (List.range (outline.belonging index).length).map fun position =>
      path ++ [position]
  | none => []

def tree (outline : Outline) : Tree (List Nat) where
  tag? path := (outline.entry? path).bind OutlineEntry.label
  attributes path :=
    match outline.entry? path with
    | some entry => entry.attributes
    | none => []
  parent? := parent?
  children := outline.children
  previousSibling? := previousSibling?
  depth := outline.entries.length
  reach path := path.length + path.getLastD 0

end Outline
end TreeSelect
