import TreeSelect.Conventions.IdConvention
import TreeSelect.Selector.Pseudo

/-! What decides which attribute holds an identifier and how pseudo selectors are met. The name of
the attribute may come from a source that answers differently each time it is asked. -/

namespace TreeSelect

/-- A source of attribute names, with the number of times it was asked. -/
structure NameSource where
  answer : Nat → String
  calls : Nat

namespace NameSource

/-- The names in turn, and the last of them from then on. -/
def ofList (names : List String) : NameSource :=
  ⟨fun asked => names.getD (min asked (names.length - 1)) "", 0⟩

def constant (name : String) : NameSource := ⟨fun _ => name, 0⟩

end NameSource

/-- All sources, numbered in the order in which they were added. -/
structure NameSources where
  list : List NameSource

namespace NameSources

def empty : NameSources := ⟨[]⟩

def add (sources : NameSources) (source : NameSource) : Nat × NameSources :=
  (sources.list.length, ⟨sources.list ++ [source]⟩)

def calls (sources : NameSources) (number : Nat) : Nat :=
  ((sources.list[number]?).map NameSource.calls).getD 0

/-- The answer of a source, which counts the question. -/
def ask (sources : NameSources) (number : Nat) : String × NameSources :=
  match sources.list[number]? with
  | none => ("", sources)
  | some source =>
      (source.answer source.calls,
        ⟨sources.list.set number { source with calls := source.calls + 1 }⟩)

end NameSources

structure Conventions where
  /-- The number of the source that names the attribute. -/
  idName : Option Nat
  idCase : Option IdCase
  pseudoPolicy : PseudoPolicy
  deriving DecidableEq, Repr

namespace Conventions

/-- The attributes `id` and `name` in any case, and pseudo selectors ignored. -/
def standard : Conventions := ⟨none, none, .ignore⟩

/-- The convention in force now. A source is asked for its name, which is compared exactly unless
a case is given. -/
def idConvention (conventions : Conventions) (sources : NameSources) :
    IdConvention × NameSources :=
  match conventions.idName with
  | some number =>
      let (name, asked) := sources.ask number
      (⟨[name], conventions.idCase.getD .sensitive⟩, asked)
  | none => ({ IdConvention.standard with case := conventions.idCase.getD .insensitive }, sources)

/-- Describing conventions asks their source. -/
def describe (conventions : Conventions) (sources : NameSources) : String × NameSources :=
  let (name, asked) := match conventions.idName with
    | some number =>
        let (name, asked) := sources.ask number
        (some name, asked)
    | none => (none, sources)
  (Text.closedRecord "Conventions"
    [("id_attribute_name", Text.optional (name.map Text.quoted)),
      ("id_case", Text.optional (conventions.idCase.map IdCase.describe)),
      ("pseudo_policy", conventions.pseudoPolicy.describe)], asked)

end Conventions
end TreeSelect
