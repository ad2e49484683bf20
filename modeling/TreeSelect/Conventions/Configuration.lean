import TreeSelect.Conventions
import TreeSelect.Json

/-! Conventions as JSON text: an object with up to three members, or an array of their values. -/

namespace TreeSelect

structure Configuration where
  idAttributeName : Option String
  idCase : Option IdCase
  pseudoPolicy : PseudoPolicy
  deriving DecidableEq, Repr

namespace Configuration
open Json (Mark writeString)

def textOf? : Json → Option String
  | .string marks => (Mark.decode marks).map String.ofList
  | _ => none

/-- Null stands for a value that is not given. -/
def optional? {Value : Type} (read : Json → Option Value) : Json → Option (Option Value)
  | .null => some none
  | value => (read value).map some

/-- A name is written as a string, or as the only member of an object, with null for its value. -/
def named? {Value : Type} (ofName? : String → Option Value) : Json → Option Value
  | .string marks => (textOf? (.string marks)).bind ofName?
  | .object [(marks, .null)] => (textOf? (.string marks)).bind ofName?
  | _ => none

/-- The members with their names decoded. -/
def decodeNames : List (List Mark × Json) → Option (List (String × Json))
  | [] => some []
  | (marks, value) :: rest => do
      let name ← textOf? (.string marks)
      let others ← decodeNames rest
      some ((name, value) :: others)

/-- The value of a member, or the default without it. A member that occurs twice has none. -/
def member? {Value : Type} (members : List (String × Json)) (name : String)
    (read : Json → Option Value) (default : Value) : Option Value :=
  match members.filter (·.1 = name) with
  | [] => some default
  | [(_, value)] => read value
  | _ => none

/-- The value of an item, or the default without it. -/
def item? {Value : Type} (items : List Json) (place : Nat) (read : Json → Option Value)
    (default : Value) : Option Value :=
  match items[place]? with
  | some value => read value
  | none => some default

def ofJson? : Json → Option Configuration
  | .object members => do
      let members ← decodeNames members
      let idAttributeName ← member? members "id-attribute-name" (optional? textOf?) none
      let idCase ← member? members "id-case" (optional? (named? IdCase.ofName?)) none
      let pseudoPolicy ← member? members "pseudo-policy" (named? PseudoPolicy.ofName?) .ignore
      some ⟨idAttributeName, idCase, pseudoPolicy⟩
  | .array items =>
      if 3 < items.length then none
      else do
        let idAttributeName ← item? items 0 (optional? textOf?) none
        let idCase ← item? items 1 (optional? (named? IdCase.ofName?)) none
        let pseudoPolicy ← item? items 2 (named? PseudoPolicy.ofName?) .ignore
        some ⟨idAttributeName, idCase, pseudoPolicy⟩
  | _ => none

def parse? (text : List Char) : Option Configuration := (Json.parse? text).bind ofJson?

def writeMember (name : String) (value : String) : List Char :=
  writeString name.toList ++ ':' :: writeString value.toList

/-- Values that are not given are left out. -/
def write (config : Configuration) : List Char :=
  let members :=
    (config.idAttributeName.map (writeMember "id-attribute-name")).toList ++
      (config.idCase.map fun case => writeMember "id-case" case.name).toList ++
      [writeMember "pseudo-policy" config.pseudoPolicy.name]
  '\x7b' :: [','].intercalate members ++ ['\x7d']

/-- The conventions of a configuration, whose attribute name becomes a source. -/
def conventions (config : Configuration) (sources : NameSources) :
    Conventions × NameSources :=
  match config.idAttributeName with
  | some name =>
      let (number, larger) := sources.add (.constant name)
      (⟨some number, config.idCase, config.pseudoPolicy⟩, larger)
  | none => (⟨none, config.idCase, config.pseudoPolicy⟩, sources)

end Configuration
end TreeSelect
