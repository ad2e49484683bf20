import TreeSelect.Text.Record

/-! Which attributes carry the identifier that a selector names. -/

namespace TreeSelect

inductive IdCase where
  | insensitive
  | sensitive
  deriving DecidableEq, Repr

namespace IdCase

def name : IdCase → String
  | insensitive => "insensitive"
  | sensitive => "sensitive"

def ofName? (text : String) : Option IdCase := [insensitive, sensitive].find? (·.name = text)

def describe : IdCase → String
  | insensitive => "Insensitive"
  | sensitive => "Sensitive"

end IdCase

structure IdConvention where
  names : List String
  case : IdCase
  deriving DecidableEq, Repr

namespace IdConvention

def standard : IdConvention := ⟨["id", "name"], .insensitive⟩

def exact (name : String) : IdConvention := ⟨[name], .sensitive⟩

/-- Equal but for the case of ASCII letters. -/
def sameLetters (first second : String) : Bool :=
  first.toList.map Char.toLower == second.toList.map Char.toLower

def accepts (convention : IdConvention) (candidate : String) : Bool :=
  convention.names.any fun name =>
    match convention.case with
    | .insensitive => sameLetters name candidate
    | .sensitive => name == candidate

def describe (convention : IdConvention) : String :=
  Text.closedRecord "IdConvention"
    [("names", Text.listed (convention.names.map Text.quoted)),
      ("case", convention.case.describe)]

end IdConvention
end TreeSelect
