import TreeSelect.Text.Literal

/-! One-line descriptions of values: named fields between braces, lists between brackets, optional
values as `None` or `Some(..)`. -/

namespace TreeSelect.Text

def quoted (text : String) : String := String.ofList (literal text.toList)

def listed (items : List String) : String := "[" ++ ", ".intercalate items ++ "]"

def optional : Option String → String
  | none => "None"
  | some value => "Some(" ++ value ++ ")"

/-- All fields of the value are given. -/
def closedRecord (name : String) (fields : List (String × String)) : String :=
  name ++ " \x7b " ++ ", ".intercalate (fields.map fun (field, value) => field ++ ": " ++ value)
    ++ " \x7d"

/-- Two dots at the end stand for the fields left out. -/
def openRecord (name : String) (fields : List (String × String)) : String :=
  name ++ " \x7b " ++ ", ".intercalate (fields.map fun (field, value) => field ++ ": " ++ value)
    ++ ", .. \x7d"

end TreeSelect.Text
