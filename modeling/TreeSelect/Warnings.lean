namespace TreeSelect

/-- The warnings given so far, each of them once. -/
structure Warnings where
  given : List String
  deriving DecidableEq, Repr

namespace Warnings

def empty : Warnings := ⟨[]⟩

/-- The text under which a warning is remembered. -/
def key (component message : String) : String := "[" ++ component ++ "] " ++ message

/-- Whether the warning is new, and the warnings with it. -/
def issue (warnings : Warnings) (component message : String) : Bool × Warnings :=
  if key component message ∈ warnings.given then (false, warnings)
  else (true, ⟨key component message :: warnings.given⟩)

end Warnings
end TreeSelect
