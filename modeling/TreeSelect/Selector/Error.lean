namespace TreeSelect

/-- Why a selector text cannot be read or used. -/
inductive SelectError where
  | noMatch (selector : String)
  | tooComplex (selector : String)
  | unsupported (pseudo : String)
  /-- An attribute selector with an operator and no value. -/
  | missingValue (selector : String)
  /-- A rule matched a text that has no meaning for it. -/
  | notUnderstood (rule text : String)
  deriving DecidableEq, Repr

def SelectError.message : SelectError → String
  | noMatch selector => "invalid selector `" ++ selector ++ "`"
  | tooComplex selector => "selector `" ++ selector ++ "` is too complex to parse"
  | unsupported pseudo =>
      "unsupported selector `" ++ pseudo ++
        "`: pseudo-classes and pseudo-elements have no matching semantics"
  | missingValue selector =>
      "attribute selector `" ++ selector ++ "` has a comparison operator but no value"
  | notUnderstood rule text =>
      "grammar rule `" ++ rule ++ "` matched `" ++ text ++
        "`, which the evaluator does not understand"

end TreeSelect
