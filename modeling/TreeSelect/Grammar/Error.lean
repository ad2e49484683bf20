namespace TreeSelect

/-- What makes a text no pattern. -/
inductive PatternFault where
  | unmatchedParenthesis
  | nothingToRepeat
  | expected (letter : Char)
  | invalidNameCharacter
  | emptyName
  | danglingEscape
  | unknownEscape (letter : Char)
  | invalidCodePoint
  | unterminatedClass
  | rangeOutOfOrder
  deriving DecidableEq, Repr

def PatternFault.message : PatternFault → String
  | unmatchedParenthesis => "unmatched `)`"
  | nothingToRepeat => "quantifier has nothing to repeat"
  | expected letter => "expected `" ++ letter.toString ++ "`"
  | invalidNameCharacter => "invalid character in group name"
  | emptyName => "empty group name"
  | danglingEscape => "dangling escape"
  | unknownEscape letter => "unknown escape `\\" ++ letter.toString ++ "`"
  | invalidCodePoint => "invalid unicode escape"
  | unterminatedClass => "unterminated character class"
  | rangeOutOfOrder => "character range is out of order"

/-- Why a rule table does not compile from a start rule. -/
inductive GrammarError where
  | unknownRule (rule : String)
  /-- The chain leads from the start rule to the second entry into `rule`. -/
  | cycle (rule : String) (chain : List String)
  /-- The offset counts bytes of the expanded pattern text. -/
  | pattern (offset : Nat) (fault : PatternFault)
  deriving DecidableEq, Repr

def GrammarError.message : GrammarError → String
  | unknownRule rule => "unknown grammar rule `" ++ rule ++ "`"
  | cycle rule chain =>
      "grammar rule `" ++ rule ++ "` is recursive: " ++ " -> ".intercalate chain
  | pattern offset fault => "invalid pattern at byte " ++ toString offset ++ ": " ++ fault.message

end TreeSelect
