import TreeSelect.Association
import TreeSelect.Grammar.Error

/-! Tables of named templates. A template refers to a rule by its name in braces; expansion puts
the template of that rule, itself expanded, in a group that captures under the name. -/

namespace TreeSelect

/-- Rules in the order in which their names were first inserted. -/
structure RuleTable where
  rules : Association (List Char) (List Char)

/-- Part of a template: a letter, or a rule that stood in braces. -/
inductive Piece where
  | plain (letter : Char)
  | reference (rule : List Char)
  deriving DecidableEq, Repr

/-- The known rule whose name leads up to the first closing brace of a text. -/
def Piece.named? (known : List Char → Bool) (text : List Char) : Option (List Char) :=
  let name := text.takeWhile (· ≠ '\x7d')
  if text.contains '\x7d' && known name then some name else none

/-- The pieces of a template from left to right, after leaving out `skipped` letters. An opening
brace that begins no reference is a letter of its own. -/
def Piece.scan (known : List Char → Bool) : (skipped : Nat) → List Char → List Piece
  | _, [] => []
  | skipped + 1, _ :: rest => scan known skipped rest
  | 0, letter :: rest =>
      if letter = '\x7b' then
        match named? known rest with
        | some rule => .reference rule :: scan known (rule.length + 1) rest
        | none => .plain letter :: scan known 0 rest
      else .plain letter :: scan known 0 rest

namespace RuleTable

def empty : RuleTable := ⟨.empty⟩

def ofList (rules : List (String × String)) : RuleTable :=
  ⟨.ofList (rules.map fun (name, template) => (name.toList, template.toList))⟩

def size (table : RuleTable) : Nat := table.rules.size

def isEmpty (table : RuleTable) : Bool := table.rules.isEmpty

def get? (table : RuleTable) (name : String) : Option String :=
  (table.rules.get? name.toList).map String.ofList

/-- A template under a known name takes the place of the old one. -/
def insert (table : RuleTable) (name template : String) : RuleTable :=
  ⟨table.rules.insert name.toList template.toList⟩

def pieces (table : RuleTable) (template : List Char) : List Piece :=
  Piece.scan table.rules.contains 0 template

/-- The text of a list of pieces, where `inner` gives the text of each rule. -/
def expandPieces (inner : List Char → Except GrammarError (List Char)) :
    List Piece → Except GrammarError (List Char)
  | [] => .ok []
  | .plain letter :: rest => do
      let text ← expandPieces inner rest
      .ok (letter :: text)
  | .reference rule :: rest => do
      let body ← inner rule
      let text ← expandPieces inner rest
      .ok ('(' :: '?' :: '<' :: rule ++ '>' :: body ++ ')' :: text)

/-- The rules `chain` lead from the start rule to one that was entered before. -/
def cycleThrough (chain : List (List Char)) (rule : List Char) : GrammarError :=
  .cycle (String.ofList rule) ((chain ++ [rule]).map String.ofList)

/-- Expands a rule that was entered through the rules `entered`, the start rule first. As these
are distinct names of the table, `depth` need not exceed its size. -/
def expandFrom (table : RuleTable) : (depth : Nat) → (entered : List (List Char)) →
    (rule : List Char) → Except GrammarError (List Char)
  | 0, entered, rule => .error (cycleThrough entered rule)
  | depth + 1, entered, rule =>
      match table.rules.get? rule with
      | none => .error (.unknownRule (String.ofList rule))
      | some template =>
          expandPieces
            (fun name =>
              if name ∈ entered ++ [rule] then .error (cycleThrough (entered ++ [rule]) name)
              else expandFrom table depth (entered ++ [rule]) name)
            (table.pieces template)

/-- The pattern text of the start rule with every reference replaced. The start rule itself is
not put in a group. -/
def expand (table : RuleTable) (start : String) : Except GrammarError (List Char) :=
  table.expandFrom (table.size + 1) [] start.toList

end RuleTable
end TreeSelect
