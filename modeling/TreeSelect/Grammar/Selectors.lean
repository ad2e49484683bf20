import TreeSelect.Grammar
import TreeSelect.Grammar.Rule

/-! The grammar of selectors: alternatives separated by commas, each a chain of compounds joined by
combinators, with an optional pseudo-element at the end. -/

namespace TreeSelect

def RuleTable.selectors : RuleTable := .ofList
  [(Rule.groupOfSelectors, r"^\s*{Selector}(\s*,\s*{Selector})*\s*$"),
    (Rule.selector, r"{SimpleSelectorSeq}{CombinatorSeq}*{PseudoElement}?"),
    (Rule.combinatorSeq, r"\s*{Combinator}\s*{SimpleSelectorSeq}"),
    (Rule.simpleSelectorSeq,
      r"({TypeSelector}|{UniversalSelector}){SimpleSelector}*|{SimpleSelector}+"),
    (Rule.simpleSelector, r"{AttributeSelector}|{IdSelector}|{PseudoSelector}"),
    (Rule.typeSelector, r"{Identifier}"),
    (Rule.universalSelector, r"\*"),
    (Rule.attributeSelector,
      r"\[\s*{Identifier}(\s*{ComparisonOp}\s*{AttributeValue})?\s*\]"),
    (Rule.idSelector, r"#{Identifier}"),
    (Rule.pseudoSelector, r":{Identifier}{PseudoArgs}?"),
    (Rule.pseudoElement, r"::{Identifier}"),
    (Rule.pseudoArgs, r#"\(({QuotedString}|[^)'"])*\)"#),
    (Rule.comparisonOp, r"[~^$*|!]?="),
    (Rule.combinator, r"[\s>+~]"),
    (Rule.identifier,
      r"-?[a-zA-Z_\u{A0}-\u{10FFFF}][a-zA-Z0-9_\-\u{A0}-\u{10FFFF}]*"),
    (Rule.attributeValue, r"{Identifier}|{QuotedString}"),
    (Rule.quotedString,
      r#""(?:[^\\"\r\n]|\\\r\n|\\.)*"|'(?:[^\\'\r\n]|\\\r\n|\\.)*'"#)]

/-- The names and templates are turned into lists of letters before anything is evaluated. -/
theorem RuleTable.compile_selectors :
    (RuleTable.selectors.compile Rule.groupOfSelectors).isOk = true := by
  simp only [RuleTable.selectors, RuleTable.ofList, List.map_cons, List.map_nil,
    Rule.groupOfSelectors, Rule.selector, Rule.combinatorSeq, Rule.simpleSelectorSeq,
    Rule.simpleSelector, Rule.typeSelector, Rule.universalSelector, Rule.attributeSelector,
    Rule.idSelector, Rule.pseudoSelector, Rule.pseudoElement, Rule.pseudoArgs, Rule.comparisonOp,
    Rule.combinator, Rule.identifier, Rule.attributeValue, Rule.quotedString]
  repeat rw [String.toList_ofList]
  decide +kernel

/-- The value of a computation known to succeed. -/
def Grammar.ofOk : (result : Except GrammarError Grammar) → result.isOk = true → Grammar
  | .ok grammar, _ => grammar
  | .error _, failed => absurd failed (by simp [Except.isOk, Except.toBool])

def Grammar.selectors : Grammar :=
  .ofOk (RuleTable.selectors.compile Rule.groupOfSelectors) RuleTable.compile_selectors

end TreeSelect
