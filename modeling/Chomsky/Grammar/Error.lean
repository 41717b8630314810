import Chomsky.Symbol
import Chomsky.Text.Quoted

/-!
# What is wrong with a grammar

## Main definitions

* `Chomsky.GrammarError` — the ways in which a description fails to be a grammar in Chomsky
  normal form over its alphabets.
* `Chomsky.GrammarError.message` — the wording of each.
-/

namespace Chomsky

/-- Why a description is not a grammar in Chomsky normal form. -/
inductive GrammarError where
  /-- The start symbol is not a declared nonterminal. -/
  | startNotNonterminal (start : Char)
  /-- A character is declared both as a nonterminal and as a terminal. -/
  | overlappingAlphabets (name : Char)
  /-- A rule mentions a character outside both alphabets. -/
  | undeclaredSymbol (name : Char)
  /-- The left-hand side of a rule is a terminal. -/
  | terminalLhs (name : Char)
  /-- A single nonterminal stands on the right of a rule. -/
  | unitRule (lhs rhs : Char)
  /-- A terminal stands in a pair on the right of a rule. -/
  | terminalInPair (lhs terminal : Char)
  /-- There are neither one nor two symbols on the right of a rule. -/
  | arity (lhs : Char) (length : Nat)
  /-- A right-hand side is given before any left-hand side. -/
  | missingLhs
  /-- A symbol is used by its number but has no name. -/
  | unknownSymbol (symbol : Symbol)
deriving DecidableEq

open Text (quoteChar) in
/-- The wording of an error. -/
def GrammarError.message : GrammarError → String
  | startNotNonterminal start => s!"start symbol {quoteChar start} is not a declared nonterminal"
  | overlappingAlphabets name => s!"symbol {quoteChar name} is both a nonterminal and a terminal"
  | undeclaredSymbol name => s!"symbol {quoteChar name} is not declared"
  | terminalLhs name => s!"terminal {quoteChar name} cannot be a left-hand side"
  | unitRule lhs rhs => s!"rule {lhs} -> {rhs} derives a single nonterminal"
  | terminalInPair lhs terminal =>
    s!"rule for {lhs} has terminal {quoteChar terminal} in a pair of nonterminals"
  | arity lhs length =>
    s!"rule for {lhs} has {length} symbols on the right-hand side, expected 1 or 2"
  | missingLhs => "right-hand side without a rule"
  | unknownSymbol symbol => s!"symbol ID {symbol.toNat} is not declared"

end Chomsky
