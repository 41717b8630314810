import Chomsky.Builder

/-!
# Membership problems

## Main definitions

* `Chomsky.Problem` — a grammar with words, asking which of them it generates.
* `Chomsky.Problem.symbolWords` — the words as sequences of symbols.
-/

namespace Chomsky

/-- A grammar and the words to be decided. -/
structure Problem where
  /-- The grammar. -/
  grammar : Grammar
  /-- The candidate words, as they are written. -/
  words : List (List Char)
deriving DecidableEq

/-- The candidate words as sequences of symbols. -/
def Problem.symbolWords (p : Problem) : List Word := p.words.map p.grammar.word

end Chomsky
