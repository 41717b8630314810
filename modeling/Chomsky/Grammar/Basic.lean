import Chomsky.Ascending
import Chomsky.Rule
import Chomsky.SymbolSet

/-!
# Grammars in Chomsky normal form

A grammar has a table of names, in which the nonterminals come before the terminals, a start
symbol, and its rules as a strictly ascending list.  Two grammars are equal when these are, so
neither the order nor the repetition of rules counts.

## Main definitions

* `Chomsky.Grammar` — the parts of a grammar; `Chomsky.Grammar.WellFormed` — how they fit
  together.
* `Chomsky.Grammar.rhsOf`, `Chomsky.Grammar.producers` — the rules by their left-hand sides and
  by their right-hand sides.
* `Chomsky.Grammar.foreign`, `Chomsky.Grammar.word` — a symbol that no rule mentions, and the
  reading of a text as a word, where that symbol stands for all but the terminals.
* `Chomsky.Grammar.namedRules`, `Chomsky.Grammar.display` — the rules on characters, and as text,
  one on a line.
-/

namespace Chomsky

/-- The parts of a grammar in Chomsky normal form. -/
structure Grammar where
  /-- The names of the nonterminals, followed by those of the terminals. -/
  names : Names
  /-- How many of the names are nonterminals. -/
  numNonterminals : Nat
  /-- The start symbol. -/
  start : Symbol
  /-- The rules in ascending order. -/
  rules : List Rule
deriving DecidableEq

namespace Grammar

/-- The number of declared symbols. -/
def numSymbols (g : Grammar) : Nat := g.names.size

/-- Whether a symbol is the start symbol. -/
def isStart (g : Grammar) (a : Symbol) : Bool := g.start = a

/-- Whether a symbol is a declared nonterminal. -/
def isNonterminal (g : Grammar) (a : Symbol) : Bool := a.toNat < g.numNonterminals

/-- Whether a symbol is a declared terminal. -/
def isTerminal (g : Grammar) (a : Symbol) : Bool :=
  g.numNonterminals ≤ a.toNat && a.toNat < g.numSymbols

/-- The terminals are numbered after the nonterminals. -/
theorem isTerminal_iff {g : Grammar} {a : Symbol} :
    g.isTerminal a = true ↔ g.numNonterminals ≤ a.toNat ∧ a.toNat < g.numSymbols := by
  simp [isTerminal]

/-- The nonterminals, as a set of the declared symbols. -/
def nonterminals (g : Grammar) : SymbolSet := .ofPred g.numSymbols g.isNonterminal

/-- The terminals, as a set of the declared symbols. -/
def terminals (g : Grammar) : SymbolSet := .ofPred g.numSymbols g.isTerminal

/-- The number of rules. -/
def numRules (g : Grammar) : Nat := g.rules.length

/-- The right-hand sides of a nonterminal in ascending order. -/
def rhsOf (g : Grammar) (a : Symbol) : List Rhs :=
  (g.rules.filter fun r => r.lhs = a).map Rule.rhs

/-- The nonterminals with a rule for the given right-hand side. -/
def producers (g : Grammar) (rhs : Rhs) : SymbolSet :=
  .ofList g.numNonterminals ((g.rules.filter fun r => r.rhs = rhs).map Rule.lhs)

/-- The name of a declared symbol. -/
def nameOf? (g : Grammar) (a : Symbol) : Option Char := g.names.nameOf? a

/-- The declared symbol with a given name. -/
def symbolOf? (g : Grammar) (name : Char) : Option Symbol := g.names.symbolOf? name

/-- A symbol that is not declared, so that no rule mentions it. -/
def foreign (g : Grammar) : Symbol := .ofNat g.numSymbols

/-- The symbol that a character of a text stands for: the terminal of that name, or else the
foreign symbol. -/
def letter (g : Grammar) (name : Char) : Symbol :=
  ((g.symbolOf? name).filter g.isTerminal).getD g.foreign

/-- The word that a text stands for. -/
def word (g : Grammar) (text : List Char) : Word := text.map g.letter

/-- The rules on the names of symbols. -/
def namedRules (g : Grammar) : List NamedRule := g.rules.map fun r => r.named g.names

/-- The rules, one on a line. -/
def display (g : Grammar) : List Char :=
  g.rules.flatMap fun r => r.display g.names ++ ['\n']

/-- The names of the nonterminals and of the terminals are each in ascending order, no name is in
both, and the rules are in order and relate declared symbols of the right kind. -/
structure WellFormed (g : Grammar) : Prop where
  /-- The nonterminals are among the declared symbols. -/
  numNonterminals_le : g.numNonterminals ≤ g.numSymbols
  /-- Every number in use is that of a symbol. -/
  numSymbols_lt : g.numSymbols < UInt32.size
  /-- The names of the nonterminals are in order. -/
  nonterminals_ascending : Ascending (g.names.toList.take g.numNonterminals)
  /-- The names of the terminals are in order. -/
  terminals_ascending : Ascending (g.names.toList.drop g.numNonterminals)
  /-- Different symbols have different names. -/
  names_nodup : g.names.toList.Nodup
  /-- The start symbol is a nonterminal. -/
  start_lt : g.start.toNat < g.numNonterminals
  /-- The rules are in order. -/
  rules_ascending : Ascending g.rules
  /-- The left-hand sides are nonterminals. -/
  lhs_lt : ∀ r ∈ g.rules, r.lhs.toNat < g.numNonterminals
  /-- Single symbols on the right are terminals. -/
  terminal_of_mem : ∀ a t, Rule.mk a (.terminal t) ∈ g.rules →
    g.numNonterminals ≤ t.toNat ∧ t.toNat < g.numSymbols
  /-- Pairs consist of nonterminals. -/
  pair_of_mem : ∀ a b c, Rule.mk a (.pair b c) ∈ g.rules →
    b.toNat < g.numNonterminals ∧ c.toNat < g.numNonterminals

end Grammar

end Chomsky
