import Chomsky.Builder

/-!
# Grammars as documents

A document holds the parts of a grammar by number, with the right-hand sides of each left-hand
side together.  Documents come from outside, so nothing about them is taken for granted: a
grammar is made from a document by building it anew from the names, which numbers its symbols
afresh and checks every rule.

## Main definitions

* `Chomsky.Document` — the parts of a grammar; `Chomsky.Document.Canonical` — in order.
* `Chomsky.Grammar.toDocument` — the document of a grammar.
* `Chomsky.Document.toGrammar` — the grammar of a document, or the first error.

## Main results

* `Chomsky.Document.ungroup_group` — no rule is lost when rules are grouped.
-/

namespace Chomsky

/-- The parts of a grammar by number. -/
structure Document where
  /-- The names of the symbols by number. -/
  names : Names
  /-- How many of the symbols are nonterminals. -/
  numNonterminals : Nat
  /-- The start symbol. -/
  start : Symbol
  /-- The right-hand sides by left-hand side. -/
  rules : List (Symbol × List Rhs)
deriving DecidableEq

namespace Document

/-- Groups rules that follow each other by their left-hand sides. -/
def group : List Rule → List (Symbol × List Rhs)
  | [] => []
  | r :: rest =>
    match group rest with
    | [] => [(r.lhs, [r.rhs])]
    | (a, rs) :: more =>
      if r.lhs = a then (a, r.rhs :: rs) :: more else (r.lhs, [r.rhs]) :: (a, rs) :: more

/-- The single rules of grouped rules. -/
def ungroup (groups : List (Symbol × List Rhs)) : List Rule :=
  groups.flatMap fun (a, rs) => rs.map (Rule.mk a)

/-- The left-hand sides are in order, and so are the right-hand sides of each. -/
def Canonical (d : Document) : Prop :=
  Ascending (d.rules.map Prod.fst) ∧ ∀ group ∈ d.rules, Ascending group.2

/-- The name of a symbol; a symbol without one is an error. -/
def nameOf (d : Document) (a : Symbol) : Except GrammarError Char :=
  match d.names.nameOf? a with
  | some name => .ok name
  | none => .error (.unknownSymbol a)

/-- Adds a rule by the names of its symbols.  Those on the right are looked up first. -/
def addRule (d : Document) (b : Builder) (r : Rule) : Except GrammarError Builder := do
  let rhs ← r.rhs.symbols.mapM d.nameOf
  let lhs ← d.nameOf r.lhs
  b.addRule lhs rhs

/-- Adds rules in order, up to the first error. -/
def addRules (d : Document) (b : Builder) : List Rule → Except GrammarError Builder
  | [] => .ok b
  | r :: rest => do
    let b ← d.addRule b r
    d.addRules b rest

/-- The grammar that a document describes.  The number of nonterminals is checked first, then the
start symbol gets its name, then the rules are added in order. -/
def toGrammar (d : Document) : Except GrammarError Grammar :=
  if d.names.size < d.numNonterminals then
    .error (.unknownSymbol (.ofNat (d.numNonterminals - 1)))
  else do
    let start ← d.nameOf d.start
    let names := d.names.toList
    let b := Builder.new start (names.take d.numNonterminals) (names.drop d.numNonterminals)
    let b ← d.addRules b (ungroup d.rules)
    b.build

/-- Grouping loses no rule and keeps the order. -/
theorem ungroup_group (rules : List Rule) : ungroup (group rules) = rules := by
  induction rules with
  | nil => rfl
  | cons r rest ih =>
    unfold group
    split
    · rename_i h
      rw [h] at ih
      simp [ungroup] at ih ⊢
      exact ih
    · rename_i a rs more h
      rw [h] at ih
      split
      · rename_i hr
        simp only [ungroup, List.flatMap_cons, List.map_cons] at ih ⊢
        rw [List.cons_append, ih, ← hr]
      · simp only [ungroup, List.flatMap_cons, List.map_cons, List.map_nil] at ih ⊢
        rw [ih]; rfl

end Document

/-- The document of a grammar. -/
def Grammar.toDocument (g : Grammar) : Document :=
  ⟨g.names, g.numNonterminals, g.start, Document.group g.rules⟩

end Chomsky
