import Chomsky.Grammar.Basic
import Chomsky.Grammar.Error

/-!
# Building grammars

A builder starts from two alphabets and a start symbol and takes in rules by name.  It numbers
the symbols at once: nonterminals first, then terminals, each in ascending order, so that the
order in which an alphabet is written does not matter.

Rules come in two ways.  `addRule` refuses a bad rule and leaves the builder as it was.  `rule` and
`rhs` build a chain that never stops: the first error is kept, later right-hand sides are then
ignored, and `build` reports it.

## Main definitions

* `Chomsky.Builder` — the state of a builder; `Chomsky.Builder.new` — a fresh one.
* `Chomsky.Builder.parseRhs` — the right-hand side that a text describes.
* `Chomsky.Builder.addRule`, `Chomsky.Builder.rule`, `Chomsky.Builder.rhs` — the steps.
* `Chomsky.Builder.build` — the grammar, or the first error.
* `Chomsky.Grammar.ofRules` — the grammar that two alphabets, a start symbol and rules describe.
-/

namespace Chomsky

/-- A grammar in the making. -/
structure Builder where
  /-- The name of the start symbol. -/
  start : Char
  /-- The names of the nonterminals, followed by those of the terminals. -/
  names : Names
  /-- How many of the names are nonterminals. -/
  numNonterminals : Nat
  /-- The rules so far in ascending order. -/
  rules : List Rule
  /-- The left-hand side for right-hand sides to come. -/
  lhs : Option Char
  /-- The first error of the chain. -/
  error : Option GrammarError
deriving DecidableEq

namespace Builder

/-- A builder for a grammar with the given start symbol and alphabets.  Alphabets that share a
character are an error, which names the least such character. -/
def new (start : Char) (nonterminals terminals : List Char) : Builder :=
  let ns := Ascending.ofList nonterminals
  let ts := Ascending.ofList terminals
  { start
    names := ⟨ns ++ ts⟩
    numNonterminals := ns.length
    rules := []
    lhs := none
    error := (ts.find? fun t => ns.contains t).map .overlappingAlphabets }

/-- Whether a symbol is a nonterminal. -/
def isNonterminal (b : Builder) (a : Symbol) : Bool := a.toNat < b.numNonterminals

/-- The symbol with a given name. -/
def lookup (b : Builder) (name : Char) : Except GrammarError Symbol :=
  match b.names.symbolOf? name with
  | some a => .ok a
  | none => .error (.undeclaredSymbol name)

/-- The nonterminal with a given name on the left of a rule. -/
def leftSide (b : Builder) (lhs : Char) : Except GrammarError Symbol := do
  let a ← b.lookup lhs
  if b.isNonterminal a then .ok a else .error (.terminalLhs lhs)

/-- The nonterminal with a given name in a pair on the right of a rule for `lhs`. -/
def pairMember (b : Builder) (lhs name : Char) : Except GrammarError Symbol := do
  let a ← b.lookup name
  if b.isNonterminal a then .ok a else .error (.terminalInPair lhs name)

/-- The right-hand side that a text describes, for a rule for `lhs`. -/
def parseRhs (b : Builder) (lhs : Char) : List Char → Except GrammarError Rhs
  | [name] => do
    let t ← b.lookup name
    if b.isNonterminal t then .error (.unitRule lhs name) else .ok (.terminal t)
  | [left, right] => do
    let a ← b.pairMember lhs left
    let c ← b.pairMember lhs right
    .ok (.pair a c)
  | text => .error (.arity lhs text.length)

/-- The rule that its two sides describe. -/
def parseRule (b : Builder) (lhs : Char) (rhs : List Char) : Except GrammarError Rule := do
  let a ← b.leftSide lhs
  let r ← b.parseRhs lhs rhs
  .ok ⟨a, r⟩

/-- Adds a rule.  Adding it again has no further effect. -/
def addRule (b : Builder) (lhs : Char) (rhs : List Char) : Except GrammarError Builder := do
  let r ← b.parseRule lhs rhs
  .ok { b with rules := Ascending.insert r b.rules }

/-- Adds rules in order, up to the first error. -/
def addRules (b : Builder) : List NamedRule → Except GrammarError Builder
  | [] => .ok b
  | r :: rest => do
    let b ← b.addRule r.lhs r.rhs
    b.addRules rest

/-- Sets the left-hand side for the right-hand sides that follow. -/
def rule (b : Builder) (lhs : Char) : Builder := { b with lhs := some lhs }

/-- Adds a rule for the current left-hand side, unless an error has been kept.  An error of this
step is kept. -/
def rhs (b : Builder) (rhs : List Char) : Builder :=
  match b.error, b.lhs with
  | some _, _ => b
  | none, none => { b with error := some .missingLhs }
  | none, some lhs =>
    match b.addRule lhs rhs with
    | .ok b => b
    | .error e => { b with error := some e }

/-- The grammar, or the error that was kept, or else the lack of a proper start symbol. -/
def build (b : Builder) : Except GrammarError Grammar :=
  match b.error with
  | some e => .error e
  | none =>
    match (b.names.symbolOf? b.start).filter b.isNonterminal with
    | some start => .ok ⟨b.names, b.numNonterminals, start, b.rules⟩
    | none => .error (.startNotNonterminal b.start)

end Builder

/-- The grammar with the given start symbol, alphabets and rules, or the first error. -/
def Grammar.ofRules (start : Char) (nonterminals terminals : List Char)
    (rules : List NamedRule) : Except GrammarError Grammar := do
  let b ← (Builder.new start nonterminals terminals).addRules rules
  b.build

end Chomsky
