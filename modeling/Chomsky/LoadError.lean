import Chomsky.Grammar.Error

/-!
# What is wrong with an input

## Main definitions

* `Chomsky.WordError` — why a candidate word is refused.
* `Chomsky.LoadError` — what ended the reading of an input, and at which line.
* `Chomsky.LoadError.reason`, `Chomsky.LoadError.message` — the wording without and with the line.
-/

namespace Chomsky

open Text (quoteChar quote)

/-- Why a candidate word is refused. -/
inductive WordError where
  /-- The word has more symbols than the limit allows. -/
  | tooLong (length limit : Nat)
  /-- The word contains a nonterminal. -/
  | nonterminal (name : Char)
deriving DecidableEq

/-- The wording of a refusal. -/
def WordError.message : WordError → String
  | tooLong length limit => s!"word has {length} symbols, at most {limit} are allowed"
  | nonterminal name => s!"word contains nonterminal {quoteChar name}"

/-- What may be wrong at a line. -/
inductive LoadFault where
  /-- The header is not made of three fields. -/
  | header (text : List Char)
  /-- The first field of the header is not a single symbol. -/
  | startSymbol (field : List Char)
  /-- A rule line has no arrow. -/
  | noArrow (text : List Char)
  /-- The part of a rule line before the arrow is not a single symbol. -/
  | leftSide (text : List Char)
  /-- A rule or the grammar as a whole is refused. -/
  | grammar (error : GrammarError)
  /-- The input ends before the end of the rules. -/
  | rulesUnfinished
  /-- A candidate word is refused. -/
  | word (error : WordError)
  /-- The input ends before the end of the words. -/
  | wordsUnfinished
  /-- The line is not UTF-8. -/
  | notText
deriving DecidableEq

/-- The three kinds of faults. -/
inductive LoadFault.Kind where
  /-- The input does not describe a grammar. -/
  | grammar
  /-- The input does not list words. -/
  | word
  /-- The input cannot be read. -/
  | reading
deriving DecidableEq

namespace LoadFault

/-- The kind of a fault. -/
def kind : LoadFault → Kind
  | header _ | startSymbol _ | noArrow _ | leftSide _ | grammar _ | rulesUnfinished => .grammar
  | word _ | wordsUnfinished => .word
  | notText => .reading

/-- The wording of a fault. -/
def reason : LoadFault → String
  | header text => s!"expected a start symbol, nonterminals and terminals, found {quote text}"
  | startSymbol field => s!"start symbol {quote field} is not a single symbol"
  | noArrow text => s!"expected a rule, found {quote text}"
  | leftSide text => s!"left-hand side of {quote text} is not a single symbol"
  | grammar error => error.message
  | rulesUnfinished => "input ends inside the rules"
  | word error => error.message
  | wordsUnfinished => "input ends inside the words"
  | notText => "stream did not contain valid UTF-8"

end LoadFault

/-- The wording of a kind of faults. -/
def LoadFault.Kind.message : LoadFault.Kind → String
  | grammar => "invalid grammar"
  | word => "invalid word"
  | reading => "read error"

/-- What ended the reading of an input. -/
structure LoadError where
  /-- What was wrong. -/
  fault : LoadFault
  /-- The line at which it was found, counted from one.  A line number of 32 bits is the same as long as the
  input has fewer than `2 ^ 32` lines. -/
  line : Nat
deriving DecidableEq

namespace LoadError

/-- The kind of an error. -/
def kind (e : LoadError) : LoadFault.Kind := e.fault.kind

/-- The wording of an error without its line. -/
def reason (e : LoadError) : String := e.fault.reason

/-- The wording of an error. -/
def message (e : LoadError) : String := s!"{e.kind.message} at line {e.line}: {e.reason}"

end LoadError

end Chomsky
