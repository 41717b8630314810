import Chomsky.Cache.Stats
import Chomsky.LoadError
import Chomsky.ProducerIndex
import Chomsky.Recognition

/-!
# Events

What the library reports while it works, each event at a level of detail.

## Main definitions

* `Chomsky.Event` — the events; `Chomsky.Event.level`, `Chomsky.Event.message` — their levels and
  wording.
* `Chomsky.ProducerIndex.eventsSince`, `Chomsky.Recognition.events` — the events of look-ups and
  of recognitions.
-/

namespace Chomsky

/-- Levels of detail, the least detailed first. -/
inductive Level where
  /-- Work had to stop. -/
  | error
  /-- A setting is ignored. -/
  | warn
  /-- A stage is finished. -/
  | debug
  /-- A step was made. -/
  | trace
deriving DecidableEq

/-- The name of a level. -/
def Level.name : Level → String
  | error => "ERROR"
  | warn => "WARN"
  | debug => "DEBUG"
  | trace => "TRACE"

/-- What is reported. -/
inductive Event where
  /-- The rules were scanned for a right-hand side. -/
  | scanned (rhs : Rhs) (producers : List Symbol)
  /-- A word was rejected for a symbol that no rule produces. -/
  | unproduced (position : Nat)
  /-- A word was decided by its table. -/
  | decided (length : Nat) (accepted : Bool)
  /-- The counters of a cache. -/
  | cacheUsed (stats : Cache.Stats)
  /-- A problem was read. -/
  | problemRead (line rules words : Nat)
  /-- The setting of the word limit is not a number. -/
  | limitIgnored (value : List Char)
  /-- The reading of the input failed. -/
  | loadFailed (error : LoadError)
deriving DecidableEq

/-- The setting that holds the word limit. -/
def wordLimitVariable : String := "CYK_MAX_WORD_LEN"

/-- A symbol by its number. -/
def Symbol.inspect (a : Symbol) : String := s!"Symbol({a.toNat})"

/-- A right-hand side by the numbers of its symbols. -/
def Rhs.inspect : Rhs → String
  | terminal t => s!"Terminal({t.inspect})"
  | pair a b => s!"Pair(SymbolPair({a.inspect}, {b.inspect}))"

namespace Event

/-- The level of an event. -/
def level : Event → Level
  | scanned .. | unproduced _ | decided .. => .trace
  | cacheUsed _ | problemRead .. => .debug
  | limitIgnored _ => .warn
  | loadFailed _ => .error

/-- The wording of an event. -/
def message : Event → String
  | scanned rhs producers =>
    s!"producers of {rhs.inspect}: [" ++ ", ".intercalate (producers.map Symbol.inspect) ++ "]"
  | unproduced position => s!"no rule produces the terminal at position {position}"
  | decided length accepted => s!"word of length {length} accepted: {accepted}"
  | cacheUsed stats => stats.message
  | problemRead line rules words => s!"instance at line {line}: {rules} rules, {words} words"
  | limitIgnored value => s!"ignoring {wordLimitVariable}={Text.quote value}: not a number"
  | loadFailed error => error.message

/-- An event as one line: its level and its wording. -/
def display (e : Event) : String := e.level.name ++ " " ++ e.message

end Event

/-- The scans made since the index was in the state `earlier`. -/
def ProducerIndex.eventsSince (index earlier : ProducerIndex) : List Event :=
  (index.scansSince earlier).map fun (rhs, found) => .scanned rhs found.toList

/-- What is reported about a verdict.  The empty word is rejected in silence. -/
def Recognition.events : Recognition → List Event
  | emptyWord => []
  | unproduced position => [.unproduced position]
  | decided length accepted => [.decided length accepted]

/-- The events of a recognition that took an index from the state `earlier` to `index`. -/
def recognitionEvents (earlier : ProducerIndex) (outcome : Recognition) (index : ProducerIndex) :
    List Event :=
  index.eventsSince earlier ++ outcome.events

end Chomsky
