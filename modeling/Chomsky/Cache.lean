import Chomsky.Event

/-!
# Caching verdicts

A cache remembers the verdict for each grammar and word it was asked about.  Grammars count as the
same when they are equal, wherever they come from, and all words of one grammar share an index of
producers.

## Main definitions

* `Chomsky.Cache` — the remembered verdicts with counters.
* `Chomsky.Cache.membership`, `Chomsky.Cache.evaluateAll` — the verdict about a word, and the
  verdicts about several words in order.
* `Chomsky.Cache.stats` — the counters; `Chomsky.Cache.clear` — a fresh start.
* `Chomsky.evaluateAll` — the verdicts about several words, with a fresh cache.
-/

namespace Chomsky

/-- What is remembered for one grammar. -/
structure Cache.Entry where
  /-- The producers found so far. -/
  index : ProducerIndex
  /-- The verdicts by word. -/
  verdicts : Std.HashMap Word Bool

/-- The verdicts remembered so far. -/
structure Cache where
  /-- What is remembered for each grammar, in the order of the first requests. -/
  entries : List (Grammar × Cache.Entry)
  /-- The number of verdicts answered from memory.  A counter of 64 bits shows the same below `2 ^ 64`. -/
  hits : Nat
  /-- The number of verdicts computed.  A counter of 64 bits shows the same below `2 ^ 64`. -/
  misses : Nat

namespace Cache

/-- A verdict about a word and how it was reached. -/
structure Answer where
  /-- Whether the word is generated. -/
  accepted : Bool
  /-- Whether the verdict was remembered. -/
  hit : Bool
  /-- What is reported. -/
  events : List Event

namespace Entry

/-- Nothing is remembered. -/
def empty : Entry := ⟨.empty, ∅⟩

/-- The verdict about a word, from memory or from a recognition that is then remembered. -/
def verdict (g : Grammar) (word : Word) (entry : Entry) : Answer × Entry :=
  match entry.verdicts[word]? with
  | some accepted => (⟨accepted, true, []⟩, entry)
  | none =>
    let (outcome, index) := recognize g word entry.index
    (⟨outcome.accepted, false, recognitionEvents entry.index outcome index⟩,
      ⟨index, entry.verdicts.insert word outcome.accepted⟩)

end Entry

/-- Nothing is remembered. -/
def empty : Cache := ⟨[], 0, 0⟩

/-- The cache before any request is there by default. -/
instance : Inhabited Cache := ⟨empty⟩

/-- Applies `f` to the entry of a grammar; a grammar without one gets an empty entry first. -/
def updateEntry {α : Type} (g : Grammar) (f : Entry → α × Entry) :
    List (Grammar × Entry) → α × List (Grammar × Entry)
  | [] =>
    let (a, entry) := f .empty
    (a, [(g, entry)])
  | (h, entry) :: rest =>
    if h = g then
      let (a, entry) := f entry
      (a, (h, entry) :: rest)
    else
      let (a, rest) := updateEntry g f rest
      (a, (h, entry) :: rest)

/-- The verdict about a word, computed only on the first request for the grammar and the word. -/
def membership (cache : Cache) (g : Grammar) (word : Word) : Bool × Cache × List Event :=
  let (answer, entries) := updateEntry g (Entry.verdict g word) cache.entries
  let cache := if answer.hit then { cache with entries, hits := cache.hits + 1 }
    else { cache with entries, misses := cache.misses + 1 }
  (answer.accepted, cache, answer.events)

/-- The verdicts about several words in order. -/
def membershipAll (cache : Cache) (g : Grammar) : List Word → List Bool × Cache × List Event
  | [] => ([], cache, [])
  | word :: words =>
    let (accepted, cache, events) := cache.membership g word
    let (verdicts, cache, more) := cache.membershipAll g words
    (accepted :: verdicts, cache, events ++ more)

/-- The counters. -/
def stats (cache : Cache) : Cache.Stats where
  grammars := cache.entries.length
  hits := cache.hits
  misses := cache.misses
  indexLookups := cache.entries.foldl (fun n e => n + e.2.index.lookups) 0
  indexScans := cache.entries.foldl (fun n e => n + e.2.index.scans.length) 0

/-- Forgets all grammars and verdicts, and the counters with them. -/
def clear (_ : Cache) : Cache := .empty

/-- The verdicts about several words in order, after which the counters are reported. -/
def evaluateAll (cache : Cache) (g : Grammar) (words : List Word) :
    List Bool × Cache × List Event :=
  let (verdicts, cache, events) := cache.membershipAll g words
  (verdicts, cache, events ++ [.cacheUsed cache.stats])

end Cache

/-- The verdicts about several words in order, with a fresh cache. -/
def evaluateAll (g : Grammar) (words : List Word) : List Bool × List Event :=
  let (verdicts, _, events) := Cache.empty.evaluateAll g words
  (verdicts, events)

end Chomsky
