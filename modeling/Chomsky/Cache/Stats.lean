/-!
# Counters of a cache

## Main definitions

* `Chomsky.Cache.Stats` — how a membership cache was used.
* `Chomsky.Cache.Stats.message` — the counters as text.
-/

namespace Chomsky

/-- How a membership cache was used.  Counters of 64 bits show the same numbers below `2 ^ 64`. -/
structure Cache.Stats where
  /-- The number of different grammars. -/
  grammars : Nat
  /-- The number of verdicts answered from memory. -/
  hits : Nat
  /-- The number of verdicts computed. -/
  misses : Nat
  /-- The look-ups of producers, over all grammars. -/
  indexLookups : Nat
  /-- The scans of rules, over all grammars. -/
  indexScans : Nat
deriving DecidableEq

/-- The counters as text. -/
def Cache.Stats.message (s : Cache.Stats) : String :=
  s!"CacheStats \x7b grammars: {s.grammars}, hits: {s.hits}, misses: {s.misses}, " ++
    s!"index_lookups: {s.indexLookups}, index_scans: {s.indexScans} \x7d"

end Chomsky
