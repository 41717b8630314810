import Chomsky.Grammar.Basic
import Std.Data.HashMap

/-!
# Producers by right-hand side

The recognizer asks again and again which nonterminals produce a right-hand side.  An index
answers from memory when it can: the rules are scanned once for each different right-hand side, on
its first look-up.  An index belongs to one grammar.

## Main definitions

* `Chomsky.ProducerIndex` — the remembered answers, with the scans in order and a count of
  look-ups.
* `Chomsky.ProducerIndex.lookup` — the producers of a right-hand side.
* `Chomsky.ProducerIndex.scansSince` — the scans made after an earlier state of the index.

## Main results

* `Chomsky.ProducerIndex.lookups_lookup` — each look-up counts once.
-/

namespace Chomsky

/-- The producers found so far in one grammar. -/
structure ProducerIndex where
  /-- The producers of each right-hand side looked up. -/
  memo : Std.HashMap Rhs SymbolSet
  /-- The scans of the rules with their results, latest first. -/
  scans : List (Rhs × SymbolSet)
  /-- The number of look-ups.  A counter of 64 bits shows the same below `2 ^ 64`. -/
  lookups : Nat

namespace ProducerIndex

/-- The index before any look-up. -/
def empty : ProducerIndex := ⟨∅, [], 0⟩

/-- The index before any look-up is there by default. -/
instance : Inhabited ProducerIndex := ⟨empty⟩

/-- The number of different right-hand sides looked up. -/
def size (index : ProducerIndex) : Nat := index.memo.size

/-- Whether nothing was looked up yet. -/
def isEmpty (index : ProducerIndex) : Bool := index.memo.isEmpty

/-- The producers of a right-hand side, from memory or from a scan that is then remembered. -/
def lookup (index : ProducerIndex) (g : Grammar) (rhs : Rhs) : SymbolSet × ProducerIndex :=
  match index.memo[rhs]? with
  | some found => (found, { index with lookups := index.lookups + 1 })
  | none =>
    let found := g.producers rhs
    (found, ⟨index.memo.insert rhs found, (rhs, found) :: index.scans, index.lookups + 1⟩)

/-- The scans made since the index was in the state `earlier`, in order. -/
def scansSince (index earlier : ProducerIndex) : List (Rhs × SymbolSet) :=
  (index.scans.take (index.scans.length - earlier.scans.length)).reverse

/-- Each look-up counts once. -/
@[simp] theorem lookups_lookup (index : ProducerIndex) (g : Grammar) (rhs : Rhs) :
    (index.lookup g rhs).2.lookups = index.lookups + 1 := by
  simp only [lookup]; split <;> rfl

end ProducerIndex

end Chomsky
