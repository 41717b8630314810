/-!
# Symbols

Grammars work on numbered symbols.  A number has 32 bits; what a symbol is called is kept apart,
in a table of names (`Chomsky.Names`).

## Main definitions

* `Chomsky.Symbol` — a symbol, ordered by its number.
* `Chomsky.Symbol.ofNat`, `Chomsky.Symbol.toNat` — from and to natural numbers; the low 32 bits
  of a larger number count.
* `Chomsky.Word` — a sequence of symbols.

## Main results

* `Chomsky.Symbol.ofNat_toNat`, `Chomsky.Symbol.toNat_ofNat` — the two are inverse below `2 ^ 32`.
-/

namespace Chomsky

/-- A grammar symbol, told from others by its number. -/
structure Symbol where
  /-- The number of the symbol. -/
  id : UInt32
deriving DecidableEq, Hashable, Inhabited

/-- A sequence of symbols. -/
abbrev Word := List Symbol

namespace Symbol

/-- The symbol numbered by the low 32 bits of `n`. -/
def ofNat (n : Nat) : Symbol := ⟨UInt32.ofNat n⟩

/-- The number of a symbol. -/
def toNat (s : Symbol) : Nat := s.id.toNat

/-- Symbols are ordered by their numbers. -/
instance : Ord Symbol := ⟨compareOn toNat⟩

/-- A symbol's number has 32 bits. -/
theorem toNat_lt (s : Symbol) : s.toNat < UInt32.size := s.id.toNat_lt_size

/-- Only the low 32 bits of a number reach the symbol. -/
@[simp] theorem toNat_ofNat (n : Nat) : (ofNat n).toNat = n % UInt32.size :=
  UInt32.toNat_ofNat'

/-- A symbol is recovered from its number. -/
@[simp] theorem ofNat_toNat (s : Symbol) : ofNat s.toNat = s := by
  simp [ofNat, toNat]

/-- Symbols of one number are equal. -/
theorem toNat_inj {s t : Symbol} : s.toNat = t.toNat ↔ s = t :=
  ⟨fun h => by rw [← ofNat_toNat s, h, ofNat_toNat], fun h => by rw [h]⟩

end Symbol

end Chomsky
