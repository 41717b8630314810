import Chomsky.Names

/-!
# Rules in Chomsky normal form

A rule replaces a nonterminal by one terminal or by two nonterminals.  The pair is ordered.

## Main definitions

* `Chomsky.Rhs`, `Chomsky.Rule` — right-hand sides and rules.
* `Chomsky.NamedRule` — a rule on characters, as it is written.
* `Chomsky.Rhs.key`, `Chomsky.Rule.key` — the number sequences whose lexicographic order is the
  order of right-hand sides and of rules.
* `Chomsky.Rule.named`, `Chomsky.Rule.display` — a rule on the names of its symbols, and as text,
  such as `S -> AB`.

## Main results

* `Chomsky.Rhs.key_inj`, `Chomsky.Rule.key_inj` — the keys tell different values apart, so the
  orders are linear.
-/

namespace Chomsky

/-- The right-hand side of a rule. -/
inductive Rhs where
  /-- A single terminal. -/
  | terminal (t : Symbol)
  /-- Two nonterminals in order. -/
  | pair (left right : Symbol)
deriving DecidableEq, Hashable, Inhabited

/-- A rule: the nonterminal on its left-hand side may be replaced by its right-hand side. -/
structure Rule where
  /-- The nonterminal to be replaced. -/
  lhs : Symbol
  /-- What replaces it. -/
  rhs : Rhs
deriving DecidableEq, Inhabited

/-- A rule on characters; nothing is asked of its right-hand side. -/
structure NamedRule where
  /-- The character to be replaced. -/
  lhs : Char
  /-- What replaces it. -/
  rhs : List Char
deriving DecidableEq, Inhabited

/-- The text of a rule: its left-hand side, an arrow, and its right-hand side. -/
def NamedRule.display (r : NamedRule) : List Char := r.lhs :: [' ', '-', '>', ' '] ++ r.rhs

namespace Rhs

/-- The symbols of a right-hand side, from left to right. -/
def symbols : Rhs → Word
  | terminal t => [t]
  | pair a b => [a, b]

/-- Single terminals come before pairs, and each kind is ordered by its numbers. -/
def key : Rhs → List Nat
  | terminal t => [0, t.toNat]
  | pair a b => [1, a.toNat, b.toNat]

/-- Right-hand sides are in the order of their keys. -/
instance : Ord Rhs := ⟨compareOn key⟩

/-- The key determines the right-hand side. -/
theorem key_inj {r s : Rhs} : r.key = s.key ↔ r = s := by
  cases r <;> cases s <;> simp [key, Symbol.toNat_inj]

end Rhs

namespace Rule

/-- Rules are ordered by their left-hand sides first. -/
def key (r : Rule) : List Nat := r.lhs.toNat :: r.rhs.key

/-- Rules are in the order of their keys. -/
instance : Ord Rule := ⟨compareOn key⟩

/-- The key determines the rule. -/
theorem key_inj {r s : Rule} : r.key = s.key ↔ r = s := by
  cases r; cases s; simp [key, Symbol.toNat_inj, Rhs.key_inj]

/-- The rule on the names of its symbols.  A question mark stands for a symbol without a name. -/
def named (names : Names) (r : Rule) : NamedRule :=
  ⟨names.display r.lhs, r.rhs.symbols.map names.display⟩

/-- The text of a rule by the names of its symbols. -/
def display (names : Names) (r : Rule) : List Char := (r.named names).display

end Rule

/-! ## The orders are linear -/

/-- The order of symbols is transitive. -/
instance : Std.TransOrd Symbol := inferInstanceAs (Std.TransCmp (compareOn Symbol.toNat))

/-- Symbols that compare as equal are equal. -/
instance : Std.LawfulEqOrd Symbol where
  eq_of_compare h := Symbol.toNat_inj.1 (Std.LawfulEqOrd.eq_of_compare (α := Nat) h)

/-- The order of right-hand sides is transitive. -/
instance : Std.TransOrd Rhs := inferInstanceAs (Std.TransCmp (compareOn Rhs.key))

/-- Right-hand sides that compare as equal are equal. -/
instance : Std.LawfulEqOrd Rhs where
  eq_of_compare h := Rhs.key_inj.1 (Std.LawfulEqOrd.eq_of_compare (α := List Nat) h)

/-- The order of rules is transitive. -/
instance : Std.TransOrd Rule := inferInstanceAs (Std.TransCmp (compareOn Rule.key))

/-- Rules that compare as equal are equal. -/
instance : Std.LawfulEqOrd Rule where
  eq_of_compare h := Rule.key_inj.1 (Std.LawfulEqOrd.eq_of_compare (α := List Nat) h)

end Chomsky
