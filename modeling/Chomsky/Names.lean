import Chomsky.Symbol

/-!
# Names of symbols

A table of names gives each symbol a single character: the symbol numbered `i` is called by the
`i`-th character declared.  One character may be declared twice; looking it up then finds the
first of its symbols.

## Main definitions

* `Chomsky.Names` — a table of names, in the order of declaration.
* `Chomsky.Names.declare` — declares one more symbol.
* `Chomsky.Names.nameOf?`, `Chomsky.Names.symbolOf?` — the two directions of look-up.

## Main results

* `Chomsky.Names.nameOf?_of_symbolOf?` — a symbol that was looked up has the name it was looked up
  by.
-/

namespace Chomsky

/-- The names of the declared symbols, by number. -/
structure Names where
  /-- The names in the order of declaration. -/
  toList : List Char
deriving DecidableEq, Inhabited

namespace Names

/-- The table without symbols. -/
def empty : Names := ⟨[]⟩

/-- The number of declared symbols. -/
def size (ns : Names) : Nat := ns.toList.length

/-- Declares a symbol called `c`; it gets the least number not yet in use. -/
def declare (ns : Names) (c : Char) : Symbol × Names :=
  (.ofNat ns.size, ⟨ns.toList ++ [c]⟩)

/-- The name of a symbol, if it is declared. -/
def nameOf? (ns : Names) (s : Symbol) : Option Char := ns.toList[s.toNat]?

/-- The first symbol called `c`. -/
def symbolOf? (ns : Names) (c : Char) : Option Symbol :=
  (ns.toList.idxOf? c).map Symbol.ofNat

/-- The name of a symbol as it is printed: a question mark stands for an undeclared one. -/
def display (ns : Names) (s : Symbol) : Char := (ns.nameOf? s).getD '?'

/-- The declared symbols with their names, in the order of declaration. -/
def entries (ns : Names) : List (Symbol × Char) :=
  ns.toList.zipIdx.map fun (c, i) => (.ofNat i, c)

/-- A declaration appends its name. -/
@[simp] theorem toList_declare (ns : Names) (c : Char) :
    (ns.declare c).2.toList = ns.toList ++ [c] := rfl

/-- A symbol that was looked up has the name it was looked up by, as long as every number in use
is that of a symbol. -/
theorem nameOf?_of_symbolOf? {ns : Names} (h : ns.size ≤ UInt32.size) {c : Char} {a : Symbol}
    (ha : ns.symbolOf? c = some a) : ns.nameOf? a = some c := by
  obtain ⟨i, hi, rfl⟩ := Option.map_eq_some_iff.1 ha
  obtain ⟨hlt, hc, -⟩ := List.idxOf?_eq_some_iff.1 hi
  have hmod : i % UInt32.size = i := Nat.mod_eq_of_lt (Nat.lt_of_lt_of_le hlt h)
  rw [nameOf?, Symbol.toNat_ofNat, hmod, List.getElem?_eq_getElem hlt]
  simpa using hc

end Names

end Chomsky
