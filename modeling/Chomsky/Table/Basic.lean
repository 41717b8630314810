import Chomsky.SymbolSet

/-!
# Triangular tables

A table for a word of length `n` has a cell for each pair `(i, j)` with `i ≤ j < n`, that is for
each non-empty part of the word, given by its first and its last position.  A cell holds a set of
nonterminals.  The cells are numbered column by column: the column of last position `j` follows
the `j (j + 1) / 2` cells of the columns before it.

## Main definitions

* `Chomsky.Table` — a table as the sequence of its cells; `Chomsky.Table.row` — the number of a
  cell.
* `Chomsky.Table.get`, `Chomsky.Table.put` — a cell and its replacement.
* `Chomsky.Table.cell?`, `Chomsky.Table.contains?`, `Chomsky.Table.accepts` — the queries, which
  refuse positions outside the table.
-/

namespace Chomsky

/-- A triangular table of sets of nonterminals. -/
structure Table where
  /-- The length of the word. -/
  length : Nat
  /-- The number of nonterminals, the size of each set. -/
  width : Nat
  /-- The cells by number. -/
  cells : Array SymbolSet
deriving DecidableEq

namespace Table

/-- The number of the cell from position `first` to position `last`. -/
def row (first last : Nat) : Nat := last * (last + 1) / 2 + first

/-- The table with empty cells. -/
def empty (length width : Nat) : Table :=
  ⟨length, width, Array.replicate (length * (length + 1) / 2) (.empty width)⟩

/-- The contents of a cell. -/
def get (t : Table) (first last : Nat) : SymbolSet :=
  t.cells[row first last]?.getD (.empty t.width)

/-- Replaces the contents of a cell. -/
def put (t : Table) (first last : Nat) (s : SymbolSet) : Table :=
  { t with cells := t.cells.setIfInBounds (row first last) s }

/-- Whether the table is for the empty word. -/
def isEmpty (t : Table) : Bool := t.length = 0

/-- Positions that are not those of a part of the word. -/
structure OutOfBounds where
  /-- The position given as the first. -/
  first : Nat
  /-- The position given as the last. -/
  last : Nat
  /-- The length of the word. -/
  length : Nat
deriving DecidableEq

/-- The wording of a refusal. -/
def OutOfBounds.message (e : OutOfBounds) : String :=
  s!"cell ({e.first}, {e.last}) out of bounds for a word of length {e.length}"

/-- The contents of a cell, for positions of a part of the word. -/
def get? (t : Table) (first last : Nat) : Except OutOfBounds SymbolSet :=
  if first ≤ last ∧ last < t.length then .ok (t.get first last)
  else .error ⟨first, last, t.length⟩

/-- The nonterminals in a cell in ascending order. -/
def cell? (t : Table) (first last : Nat) : Except OutOfBounds (List Symbol) :=
  (t.get? first last).map SymbolSet.toList

/-- Whether a symbol is in a cell.  A symbol that is no nonterminal is in none, whatever the
positions. -/
def contains? (t : Table) (first last : Nat) (a : Symbol) : Except OutOfBounds Bool :=
  if a.toNat < t.width then (t.get? first last).map fun s => s.contains a else .ok false

/-- Whether a symbol is in the cell of the whole word.  The empty word has no such cell. -/
def accepts (t : Table) (a : Symbol) : Bool :=
  !t.isEmpty && (t.get 0 (t.length - 1)).contains a

/-- An empty table has the length that is given. -/
@[simp] theorem length_empty (n w : Nat) : (empty n w).length = n := rfl

/-- A replacement keeps the length. -/
@[simp] theorem length_put (t : Table) (i j : Nat) (s : SymbolSet) :
    (t.put i j s).length = t.length := rfl

/-- A replacement keeps the width. -/
@[simp] theorem width_put (t : Table) (i j : Nat) (s : SymbolSet) :
    (t.put i j s).width = t.width := rfl

end Table

end Chomsky
