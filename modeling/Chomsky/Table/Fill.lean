import Chomsky.ProducerIndex
import Chomsky.Table.Basic

/-!
# Filling the table of a word

The cell of a part of a word is to hold the nonterminals that derive the part.  For a single
symbol these are the producers of the symbol.  A longer part is split in two in every way, and for
each `a` that derives the left and each `b` that derives the right piece, the producers of the
pair `a b` join the cell.  Cells are filled in the order of the length of their parts, so that
both pieces of a split are complete before they are combined.

## Main definitions

* `Chomsky.Table.fillDiagonal` — the cells of the single symbols.
* `Chomsky.Table.combine`, `Chomsky.Table.derived` — what one split and what all splits give.
* `Chomsky.Table.fillSpans` — all other cells.
* `Chomsky.Table.fill` — the table of a word.
-/

namespace Chomsky.Table

/-- Fills the cells of single symbols, for the symbols of `word` at the positions from
`position` on. -/
def fillDiagonal (g : Grammar) (position : Nat) (word : Word) (t : Table)
    (index : ProducerIndex) : Table × ProducerIndex :=
  match word with
  | [] => (t, index)
  | a :: rest =>
    let (found, index) := index.lookup g (.terminal a)
    fillDiagonal g (position + 1) rest (t.put position position found) index

/-- Adds to `found` the producers of all pairs of a symbol of `left` and a symbol of `right`. -/
def combine (g : Grammar) (left right : List Symbol) (found : SymbolSet)
    (index : ProducerIndex) : SymbolSet × ProducerIndex :=
  left.foldl (fun acc a =>
    right.foldl (fun (found, index) b =>
      let (more, index) := index.lookup g (.pair a b)
      (found.union more, index)) acc) (found, index)

/-- The nonterminals that derive the part from `first` to `first + span`, from the cells of its
two pieces after each split. -/
def derived (g : Grammar) (t : Table) (span first : Nat) (index : ProducerIndex) :
    SymbolSet × ProducerIndex :=
  (List.range span).foldl (fun (found, index) split =>
    combine g (t.get first (first + split)).toList
      (t.get (first + split + 1) (first + span)).toList found index) (.empty t.width, index)

/-- Fills the cell of the part from `first` to `first + span`. -/
def fillCell (g : Grammar) (span first : Nat) (t : Table) (index : ProducerIndex) :
    Table × ProducerIndex :=
  let (found, index) := derived g t span first index
  (t.put first (first + span) found, index)

/-- Fills the cells of the parts of `span + 1` symbols, from left to right. -/
def fillSpan (g : Grammar) (span : Nat) (t : Table) (index : ProducerIndex) :
    Table × ProducerIndex :=
  (List.range (t.length - span)).foldl (fun (t, index) first => fillCell g span first t index)
    (t, index)

/-- Fills the cells of all parts of two symbols and more, short parts first. -/
def fillSpans (g : Grammar) (t : Table) (index : ProducerIndex) : Table × ProducerIndex :=
  (List.range' 1 (t.length - 1)).foldl (fun (t, index) span => fillSpan g span t index) (t, index)

/-- The table of a word.  A symbol that no rule produces leaves its cell empty. -/
def fill (g : Grammar) (word : Word) (index : ProducerIndex) : Table × ProducerIndex :=
  let (t, index) := fillDiagonal g 0 word (.empty word.length g.numNonterminals) index
  t.fillSpans g index

end Chomsky.Table
