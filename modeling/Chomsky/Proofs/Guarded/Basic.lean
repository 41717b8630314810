import Chomsky.Proofs.Histories

set_option autoImplicit false

/-!
# The recognizer with guards

Sets of symbols and tables take any arguments, and what lies out of range is ignored.  Here is the same
recognizer step by step with a guard in front of each step: positions have to be those of a part of the
word, bits have to lie within the table or the set, and sets that are joined have to have one size.  It
stops at the first step whose guard fails.  It also notes every look-up that it makes.

## Main definitions

* `Chomsky.Guarded.Fault` — a guard that fails, with the arguments of the step.
* `Chomsky.Guarded.Index` — an index with the look-ups made in it.
* `Chomsky.Guarded.lookup?`, `Chomsky.Guarded.recognize?`, `Chomsky.Guarded.fill?` — look-ups,
  recognitions and fillings with guards; `Chomsky.Guarded.run?` — histories.
* `Chomsky.Guarded.cell?`, `Chomsky.Guarded.accepts?` — queries with guards.
-/

namespace Chomsky.Guarded

/-! ## Guards -/

/-- A step with arguments that it is not made for. -/
inductive Fault where
  /-- The positions are not those of a part of the word. -/
  | position (refused : Table.OutOfBounds)
  /-- The bit lies outside the rows or the columns of the table. -/
  | bit (row column rows columns : Nat)
  /-- A set of symbols refuses the step. -/
  | symbols (refused : SymbolSet.Fault)
deriving DecidableEq

/-- An index, and the right-hand sides looked up in it, in order. -/
structure Index where
  /-- The index. -/
  producers : ProducerIndex
  /-- What was looked up. -/
  asked : List Rhs

/-- No look-up has been made. -/
def Index.empty : Index := ⟨.empty, []⟩

variable (g : Grammar)

/-! ## Sets and tables -/

/-- The number of a cell, for the positions of a part of the word. -/
def row? (t : Table) (first last : Nat) : Except Fault Nat :=
  if first ≤ last ∧ last < t.length then .ok (Table.row first last)
  else .error (.position ⟨first, last, t.length⟩)

/-- Lets the bits within the table pass: it has a row for each cell and a column for each
nonterminal. -/
def bit? (t : Table) (row column : Nat) : Except Fault Unit :=
  if row < t.length * (t.length + 1) / 2 ∧ column < t.width then .ok ()
  else .error (.bit row column (t.length * (t.length + 1) / 2) t.width)

/-- Sets the bit of a symbol in a row. -/
def set? (row : Nat) (t : Table) (a : Symbol) : Except Fault Table := do
  bit? t row a.toNat
  .ok { t with cells := t.cells.modify row fun s => s.insert a }

/-- Sets the bits of several symbols in a row. -/
def setAll? (row : Nat) (members : List Symbol) (t : Table) : Except Fault Table :=
  members.foldlM (set? row) t

/-- The nonterminals in a cell, read from its row. -/
def cell? (t : Table) (first last : Nat) : Except Fault (List Symbol) := do
  let row ← row? t first last
  match t.cells[row]? with
  | some s => .ok s.toList
  | none => .error (.bit row 0 (t.length * (t.length + 1) / 2) t.width)

/-- Whether a symbol is in a cell, read from its bit.  No bit is read for a symbol that is no
nonterminal. -/
def contains? (t : Table) (first last : Nat) (a : Symbol) : Except Fault Bool :=
  if a.toNat < t.width then do
    let row ← row? t first last
    bit? t row a.toNat
    .ok ((t.get first last).contains a)
  else .ok false

/-- Whether a symbol is in the cell of the whole word. -/
def accepts? (t : Table) (a : Symbol) : Except Fault Bool :=
  if t.isEmpty then .ok false else contains? t 0 (t.length - 1) a

/-! ## Look-ups -/

/-- The producers of a right-hand side, collected rule by rule. -/
def scan? (rhs : Rhs) : Except Fault SymbolSet :=
  g.rules.foldlM (fun found r =>
    if r.rhs = rhs then (found.assign? r.lhs true).mapError .symbols else .ok found)
    (.empty g.numNonterminals)

/-- The producers of a right-hand side, from memory or from a scan that is then remembered. -/
def lookup? (rhs : Rhs) (index : Index) : Except Fault (SymbolSet × Index) :=
  match index.producers.memo[rhs]? with
  | some found =>
    let producers := { index.producers with lookups := index.producers.lookups + 1 }
    .ok (found, ⟨producers, index.asked ++ [rhs]⟩)
  | none => do
    let found ← scan? g rhs
    let producers := ⟨index.producers.memo.insert rhs found, (rhs, found) :: index.producers.scans,
      index.producers.lookups + 1⟩
    .ok (found, ⟨producers, index.asked ++ [rhs]⟩)

/-- Joins the producers of a right-hand side to a set. -/
def join? (acc : SymbolSet × Index) (rhs : Rhs) : Except Fault (SymbolSet × Index) := do
  let (more, index) ← lookup? g rhs acc.2
  let (found, _) ← (acc.1.union? more).mapError .symbols
  .ok (found, index)

/-! ## Filling a table -/

/-- Fills the cell of a single symbol, and tells whether no rule produces it. -/
def fillSymbol? (position : Nat) (a : Symbol) (t : Table) (index : Index) :
    Except Fault (Bool × Table × Index) := do
  let row ← row? t position position
  let (found, index) ← lookup? g (.terminal a) index
  let t ← setAll? row found.toList t
  .ok (found.isEmpty, t, index)

/-- Fills the cells of single symbols, for the symbols of `word` at the positions from `position` on. -/
def fillDiagonal? (position : Nat) (word : Word) (t : Table) (index : Index) :
    Except Fault (Table × Index) :=
  match word with
  | [] => .ok (t, index)
  | a :: rest => do
    let (_, t, index) ← fillSymbol? g position a t index
    fillDiagonal? (position + 1) rest t index

/-- Fills the cells of single symbols up to the first symbol that no rule produces, whose position is
returned if there is one. -/
def fillProduced? (position : Nat) (word : Word) (t : Table) (index : Index) :
    Except Fault (Option Nat × Table × Index) :=
  match word with
  | [] => .ok (none, t, index)
  | a :: rest => do
    let (unproduced, t, index) ← fillSymbol? g position a t index
    if unproduced then .ok (some position, t, index) else fillProduced? (position + 1) rest t index

/-- Joins to `found` the producers of all pairs of a symbol of `left` and a symbol of `right`. -/
def combine? (left right : List Symbol) (acc : SymbolSet × Index) : Except Fault (SymbolSet × Index) :=
  left.foldlM (fun acc a => right.foldlM (fun acc b => join? g acc (.pair a b)) acc) acc

/-- The nonterminals that derive the part from `first` to `first + span`, from the cells of its two
pieces after each split. -/
def derived? (t : Table) (span first : Nat) (index : Index) : Except Fault (SymbolSet × Index) :=
  (List.range span).foldlM (fun acc split => do
    let left ← cell? t first (first + split)
    let right ← cell? t (first + split + 1) (first + span)
    combine? g left right acc) (.empty t.width, index)

/-- Fills the cell of the part from `first` to `first + span`. -/
def fillCell? (span first : Nat) (t : Table) (index : Index) : Except Fault (Table × Index) := do
  let (found, index) ← derived? g t span first index
  let row ← row? t first (first + span)
  let t ← setAll? row found.toList t
  .ok (t, index)

/-- Fills the cells of the parts of `span + 1` symbols, from left to right. -/
def fillSpan? (span : Nat) (t : Table) (index : Index) : Except Fault (Table × Index) :=
  (List.range (t.length - span)).foldlM (fun acc first => fillCell? g span first acc.1 acc.2) (t, index)

/-- Fills the cells of all parts of two symbols and more, short parts first. -/
def fillSpans? (t : Table) (index : Index) : Except Fault (Table × Index) :=
  (List.range' 1 (t.length - 1)).foldlM (fun acc span => fillSpan? g span acc.1 acc.2) (t, index)

/-- The table of a word. -/
def fill? (word : Word) (index : Index) : Except Fault (Table × Index) := do
  let (t, index) ← fillDiagonal? g 0 word (.empty word.length g.numNonterminals) index
  fillSpans? g t index

/-! ## Recognitions and histories -/

/-- Decides whether a grammar generates a word. -/
def recognize? (word : Word) (index : Index) : Except Fault (Recognition × Index) :=
  if word.isEmpty then .ok (.emptyWord, index)
  else do
    let (stopped, t, index) ← fillProduced? g 0 word (.empty word.length g.numNonterminals) index
    match stopped with
    | some position => .ok (.unproduced position, index)
    | none => do
      let (t, index) ← fillSpans? g t index
      let accepted ← accepts? t g.start
      .ok (.decided word.length accepted, index)

/-- The index after one request. -/
def perform? (index : Index) : ProducerIndex.Request → Except Fault Index
  | .lookup rhs => (lookup? g rhs index).map Prod.snd
  | .recognize word => (recognize? g word index).map Prod.snd
  | .fill word => (fill? g word index).map Prod.snd

/-- The index after several requests, all for one grammar. -/
def run? (index : Index) (requests : List ProducerIndex.Request) : Except Fault Index :=
  requests.foldlM (perform? g) index

end Chomsky.Guarded
