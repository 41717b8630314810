import Chomsky.Table.Fill

/-!
# Recognizing words

A grammar generates a word if its start symbol is in the cell of the whole word.  The table is
not always filled: a grammar in Chomsky normal form does not generate the empty word, nor a word
with a symbol that no rule produces.

## Main definitions

* `Chomsky.Recognition` — the outcome of a recognition, with the reason for an early end;
  `Chomsky.Recognition.accepted` — the verdict.
* `Chomsky.recognize` — decides about a word with the help of an index.
* `Chomsky.isMember` — the verdict, with a fresh index.
-/

namespace Chomsky

/-- How the recognition of a word ends. -/
inductive Recognition where
  /-- The word is empty. -/
  | emptyWord
  /-- No rule produces the symbol at the position. -/
  | unproduced (position : Nat)
  /-- The table of a word was filled and gives the verdict. -/
  | decided (length : Nat) (accepted : Bool)
deriving DecidableEq

/-- The verdict about the word. -/
def Recognition.accepted : Recognition → Bool
  | emptyWord => false
  | unproduced _ => false
  | decided _ accepted => accepted

/-- Fills the cells of single symbols up to the first symbol that no rule produces, whose
position is returned if there is one. -/
def Table.fillDiagonal? (g : Grammar) (position : Nat) (word : Word) (t : Table)
    (index : ProducerIndex) : Option Nat × Table × ProducerIndex :=
  match word with
  | [] => (none, t, index)
  | a :: rest =>
    let (found, index) := index.lookup g (.terminal a)
    if found.isEmpty then (some position, t, index)
    else fillDiagonal? g (position + 1) rest (t.put position position found) index

/-- Decides whether a grammar generates a word. -/
def recognize (g : Grammar) (word : Word) (index : ProducerIndex) : Recognition × ProducerIndex :=
  if word.isEmpty then (.emptyWord, index)
  else
    match Table.fillDiagonal? g 0 word (.empty word.length g.numNonterminals) index with
    | (some position, _, index) => (.unproduced position, index)
    | (none, t, index) =>
      let (t, index) := t.fillSpans g index
      (.decided word.length (t.accepts g.start), index)

/-- Whether a grammar generates a word. -/
def isMember (g : Grammar) (word : Word) : Bool := (recognize g word .empty).1.accepted

end Chomsky
