import Chomsky.Reader

/-!
# Reading one problem at a time

An input need not be read at once.  A cursor stands between two problems of an input and gives the next
one on demand; once it has given an error, it gives nothing more.

## Main definitions

* `Chomsky.Reader.Item` — what a cursor gives.
* `Chomsky.Reader.nextFrom` — reads on to the end of a problem.
* `Chomsky.Reader.Cursor`, `Chomsky.Reader.Cursor.next` — a cursor, and one call on it.
* `Chomsky.Reader.Cursor.advance`, `Chomsky.Reader.Cursor.item?` — the cursor after some calls, and what
  a later call gives.
-/

namespace Chomsky.Reader

/-- A problem, or the error that ended the reading. -/
abbrev Item := Except LoadError Block

/-- What is read from an input, in order. -/
def Reading.items (r : Reading) : List Item :=
  r.blocks.map .ok ++ (r.error.map .error).toList

/-- A place in an input where a problem may begin. -/
structure Cursor where
  /-- The lines that have not been read. -/
  ahead : List (Option (List Char))
  /-- How many lines have been read.  A counter of 32 bits shows the same below `2 ^ 32` lines. -/
  line : Nat
  /-- Whether there has been an error. -/
  failed : Bool
deriving DecidableEq

/-- Reads on in a given stage, when `line` lines have been read before, until a problem ends or there is
an error or there are no more lines. -/
def nextFrom (limit line : Nat) (stage : Stage) :
    List (Option (List Char)) → Option Item × Cursor
  | [] =>
    match stage.finish line with
    | none => (none, ⟨[], line, false⟩)
    | some e => (some (.error e), ⟨[], line, true⟩)
  | none :: ahead => (some (.error ⟨.notText, line + 1⟩), ⟨ahead, line, true⟩)
  | some text :: ahead =>
    match step limit (line + 1) text stage with
    | .error e => (some (.error e), ⟨ahead, line + 1, true⟩)
    | .ok (stage, none) => nextFrom limit (line + 1) stage ahead
    | .ok (_, some block) => (some (.ok block), ⟨ahead, line + 1, false⟩)

namespace Cursor

/-- A cursor at the beginning of an input. -/
def start (lines : List (Option (List Char))) : Cursor := ⟨lines, 0, false⟩

/-- The next item, if there is one, and the cursor after it. -/
def next (limit : Nat) (c : Cursor) : Option Item × Cursor :=
  if c.failed then (none, c) else nextFrom limit c.line .header c.ahead

/-- The cursor after some calls. -/
def advance (limit : Nat) (c : Cursor) : Nat → Cursor
  | 0 => c
  | n + 1 => advance limit (c.next limit).2 n

/-- What the call after `n` others gives. -/
def item? (limit : Nat) (c : Cursor) (n : Nat) : Option Item := ((c.advance limit n).next limit).1

end Cursor

end Chomsky.Reader
