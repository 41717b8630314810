/-!
# Lines

A text is cut into lines at its line feeds.  One carriage return in front of a line feed belongs
to the line end, and what follows the last line feed is a line unless it is empty.  The contents
of a line leave out one more carriage return at its end, so that the last line may end in one too.
Texts arrive as characters or as bytes; bytes are cut first and decoded line by line, so that a
line that is not UTF-8 does not spoil those before it.

## Main definitions

* `Chomsky.Text.split` — cuts a list at a separator, for characters and bytes alike.
* `Chomsky.Text.lines` — the lines of a list of characters.
* `Chomsky.Text.linesOfBytes` — the lines of a list of bytes, `none` for one that is not UTF-8.
-/

namespace Chomsky.Text

/-- A list without its last element, if that is `x`. -/
def chop {α : Type} [DecidableEq α] (x : α) (xs : List α) : List α :=
  if xs.getLast? = some x then xs.dropLast else xs

/-- Cuts a list into the pieces that end with `feed`, and drops one `ret` in front of each.
What follows the last `feed` is a piece if it is not empty; nothing is dropped from it.  The
elements of the current piece read so far are in `current`, latest first. -/
def splitFrom {α : Type} [DecidableEq α] (feed ret : α) (current : List α) :
    List α → List (List α)
  | [] => if current.isEmpty then [] else [current.reverse]
  | x :: xs =>
    if x = feed then chop ret current.reverse :: splitFrom feed ret [] xs
    else splitFrom feed ret (x :: current) xs

/-- Cuts a list into the pieces that end with `feed`. -/
def split {α : Type} [DecidableEq α] (feed ret : α) (xs : List α) : List (List α) :=
  splitFrom feed ret [] xs

/-- The contents of the lines of a text. -/
def lines (cs : List Char) : List (List Char) :=
  (split '\n' '\r' cs).map (chop '\r')

/-- The characters that a sequence of bytes encodes in UTF-8. -/
def decode? (bytes : List UInt8) : Option (List Char) :=
  (String.fromUTF8? ⟨bytes.toArray⟩).map String.toList

/-- The contents of the lines of a text in bytes; a line that is not UTF-8 has none. -/
def linesOfBytes (bytes : List UInt8) : List (Option (List Char)) :=
  (split 10 13 bytes).map fun line => (decode? line).map (chop '\r')

end Chomsky.Text
