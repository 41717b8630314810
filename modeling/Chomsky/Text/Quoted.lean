import Chomsky.Text.Hidden

/-!
# Quoted text

How messages show characters and texts so that every character can be recognized: between quote
marks, with short escapes for a few characters and the number of each hidden one.

## Main definitions

* `Chomsky.Text.quoteChar` — a character between single quotes.
* `Chomsky.Text.quote` — a text between double quotes.
-/

namespace Chomsky.Text

/-- A character inside quotes of the kind `mark`.  Only that kind of quote is escaped. -/
def escape (mark c : Char) : List Char :=
  if c = '\x00' then ['\\', '0']
  else if c = '\t' then ['\\', 't']
  else if c = '\r' then ['\\', 'r']
  else if c = '\n' then ['\\', 'n']
  else if c = '\\' then ['\\', '\\']
  else if c = mark then ['\\', mark]
  else if isHidden c then ['\\', 'u', '\x7b'] ++ Nat.toDigits 16 c.toNat ++ ['\x7d']
  else [c]

/-- A character between single quotes. -/
def quoteChar (c : Char) : String := String.ofList ('\'' :: escape '\'' c ++ ['\''])

/-- A text between double quotes. -/
def quote (cs : List Char) : String := String.ofList ('"' :: cs.flatMap (escape '"') ++ ['"'])

end Chomsky.Text
