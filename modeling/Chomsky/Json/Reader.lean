import Chomsky.Json.Basic
import Chomsky.Text.Decimal

/-!
# Reading JSON

A reader for the grammar of JSON: one value, with nothing but blanks around it.  Blanks are the
space, the tab, the line feed and the carriage return.

## Main definitions

* `Chomsky.Json.Reader.literal?` — the contents of a string.
* `Chomsky.Json.Reader.number?` — a number.
* `Chomsky.Json.parse?` — the value that a text describes.

## Design

A string is read in three steps: its end is found, its escapes are read into characters and
16-bit units, and the units are joined to characters.  Only the last step fails on a lone half of
a surrogate pair, and its failure is left to whoever needs the characters.  The nesting of values
is bounded by fuel; as each value takes up characters, twice the length of the text is enough.
-/

namespace Chomsky.Json

namespace Reader

/-- A text without the blanks in front of it. -/
def skipBlanks (cs : List Char) : List Char :=
  cs.dropWhile fun c => c = ' ' || c = '\t' || c = '\n' || c = '\r'

/-! ## Strings -/

/-- What stands before and after the quote that ends a string.  A backslash hides the character
after it; control characters are refused. -/
def closing? : List Char → Option (List Char × List Char)
  | [] => none
  | '"' :: rest => some ([], rest)
  | '\\' :: c :: rest => (closing? rest).map fun (body, rest) => ('\\' :: c :: body, rest)
  | c :: rest =>
    if c.toNat < 0x20 then none
    else (closing? rest).map fun (body, rest) => (c :: body, rest)

/-- A character of a string, or a 16-bit unit given by its number. -/
inductive Piece where
  /-- A character. -/
  | char (c : Char)
  /-- A 16-bit unit. -/
  | unit (n : Nat)

/-- The character that a one-character escape means. -/
def escaped? : Char → Option Char
  | '"' => some '"'
  | '\\' => some '\\'
  | '/' => some '/'
  | 'b' => some '\x08'
  | 'f' => some '\x0c'
  | 'n' => some '\n'
  | 'r' => some '\r'
  | 't' => some '\t'
  | _ => none

/-- The value of a hexadecimal digit. -/
def hexDigit? (c : Char) : Option Nat :=
  if '0' ≤ c ∧ c ≤ '9' then some (c.toNat - 48)
  else if 'a' ≤ c ∧ c ≤ 'f' then some (c.toNat - 87)
  else if 'A' ≤ c ∧ c ≤ 'F' then some (c.toNat - 55)
  else none

/-- The number of four hexadecimal digits. -/
def unit? (a b c d : Char) : Option Nat := do
  let a ← hexDigit? a
  let b ← hexDigit? b
  let c ← hexDigit? c
  let d ← hexDigit? d
  some (((a * 16 + b) * 16 + c) * 16 + d)

/-- The characters and units of the contents of a string. -/
def pieces? : List Char → Option (List Piece)
  | [] => some []
  | '\\' :: 'u' :: a :: b :: c :: d :: rest => do
    let n ← unit? a b c d
    let more ← pieces? rest
    some (.unit n :: more)
  | '\\' :: e :: rest => do
    let c ← escaped? e
    let more ← pieces? rest
    some (.char c :: more)
  | c :: rest => do
    let more ← pieces? rest
    some (.char c :: more)

/-- Whether a unit is the first half of a surrogate pair. -/
def isHighSurrogate (n : Nat) : Bool := 0xd800 ≤ n && n < 0xdc00

/-- Whether a unit is the second half of a surrogate pair. -/
def isLowSurrogate (n : Nat) : Bool := 0xdc00 ≤ n && n < 0xe000

/-- Joins units to characters.  The halves of a surrogate pair have to stand together. -/
def joinPieces? : List Piece → Option (List Char)
  | [] => some []
  | .char c :: rest => (joinPieces? rest).map (c :: ·)
  | .unit n :: rest =>
    if isHighSurrogate n then
      match rest with
      | .unit m :: rest =>
        if isLowSurrogate m then
          (joinPieces? rest).map (Char.ofNat (0x10000 + (n - 0xd800) * 0x400 + (m - 0xdc00)) :: ·)
        else none
      | _ => none
    else if isLowSurrogate n then none
    else (joinPieces? rest).map (Char.ofNat n :: ·)

/-- The contents of a string, after its first quote. -/
def literal? (cs : List Char) : Option (Key × List Char) := do
  let (body, rest) ← closing? cs
  let pieces ← pieces? body
  some (⟨body, joinPieces? pieces⟩, rest)

/-! ## Numbers -/

/-- The digits in front of a text, of which there has to be one, and the rest. -/
def digits? (cs : List Char) : Option (List Char × List Char) :=
  let (digits, rest) := cs.span fun c => '0' ≤ c && c ≤ '9'
  if digits.isEmpty then none else some (digits, rest)

/-- Passes over a fraction; says whether there is one. -/
def fraction? : List Char → Option (Bool × List Char)
  | '.' :: cs => (digits? cs).map fun (_, rest) => (true, rest)
  | cs => some (false, cs)

/-- Passes over the sign of an exponent. -/
def skipSign : List Char → List Char
  | '+' :: cs => cs
  | '-' :: cs => cs
  | cs => cs

/-- Passes over an exponent; says whether there is one. -/
def exponent? : List Char → Option (Bool × List Char)
  | 'e' :: cs => (digits? (skipSign cs)).map fun (_, rest) => (true, rest)
  | 'E' :: cs => (digits? (skipSign cs)).map fun (_, rest) => (true, rest)
  | cs => some (false, cs)

/-- A number without a sign.  A zero in front is followed by no further digit. -/
def unsigned? (cs : List Char) : Option (Option Nat × List Char) := do
  let (whole, rest) ← digits? cs
  if whole.head? = some '0' ∧ whole ≠ ['0'] then none
  else
    let (fraction, rest) ← fraction? rest
    let (exponent, rest) ← exponent? rest
    some (if fraction || exponent then none else Text.ofDecimal? whole, rest)

/-- A number; its value if it has neither sign, nor fraction, nor exponent. -/
def number? : List Char → Option (Option Nat × List Char)
  | '-' :: cs => (unsigned? cs).map fun (_, rest) => (none, rest)
  | cs => unsigned? cs

/-! ## Values -/

mutual

/-- A value at the front of a text, after blanks. -/
def value? : (fuel : Nat) → List Char → Option (Json × List Char)
  | 0, _ => none
  | fuel + 1, cs =>
    match skipBlanks cs with
    | 'n' :: 'u' :: 'l' :: 'l' :: rest => some (.null, rest)
    | 't' :: 'r' :: 'u' :: 'e' :: rest => some (.bool true, rest)
    | 'f' :: 'a' :: 'l' :: 's' :: 'e' :: rest => some (.bool false, rest)
    | '"' :: rest => (literal? rest).map fun (key, rest) => (.string key.meant, rest)
    | '[' :: rest =>
      match skipBlanks rest with
      | ']' :: rest => some (.array [], rest)
      | rest => (items? fuel rest).map fun (items, rest) => (.array items, rest)
    | '\x7b' :: rest =>
      match skipBlanks rest with
      | '\x7d' :: rest => some (.object [], rest)
      | rest => (members? fuel rest).map fun (members, rest) => (.object members, rest)
    | cs => (number? cs).map fun (value, rest) => (.number value, rest)

/-- The items of a sequence, one at least, and the bracket that ends it. -/
def items? : (fuel : Nat) → List Char → Option (List Json × List Char)
  | 0, _ => none
  | fuel + 1, cs => do
    let (item, rest) ← value? fuel cs
    match skipBlanks rest with
    | ']' :: rest => some ([item], rest)
    | ',' :: rest =>
      let (more, rest) ← items? fuel rest
      some (item :: more, rest)
    | _ => none

/-- The members of an object, one at least, and the brace that ends it. -/
def members? : (fuel : Nat) → List Char → Option (List (Key × Json) × List Char)
  | 0, _ => none
  | fuel + 1, cs =>
    match skipBlanks cs with
    | '"' :: rest => do
      let (key, rest) ← literal? rest
      match skipBlanks rest with
      | ':' :: rest =>
        let (value, rest) ← value? fuel rest
        match skipBlanks rest with
        | '\x7d' :: rest => some ([(key, value)], rest)
        | ',' :: rest =>
          let (more, rest) ← members? fuel rest
          some ((key, value) :: more, rest)
        | _ => none
      | _ => none
    | _ => none

end

end Reader

/-- The value that a text describes. -/
def parse? (cs : List Char) : Option Json :=
  match Reader.value? (2 * cs.length + 2) cs with
  | some (value, rest) => if (Reader.skipBlanks rest).isEmpty then some value else none
  | none => none

end Chomsky.Json
