/-!
# JSON values

Values of the data format JSON, for reading documents of a fixed form.  A number is of use only
when it is written with digits alone, so only then is its value kept.  The key of a member is kept
both as it is written and as it is meant, because keys that are numbers have one written form.

## Main definitions

* `Chomsky.Json` — JSON values, with `Chomsky.Json.Key` for the keys of objects.
* `Chomsky.Json.natural?`, `Chomsky.Json.char?` — the number below a bound and the character that
  a value stands for.
* `Chomsky.Json.record?` — the values of given fields.

## Main results

* `Chomsky.Json.natural?_natural` — numbers below the bound are found.
-/

namespace Chomsky

/-- The key of a member of an object. -/
structure Json.Key where
  /-- The characters between the quotes. -/
  written : List Char
  /-- The characters that they mean; a lone half of a surrogate pair means none. -/
  meant : Option (List Char)
deriving DecidableEq

/-- A JSON value. -/
inductive Json where
  /-- No value. -/
  | null
  /-- A truth value. -/
  | bool (value : Bool)
  /-- A number; its value if it is written with digits alone. -/
  | number (value : Option Nat)
  /-- A text; its characters, unless it has a lone half of a surrogate pair. -/
  | string (value : Option (List Char))
  /-- A sequence. -/
  | array (items : List Json)
  /-- Members with keys, in the order in which they are written. -/
  | object (members : List (Json.Key × Json))

namespace Json

/-- A key that is written as it is meant. -/
def Key.plain (cs : List Char) : Key := ⟨cs, some cs⟩

/-- A natural number. -/
def natural (n : Nat) : Json := .number (some n)

/-- A single character. -/
def char (c : Char) : Json := .string (some [c])

/-- The number below `bound` that a value stands for. -/
def natural? (bound : Nat) : Json → Option Nat
  | number (some n) => if n < bound then some n else none
  | _ => none

/-- The character that a value stands for. -/
def char? : Json → Option Char
  | string (some [c]) => some c
  | _ => none

/-- The items of a sequence. -/
def items? : Json → Option (List Json)
  | array items => some items
  | _ => none

/-- The members of an object. -/
def members? : Json → Option (List (Key × Json))
  | object members => some members
  | _ => none

/-- The only value of the field called `name`. -/
def field? (members : List (List Char × Json)) (name : List Char) : Option Json :=
  match members.filter fun m => m.1 = name with
  | [(_, value)] => some value
  | _ => none

/-- The values of the fields called `names`, in that order.  They are given either as the items of
a sequence, or as members of an object in any order, each exactly once; other members are
ignored. -/
def record? (names : List (List Char)) : Json → Option (List Json)
  | array items => if items.length = names.length then some items else none
  | object members => do
    let members ← members.mapM fun (key, value) => key.meant.map fun name => (name, value)
    names.mapM (field? members)
  | _ => none

/-- A number below the bound is found. -/
@[simp] theorem natural?_natural {bound n : Nat} (h : n < bound) :
    (natural n).natural? bound = some n := by simp [natural, natural?, h]

/-- A character is found. -/
@[simp] theorem char?_char (c : Char) : (char c).char? = some c := rfl

end Json

end Chomsky
