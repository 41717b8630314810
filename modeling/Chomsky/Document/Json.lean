import Chomsky.Document.Basic
import Chomsky.Json.Reader

/-!
# Documents in JSON

A document is an object of four fields, such as

    {"sym_source": {"names": ["S", "a"]}, "num_nonterminals": 1, "start": 0,
     "rules": {"0": [{"Terminal": 1}, {"Pair": [0, 0]}]}}

Rules are found by the decimal number of their left-hand side.

## Main definitions

* `Chomsky.Document.toJson` — the JSON value of a document.
* `Chomsky.Document.ofJson?` — the document that a JSON value describes.
* `Chomsky.Document.parse?` — the document that a text describes.
-/

namespace Chomsky

/-- The key of a right-hand side with a terminal. -/
def Rhs.terminalKey : List Char := "Terminal".toList

/-- The key of a right-hand side with a pair. -/
def Rhs.pairKey : List Char := "Pair".toList

/-- The JSON value of a symbol. -/
def Symbol.toJson (a : Symbol) : Json := .natural a.toNat

/-- The symbol whose number of at most 32 bits a JSON value is. -/
def Symbol.ofJson? (j : Json) : Option Symbol := (j.natural? UInt32.size).map Symbol.ofNat

/-- The JSON value of a right-hand side. -/
def Rhs.toJson : Rhs → Json
  | terminal t => .object [(.plain terminalKey, t.toJson)]
  | pair a b => .object [(.plain pairKey, .array [a.toJson, b.toJson])]

/-- The right-hand side that a JSON value describes. -/
def Rhs.ofJson? : Json → Option Rhs
  | .object [(key, value)] =>
    if key.meant = some terminalKey then (Symbol.ofJson? value).map terminal
    else if key.meant = some pairKey then
      match value with
      | .array [a, b] => do
        let a ← Symbol.ofJson? a
        let b ← Symbol.ofJson? b
        some (pair a b)
      | _ => none
    else none
  | _ => none

namespace Document

/-- The key of the names within the field `sourceField`. -/
def namesField : List Char := "names".toList

/-- The key of the field with the names. -/
def sourceField : List Char := "sym_source".toList

/-- The key of the field with the number of nonterminals. -/
def numNonterminalsField : List Char := "num_nonterminals".toList

/-- The key of the field with the start symbol. -/
def startField : List Char := "start".toList

/-- The key of the field with the rules. -/
def rulesField : List Char := "rules".toList

/-- The JSON value of a document. -/
def toJson (d : Document) : Json :=
  .object [
    (.plain sourceField,
      .object [(.plain namesField, .array (d.names.toList.map Json.char))]),
    (.plain numNonterminalsField, .natural d.numNonterminals),
    (.plain startField, d.start.toJson),
    (.plain rulesField,
      .object (d.rules.map fun (a, rs) =>
        (.plain (Text.decimal a.toNat), .array (rs.map Rhs.toJson))))]

/-- The names that a JSON value lists. -/
def namesOfJson? (j : Json) : Option Names :=
  match j.record? [namesField] with
  | some [.array items] => (items.mapM Json.char?).map Names.mk
  | _ => none

/-- The left-hand side whose number a key is, in its one decimal form. -/
def lhsOfKey? (key : Json.Key) : Option Symbol :=
  match Text.ofDecimal? key.written with
  | some n => if Text.decimal n = key.written ∧ n < UInt32.size then some (.ofNat n) else none
  | none => none

/-- Puts a group of rules in its place, where it replaces one for the same left-hand side. -/
def insertGroup (a : Symbol) (rs : List Rhs) :
    List (Symbol × List Rhs) → List (Symbol × List Rhs)
  | [] => [(a, rs)]
  | (b, ss) :: rest =>
    match compare a b with
    | .lt => (a, rs) :: (b, ss) :: rest
    | .eq => (a, rs) :: rest
    | .gt => (b, ss) :: insertGroup a rs rest

/-- The rules that the members of an object describe, in order. -/
def rulesOfMembers? (groups : List (Symbol × List Rhs)) :
    List (Json.Key × Json) → Option (List (Symbol × List Rhs))
  | [] => some groups
  | (key, value) :: rest => do
    let a ← lhsOfKey? key
    let items ← value.items?
    let rs ← items.mapM Rhs.ofJson?
    rulesOfMembers? (insertGroup a (Ascending.ofList rs) groups) rest

/-- The document that a JSON value describes. -/
def ofJson? (j : Json) : Option Document :=
  match j.record? [sourceField, numNonterminalsField, startField, rulesField] with
  | some [source, numNonterminals, start, rules] => do
    let names ← namesOfJson? source
    let numNonterminals ← numNonterminals.natural? UInt64.size
    let start ← Symbol.ofJson? start
    let members ← rules.members?
    let rules ← rulesOfMembers? [] members
    some ⟨names, numNonterminals, start, rules⟩
  | _ => none

/-- The document that a text describes. -/
def parse? (text : List Char) : Option Document := (Json.parse? text).bind ofJson?

end Document

end Chomsky
