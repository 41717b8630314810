import Chomsky.Problem
import Chomsky.LoadError
import Chomsky.Text.Blank
import Chomsky.Text.Lines

/-!
# Reading problems

Problems are written one after the other, each as

* a header of three fields: the start symbol, the nonterminals and the terminals, such as
  `S SAB ab`;
* its rules, one on a line, such as `S -> AB` or `A -> a`, up to the line `# -> #`;
* its candidate words, one on a line, up to the line `#`.

Blank lines may stand before a header.  Reading stops at the first fault.

## Main definitions

* `Chomsky.Reader.Stage` — where in a problem the reader is; `Chomsky.Reader.step` — what one line
  does.
* `Chomsky.Reader.Reading` — the problems read and the error that ended the reading, if any.
* `Chomsky.Reader.readLines`, `Chomsky.Reader.readBytes` — read lines and bytes.
* `Chomsky.Reader.load` — all problems of a text, or the error.

## Design

The reader is a state machine over the contents of lines.  A line that is not UTF-8 has no
contents and is a fault wherever it stands.
-/

namespace Chomsky.Reader

open Text

/-- The line that ends the rules. -/
def endOfRules : List Char := "# -> #".toList

/-- The line that ends the words. -/
def endOfWords : List Char := ['#']

/-- The character that a text consists of. -/
def single? : List Char → Option Char
  | [c] => some c
  | _ => none

/-- A builder for the grammar that a header announces. -/
def parseHeader (text : List Char) : Except LoadFault Builder :=
  match fields text with
  | [start, nonterminals, terminals] =>
    match single? start with
    | some start => .ok (.new start nonterminals terminals)
    | none => .error (.startSymbol start)
  | _ => .error (.header text)

/-- What stands before and after the first arrow of a line. -/
def splitArrow : List Char → Option (List Char × List Char)
  | [] => none
  | '-' :: '>' :: rest => some ([], rest)
  | c :: rest => (splitArrow rest).map fun (left, right) => (c :: left, right)

/-- The two sides of the rule on a line. -/
def parseRule (text : List Char) : Except LoadFault (Char × List Char) :=
  match splitArrow text with
  | none => .error (.noArrow text)
  | some (left, right) =>
    match single? (trim left) with
    | some lhs => .ok (lhs, trim right)
    | none => .error (.leftSide text)

/-- Refuses a word that is too long or holds a nonterminal; the length is looked at first. -/
def checkWord (g : Grammar) (limit : Nat) (word : List Char) : Except WordError Unit :=
  if limit < word.length then .error (.tooLong word.length limit)
  else
    match word.find? fun c => (g.symbolOf? c).any g.isNonterminal with
    | some c => .error (.nonterminal c)
    | none => .ok ()

/-- Where in a problem the reader is. -/
inductive Stage where
  /-- Before the header. -/
  | header
  /-- Among the rules of the problem whose header is at the line. -/
  | rules (headerLine : Nat) (builder : Builder)
  /-- Among the words of the problem whose header is at the line, after the given words. -/
  | words (headerLine : Nat) (grammar : Grammar) (words : List (List Char))

/-- A problem and the line of its header. -/
structure Block where
  /-- The line of the header, counted from one. -/
  line : Nat
  /-- The problem. -/
  problem : Problem
deriving DecidableEq

/-- The next stage after a line, and the problem that the line ends, if it does. -/
def step (limit line : Nat) (text : List Char) : Stage → Except LoadError (Stage × Option Block)
  | .header =>
    if (trim text).isEmpty then .ok (.header, none)
    else
      match parseHeader text with
      | .ok builder => .ok (.rules line builder, none)
      | .error fault => .error ⟨fault, line⟩
  | .rules headerLine builder =>
    if trim text = endOfRules then
      match builder.build with
      | .ok g => .ok (.words headerLine g [], none)
      | .error e => .error ⟨.grammar e, headerLine⟩
    else
      match parseRule text with
      | .error fault => .error ⟨fault, line⟩
      | .ok (lhs, rhs) =>
        match builder.addRule lhs rhs with
        | .ok builder => .ok (.rules headerLine builder, none)
        | .error e => .error ⟨.grammar e, line⟩
  | .words headerLine g words =>
    if trim text = endOfWords then .ok (.header, some ⟨headerLine, ⟨g, words⟩⟩)
    else
      match checkWord g limit text with
      | .ok () => .ok (.words headerLine g (words ++ [text]), none)
      | .error e => .error ⟨.word e, line⟩

/-- The error of an input of `line` lines that ends in a given stage. -/
def Stage.finish (line : Nat) : Stage → Option LoadError
  | .header => none
  | .rules .. => some ⟨.rulesUnfinished, line⟩
  | .words .. => some ⟨.wordsUnfinished, line⟩

/-- What is read from an input. -/
structure Reading where
  /-- The problems before the end or the error. -/
  blocks : List Block
  /-- The error that ended the reading. -/
  error : Option LoadError
deriving DecidableEq

/-- The problems of a reading. -/
def Reading.problems (r : Reading) : List Problem := r.blocks.map Block.problem

/-- Reads lines in a given stage, when `line` lines have been read before. -/
def readFrom (limit line : Nat) (stage : Stage) : List (Option (List Char)) → Reading
  | [] => ⟨[], stage.finish line⟩
  | none :: _ => ⟨[], some ⟨.notText, line + 1⟩⟩
  | some text :: rest =>
    match step limit (line + 1) text stage with
    | .error e => ⟨[], some e⟩
    | .ok (stage, none) => readFrom limit (line + 1) stage rest
    | .ok (stage, some block) =>
      let reading := readFrom limit (line + 1) stage rest
      ⟨block :: reading.blocks, reading.error⟩

/-- Reads the contents of lines. -/
def readLines (limit : Nat) (lines : List (Option (List Char))) : Reading :=
  readFrom limit 0 .header lines

/-- Reads a text in bytes. -/
def readBytes (limit : Nat) (bytes : List UInt8) : Reading := readLines limit (linesOfBytes bytes)

/-- Reads a text. -/
def readText (limit : Nat) (text : List Char) : Reading := readLines limit ((lines text).map some)

/-- All problems of a reading without an error. -/
def Reading.toExcept (r : Reading) : Except LoadError (List Problem) :=
  match r.error with
  | none => .ok r.problems
  | some e => .error e

/-- All problems of a text. -/
def load (limit : Nat) (text : List Char) : Except LoadError (List Problem) :=
  (readText limit text).toExcept

end Chomsky.Reader
