import Chomsky.Text.Decimal

/-!
# Reports

## Main definitions

* `Chomsky.Report.line` — the verdict about a word as text.
* `Chomsky.Report.text` — the verdicts about the words of a numbered problem as text.
-/

namespace Chomsky.Report

/-- What stands before the number of a problem. -/
def heading : List Char := "Instancia ".toList

/-- What stands between a rejected word and the ending. -/
def negation : List Char := " nao".toList

/-- What ends the verdict about a word. -/
def ending : List Char := " e uma palavra valida".toList

/-- The verdict about a word. -/
def line (word : List Char) (accepted : Bool) : List Char :=
  word ++ (if accepted then [] else negation) ++ ending ++ ['\n']

/-- The verdicts about the words of a problem, between a line with its number and an empty line.
Words without a verdict are left out. -/
def text (number : Nat) (words : List (List Char)) (verdicts : List Bool) : List Char :=
  heading ++ Text.decimal number ++ ['\n'] ++
    (words.zip verdicts).flatMap (fun (word, accepted) => line word accepted) ++ ['\n']

end Chomsky.Report
