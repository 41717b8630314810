/-!
# Decimal numbers

Natural numbers written with the digits `0` to `9`, most significant first.

## Main definitions

* `Chomsky.Text.decimal` — the digits of a number, without leading zeros.
* `Chomsky.Text.ofDecimal?` — the number that a non-empty digit sequence stands for.
* `Chomsky.Text.count?` — a number as a user may write it: leading zeros and one plus sign are
  allowed, and the number has to be below `2 ^ 64`.

## Main results

* `Chomsky.Text.ofDecimal?_decimal` — reading the digits of a number gives the number back.
-/

namespace Chomsky.Text

/-- The digits of a number. -/
def decimal (n : Nat) : List Char := Nat.toDigits 10 n

/-- The value of a digit. -/
def digit? (c : Char) : Option Nat :=
  if '0' ≤ c ∧ c ≤ '9' then some (c.toNat - 48) else none

/-- The number that the digits `cs` stand for when `n` is the number of the digits before them. -/
def ofDecimalFrom? (n : Nat) : List Char → Option Nat
  | [] => some n
  | c :: cs =>
    match digit? c with
    | some d => ofDecimalFrom? (10 * n + d) cs
    | none => none

/-- The number that a digit sequence stands for; leading zeros are allowed, other characters and
the empty sequence are not. -/
def ofDecimal? (cs : List Char) : Option Nat :=
  if cs.isEmpty then none else ofDecimalFrom? 0 cs

/-- A digit sequence below `2 ^ 64`, possibly after a plus sign. -/
def count? (cs : List Char) : Option Nat :=
  let digits := match cs with
    | '+' :: ds => ds
    | ds => ds
  match ofDecimal? digits with
  | some n => if n < UInt64.size then some n else none
  | none => none

/-! ## Reading back -/

/-- A digit's character stands for the digit. -/
theorem digit?_digitChar {d : Nat} (h : d < 10) : digit? (Nat.digitChar d) = some d := by
  revert h; revert d; decide

/-- Reading resumes after a first part. -/
theorem ofDecimalFrom?_append (n : Nat) (cs ds : List Char) :
    ofDecimalFrom? n (cs ++ ds) = (ofDecimalFrom? n cs).bind fun m => ofDecimalFrom? m ds := by
  induction cs generalizing n with
  | nil => rfl
  | cons c cs ih =>
    simp only [List.cons_append, ofDecimalFrom?]
    cases digit? c with
    | none => rfl
    | some d => exact ih _

/-- **The digits of a number read back as the number.** -/
theorem ofDecimal?_decimal (n : Nat) : ofDecimal? (decimal n) = some n := by
  have key : ofDecimalFrom? 0 (decimal n) = some n := by
    induction n using Nat.strongRecOn with
    | _ n ih =>
      by_cases h : n < 10
      · simp [decimal, Nat.toDigits_of_lt_base h, ofDecimalFrom?, digit?_digitChar h]
      · have hd : decimal n = decimal (n / 10) ++ [Nat.digitChar (n % 10)] :=
          Nat.toDigits_of_base_le (by omega) (by omega)
        rw [hd, ofDecimalFrom?_append, ih (n / 10) (by omega)]
        simp only [Option.bind_some, ofDecimalFrom?,
          digit?_digitChar (Nat.mod_lt n (by omega : 0 < 10))]
        congr 1; omega
  have hne : decimal n ≠ [] := by
    intro h
    by_cases h10 : n < 10
    · simp [decimal, Nat.toDigits_of_lt_base h10] at h
    · have hd : decimal n = decimal (n / 10) ++ [Nat.digitChar (n % 10)] :=
        Nat.toDigits_of_base_le (by omega) (by omega)
      simp [hd] at h
  simp [ofDecimal?, hne, key]

end Chomsky.Text
