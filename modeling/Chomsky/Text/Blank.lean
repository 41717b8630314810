/-!
# Blank characters

White space as Unicode defines it: the 25 characters with the property `White_Space`.  The
zero-width space and the byte-order mark are not among them.

## Main definitions

* `Chomsky.Text.isBlank` — whether a character is white space.
* `Chomsky.Text.trim` — a text without the white space at its two ends.
* `Chomsky.Text.fields` — the longest blank-free pieces of a text.

## Main results

* `Chomsky.Text.isBlank_of_mem_fields` — fields are free of blanks.
-/

namespace Chomsky.Text

/-- Whether a character has the Unicode property `White_Space`. -/
def isBlank (c : Char) : Bool :=
  let n := c.toNat
  (9 ≤ n && n ≤ 13) || n == 0x20 || n == 0x85 || n == 0xa0 || n == 0x1680 ||
    (0x2000 ≤ n && n ≤ 0x200a) || n == 0x2028 || n == 0x2029 || n == 0x202f || n == 0x205f ||
    n == 0x3000

/-- A text without the blanks in front of it. -/
def trimLeft (cs : List Char) : List Char := cs.dropWhile isBlank

/-- A text without the blanks at its end. -/
def trimRight (cs : List Char) : List Char := (cs.reverse.dropWhile isBlank).reverse

/-- A text without the blanks at its two ends. -/
def trim (cs : List Char) : List Char := trimRight (trimLeft cs)

/-- Cuts a text at its blanks, where `current` are the last characters read, latest first. -/
def fieldsFrom (current : List Char) : List Char → List (List Char)
  | [] => if current.isEmpty then [] else [current.reverse]
  | c :: cs =>
    if isBlank c then
      if current.isEmpty then fieldsFrom [] cs else current.reverse :: fieldsFrom [] cs
    else fieldsFrom (c :: current) cs

/-- The longest pieces of a text that hold no blank, in order. -/
def fields (cs : List Char) : List (List Char) := fieldsFrom [] cs

/-- No blank is lost into a field. -/
theorem isBlank_of_mem_fieldsFrom {current cs : List Char} (h : ∀ c ∈ current, isBlank c = false)
    {f : List Char} (hf : f ∈ fieldsFrom current cs) : ∀ c ∈ f, isBlank c = false := by
  induction cs generalizing current with
  | nil =>
    cases current with
    | nil => simp [fieldsFrom] at hf
    | cons d ds =>
      simp only [fieldsFrom, List.isEmpty_cons, Bool.false_eq_true, if_false,
        List.mem_singleton] at hf
      subst hf
      exact fun c hc => h c (List.mem_reverse.1 hc)
  | cons c cs ih =>
    simp only [fieldsFrom] at hf
    split at hf
    · split at hf
      · exact ih (by simp) hf
      · rcases List.mem_cons.1 hf with rfl | hf
        · exact fun c hc => h c (List.mem_reverse.1 hc)
        · exact ih (by simp) hf
    · rename_i hc
      refine ih (fun d hd => ?_) hf
      rcases List.mem_cons.1 hd with rfl | hd
      · simpa using hc
      · exact h d hd

/-- Fields hold no blanks. -/
theorem isBlank_of_mem_fields {cs f : List Char} (hf : f ∈ fields cs) :
    ∀ c ∈ f, isBlank c = false :=
  isBlank_of_mem_fieldsFrom (by simp) hf

end Chomsky.Text
