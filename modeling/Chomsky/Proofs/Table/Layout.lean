import Chomsky.Table.Basic
import Mathlib.Data.Set.Function
import Mathlib.Order.Interval.Set.Defs
import Mathlib.Tactic.Ring
import Mathlib.Tactic.Common

set_option autoImplicit false

/-!
# The layout of triangular tables

Each cell has a number of its own below the number of cells, and each such number is that of a cell.  So
replacing a cell changes no other.

## Main results

* `Chomsky.Table.row_lt`, `Chomsky.Table.row_inj` — the cells are numbered within the table, and no
  number is used twice; `Chomsky.Table.row_bijOn` — all numbers are used.
* `Chomsky.Table.get_put_self`, `Chomsky.Table.get_put_of_ne` — the cells after a replacement.
-/

namespace Chomsky.Table

/-! ## The numbers of the cells -/

/-- One more column has one more cell than the last. -/
lemma triangle_succ (n : Nat) : (n + 1) * (n + 1 + 1) / 2 = n * (n + 1) / 2 + (n + 1) := by
  have h : (n + 1) * (n + 1 + 1) = n * (n + 1) + 2 * (n + 1) := by ring
  rw [h, Nat.add_mul_div_left _ _ (by decide)]

/-- More columns have more cells. -/
lemma triangle_mono {m n : Nat} (h : m ≤ n) : m * (m + 1) / 2 ≤ n * (n + 1) / 2 :=
  Nat.div_le_div_right (Nat.mul_le_mul h (Nat.succ_le_succ h))

/-- The cells of a column come before those of all later columns. -/
lemma row_lt_triangle {first last n : Nat} (h : first ≤ last) (hn : last < n) :
    row first last < n * (n + 1) / 2 := by
  have hsucc := triangle_succ last
  have hmono := triangle_mono (show last + 1 ≤ n from hn)
  simp only [row]
  omega

/-- **The numbers of the cells lie within the table.** -/
theorem row_lt {t : Table} (ht : t.cells.size = t.length * (t.length + 1) / 2)
    {first last : Nat} (h : first ≤ last) (hlast : last < t.length) :
    row first last < t.cells.size := by
  rw [ht]
  exact row_lt_triangle h hlast

/-- **Different cells have different numbers.**

**Proof sketch.** A cell of an earlier column has a smaller number, and within a column the number
grows with the first position. -/
theorem row_inj {i j i' j' : Nat} (h : i ≤ j) (h' : i' ≤ j') :
    row i j = row i' j' ↔ i = i' ∧ j = j' := by
  constructor
  · intro heq
    have hj : j = j' := by
      by_contra hne
      rcases Nat.lt_or_gt_of_ne hne with hlt | hlt
      · have := row_lt_triangle h hlt
        simp only [row] at heq this
        omega
      · have := row_lt_triangle h' hlt
        simp only [row] at heq this
        omega
    subst hj
    simp only [row] at heq
    exact ⟨by omega, rfl⟩
  · rintro ⟨rfl, rfl⟩
    rfl

/-- Every number below the number of cells is that of a cell. -/
lemma exists_row_eq {n k : Nat} (hk : k < n * (n + 1) / 2) :
    ∃ first last, first ≤ last ∧ last < n ∧ row first last = k := by
  induction n with
  | zero => exact absurd hk (Nat.not_lt_zero k)
  | succ n ih =>
    rw [triangle_succ] at hk
    by_cases hlast : k < n * (n + 1) / 2
    · obtain ⟨i, j, hij, hj, hrow⟩ := ih hlast
      exact ⟨i, j, hij, Nat.lt_succ_of_lt hj, hrow⟩
    · -- the number is one of the last column
      refine ⟨k - n * (n + 1) / 2, n, by omega, Nat.lt_succ_self n, ?_⟩
      simp only [row]
      omega

/-- **The cells of a table are numbered one by one**, from zero to the number of cells. -/
theorem row_bijOn (n : Nat) :
    Set.BijOn (fun cell : Nat × Nat => row cell.1 cell.2) {cell | cell.1 ≤ cell.2 ∧ cell.2 < n}
      (Set.Iio (n * (n + 1) / 2)) := by
  refine ⟨fun cell hcell => row_lt_triangle hcell.1 hcell.2, fun cell hcell cell' hcell' heq => ?_,
    fun k hk => ?_⟩
  · obtain ⟨hfirst, hlast⟩ := (row_inj hcell.1 hcell'.1).1 heq
    exact Prod.ext hfirst hlast
  · obtain ⟨i, j, hij, hj, hrow⟩ := exists_row_eq hk
    exact ⟨(i, j), ⟨hij, hj⟩, hrow⟩

/-! ## Reading and replacing cells -/

variable {t : Table} {i j i' j' : Nat} {s : SymbolSet}

/-- A replacement does not change the number of cells. -/
@[simp] lemma size_cells_put (t : Table) (i j : Nat) (s : SymbolSet) :
    (t.put i j s).cells.size = t.cells.size := by
  simp [put]

/-- The cells of a table are empty at first. -/
@[simp] lemma get_empty (n w i j : Nat) : (empty n w).get i j = .empty w := by
  rw [get, empty, Array.getElem?_replicate]
  split_ifs <;> rfl

/-- A cell has the contents it was given. -/
lemma get_put_self (ht : t.cells.size = t.length * (t.length + 1) / 2) (h : i ≤ j)
    (hj : j < t.length) : (t.put i j s).get i j = s := by
  simp only [get, put]
  rw [Array.getElem?_setIfInBounds_self_of_lt (row_lt ht h hj), Option.getD_some]

/-- No other cell changes. -/
lemma get_put_of_ne (h : i ≤ j) (h' : i' ≤ j') (hne : ¬(i = i' ∧ j = j')) :
    (t.put i j s).get i' j' = t.get i' j' := by
  simp only [get, put]
  rw [Array.getElem?_setIfInBounds_ne (mt (row_inj h h').1 hne)]

end Chomsky.Table
