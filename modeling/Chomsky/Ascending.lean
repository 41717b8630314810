/-!
# Ascending lists

Finite sets that print in order are kept as strictly ascending lists.  Such a list is determined
by its members: two sets are equal when their lists are.

## Main definitions

* `Chomsky.Ascending` — each element of a list is less than all that follow it.
* `Chomsky.Ascending.insert` — puts an element in its place; an element already there stays.
* `Chomsky.Ascending.ofList` — the members of a list, in order and without repetition.

## Main results

* `Chomsky.Ascending.mem_ofList`, `Chomsky.Ascending.ofList_ascending` — `ofList` keeps the
  members and puts them in order.
* `Chomsky.Ascending.ext` — ascending lists with the same members are equal.
-/

namespace Chomsky

/-- Each element is less than all that follow it. -/
def Ascending {α : Type} [Ord α] (xs : List α) : Prop :=
  xs.Pairwise fun x y => compare x y = .lt

namespace Ascending

variable {α : Type} [Ord α]

/-- Puts `x` before the first greater element.  If `x` is there already, the list stays. -/
def insert (x : α) : List α → List α
  | [] => [x]
  | y :: ys =>
    match compare x y with
    | .lt => x :: y :: ys
    | .eq => y :: ys
    | .gt => y :: insert x ys

/-- The members of a list in ascending order, each once. -/
def ofList (xs : List α) : List α := xs.foldl (fun acc x => insert x acc) []

/-! ## Members and order -/

/-- Insertion adds one member. -/
@[simp] theorem mem_insert [Std.LawfulEqOrd α] {x z : α} {ys : List α} :
    z ∈ insert x ys ↔ z = x ∨ z ∈ ys := by
  induction ys with
  | nil => simp [insert]
  | cons y ys ih =>
    simp only [insert]
    split
    · simp
    · rename_i h
      have := Std.LawfulEqOrd.eq_of_compare h
      subst this; simp
    · simp only [List.mem_cons, ih]
      grind

/-- Insertion keeps the order. -/
theorem insert_ascending [Std.LawfulEqOrd α] [Std.TransOrd α] (x : α) {ys : List α}
    (h : Ascending ys) : Ascending (insert x ys) := by
  induction ys with
  | nil => simp [insert, Ascending]
  | cons y ys ih =>
    have hy := List.pairwise_cons.1 h
    simp only [insert]
    split
    · rename_i hlt
      refine List.pairwise_cons.2 ⟨fun z hz => ?_, h⟩
      rcases List.mem_cons.1 hz with rfl | hz
      · exact hlt
      · exact Std.TransCmp.lt_trans hlt (hy.1 z hz)
    · exact h
    · rename_i hgt
      refine List.pairwise_cons.2 ⟨fun z hz => ?_, ih hy.2⟩
      rcases mem_insert.1 hz with rfl | hz
      · exact Std.OrientedCmp.lt_of_gt hgt
      · exact hy.1 z hz

/-- `ofList` keeps the members. -/
@[simp] theorem mem_ofList [Std.LawfulEqOrd α] {z : α} {xs : List α} : z ∈ ofList xs ↔ z ∈ xs := by
  suffices ∀ acc, z ∈ xs.foldl (fun acc x => insert x acc) acc ↔ z ∈ acc ∨ z ∈ xs by
    simpa [ofList] using this []
  induction xs with
  | nil => simp
  | cons x xs ih => intro acc; simp only [List.foldl_cons, ih, mem_insert, List.mem_cons]; grind

/-- `ofList` puts its members in order. -/
theorem ofList_ascending [Std.LawfulEqOrd α] [Std.TransOrd α] (xs : List α) :
    Ascending (ofList xs) := by
  suffices ∀ acc : List α, Ascending acc →
      Ascending (xs.foldl (fun acc x => insert x acc) acc) from this [] List.Pairwise.nil
  induction xs with
  | nil => intro acc h; exact h
  | cons x xs ih => intro acc h; exact ih _ (insert_ascending x h)

/-- **Ascending lists are determined by their members.** -/
theorem ext [Std.LawfulEqOrd α] [Std.TransOrd α] {xs ys : List α} (hx : Ascending xs)
    (hy : Ascending ys) (h : ∀ z, z ∈ xs ↔ z ∈ ys) : xs = ys := by
  induction xs generalizing ys with
  | nil =>
    cases ys with
    | nil => rfl
    | cons y ys => exact absurd ((h y).2 (by simp)) (by simp)
  | cons x xs ih =>
    cases ys with
    | nil => exact absurd ((h x).1 (by simp)) (by simp)
    | cons y ys =>
      have px := List.pairwise_cons.1 hx
      have py := List.pairwise_cons.1 hy
      have irrefl : ∀ a : α, compare a a ≠ .lt := fun a => by simp
      have hxy : x = y := by
        rcases List.mem_cons.1 ((h x).1 (by simp)) with e | hm
        · exact e
        · rcases List.mem_cons.1 ((h y).2 (by simp)) with e | hm'
          · exact e.symm
          · exact absurd (Std.TransCmp.lt_trans (px.1 y hm') (py.1 x hm)) (irrefl x)
      subst hxy
      congr 1
      refine ih px.2 py.2 fun z => ⟨fun hz => ?_, fun hz => ?_⟩
      · rcases List.mem_cons.1 ((h z).1 (by simp [hz])) with e | hm
        · subst e; exact absurd (px.1 z hz) (irrefl z)
        · exact hm
      · rcases List.mem_cons.1 ((h z).2 (by simp [hz])) with e | hm
        · subst e; exact absurd (py.1 z hz) (irrefl z)
        · exact hm

end Ascending

end Chomsky
