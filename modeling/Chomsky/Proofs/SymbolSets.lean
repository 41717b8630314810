import Chomsky.Ascending
import Chomsky.Rule
import Chomsky.SymbolSet
import Mathlib.Tactic.Common

set_option autoImplicit false

/-!
# Sets of symbols by their members

A set of symbols is determined by its size and its members, and it lists them in ascending order.

## Main results

* `Chomsky.SymbolSet.Numbered.ext_contains` — sets of one size with the same members are equal.
* `Chomsky.SymbolSet.contains_ofList` — the members of a set made from a list.
* `Chomsky.SymbolSet.ofRange?_eq_ok` — the set of a range of numbers.
* `Chomsky.SymbolSet.Numbered.toList_ascending` — the members are listed in ascending order.
* `Chomsky.SymbolSet.Numbered.isEmpty_iff` — when there are no members.
-/

namespace Chomsky.SymbolSet

variable {s t : SymbolSet} {a : Symbol}

/-- A member is below the size. -/
lemma lt_size_of_contains (h : s.contains a = true) : a.toNat < s.size := by
  by_contra hge
  rw [contains, Array.getElem?_eq_none (Nat.le_of_not_lt hge)] at h
  exact absurd h (by simp)

/-- **Sets of one size with the same members are equal**, as long as no bits are set but those of
symbols. -/
theorem Numbered.ext_contains (hs : s.Numbered) (ht : t.Numbered) (hst : s.size = t.size)
    (h : ∀ a, s.contains a = true ↔ t.contains a = true) : s = t := by
  have hbits : s.bits = t.bits := by
    refine Array.ext hst fun i hi hi' => Bool.eq_iff_iff.2 ?_
    have hset : s.bits[i]? = some true ↔ t.bits[i]? = some true := by
      simp only [hs.getElem?_iff, ht.getElem?_iff, h]
    simpa [hi, hi'] using hset
  cases s
  cases t
  exact congrArg SymbolSet.mk hbits

/-- Sets of one size with the same members are equal, as long as the numbers below the size are
symbols. -/
lemma ext_contains (hst : s.size = t.size) (hs : s.size ≤ UInt32.size)
    (h : ∀ a, s.contains a = true ↔ t.contains a = true) : s = t :=
  (numbered_of_size_le hs).ext_contains (numbered_of_size_le (hst ▸ hs)) hst h

/-- A union of sets of one size has that size. -/
lemma size_union (h : s.size = t.size) : (s.union t).size = s.size := by
  have h' : s.bits.size = t.bits.size := h
  simp [size, union, h']

/-- A set by a predicate has the size that is given. -/
@[simp] lemma size_ofPred (n : Nat) (p : Symbol → Bool) : (ofPred n p).size = n := by
  simp [size, ofPred]

/-- Members inserted one after the other. -/
lemma contains_foldl_insert (members : List Symbol) (s : SymbolSet) :
    (members.foldl insert s).size = s.size ∧
      ∀ a, (members.foldl insert s).contains a = true ↔
        s.contains a = true ∨ a ∈ members ∧ a.toNat < s.size := by
  induction members generalizing s with
  | nil => simp
  | cons b members ih =>
    obtain ⟨hsize, hmem⟩ := ih (s.insert b)
    refine ⟨by rw [List.foldl_cons, hsize, size_insert], fun a => ?_⟩
    rw [List.foldl_cons, hmem, contains_insert, size_insert, List.mem_cons]
    by_cases hba : b = a
    · subst hba
      simp only [true_and, Bool.or_eq_true, decide_eq_true_eq, true_or]
      tauto
    · have hab : a ≠ b := fun h => hba h.symm
      simp only [hba, hab, false_and, decide_false, Bool.false_or, false_or]

/-- A set by its members has the size that is given. -/
@[simp] lemma size_ofList (n : Nat) (members : List Symbol) : (ofList n members).size = n := by
  rw [ofList, (contains_foldl_insert members _).1, size_empty]

/-- The members of a set made from a list are those that fit into the size. -/
lemma contains_ofList {n : Nat} {members : List Symbol} :
    (ofList n members).contains a = true ↔ a ∈ members ∧ a.toNat < n := by
  rw [ofList, (contains_foldl_insert members _).2, size_empty]
  simp

/-- A set is made from its members. -/
lemma ofList_toList (hs : s.size ≤ UInt32.size) : ofList s.size s.toList = s := by
  refine ext_contains (size_ofList _ _) (by simpa using hs) fun a => ?_
  rw [contains_ofList, mem_toList hs]
  exact and_iff_left_of_imp lt_size_of_contains

/-- Numbers from `first` on whose symbols all fit into the size become members.

**Proof sketch.** By induction on how many numbers there are: the first one fits, and the others are
inserted after it. -/
lemma insertRange?_eq_ok {count first : Nat}
    (h : ∀ i, first ≤ i → i < first + count → (Symbol.ofNat i).toNat < s.size) :
    ∃ t, insertRange? count first s = .ok t ∧ t.size = s.size ∧
      ∀ a, t.contains a = true ↔
        s.contains a = true ∨ ∃ i, first ≤ i ∧ i < first + count ∧ .ofNat i = a := by
  induction count generalizing first s with
  | zero =>
    refine ⟨s, rfl, rfl, fun a => (or_iff_left ?_).symm⟩
    rintro ⟨i, hle, hlt, -⟩
    omega
  | succ count ih =>
    have hfirst : (Symbol.ofNat first).toNat < s.size := h first (Nat.le_refl _) (by omega)
    obtain ⟨t, ht, hsize, hmem⟩ := @ih (s.assign (.ofNat first) true) (first + 1) fun i hle hlt => by
      rw [size_assign]
      exact h i (by omega) (by omega)
    refine ⟨t, ?_, hsize.trans (size_assign _ _ _), fun a => ?_⟩
    · rw [insertRange?, assign?, if_pos hfirst]
      exact ht
    · have hone : (s.assign (.ofNat first) true).contains a = true ↔
          .ofNat first = a ∨ s.contains a = true := by
        show (s.insert (.ofNat first)).contains a = true ↔ _
        rw [contains_insert, Bool.or_eq_true, decide_eq_true_eq, and_iff_left hfirst]
      rw [hmem, hone]
      constructor
      · rintro ((rfl | hs) | ⟨i, hle, hlt, rfl⟩)
        · exact .inr ⟨first, Nat.le_refl _, by omega, rfl⟩
        · exact .inl hs
        · exact .inr ⟨i, by omega, by omega, rfl⟩
      · rintro (hs | ⟨i, hle, hlt, rfl⟩)
        · exact .inl (.inr hs)
        · rcases Nat.eq_or_lt_of_le hle with rfl | hlt'
          · exact .inl (.inl rfl)
          · exact .inr ⟨i, hlt', by omega, rfl⟩

/-- **A range within the size is made without fault**, and its members are the symbols with numbers
in the range. -/
theorem ofRange?_eq_ok {n first stop : Nat} (hn : n ≤ UInt32.size) (hstop : stop ≤ n) :
    ofRange? n first stop =
      .ok (ofPred n fun a => first ≤ a.toNat && a.toNat < stop) := by
  have hnum : ∀ i, i < stop → (Symbol.ofNat i).toNat = i := fun i hi => by
    rw [Symbol.toNat_ofNat, Nat.mod_eq_of_lt (by omega)]
  obtain ⟨t, ht, hsize, hmem⟩ := @insertRange?_eq_ok (empty n) (stop - first) first
    fun i hle hlt => by
      rw [hnum i (by omega), size_empty]
      omega
  rw [size_empty] at hsize
  refine ht.trans (congrArg Except.ok ?_)
  refine ext_contains (hsize.trans (size_ofPred _ _).symm) (by omega) fun a => ?_
  rw [hmem, contains_ofPred, contains_empty]
  simp only [Bool.false_eq_true, false_or, Bool.and_eq_true, decide_eq_true_eq]
  constructor
  · rintro ⟨i, hle, hlt, rfl⟩
    rw [hnum i (by omega)]
    omega
  · rintro ⟨-, hle, hlt⟩
    exact ⟨a.toNat, hle, by omega, Symbol.ofNat_toNat a⟩

/-- **The members are listed in ascending order**, as long as no bits are set but those of symbols.

**Proof sketch.** The list goes through the bits by their numbers, and different numbers of symbols are
those of different symbols. -/
theorem Numbered.toList_ascending (hs : s.Numbered) : Ascending s.toList := by
  have hnum : (s.bits.toList.zipIdx.map Prod.snd).Pairwise (· < ·) := by
    rw [List.zipIdx_map_snd]
    exact List.pairwise_lt_range'
  rw [Ascending, toList, List.pairwise_filterMap]
  refine List.Pairwise.imp_of_mem ?_ (List.pairwise_map.1 hnum)
  rintro ⟨p, i⟩ ⟨q, j⟩ hi hj hij a ha b hb
  obtain ⟨rfl, rfl⟩ : p = true ∧ Symbol.ofNat i = a := by simpa using ha
  obtain ⟨rfl, rfl⟩ : q = true ∧ Symbol.ofNat j = b := by simpa using hb
  -- both numbers are below `2 ^ 32`, so they are those of the symbols
  have hi' : i < UInt32.size := hs i (by simpa using List.mem_zipIdx_iff_getElem?.1 hi)
  have hj' : j < UInt32.size := hs j (by simpa using List.mem_zipIdx_iff_getElem?.1 hj)
  show compare (Symbol.ofNat i).toNat (Symbol.ofNat j).toNat = .lt
  rw [Symbol.toNat_ofNat, Symbol.toNat_ofNat, Nat.mod_eq_of_lt hi', Nat.mod_eq_of_lt hj']
  exact Nat.compare_eq_lt.2 hij

/-- The members are listed in ascending order, as long as the numbers below the size are symbols. -/
lemma toList_ascending (hs : s.size ≤ UInt32.size) : Ascending s.toList :=
  (numbered_of_size_le hs).toList_ascending

/-- A set is empty if it has no members, as long as no bits are set but those of symbols. -/
lemma Numbered.isEmpty_iff (hs : s.Numbered) : s.isEmpty = true ↔ ∀ a, s.contains a = false := by
  rw [isEmpty, Bool.not_eq_true', Array.any_eq_false]
  constructor
  · intro h a
    refine Bool.eq_false_iff.2 fun ha => ?_
    obtain ⟨hlt, hset⟩ := Array.getElem?_eq_some_iff.1 (contains_iff_getElem?.1 ha)
    exact h a.toNat hlt hset
  · intro h i hi hset
    obtain ⟨a, ha, -⟩ := hs.getElem?_iff.1 (Array.getElem?_eq_some_iff.2 ⟨hi, hset⟩)
    exact absurd ha (by simp [h a])

/-- A set is empty if it has no members, as long as the numbers below the size are symbols. -/
lemma isEmpty_iff (hs : s.size ≤ UInt32.size) : s.isEmpty = true ↔ ∀ a, s.contains a = false :=
  (numbered_of_size_le hs).isEmpty_iff

end Chomsky.SymbolSet
