import Chomsky.Proofs.Naming
import Chomsky.Proofs.SymbolSets
import Mathlib.Data.Finset.Image
import Mathlib.Order.Interval.Finset.Nat

set_option autoImplicit false

/-!
# Sets of symbols as finite sets

A set of symbols is a finite set together with a size, and nothing shows that it is kept as bits: whatever
sets are made, filled and joined, in whatever order, the answers are those that finite sets give.  This
holds for sizes beyond the numbers of symbols too.  Such a set has bits that belong to no symbol, and none
of them is ever set.

## Main definitions

* `Chomsky.FiniteSet` — a finite set of symbols with numbers below a size.
* `Chomsky.SetKind` — operations on sets; `Chomsky.SymbolSet.kind`, `Chomsky.FiniteSet.kind` — on sets as
  bits and on finite sets.
* `Chomsky.SetInstruction`, `Chomsky.SetKind.run` — instructions for sets under names, and what they do.
* `Chomsky.SymbolSet.Holds` — the members of a set as bits are those of a finite set.

## Main results

* `Chomsky.SymbolSet.Holds.ofRange?`, `Chomsky.SymbolSet.Holds.assign?`, `Chomsky.SymbolSet.Holds.union?` —
  each operation does the same on both.
* `Chomsky.SymbolSet.holds_runFrom` — and so does each sequence of instructions.
* `Chomsky.SymbolSet.refines_finite_sets` — so everything that can be seen of a set is what its members say.
-/

namespace Chomsky

/-! ## Finite sets -/

/-- A finite set of symbols with numbers below a size. -/
structure FiniteSet where
  /-- The bound on the numbers. -/
  size : Nat
  /-- The symbols in the set. -/
  members : Finset Symbol
  /-- The bound is kept. -/
  lt_size : ∀ a ∈ members, a.toNat < size

/-- Operations on sets, where `none` is a refusal. -/
structure SetKind (σ : Type) where
  /-- The set of a given size without members. -/
  empty (size : Nat) : σ
  /-- The set of a given size with the symbols of the numbers from `first` up to but not including
  `stop`. -/
  ofRange? (size first stop : Nat) : Option σ
  /-- Makes a symbol a member or takes it out. -/
  assign? (s : σ) (a : Symbol) (value : Bool) : Option σ
  /-- Joins a set to another, and whether it gained a member. -/
  union? (s t : σ) : Option (σ × Bool)

/-- The operations on sets as bits. -/
def SymbolSet.kind : SetKind SymbolSet where
  empty := SymbolSet.empty
  ofRange? size first stop := (SymbolSet.ofRange? size first stop).toOption
  assign? s a value := (s.assign? a value).toOption
  union? s t := (s.union? t).toOption

namespace FiniteSet

/-- The symbols of the low 32 bits of the numbers in a range, unless one of them is not below the size. -/
def ofRange? (size first stop : Nat) : Option FiniteSet :=
  if h : ∀ i ∈ Finset.Ico first stop, i % UInt32.size < size then
    some ⟨size, (Finset.Ico first stop).image Symbol.ofNat,
      Finset.forall_mem_image.2 fun i hi => (Symbol.toNat_ofNat i).symm ▸ h i hi⟩
  else none

/-- One more member or one less, unless its number is not below the size. -/
def assign? (s : FiniteSet) (a : Symbol) (value : Bool) : Option FiniteSet :=
  if h : a.toNat < s.size then
    if value then
      some ⟨s.size, insert a s.members, Finset.forall_mem_insert _ _ _ |>.2 ⟨h, s.lt_size⟩⟩
    else some ⟨s.size, s.members.erase a, fun b hb => s.lt_size b (Finset.mem_of_mem_erase hb)⟩
  else none

/-- The members of either set, and whether the second has some that the first has not, unless the sizes
differ. -/
def union? (s t : FiniteSet) : Option (FiniteSet × Bool) :=
  if h : s.size = t.size then
    some (⟨s.size, s.members ∪ t.members, fun a ha =>
      (Finset.mem_union.1 ha).elim (s.lt_size a) fun ha => h ▸ t.lt_size a ha⟩,
      decide (∃ a ∈ t.members, a ∉ s.members))
  else none

/-- The operations on finite sets. -/
def kind : SetKind FiniteSet where
  empty size := ⟨size, ∅, by simp⟩
  ofRange? := ofRange?
  assign? := assign?
  union? := union?

end FiniteSet

/-! ## Instructions -/

/-- What is to be done with sets that are kept under names. -/
inductive SetInstruction (ν : Type) where
  /-- Puts a set of a given size without members under a name. -/
  | new (name : ν) (size : Nat)
  /-- Puts the set of a range of numbers under a name. -/
  | ofRange (name : ν) (size first stop : Nat)
  /-- Makes a symbol a member of the set under a name, or takes it out. -/
  | assign (name : ν) (a : Symbol) (value : Bool)
  /-- Joins the set under another name to the one under a name. -/
  | union (name other : ν)

/-- The name under which an instruction puts its result. -/
def SetInstruction.name {ν : Type} : SetInstruction ν → ν
  | new name _ | ofRange name _ _ _ | assign name _ _ | union name _ => name

/-- How an instruction is answered. -/
inductive SetAnswer where
  | refused
  | done
  /-- Two sets are joined, and the first has gained a member or not. -/
  | joined (gained : Bool)
deriving DecidableEq

namespace SetKind

variable {σ ν : Type} [DecidableEq ν] (kind : SetKind σ)

omit [DecidableEq ν] in
/-- The set that an instruction makes, with the answer, unless it is refused. -/
def result? (sets : ν → σ) : SetInstruction ν → Option (σ × SetAnswer)
  | .new _ size => some (kind.empty size, .done)
  | .ofRange _ size first stop => (kind.ofRange? size first stop).map fun s => (s, .done)
  | .assign name a value => (kind.assign? (sets name) a value).map fun s => (s, .done)
  | .union name other =>
    (kind.union? (sets name) (sets other)).map fun (s, gained) => (s, .joined gained)

/-- The answer to an instruction and the sets after it; a refused one leaves all sets as they were. -/
def perform (sets : ν → σ) (i : SetInstruction ν) : SetAnswer × (ν → σ) :=
  match kind.result? sets i with
  | some (s, answer) => (answer, Function.update sets i.name s)
  | none => (.refused, sets)

/-- The answers to several instructions and the sets after them. -/
def runFrom (sets : ν → σ) : List (SetInstruction ν) → List SetAnswer × (ν → σ)
  | [] => ([], sets)
  | i :: rest =>
    let (answer, sets) := kind.perform sets i
    let (answers, sets) := runFrom sets rest
    (answer :: answers, sets)

/-- The answers to instructions and the sets after them, where each name stands for a set of size zero at
first. -/
def run (instructions : List (SetInstruction ν)) : List SetAnswer × (ν → σ) :=
  kind.runFrom (fun _ => kind.empty 0) instructions

end SetKind

namespace SymbolSet

variable {s s' : SymbolSet} {t t' : FiniteSet} {a : Symbol} {n first stop : Nat}

/-! ## Bits beyond the numbers of symbols -/

/-- A set without members has no bits set. -/
lemma numbered_empty (n : Nat) : (empty n).Numbered := by
  intro i hi
  simp only [empty, Array.getElem?_replicate] at hi
  split_ifs at hi
  simp at hi

/-- A change of one member sets no other bits. -/
lemma Numbered.assign (h : s.Numbered) (a : Symbol) (value : Bool) : (s.assign a value).Numbered := by
  intro i hi
  simp only [SymbolSet.assign, Array.getElem?_setIfInBounds] at hi
  split_ifs at hi with ha
  · exact ha ▸ a.toNat_lt
  · exact h i hi

/-- A union sets no other bits. -/
lemma Numbered.union (h : s.Numbered) (h' : s'.Numbered) : (s.union s').Numbered := by
  intro i hi
  simp only [SymbolSet.union, Array.getElem?_zipWith] at hi
  split at hi
  · rename_i x y hx hy
    obtain rfl | rfl : x = true ∨ y = true := by simpa using hi
    · exact h i hx
    · exact h' i hy
  · exact absurd hi (by simp)

/-- The insertion of a range sets no other bits. -/
lemma Numbered.insertRange? {count : Nat} (h : s.Numbered)
    (hs : insertRange? count first s = .ok s') : s'.Numbered := by
  induction count generalizing first s with
  | zero => exact Except.ok.inj hs ▸ h
  | succ count ih =>
    rw [SymbolSet.insertRange?, assign?] at hs
    split_ifs at hs
    exact ih (h.assign _ true) hs

/-- The numbers of a range become members exactly if all their symbols fit into the size. -/
lemma exists_insertRange?_eq_ok_iff {count : Nat} :
    (∃ s', insertRange? count first s = .ok s') ↔
      ∀ i, first ≤ i → i < first + count → (Symbol.ofNat i).toNat < s.size := by
  refine ⟨?_, fun h => (insertRange?_eq_ok h).imp fun _ hs => hs.1⟩
  induction count generalizing first s with
  | zero => exact fun _ i _ _ => by omega
  | succ count ih =>
    rintro ⟨s', hs⟩ i hle hlt
    rw [insertRange?, assign?] at hs
    split_ifs at hs with hfirst
    · rcases Nat.eq_or_lt_of_le hle with rfl | hlt'
      · exact hfirst
      · simpa using ih ⟨s', hs⟩ i hlt' (by omega)

/-- A union gains nothing if the second set has no members but those of the first. -/
lemma Numbered.union_eq_self_iff (h : s.Numbered) (h' : s'.Numbered) (hsize : s.size = s'.size) :
    s.union s' = s ↔ ∀ a, s'.contains a = true → s.contains a = true := by
  constructor
  · intro heq a ha
    rw [← heq, contains_union hsize, ha, Bool.or_true]
  · intro hsub
    refine (h.union h').ext_contains h (size_union hsize) fun a => ?_
    rw [contains_union hsize, Bool.or_eq_true]
    exact or_iff_left_of_imp (hsub a)

/-! ## Sets that hold the members of finite sets -/

/-- A set as bits has the size and the members of a finite set, and no other bits are set. -/
structure Holds (s : SymbolSet) (t : FiniteSet) : Prop where
  size_eq : s.size = t.size
  numbered : s.Numbered
  contains_iff : ∀ a, s.contains a = true ↔ a ∈ t.members

namespace Holds

/-- A set without members is the finite set without members. -/
lemma empty (n : Nat) : (kind.empty n).Holds (FiniteSet.kind.empty n) :=
  ⟨size_empty n, numbered_empty n, fun a => by simp [kind, FiniteSet.kind]⟩

/-- **A range of numbers** makes the same set, or is refused for both.

**Proof sketch.** The numbers are inserted one by one, which succeeds if they all fit; their symbols are
then the members. -/
theorem ofRange? (n first stop : Nat) :
    Option.Rel Holds (kind.ofRange? n first stop) (FiniteSet.kind.ofRange? n first stop) := by
  show Option.Rel Holds (SymbolSet.ofRange? n first stop).toOption (FiniteSet.ofRange? n first stop)
  have hfits : (∀ i ∈ Finset.Ico first stop, i % UInt32.size < n) ↔
      ∀ i, first ≤ i → i < first + (stop - first) →
        (Symbol.ofNat i).toNat < (SymbolSet.empty n).size := by
    simp only [Symbol.toNat_ofNat, size_empty, Finset.mem_Ico, and_imp]
    exact ⟨fun h i hle hlt => h i hle (by omega), fun h i hle hlt => h i hle (by omega)⟩
  unfold FiniteSet.ofRange? SymbolSet.ofRange?
  split_ifs with h
  · obtain ⟨s, hs, hsize, hmem⟩ := insertRange?_eq_ok (hfits.1 h)
    rw [hs]
    refine .some ⟨hsize.trans (size_empty n), (numbered_empty n).insertRange? hs, fun a => ?_⟩
    rw [hmem, contains_empty]
    simp only [Bool.false_eq_true, false_or, Finset.mem_image, Finset.mem_Ico]
    constructor
    · rintro ⟨i, hle, hlt, rfl⟩
      exact ⟨i, ⟨hle, by omega⟩, rfl⟩
    · rintro ⟨i, ⟨hle, hlt⟩, rfl⟩
      exact ⟨i, hle, by omega, rfl⟩
  · cases hs : insertRange? (stop - first) first (SymbolSet.empty n) with
    | error fault => exact .none
    | ok s => exact absurd (hfits.2 (exists_insertRange?_eq_ok_iff.1 ⟨s, hs⟩)) h

/-- Numbers from `2 ^ 32` on are those of the first symbols again. -/
example : (SymbolSet.ofRange? 3 (2 ^ 32) (2 ^ 32 + 2)).toOption.map toList =
    some [.ofNat 0, .ofNat 1] := by
  decide +kernel

/-- **One more member or one less** makes the same set, or is refused for both. -/
theorem assign? (h : s.Holds t) (a : Symbol) (value : Bool) :
    Option.Rel Holds (kind.assign? s a value) (FiniteSet.kind.assign? t a value) := by
  show Option.Rel Holds (s.assign? a value).toOption (t.assign? a value)
  unfold SymbolSet.assign? FiniteSet.assign?
  rw [h.size_eq]
  split_ifs with hfits hvalue
  · obtain rfl := hvalue
    refine .some ⟨(size_assign ..).trans h.size_eq, h.numbered.assign a true, fun b => ?_⟩
    rw [contains_assign, Finset.mem_insert, ← h.contains_iff]
    simp only [h.size_eq, hfits, and_true]
    split_ifs with hab
    · exact iff_of_true rfl (.inl hab.symm)
    · exact (or_iff_right (Ne.symm hab)).symm
  · obtain rfl := Bool.eq_false_iff.2 hvalue
    refine .some ⟨(size_assign ..).trans h.size_eq, h.numbered.assign a false, fun b => ?_⟩
    rw [contains_assign, Finset.mem_erase, ← h.contains_iff]
    simp only [h.size_eq, hfits, and_true]
    split_ifs with hab
    · exact iff_of_false not_false fun hb => hb.1 hab.symm
    · exact (and_iff_right (Ne.symm hab)).symm
  · exact .none

/-- **Joining** makes the same set and gains a member for both or for neither, or is refused for both. -/
theorem union? (h : s.Holds t) (h' : s'.Holds t') :
    Option.Rel (fun p q => p.1.Holds q.1 ∧ p.2 = q.2) (kind.union? s s')
      (FiniteSet.kind.union? t t') := by
  show Option.Rel _ (s.union? s').toOption (t.union? t')
  unfold SymbolSet.union? FiniteSet.union?
  rw [h.size_eq, h'.size_eq]
  split_ifs with hsize
  · have hss' : s.size = s'.size := by rw [h.size_eq, h'.size_eq, hsize]
    refine .some ⟨⟨(size_union hss').trans h.size_eq, h.numbered.union h'.numbered, fun a => ?_⟩, ?_⟩
    · rw [contains_union hss', Bool.or_eq_true, h.contains_iff, h'.contains_iff, Finset.mem_union]
    · refine decide_eq_decide.2 ?_
      rw [ne_eq, h.numbered.union_eq_self_iff h'.numbered hss']
      simp only [h.contains_iff, h'.contains_iff, not_forall, exists_prop]
  · exact .none

/-! ## What can be seen of a set -/

/-- Symbols at or beyond the size are no members. -/
lemma contains_eq_false (h : s.Holds t) (ha : t.size ≤ a.toNat) : s.contains a = false := by
  refine Bool.eq_false_iff.2 fun hmem => ?_
  exact Nat.not_lt.2 ha (t.lt_size a ((h.contains_iff a).1 hmem))

/-- The members of the finite set are listed. -/
lemma mem_toList_iff (h : s.Holds t) : a ∈ s.toList ↔ a ∈ t.members := by
  rw [h.numbered.mem_toList, h.contains_iff]

/-- They are counted. -/
lemma card_eq (h : s.Holds t) : s.card = t.members.card := by
  have hmembers : s.toList.toFinset = t.members := by
    ext a
    rw [List.mem_toFinset, h.mem_toList_iff]
  rw [card, ← List.toFinset_card_of_nodup (Ascending.nodup h.numbered.toList_ascending), hmembers]

/-- There are none if the finite set is empty. -/
lemma isEmpty_iff (h : s.Holds t) : s.isEmpty = true ↔ t.members = ∅ := by
  rw [h.numbered.isEmpty_iff, Finset.eq_empty_iff_forall_notMem]
  simp only [← h.contains_iff, Bool.not_eq_true]

/-- Sets are equal if the finite sets have one size and the same members. -/
lemma eq_iff (h : s.Holds t) (h' : s'.Holds t') :
    s = s' ↔ t.size = t'.size ∧ t.members = t'.members := by
  constructor
  · rintro rfl
    refine ⟨h.size_eq.symm.trans h'.size_eq, ?_⟩
    ext a
    rw [← h.contains_iff, h'.contains_iff]
  · rintro ⟨hsize, hmembers⟩
    refine h.numbered.ext_contains h'.numbered ?_ fun a => ?_
    · rw [h.size_eq, h'.size_eq, hsize]
    · rw [h.contains_iff, h'.contains_iff, hmembers]

end Holds

/-! ## Instructions one after the other -/

/-- Related results are still related after further steps that keep them so. -/
lemma rel_map {α β γ δ : Type} {r : α → β → Prop} {r' : γ → δ → Prop} {f : α → γ} {g : β → δ}
    {x : Option α} {y : Option β} (h : Option.Rel r x y) (hfg : ∀ {a b}, r a b → r' (f a) (g b)) :
    Option.Rel r' (x.map f) (y.map g) := by
  cases h with
  | none => exact .none
  | some hab => exact .some (hfg hab)

section Run

variable {ν : Type} [DecidableEq ν] {sets : ν → SymbolSet} {finite : ν → FiniteSet}

omit [DecidableEq ν] in
/-- What a single instruction makes is the same set with the same answer, or it is refused for both. -/
lemma rel_result? (h : ∀ x, (sets x).Holds (finite x)) (i : SetInstruction ν) :
    Option.Rel (fun p q => p.1.Holds q.1 ∧ p.2 = q.2) (kind.result? sets i)
      (FiniteSet.kind.result? finite i) := by
  cases i with
  | new x n => exact .some ⟨Holds.empty n, rfl⟩
  | ofRange x n first stop => exact rel_map (Holds.ofRange? n first stop) fun hs => ⟨hs, rfl⟩
  | assign x a value => exact rel_map ((h x).assign? a value) fun hs => ⟨hs, rfl⟩
  | union x y =>
    exact rel_map ((h x).union? (h y)) fun hs => ⟨hs.1, congrArg SetAnswer.joined hs.2⟩

/-- **An instruction does the same on sets as bits as on finite sets.** -/
theorem holds_perform (h : ∀ x, (sets x).Holds (finite x)) (i : SetInstruction ν) :
    (kind.perform sets i).1 = (FiniteSet.kind.perform finite i).1 ∧
      ∀ x, ((kind.perform sets i).2 x).Holds ((FiniteSet.kind.perform finite i).2 x) := by
  have hresult := rel_result? h i
  unfold SetKind.perform
  generalize kind.result? sets i = made at hresult ⊢
  generalize FiniteSet.kind.result? finite i = made' at hresult ⊢
  cases hresult with
  | none => exact ⟨rfl, h⟩
  | some hmade =>
    refine ⟨hmade.2, fun x => ?_⟩
    dsimp only
    by_cases hx : x = i.name
    · subst hx
      rw [Function.update_self, Function.update_self]
      exact hmade.1
    · rw [Function.update_of_ne hx, Function.update_of_ne hx]
      exact h x

/-- **Instructions one after the other** are answered the same, and leave the same sets. -/
theorem holds_runFrom (h : ∀ x, (sets x).Holds (finite x)) (instructions : List (SetInstruction ν)) :
    (kind.runFrom sets instructions).1 = (FiniteSet.kind.runFrom finite instructions).1 ∧
      ∀ x, ((kind.runFrom sets instructions).2 x).Holds
        ((FiniteSet.kind.runFrom finite instructions).2 x) := by
  induction instructions generalizing sets finite with
  | nil => exact ⟨rfl, h⟩
  | cons i rest ih =>
    obtain ⟨hanswer, hsets⟩ := holds_perform h i
    obtain ⟨hanswers, hrest⟩ := ih hsets
    exact ⟨congrArg₂ List.cons hanswer hanswers, hrest⟩

/-- **Sets of symbols are finite sets of a fixed size.**  Whatever instructions are carried out for sets
under names, the same ones are refused as for finite sets, and a union gains a member for both or for
neither.  Of each set that results, the members, their order, their number, whether there are any, and
which of the sets are equal are those of the finite sets.

**Proof sketch.** Every instruction does the same for both, so a whole sequence does.  What can be seen of
a set follows from its size and its members, as no bit is set beyond the numbers of symbols. -/
theorem refines_finite_sets (instructions : List (SetInstruction ν)) :
    let outcome := kind.run instructions
    let expected := FiniteSet.kind.run instructions
    outcome.1 = expected.1 ∧
    ∀ x, let s := outcome.2 x; let t := expected.2 x
      s.size = t.size ∧
      (∀ a, (s.contains a = true ↔ a ∈ t.members) ∧ (s[a] = true ↔ a ∈ t.members)) ∧
      (∀ a, s.size ≤ a.toNat → s.contains a = false ∧ s[a] = false) ∧
      s.toList.Pairwise (fun a b => a.toNat < b.toNat) ∧
      (∀ a, a ∈ s.toList ↔ a ∈ t.members) ∧
      s.card = t.members.card ∧
      (s.isEmpty = true ↔ t.members = ∅) ∧
      ∀ y, s = outcome.2 y ↔
        t.size = (expected.2 y).size ∧ t.members = (expected.2 y).members := by
  intro outcome expected
  obtain ⟨hanswers, hholds⟩ := holds_runFrom (fun _ : ν => Holds.empty 0) instructions
  refine ⟨hanswers, fun x => ?_⟩
  have hx : (outcome.2 x).Holds (expected.2 x) := hholds x
  refine ⟨hx.size_eq, fun a => ⟨hx.contains_iff a, hx.contains_iff a⟩, fun a ha => ?_, ?_,
    fun a => hx.mem_toList_iff, hx.card_eq, hx.isEmpty_iff, fun y => hx.eq_iff (hholds y)⟩
  · have hnot := hx.contains_eq_false (hx.size_eq ▸ ha)
    exact ⟨hnot, hnot⟩
  · exact hx.numbered.toList_ascending.imp fun hab => Nat.compare_eq_lt.1 hab

end Run

end SymbolSet

end Chomsky
