import Chomsky.Symbol

/-!
# Sets of symbols

A set of symbols of a fixed size: it has one bit for each of the symbols `0, …, size - 1`.  A
symbol at or beyond the size is never a member and cannot be made one, and only sets of one size
can be joined.  The operations that a caller may get wrong come in two forms: a total one, for
callers that know their arguments to be in range, and one with a question mark that reports the
fault.

## Main definitions

* `Chomsky.SymbolSet` — a set of symbols as its bits.
* `Chomsky.SymbolSet.assign?`, `Chomsky.SymbolSet.union?`, `Chomsky.SymbolSet.ofRange?` — the
  reporting operations; `Chomsky.SymbolSet.Fault` — what they report.
* `Chomsky.SymbolSet.toList` — the members in ascending order.
* `Chomsky.SymbolSet.Numbered` — no bit is set but those of symbols.

## Main results

* `Chomsky.SymbolSet.contains_assign`, `Chomsky.SymbolSet.contains_union`,
  `Chomsky.SymbolSet.contains_ofPred` — the members after each operation.
* `Chomsky.SymbolSet.Numbered.mem_toList`, `Chomsky.SymbolSet.mem_toList` — the list holds the members.
-/

namespace Chomsky

/-- A set of symbols below a fixed size. -/
structure SymbolSet where
  /-- The bit at `i` says whether the symbol numbered `i` is a member. -/
  bits : Array Bool
deriving DecidableEq, Inhabited

namespace SymbolSet

/-- Why an operation on a set is refused. -/
inductive Fault where
  /-- The symbol lies at or beyond the size of the set. -/
  | outside (symbol : Symbol) (size : Nat)
  /-- Two sets to be joined have different sizes. -/
  | sizes (left right : Nat)
deriving DecidableEq

/-- The number of symbols that the set has room for. -/
def size (s : SymbolSet) : Nat := s.bits.size

/-- The set of a given size without members. -/
def empty (size : Nat) : SymbolSet := ⟨Array.replicate size false⟩

/-- Whether a symbol is a member.  Symbols beyond the size are not. -/
def contains (s : SymbolSet) (a : Symbol) : Bool := s.bits[a.toNat]?.getD false

/-- The entry at a symbol says whether it is a member; there is one at every symbol. -/
instance : GetElem SymbolSet Symbol Bool fun _ _ => True where
  getElem s a _ := s.contains a

/-- Makes a symbol a member or takes it out; nothing happens to symbols beyond the size. -/
def assign (s : SymbolSet) (a : Symbol) (value : Bool) : SymbolSet :=
  ⟨s.bits.setIfInBounds a.toNat value⟩

/-- Makes a symbol a member; nothing happens to symbols beyond the size. -/
def insert (s : SymbolSet) (a : Symbol) : SymbolSet := s.assign a true

/-- The members among the given symbols that fit into the size. -/
def ofList (size : Nat) (members : List Symbol) : SymbolSet :=
  members.foldl insert (empty size)

/-- The symbols below the size that satisfy `p`. -/
def ofPred (size : Nat) (p : Symbol → Bool) : SymbolSet :=
  ⟨Array.ofFn fun i : Fin size => p (.ofNat i)⟩

/-- The members of either of two sets of one size. -/
def union (s t : SymbolSet) : SymbolSet := ⟨Array.zipWith or s.bits t.bits⟩

/-- The members in ascending order. -/
def toList (s : SymbolSet) : List Symbol :=
  s.bits.toList.zipIdx.filterMap fun (present, i) => if present then some (.ofNat i) else none

/-- The number of members. -/
def card (s : SymbolSet) : Nat := s.toList.length

/-- Whether there are no members. -/
def isEmpty (s : SymbolSet) : Bool := !s.bits.any id

/-- `assign`, refused for a symbol beyond the size whatever the value. -/
def assign? (s : SymbolSet) (a : Symbol) (value : Bool) : Except Fault SymbolSet :=
  if a.toNat < s.size then .ok (s.assign a value) else .error (.outside a s.size)

/-- `union`, refused for sets of different sizes, and whether it gained a member. -/
def union? (s t : SymbolSet) : Except Fault (SymbolSet × Bool) :=
  if s.size = t.size then .ok (s.union t, s.union t ≠ s) else .error (.sizes s.size t.size)

/-- Makes `count` numbers from `first` on members, each as the symbol of its low 32 bits. -/
def insertRange? : (count first : Nat) → SymbolSet → Except Fault SymbolSet
  | 0, _, s => .ok s
  | count + 1, first, s =>
    match s.assign? (.ofNat first) true with
    | .ok s => insertRange? count (first + 1) s
    | .error fault => .error fault

/-- The set of the symbols numbered from `first` up to but not including `stop`.  A range that
ends before it begins is empty. -/
def ofRange? (size first stop : Nat) : Except Fault SymbolSet :=
  insertRange? (stop - first) first (empty size)

/-! ## Membership after each operation -/

/-- The empty set has the size that is given. -/
@[simp] theorem size_empty (n : Nat) : (empty n).size = n := by simp [size, empty]

/-- A change of one member keeps the size. -/
@[simp] theorem size_assign (s : SymbolSet) (a : Symbol) (v : Bool) :
    (s.assign a v).size = s.size := by simp [size, assign]

/-- An insertion keeps the size. -/
@[simp] theorem size_insert (s : SymbolSet) (a : Symbol) : (s.insert a).size = s.size := by
  simp [insert]

/-- The empty set has no members. -/
@[simp] theorem contains_empty (n : Nat) (a : Symbol) : (empty n).contains a = false := by
  simp only [empty, contains, Array.getElem?_replicate]; split <;> rfl

/-- Only the symbol assigned to changes, and only within the size. -/
theorem contains_assign (s : SymbolSet) (a b : Symbol) (v : Bool) :
    (s.assign a v).contains b =
      if a = b ∧ a.toNat < s.size then v else s.contains b := by
  by_cases h : a = b
  · subst h
    by_cases hs : a.toNat < s.size
    · simp [contains, assign, size] at hs ⊢
      simp [hs]
    · simp [contains, assign, size] at hs ⊢
      simp [hs]
  · have : a.toNat ≠ b.toNat := fun e => h (Symbol.toNat_inj.1 e)
    simp [contains, assign, h, this]

/-- Insertion adds one member, if it fits into the size. -/
theorem contains_insert (s : SymbolSet) (a b : Symbol) :
    (s.insert a).contains b = ((a = b ∧ a.toNat < s.size) || s.contains b) := by
  rw [insert, contains_assign]
  by_cases h : a = b ∧ a.toNat < s.size <;> simp [h]

/-- The members of a union are those of either set. -/
theorem contains_union {s t : SymbolSet} (h : s.size = t.size) (a : Symbol) :
    (s.union t).contains a = (s.contains a || t.contains a) := by
  simp only [size] at h
  simp only [contains, union, Array.getElem?_zipWith]
  by_cases ha : a.toNat < s.bits.size
  · have ht : a.toNat < t.bits.size := h ▸ ha
    simp [Array.getElem?_eq_getElem ha, Array.getElem?_eq_getElem ht]
  · have ht : ¬ a.toNat < t.bits.size := h ▸ ha
    simp [Array.getElem?_eq_none (Nat.le_of_not_lt ha), Array.getElem?_eq_none (Nat.le_of_not_lt ht)]

/-- The symbols below the size that satisfy the predicate are the members. -/
theorem contains_ofPred (n : Nat) (p : Symbol → Bool) (a : Symbol) :
    (ofPred n p).contains a = (decide (a.toNat < n) && p a) := by
  simp only [contains, ofPred]
  by_cases h : a.toNat < n <;> simp [h]

/-- A symbol is a member if its bit is set. -/
theorem contains_iff_getElem? {s : SymbolSet} {a : Symbol} :
    s.contains a = true ↔ s.bits[a.toNat]? = some true := by
  rw [contains]
  cases s.bits[a.toNat]? <;> simp

/-- No bit is set but those of symbols.  Beyond `2 ^ 32`, a set has bits that belong to no symbol. -/
def Numbered (s : SymbolSet) : Prop := ∀ i : Nat, s.bits[i]? = some true → i < UInt32.size

/-- As long as the numbers below the size are symbols, no other bits can be set. -/
theorem numbered_of_size_le {s : SymbolSet} (h : s.size ≤ UInt32.size) : s.Numbered :=
  fun _ hi => Nat.lt_of_lt_of_le (Array.getElem?_eq_some_iff.1 hi).1 h

/-- The bits that are set are those of the members. -/
theorem Numbered.getElem?_iff {s : SymbolSet} (h : s.Numbered) {i : Nat} :
    s.bits[i]? = some true ↔ ∃ a, s.contains a = true ∧ a.toNat = i := by
  simp only [contains_iff_getElem?]
  constructor
  · intro hi
    have hnum : (Symbol.ofNat i).toNat = i := by
      rw [Symbol.toNat_ofNat, Nat.mod_eq_of_lt (h i hi)]
    exact ⟨.ofNat i, by rwa [hnum], hnum⟩
  · rintro ⟨a, ha, rfl⟩
    exact ha

/-- A symbol is listed if it is a member. -/
theorem Numbered.mem_toList {s : SymbolSet} (h : s.Numbered) (a : Symbol) :
    a ∈ s.toList ↔ s.contains a = true := by
  simp only [toList, List.mem_filterMap, Prod.exists, List.mem_zipIdx_iff_getElem?,
    Array.getElem?_toList]
  constructor
  · rintro ⟨b, i, hi, hb⟩
    split at hb
    · rename_i hset
      obtain ⟨b, hmem, rfl⟩ := h.getElem?_iff.1 (hset ▸ hi)
      obtain rfl := Option.some.inj hb
      rwa [Symbol.ofNat_toNat]
    · exact absurd hb (by simp)
  · intro ha
    exact ⟨true, a.toNat, contains_iff_getElem?.1 ha, by simp⟩

/-- A symbol is listed if it is a member, as long as the numbers below the size are symbols. -/
theorem mem_toList {s : SymbolSet} (h : s.size ≤ UInt32.size) (a : Symbol) :
    a ∈ s.toList ↔ s.contains a = true :=
  (numbered_of_size_le h).mem_toList a

end SymbolSet

end Chomsky
