import Chomsky.Ascending
import Chomsky.Names
import Mathlib.Data.List.Perm.Subperm
import Mathlib.Tactic.Lemma

set_option autoImplicit false

/-!
# Symbols and their names

In a table without repeated names the two directions of look-up are inverse to each other.  Names
are characters, so a table without repetition is small: the numbers of its symbols never reach
the `2 ^ 32` beyond which different numbers stand for one symbol.

## Main results

* `Chomsky.Names.symbolOf?_eq_some_iff` — a symbol is found by a name if and only if it has that
  name.
* `Chomsky.Names.exists_symbolOf?_iff` — the names by which a symbol is found, with
  `Chomsky.Names.exists_symbolOf?_lt_iff` and `Chomsky.Names.exists_le_symbolOf?_iff` for the first
  symbols and for the others.
* `Chomsky.length_le_of_nodup` — the bound on lists of characters without repetition.
-/

namespace Chomsky

/-! ## Lists of characters without repetition -/

/-- An ascending list has no repetition. -/
lemma Ascending.nodup {α : Type} [Ord α] [Std.ReflOrd α] {xs : List α} (h : Ascending xs) :
    xs.Nodup := by
  refine List.Pairwise.imp ?_ h
  intro x y hxy heq
  have heq' : compare x y = .eq := heq ▸ Std.ReflCmp.compare_self
  rw [heq'] at hxy
  exact absurd hxy (by decide)

/-- The number of a character is below `0x110000`. -/
lemma toNat_lt_of_char (c : Char) : c.toNat < 0x110000 := by
  have hc : c.toNat < 0xd800 ∨ 0xdfff < c.toNat ∧ c.toNat < 0x110000 := c.valid
  omega

/-- There are at most `0x110000` characters.

**Proof sketch.** The numbers of the characters in the list are pairwise different members of
`List.range 0x110000`. -/
lemma length_le_of_nodup {cs : List Char} (h : cs.Nodup) : cs.length ≤ 0x110000 := by
  have hinj : ∀ c d : Char, c.toNat = d.toNat → c = d := fun c d hcd =>
    Char.ext (UInt32.toNat_inj.1 hcd)
  have hnum : (cs.map Char.toNat).Nodup :=
    List.Pairwise.map _ (fun c d hcd heq => hcd (hinj c d heq)) h
  have hsub : cs.map Char.toNat ⊆ List.range 0x110000 := by
    intro n hn
    obtain ⟨c, -, rfl⟩ := List.mem_map.1 hn
    exact List.mem_range.2 (toNat_lt_of_char c)
  have hlen := (hnum.subperm hsub).length_le
  rw [List.length_map, List.length_range] at hlen
  exact hlen

/-! ## Looking up names and symbols -/

namespace Names

variable {ns : Names} {c : Char} {a : Symbol}

/-- The declared symbols are those that have a name. -/
lemma toNat_lt_of_nameOf? (h : ns.nameOf? a = some c) : a.toNat < ns.size :=
  (List.getElem?_eq_some_iff.1 h).1

/-- A declared symbol has a name. -/
lemma exists_nameOf? (h : a.toNat < ns.size) : ∃ c, ns.nameOf? a = some c :=
  ⟨_, List.getElem?_eq_getElem h⟩

/-- A symbol with a name is shown by it. -/
lemma display_eq_of_nameOf? (h : ns.nameOf? a = some c) : ns.display a = c := by
  rw [display, h, Option.getD_some]

/-- **Look-up by name inverts look-up by symbol**, in a table without repetition whose numbers
are those of symbols. -/
theorem symbolOf?_eq_some_iff (hn : ns.toList.Nodup) (h : ns.size ≤ UInt32.size) :
    ns.symbolOf? c = some a ↔ ns.nameOf? a = some c := by
  refine ⟨nameOf?_of_symbolOf? h, fun ha => ?_⟩
  obtain ⟨hlt, hc⟩ := List.getElem?_eq_some_iff.1 ha
  have hidx : ns.toList.idxOf? c = some a.toNat := by
    refine List.idxOf?_eq_some_iff.2 ⟨hlt, hc, fun j hj heq => ?_⟩
    -- an earlier position of the same name would be a repetition
    have hja : j = a.toNat := (List.getElem_inj hn).1 (heq.trans hc.symm)
    omega
  rw [symbolOf?, hidx, Option.map_some, Symbol.ofNat_toNat]

/-- The symbol found by a name has the number of the name's first position. -/
lemma symbolOf?_eq_some_iff_idxOf? (h : ns.size ≤ UInt32.size) :
    ns.symbolOf? c = some a ↔ ns.toList.idxOf? c = some a.toNat := by
  constructor
  · intro ha
    obtain ⟨i, hi, rfl⟩ := Option.map_eq_some_iff.1 ha
    have hlt : i < ns.size := (List.idxOf?_eq_some_iff.1 hi).1
    rw [hi, Symbol.toNat_ofNat, Nat.mod_eq_of_lt (Nat.lt_of_lt_of_le hlt h)]
  · intro hi
    rw [symbolOf?, hi, Option.map_some, Symbol.ofNat_toNat]

/-- A symbol is found by every name in the table, and by no other. -/
lemma exists_symbolOf?_iff : (∃ a, ns.symbolOf? c = some a) ↔ c ∈ ns.toList := by
  constructor
  · rintro ⟨a, ha⟩
    obtain ⟨i, hi, -⟩ := Option.map_eq_some_iff.1 ha
    obtain ⟨hlt, hc, -⟩ := List.idxOf?_eq_some_iff.1 hi
    exact hc ▸ List.getElem_mem hlt
  · intro hc
    cases hi : ns.toList.idxOf? c with
    | none => exact absurd hc (List.idxOf?_eq_none_iff.1 hi)
    | some i => exact ⟨.ofNat i, by rw [symbolOf?, hi, Option.map_some]⟩

/-- The names by which one of the first `k` symbols is found. -/
lemma exists_symbolOf?_lt_iff (h : ns.size ≤ UInt32.size) {k : Nat} :
    (∃ a, ns.symbolOf? c = some a ∧ a.toNat < k) ↔ c ∈ ns.toList.take k := by
  constructor
  · rintro ⟨a, ha, hk⟩
    obtain ⟨hlt, hc, -⟩ := List.idxOf?_eq_some_iff.1 ((symbolOf?_eq_some_iff_idxOf? h).1 ha)
    exact List.mem_take_iff_getElem.2 ⟨a.toNat, by omega, hc⟩
  · intro hc
    obtain ⟨a, ha⟩ := exists_symbolOf?_iff.2 (List.mem_of_mem_take hc)
    obtain ⟨i, hi, hic⟩ := List.mem_take_iff_getElem.1 hc
    obtain ⟨hlt, -, hfirst⟩ := List.idxOf?_eq_some_iff.1 ((symbolOf?_eq_some_iff_idxOf? h).1 ha)
    refine ⟨a, ha, Nat.lt_of_not_le fun hle => ?_⟩
    -- the position `i` would come before the first one
    exact hfirst i (by omega) hic

/-- The names by which a symbol after the first `k` is found. -/
lemma exists_le_symbolOf?_iff (h : ns.size ≤ UInt32.size) {k : Nat} :
    (∃ a, ns.symbolOf? c = some a ∧ k ≤ a.toNat) ↔
      c ∈ ns.toList.drop k ∧ c ∉ ns.toList.take k := by
  have hsplit : c ∈ ns.toList ↔ c ∈ ns.toList.take k ∨ c ∈ ns.toList.drop k := by
    rw [← List.mem_append, List.take_append_drop]
  rw [← exists_symbolOf?_lt_iff h]
  constructor
  · rintro ⟨a, ha, hk⟩
    have hnot : ¬ ∃ b, ns.symbolOf? c = some b ∧ b.toNat < k := by
      rintro ⟨b, hb, hlt⟩
      obtain rfl := Option.some.inj (ha.symm.trans hb)
      omega
    rw [exists_symbolOf?_lt_iff h] at hnot ⊢
    exact ⟨(hsplit.1 (exists_symbolOf?_iff.1 ⟨a, ha⟩)).resolve_left hnot, hnot⟩
  · rintro ⟨hc, hnot⟩
    obtain ⟨a, ha⟩ := exists_symbolOf?_iff.2 (hsplit.2 (.inr hc))
    exact ⟨a, ha, Nat.le_of_not_lt fun hlt => hnot ⟨a, ha, hlt⟩⟩

/-- A table without repetition gives no name to two symbols. -/
lemma nameOf?_inj (hn : ns.toList.Nodup) {b : Symbol} (ha : ns.nameOf? a = some c)
    (hb : ns.nameOf? b = some c) : a = b := by
  obtain ⟨hlt, hc⟩ := List.getElem?_eq_some_iff.1 ha
  obtain ⟨hlt', hc'⟩ := List.getElem?_eq_some_iff.1 hb
  exact Symbol.toNat_inj.1 ((List.getElem_inj hn).1 (hc.trans hc'.symm))

/-- Declared symbols of one name are the same, in a table without repetition. -/
lemma eq_of_display_eq (hn : ns.toList.Nodup) {b : Symbol} (ha : a.toNat < ns.size)
    (hb : b.toNat < ns.size) (h : ns.display a = ns.display b) : a = b := by
  obtain ⟨c, hc⟩ := exists_nameOf? ha
  obtain ⟨d, hd⟩ := exists_nameOf? hb
  rw [display_eq_of_nameOf? hc, display_eq_of_nameOf? hd] at h
  exact nameOf?_inj hn hc (h ▸ hd)

end Names

end Chomsky
