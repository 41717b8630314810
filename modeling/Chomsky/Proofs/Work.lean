import Chomsky.Proofs.Histories
import Chomsky.Proofs.Lookups
import Mathlib.Algebra.BigOperators.Group.Finset.Sigma
import Mathlib.Data.Set.Card

set_option autoImplicit false

/-!
# The work of one recognition

How many look-ups are made for a word can be read off the word and the grammar.  There is one for each
position, and for each part and each of its splits there are as many as pairs of nonterminals that derive the
two pieces.  The recognition of a word may end earlier: the first symbol that no rule produces is the last
that is looked up.  What the index remembers already makes no difference.

## Main definitions

* `Chomsky.Grammar.roots` — the nonterminals that derive a part of a word.
* `Chomsky.Grammar.work` — the number of look-ups for a table; `Chomsky.Grammar.IsSide` — what is looked up.
* `Chomsky.Table.splits` — the splits of all parts, in the order in which a table is filled.

## Main results

* `Chomsky.Table.mem_splits`, `Chomsky.Table.nodup_splits` — each split of each part comes once.
* `Chomsky.Grammar.length_fillSides`, `Chomsky.Grammar.mem_fillSides` — the look-ups for a table.
* `Chomsky.lookups_exact` — the look-ups of recognitions and of tables, after any history.
-/

namespace Chomsky

open Finset (range)

/-! ## The splits of all parts -/

namespace Table

variable {n i k j : Nat}

/-- The splits of the parts of a word of `n` symbols, in the order in which a table is filled: each with the
first position, the last one of the left piece, and the last one. -/
def splits (n : Nat) : List (Nat × Nat × Nat) :=
  (List.range' 1 (n - 1)).flatMap fun span =>
    (List.range (n - span)).flatMap fun first =>
      (List.range span).map fun split => (first, first + split, first + span)

/-- **Each split of each part comes.** -/
theorem mem_splits : (i, k, j) ∈ splits n ↔ i ≤ k ∧ k < j ∧ j < n := by
  simp only [splits, List.mem_flatMap, List.mem_map, List.mem_range, List.mem_range'_1, Prod.mk.injEq]
  constructor
  · rintro ⟨span, hspan, first, hfirst, split, hsplit, rfl, rfl, rfl⟩
    omega
  · rintro ⟨hik, hkj, hj⟩
    exact ⟨j - i, by omega, i, by omega, k - i, by omega, rfl, by omega, by omega⟩

/-- **Each split comes once**: it has one span, one first position and one place in the part. -/
theorem nodup_splits (n : Nat) : (splits n).Nodup := by
  refine List.nodup_flatMap.2 ⟨fun span _ => List.nodup_flatMap.2 ⟨fun first _ => ?_, ?_⟩, ?_⟩
  · refine List.nodup_range.map fun split split' heq => ?_
    have hsplit : first + split = first + split' := congrArg (fun s => s.2.1) heq
    omega
  · refine List.nodup_range.imp fun {first first'} hne s hs hs' => ?_
    obtain ⟨split, -, rfl⟩ := List.mem_map.1 hs
    obtain ⟨split', -, heq⟩ := List.mem_map.1 hs'
    exact hne (congrArg Prod.fst heq).symm
  · refine List.Pairwise.imp (fun {span span'} hlt s hs hs' => ?_) List.pairwise_lt_range'
    obtain ⟨first, -, hfirst⟩ := List.mem_flatMap.1 hs
    obtain ⟨first', -, hfirst'⟩ := List.mem_flatMap.1 hs'
    obtain ⟨split, -, rfl⟩ := List.mem_map.1 hfirst
    obtain ⟨split', -, heq⟩ := List.mem_map.1 hfirst'
    have hi : first' = first := congrArg Prod.fst heq
    have hj : first' + span' = first + span := congrArg (fun s => s.2.2) heq
    omega

/-- A sum over the splits of all parts. -/
lemma sum_splits (n : Nat) (f : Nat × Nat × Nat → Nat) :
    ((splits n).map f).sum =
      ∑ j ∈ range n, ∑ k ∈ range j, ∑ i ∈ range (k + 1), f (i, k, j) := by
  rw [← List.sum_toFinset f (nodup_splits n)]
  simp only [Finset.sum_sigma']
  refine Finset.sum_nbij' (fun s => ⟨s.2.2, s.2.1, s.1⟩) (fun s => (s.2.2, s.2.1, s.1)) ?_ ?_ ?_ ?_ ?_
  · rintro ⟨i, k, j⟩ hs
    have h := mem_splits.1 (List.mem_toFinset.1 hs)
    simp only [Finset.mem_sigma, Finset.mem_range]
    omega
  · rintro ⟨j, k, i⟩ hs
    simp only [Finset.mem_sigma, Finset.mem_range] at hs
    exact List.mem_toFinset.2 (mem_splits.2 ⟨Nat.le_of_lt_succ hs.2.2, hs.2.1, hs.1⟩)
  all_goals exact fun _ _ => rfl

end Table

/-! ## The look-ups for a table -/

namespace Grammar

variable {g : Grammar} {word : Word} {rhs : Rhs}

/-- The nonterminals that derive the part of a word from position `first` to position `last`. -/
def roots (g : Grammar) (word : Word) (first last : Nat) : Set Symbol :=
  {a | g.Derives a (word.part first last)}

/-- The number of look-ups for the table of a word: one for each position, and one for each pair of
nonterminals that derive the two pieces, for each split after position `k` of each part from position `i` to
position `j`. -/
noncomputable def work (g : Grammar) (word : Word) : Nat :=
  word.length + ∑ j ∈ range word.length, ∑ k ∈ range j, ∑ i ∈ range (k + 1),
    (g.roots word i k).ncard * (g.roots word (k + 1) j).ncard

/-- What is looked up for the table of a word: its symbols, and the pairs of nonterminals that derive the two
pieces of some part. -/
def IsSide (g : Grammar) (word : Word) (rhs : Rhs) : Prop :=
  (∃ t ∈ word, rhs = .terminal t) ∨
    ∃ i k j, i ≤ k ∧ k < j ∧ j < word.length ∧
      ∃ a ∈ g.roots word i k, ∃ b ∈ g.roots word (k + 1) j, rhs = .pair a b

/-- The nonterminals that derive a word are listed once each. -/
lemma length_toList_derivers (hg : g.WellFormed) (word : Word) :
    (g.derivers word).toList.length = {a | g.Derives a word}.ncard := by
  have hascending : Ascending (g.derivers word).toList :=
    SymbolSet.toList_ascending (hg.size_le (size_derivers g word))
  have hset : {a | g.Derives a word} = ((g.derivers word).toList.toFinset : Set Symbol) := by
    ext a
    rw [Finset.mem_coe, List.mem_toFinset, mem_toList_derivers hg]
    rfl
  rw [hset, Set.ncard_coe_finset, List.toFinset_card_of_nodup hascending.nodup]

/-- The right-hand sides looked up for a word, split by split. -/
lemma fillSides_eq (g : Grammar) (word : Word) :
    g.fillSides word = word.map .terminal ++ (Table.splits word.length).flatMap fun s =>
      Rhs.pairs (g.derivers (word.part s.1 s.2.1)).toList
        (g.derivers (word.part (s.2.1 + 1) s.2.2)).toList := by
  have hspan : g.spanSides word = fun span => (List.range (word.length - span)).flatMap fun first =>
      (List.range span).flatMap fun split =>
        Rhs.pairs (g.derivers (word.part first (first + split))).toList
          (g.derivers (word.part (first + split + 1) (first + span))).toList := by
    funext span
    rw [spanSides, ← List.range_eq_range']
    rfl
  simp only [fillSides, hspan, Table.splits, List.flatMap_assoc, List.flatMap_map]

/-- **The number of look-ups for a table.** -/
theorem length_fillSides (hg : g.WellFormed) (word : Word) :
    (g.fillSides word).length = g.work word := by
  rw [fillSides_eq, List.length_append, List.length_map, List.length_flatMap, Table.sum_splits, work]
  simp only [Rhs.length_pairs, length_toList_derivers hg]
  rfl

/-- **The right-hand sides looked up for a table.** -/
theorem mem_fillSides (hg : g.WellFormed) : rhs ∈ g.fillSides word ↔ g.IsSide word rhs := by
  rw [fillSides_eq, List.mem_append]
  refine or_congr ?_ ?_
  · simp only [List.mem_map, eq_comm]
  · rw [List.mem_flatMap]
    constructor
    · rintro ⟨⟨i, k, j⟩, hs, hrhs⟩
      obtain ⟨hik, hkj, hj⟩ := Table.mem_splits.1 hs
      obtain ⟨a, ha, b, hb, rfl⟩ := Rhs.mem_pairs.1 hrhs
      exact ⟨i, k, j, hik, hkj, hj, a, (mem_toList_derivers hg).1 ha, b,
        (mem_toList_derivers hg).1 hb, rfl⟩
    · rintro ⟨i, k, j, hik, hkj, hj, a, ha, b, hb, rfl⟩
      refine ⟨(i, k, j), Table.mem_splits.2 ⟨hik, hkj, hj⟩, Rhs.mem_pairs.2 ?_⟩
      exact ⟨a, (mem_toList_derivers hg).2 ha, b, (mem_toList_derivers hg).2 hb, rfl⟩

/-- The right-hand sides for the symbols up to a position. -/
lemma mem_map_take_succ {p : Nat} (hp : p < word.length) :
    rhs ∈ (word.take (p + 1)).map Rhs.terminal ↔
      ∃ q, ∃ hq : q < word.length, q ≤ p ∧ rhs = .terminal word[q] := by
  simp only [List.mem_map, List.mem_take_iff_getElem]
  constructor
  · rintro ⟨t, ⟨q, hq, rfl⟩, rfl⟩
    exact ⟨q, by omega, by omega, rfl⟩
  · rintro ⟨q, hq, hle, rfl⟩
    exact ⟨word[q], ⟨q, by omega, rfl⟩, rfl⟩

end Grammar

/-! ## Recognitions and tables after a history -/

variable {g : Grammar} {rhs : Rhs}

/-- **The look-ups of recognitions and of tables**, after any history of the index.  The empty word needs none.
If the symbol at some position is the first without a rule, there is one look-up for each position up to it,
and these symbols are remembered besides what was before.  If there is a rule for every symbol, there are the
look-ups for a table.  For a table itself there are as many for every word.  What the index was asked before
makes no difference. -/
theorem lookups_exact (hg : g.Constructed) (requests : List ProducerIndex.Request) (word : Word) :
    let index := ProducerIndex.empty.run g requests
    let recognized := (recognize g word index).2
    let filled := (Table.fill g word index).2
    (word = [] → recognized.lookups = index.lookups ∧ ∀ rhs, rhs ∈ recognized.memo ↔ rhs ∈ index.memo) ∧
    (∀ p, (hp : p < word.length) → (∀ a, ⟨a, .terminal word[p]⟩ ∉ g.rules) →
      (∀ q, (hq : q < p) → ∃ a, ⟨a, .terminal word[q]⟩ ∈ g.rules) →
      recognized.lookups = index.lookups + (p + 1) ∧
        ∀ rhs, rhs ∈ recognized.memo ↔
          rhs ∈ index.memo ∨ ∃ q, ∃ hq : q < word.length, q ≤ p ∧ rhs = .terminal word[q]) ∧
    ((∀ t ∈ word, ∃ a, ⟨a, .terminal t⟩ ∈ g.rules) →
      recognized.lookups = index.lookups + g.work word ∧
        ∀ rhs, rhs ∈ recognized.memo ↔ rhs ∈ index.memo ∨ g.IsSide word rhs) ∧
    filled.lookups = index.lookups + g.work word ∧
      ∀ rhs, rhs ∈ filled.memo ↔ rhs ∈ index.memo ∨ g.IsSide word rhs := by
  intro index recognized filled
  have hwf := hg.wellFormed
  have hi : index.Faithful g := (ProducerIndex.faithful_empty g).run hwf requests
  have hrecognized : recognized = index.lookupAll g (g.recognitionSides word) :=
    congrArg Prod.snd (recognize_eq hwf hi word)
  have hfilled : filled = index.lookupAll g (g.fillSides word) := (Table.fill_eq hwf hi word).2
  have htable : (index.lookupAll g (g.fillSides word)).lookups = index.lookups + g.work word ∧
      ∀ rhs, rhs ∈ (index.lookupAll g (g.fillSides word)).memo ↔
        rhs ∈ index.memo ∨ g.IsSide word rhs := by
    refine ⟨by rw [ProducerIndex.lookups_lookupAll, Grammar.length_fillSides hwf], fun rhs => ?_⟩
    rw [ProducerIndex.mem_memo_lookupAll, Grammar.mem_fillSides hwf]
  rw [hrecognized, hfilled]
  refine ⟨?_, fun p hp hnone hbefore => ?_, fun hall => ?_, htable⟩
  · rintro rfl
    exact ⟨rfl, fun rhs => Iff.rfl⟩
  · rw [Grammar.recognitionSides_of_unproduced hwf hp hnone hbefore]
    refine ⟨?_, fun rhs => ?_⟩
    · rw [ProducerIndex.lookups_lookupAll, List.length_map, List.length_take,
        Nat.min_eq_left (Nat.succ_le_of_lt hp)]
    · rw [ProducerIndex.mem_memo_lookupAll, Grammar.mem_map_take_succ hp]
  · rw [Grammar.recognitionSides_of_produced hwf hall]
    exact htable

/-- The recognition of `(` and a symbol without a rule makes two look-ups, also if the index has seen another
word; its table makes as many as there are in all. -/
theorem lookups_exact_parentheses :
    Grammar.parentheses.Constructed ∧
      let index := ProducerIndex.empty.run Grammar.parentheses [.recognize [.ofNat 4, .ofNat 5]]
      let word := [.ofNat 4, .ofNat 9, .ofNat 5]
      (recognize Grammar.parentheses word index).2.lookups = index.lookups + 2 ∧
        (Table.fill Grammar.parentheses word index).2.lookups =
          index.lookups + Grammar.parentheses.work word := by
  have hg := Grammar.constructed_parentheses
  obtain ⟨-, hearly, -, htable, -⟩ := lookups_exact hg [.recognize [.ofNat 4, .ofNat 5]]
    [.ofNat 4, .ofNat 9, .ofNat 5]
  have hnone : ∀ r ∈ Grammar.parentheses.rules, r.rhs ≠ .terminal (.ofNat 9) := by decide
  have hfirst : ∃ a, ⟨a, .terminal (.ofNat 4)⟩ ∈ Grammar.parentheses.rules := ⟨.ofNat 0, by decide⟩
  refine ⟨hg, (hearly 1 (by decide) (fun a ha => hnone _ ha rfl) fun q hq => ?_).1, htable⟩
  obtain rfl : q = 0 := by omega
  exact hfirst

end Chomsky
