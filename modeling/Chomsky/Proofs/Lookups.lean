import Chomsky.Proofs.Recognition
import Mathlib.Data.Finset.Card

set_option autoImplicit false

/-!
# What an index has seen

An index counts its look-ups and scans the rules once for each right-hand side, on its first look-up.
So the right-hand sides that it remembers are those looked up, and there are as many scans.  For a
recognition with a fresh index, the grammar and the word settle both.

## Main definitions

* `Chomsky.ProducerIndex.ScansOnce` — the invariant: one scan for each right-hand side remembered.
* `Chomsky.Grammar.lookedUp` — the right-hand sides that the recognition of a word looks up.

## Main results

* `Chomsky.ProducerIndex.mem_memo_lookupAll`, `Chomsky.ProducerIndex.lookups_lookupAll` — what is
  remembered and counted after several look-ups.
* `Chomsky.ProducerIndex.ScansOnce.lookupAll` — the invariant holds after any look-ups.
* `Chomsky.mem_memo_recognize`, `Chomsky.lookups_recognize` — what a recognition adds to an index.
-/

namespace Chomsky

variable {g : Grammar} {rhs : Rhs} {index : ProducerIndex} {word : Word}

namespace ProducerIndex

/-- Each right-hand side that is remembered was scanned for once, and no other was. -/
structure ScansOnce (index : ProducerIndex) : Prop where
  nodup : (index.scans.map Prod.fst).Nodup
  mem_scans : ∀ rhs, rhs ∈ index.scans.map Prod.fst ↔ rhs ∈ index.memo

/-- A look-up of what is remembered only counts. -/
lemma lookup_of_mem {side : Rhs} (h : side ∈ index.memo) :
    (index.lookup g side).2 = { index with lookups := index.lookups + 1 } := by
  unfold lookup
  rw [Std.HashMap.getElem?_eq_some_getElem h]

/-- Any other look-up scans the rules, and the result is remembered. -/
lemma lookup_of_not_mem {side : Rhs} (h : side ∉ index.memo) :
    (index.lookup g side).2 = ⟨index.memo.insert side (g.producers side),
      (side, g.producers side) :: index.scans, index.lookups + 1⟩ := by
  unfold lookup
  rw [Std.HashMap.getElem?_eq_none h]

/-- After a look-up, its right-hand side is remembered as well. -/
lemma mem_memo_lookup {side : Rhs} :
    rhs ∈ (index.lookup g side).2.memo ↔ rhs = side ∨ rhs ∈ index.memo := by
  by_cases hside : side ∈ index.memo
  · rw [lookup_of_mem hside]
    exact ⟨Or.inr, fun h => h.elim (fun heq => heq ▸ hside) id⟩
  · rw [lookup_of_not_mem hside, Std.HashMap.mem_insert, beq_iff_eq, eq_comm]

/-- **The right-hand sides looked up are remembered.** -/
theorem mem_memo_lookupAll {sides : List Rhs} :
    rhs ∈ (index.lookupAll g sides).memo ↔ rhs ∈ index.memo ∨ rhs ∈ sides := by
  induction sides generalizing index with
  | nil => simp [lookupAll]
  | cons side sides ih =>
    have hstep : index.lookupAll g (side :: sides) =
      (index.lookup g side).2.lookupAll g sides := rfl
    rw [hstep, ih, mem_memo_lookup, List.mem_cons, or_assoc, or_left_comm]

/-- A fresh index remembers nothing else. -/
lemma mem_memo_lookupAll_empty {sides : List Rhs} :
    rhs ∈ (empty.lookupAll g sides).memo ↔ rhs ∈ sides := by
  rw [mem_memo_lookupAll]
  exact or_iff_right Std.HashMap.not_mem_empty

/-- **Each look-up counts once.** -/
theorem lookups_lookupAll (sides : List Rhs) :
    (index.lookupAll g sides).lookups = index.lookups + sides.length := by
  induction sides generalizing index with
  | nil => rfl
  | cons side sides ih =>
    have hstep : index.lookupAll g (side :: sides) =
      (index.lookup g side).2.lookupAll g sides := rfl
    rw [hstep, ih, lookups_lookup, List.length_cons]
    omega

namespace ScansOnce

/-- A fresh index has scanned for nothing. -/
lemma empty : ProducerIndex.empty.ScansOnce :=
  ⟨List.nodup_nil, fun rhs => by simp [ProducerIndex.empty]⟩

/-- A look-up scans for a right-hand side only if it is not remembered. -/
lemma lookup (h : index.ScansOnce) (side : Rhs) : (index.lookup g side).2.ScansOnce := by
  by_cases hside : side ∈ index.memo
  · rw [lookup_of_mem hside]
    exact ⟨h.nodup, h.mem_scans⟩
  · refine ⟨?_, fun rhs => ?_⟩
    · rw [lookup_of_not_mem hside]
      exact List.nodup_cons.2 ⟨fun hmem => hside ((h.mem_scans side).1 hmem), h.nodup⟩
    · rw [mem_memo_lookup, ← h.mem_scans, lookup_of_not_mem hside]
      exact List.mem_cons

/-- **No look-ups make an index scan twice for a right-hand side.** -/
theorem lookupAll (h : index.ScansOnce) (sides : List Rhs) :
    (index.lookupAll g sides).ScansOnce := by
  induction sides generalizing index with
  | nil => exact h
  | cons side sides ih => exact ih (h.lookup side)

/-- There are as many scans as right-hand sides remembered. -/
lemma length_scans (h : index.ScansOnce) {seen : Finset Rhs}
    (hseen : ∀ rhs, rhs ∈ seen ↔ rhs ∈ index.memo) : index.scans.length = seen.card := by
  have heq : (index.scans.map Prod.fst).toFinset = seen :=
    Finset.ext fun rhs => by rw [List.mem_toFinset, h.mem_scans, hseen]
  rw [← heq, List.toFinset_card_of_nodup h.nodup, List.length_map]

end ScansOnce

end ProducerIndex

/-! ## Recognitions -/

/-- The right-hand sides that the recognition of a word looks up, without repetition: those that a
fresh index remembers of it. -/
def Grammar.lookedUp (g : Grammar) (word : Word) : List Rhs :=
  (recognize g word .empty).2.memo.keys

/-- What a recognition looks up is what a fresh index remembers of it. -/
lemma Grammar.mem_lookedUp (hg : g.WellFormed) :
    rhs ∈ g.lookedUp word ↔ rhs ∈ g.recognitionSides word := by
  rw [lookedUp, Std.HashMap.mem_keys, recognize_eq hg (ProducerIndex.faithful_empty g),
    ProducerIndex.mem_memo_lookupAll_empty]

/-- As sets, both lists are the same. -/
lemma Grammar.toFinset_lookedUp (hg : g.WellFormed) (word : Word) :
    (g.lookedUp word).toFinset = (g.recognitionSides word).toFinset :=
  Finset.ext fun rhs => by rw [List.mem_toFinset, List.mem_toFinset, mem_lookedUp hg]

/-- A fresh index counts the look-ups of a recognition. -/
lemma lookups_recognize_empty (hg : g.WellFormed) (word : Word) :
    (recognize g word .empty).2.lookups = (g.recognitionSides word).length := by
  rw [recognize_eq hg (ProducerIndex.faithful_empty g), ProducerIndex.lookups_lookupAll]
  exact Nat.zero_add _

/-- **A recognition adds the same look-ups to every index**: as many as to a fresh one. -/
theorem lookups_recognize (hg : g.WellFormed) (hi : index.Faithful g) (word : Word) :
    (recognize g word index).2.lookups =
      index.lookups + (recognize g word .empty).2.lookups := by
  rw [lookups_recognize_empty hg, recognize_eq hg hi, ProducerIndex.lookups_lookupAll]

/-- **A recognition makes every index remember the same right-hand sides**, besides those that it knew. -/
theorem mem_memo_recognize (hg : g.WellFormed) (hi : index.Faithful g) (word : Word) :
    rhs ∈ (recognize g word index).2.memo ↔ rhs ∈ index.memo ∨ rhs ∈ g.lookedUp word := by
  rw [recognize_eq hg hi, ProducerIndex.mem_memo_lookupAll, Grammar.mem_lookedUp hg]

/-- The recognition of a word that starts with a symbol that no rule produces ends after one look-up. -/
lemma Grammar.recognitionSides_cons (hg : g.WellFormed) {a : Symbol} {rest : Word}
    (h : ∀ r ∈ g.rules, r.rhs ≠ .terminal a) : g.recognitionSides (a :: rest) = [.terminal a] := by
  have hlt : 0 < (a :: rest).length := Nat.succ_pos _
  rw [recognitionSides_of_unproduced hg hlt (fun b hb => h _ hb rfl) fun q hq => absurd hq (Nat.not_lt_zero q)]
  rfl

/-- So does the recognition of a single symbol. -/
lemma Grammar.recognitionSides_singleton (a : Symbol) : g.recognitionSides [a] = [.terminal a] := by
  unfold recognitionSides
  cases h : g.unproduced? [a] with
  | some position => simp
  | none => rfl

/-- The scans of a recognition are made once each. -/
lemma ProducerIndex.ScansOnce.recognize (h : index.ScansOnce) (hg : g.WellFormed)
    (hi : index.Faithful g) (word : Word) : (Chomsky.recognize g word index).2.ScansOnce := by
  rw [recognize_eq hg hi]
  exact h.lookupAll _

end Chomsky
