import Chomsky.ProducerIndex
import Chomsky.Proofs.SymbolSets
import Std.Data.HashMap.Lemmas

set_option autoImplicit false

/-!
# Producers and their index

The producers of a right-hand side are the nonterminals with a rule for it.  An index is faithful
to a grammar if it remembers nothing else; it then answers every look-up with the producers, and
it stays faithful.  So what is computed with the help of a faithful index depends on the grammar
alone, and the index only sees which look-ups are made.

## Main definitions

* `Chomsky.ProducerIndex.Faithful` — the invariant of the indices of a grammar.
* `Chomsky.ProducerIndex.lookupAll` — the index after several look-ups.
* `Chomsky.Grammar.gather` — the producers of several right-hand sides together.

## Main results

* `Chomsky.Grammar.contains_producers` — the producers by the rules.
* `Chomsky.ProducerIndex.Faithful.lookup_eq` — what a faithful index answers.
* `Chomsky.ProducerIndex.Faithful.foldl_union_eq` — producers collected by look-ups.
-/

namespace Chomsky

namespace Grammar

variable {g : Grammar}

/-- There are as many numbers of symbols as a set of nonterminals can need. -/
lemma WellFormed.size_le (hg : g.WellFormed) {s : SymbolSet} (h : s.size = g.numNonterminals) :
    s.size ≤ UInt32.size := by
  have hk := hg.numNonterminals_le
  have hn := hg.numSymbols_lt
  omega

/-- The set of producers has a place for each nonterminal. -/
@[simp] lemma size_producers (g : Grammar) (rhs : Rhs) :
    (g.producers rhs).size = g.numNonterminals := by
  rw [producers, SymbolSet.size_ofList]

/-- **The producers of a right-hand side are the left-hand sides of its rules.** -/
theorem contains_producers (hg : g.WellFormed) {rhs : Rhs} {a : Symbol} :
    (g.producers rhs).contains a = true ↔ ⟨a, rhs⟩ ∈ g.rules := by
  rw [producers, SymbolSet.contains_ofList, List.mem_map]
  constructor
  · rintro ⟨⟨r, hr, rfl⟩, -⟩
    obtain ⟨hmem, hrhs⟩ := List.mem_filter.1 hr
    obtain rfl := of_decide_eq_true hrhs
    exact hmem
  · intro h
    exact ⟨⟨⟨a, rhs⟩, by simpa using h, rfl⟩, hg.lhs_lt _ h⟩

/-- A right-hand side has no producers if there is no rule for it. -/
lemma isEmpty_producers_iff (hg : g.WellFormed) {rhs : Rhs} :
    (g.producers rhs).isEmpty = true ↔ ∀ a, ⟨a, rhs⟩ ∉ g.rules := by
  rw [SymbolSet.isEmpty_iff (hg.size_le (size_producers g _))]
  refine forall_congr' fun a => ?_
  rw [← contains_producers hg, Bool.not_eq_true]

/-- The producers of several right-hand sides, joined to a set. -/
def gather (g : Grammar) (found : SymbolSet) (sides : List Rhs) : SymbolSet :=
  sides.foldl (fun found rhs => found.union (g.producers rhs)) found

/-- The producers of several right-hand sides can be gathered in two parts. -/
lemma gather_append (found : SymbolSet) (sides sides' : List Rhs) :
    g.gather found (sides ++ sides') = g.gather (g.gather found sides) sides' :=
  List.foldl_append

/-- What is gathered has a place for each nonterminal. -/
lemma size_gather {found : SymbolSet} (h : found.size = g.numNonterminals) (sides : List Rhs) :
    (g.gather found sides).size = g.numNonterminals := by
  induction sides generalizing found with
  | nil => exact h
  | cons rhs sides ih =>
    exact ih (by rw [SymbolSet.size_union (by rw [h, size_producers]), h])

/-- The members gathered are the producers of the right-hand sides. -/
lemma contains_gather (hg : g.WellFormed) {found : SymbolSet}
    (h : found.size = g.numNonterminals) {sides : List Rhs} {a : Symbol} :
    (g.gather found sides).contains a = true ↔
      found.contains a = true ∨ ∃ rhs ∈ sides, ⟨a, rhs⟩ ∈ g.rules := by
  induction sides generalizing found with
  | nil => simp [gather]
  | cons rhs sides ih =>
    have hsize : found.size = (g.producers rhs).size := by rw [h, size_producers]
    show (g.gather (found.union (g.producers rhs)) sides).contains a = true ↔ _
    rw [ih (by rw [SymbolSet.size_union hsize, h]), SymbolSet.contains_union hsize,
      Bool.or_eq_true, contains_producers hg, or_assoc]
    simp only [List.mem_cons, exists_eq_or_imp]

end Grammar

namespace ProducerIndex

variable {g : Grammar} {index : ProducerIndex}

/-- An index remembers nothing but the producers in the grammar. -/
def Faithful (g : Grammar) (index : ProducerIndex) : Prop :=
  ∀ rhs found, index.memo[rhs]? = some found → found = g.producers rhs

/-- The index after several look-ups in order. -/
def lookupAll (index : ProducerIndex) (g : Grammar) (sides : List Rhs) : ProducerIndex :=
  sides.foldl (fun index rhs => (index.lookup g rhs).2) index

/-- Look-ups can be made in two parts. -/
lemma lookupAll_append (index : ProducerIndex) (g : Grammar) (sides sides' : List Rhs) :
    index.lookupAll g (sides ++ sides') = (index.lookupAll g sides).lookupAll g sides' :=
  List.foldl_append

/-- The index before any look-up is faithful to every grammar. -/
lemma faithful_empty (g : Grammar) : Faithful g empty := by
  intro rhs found h
  simp [empty] at h

namespace Faithful

/-- **A faithful index answers with the producers**, whether it remembers them or not. -/
theorem lookup_fst (h : Faithful g index) (rhs : Rhs) :
    (index.lookup g rhs).1 = g.producers rhs := by
  unfold ProducerIndex.lookup
  cases hm : index.memo[rhs]? with
  | some found => exact h rhs found hm
  | none => rfl

/-- A look-up leaves the index faithful. -/
lemma lookup_snd (h : Faithful g index) (rhs : Rhs) : Faithful g (index.lookup g rhs).2 := by
  intro rhs' found hfound
  unfold ProducerIndex.lookup at hfound
  cases hm : index.memo[rhs]? with
  | some found' =>
    rw [hm] at hfound
    exact h rhs' found hfound
  | none =>
    simp only [hm, Std.HashMap.getElem?_insert, beq_iff_eq] at hfound
    split_ifs at hfound with heq
    · rw [← heq]
      exact (Option.some.inj hfound).symm
    · exact h rhs' found hfound

/-- Look-ups leave the index faithful. -/
lemma lookupAll (h : Faithful g index) (sides : List Rhs) :
    Faithful g (index.lookupAll g sides) := by
  induction sides generalizing index with
  | nil => exact h
  | cons rhs sides ih => exact ih (h.lookup_snd rhs)

/-- What a look-up in a faithful index gives. -/
lemma lookup_eq (h : Faithful g index) (rhs : Rhs) :
    index.lookup g rhs = (g.producers rhs, index.lookupAll g [rhs]) :=
  Prod.ext (h.lookup_fst rhs) rfl

/-- **Sets collected by look-ups** are gathered from the grammar, and the index has seen the
look-ups in order. -/
theorem foldl_union_eq (h : Faithful g index) (sides : List Rhs) (found : SymbolSet) :
    sides.foldl (fun (acc : SymbolSet × ProducerIndex) rhs =>
      (acc.1.union (acc.2.lookup g rhs).1, (acc.2.lookup g rhs).2)) (found, index) =
      (g.gather found sides, index.lookupAll g sides) := by
  induction sides generalizing found index with
  | nil => rfl
  | cons rhs sides ih =>
    rw [List.foldl_cons, h.lookup_fst rhs, ih (h.lookup_snd rhs)]
    rfl

end Faithful

end ProducerIndex

end Chomsky
