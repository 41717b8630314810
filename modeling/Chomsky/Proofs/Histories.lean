import Chomsky.Proofs.Construction
import Chomsky.Proofs.Recognition

set_option autoImplicit false

/-!
# Tables and recognitions after any history of the index

An index outlives the words that it was filled for.  Whatever was asked of it before, as long as
it was asked for one grammar, a table holds exactly what derives the parts of its word, and a
recognition accepts exactly the words of terminals that the start symbol can be rewritten to.

## Main definitions

* `Chomsky.ProducerIndex.Request`, `Chomsky.ProducerIndex.run` — a history of an index;
  `Chomsky.ProducerIndex.Request.sides` — the right-hand sides looked up for a request.

## Main results

* `Chomsky.ProducerIndex.Faithful.run` — an index stays faithful along its history.
* `Chomsky.ProducerIndex.Faithful.run_eq` — the look-ups of a history.
* `Chomsky.Table.derives_iff_mem_cell` — the cells, the queries and the verdict of a table.
* `Chomsky.recognize_iff_rewrites` — the words recognized.
-/

namespace Chomsky

/-! ## Histories -/

/-- What an index can be used for: a look-up, the recognition of a word, or the filling of its
table. -/
inductive ProducerIndex.Request where
  | lookup (rhs : Rhs)
  | recognize (word : Word)
  | fill (word : Word)
deriving DecidableEq

namespace ProducerIndex

variable {g : Grammar} {index : ProducerIndex}

/-- The index after one request. -/
def perform (g : Grammar) (index : ProducerIndex) : Request → ProducerIndex
  | .lookup rhs => (index.lookup g rhs).2
  | .recognize word => (Chomsky.recognize g word index).2
  | .fill word => (Table.fill g word index).2

/-- The index after several requests, all for one grammar. -/
def run (g : Grammar) (index : ProducerIndex) (requests : List Request) : ProducerIndex :=
  requests.foldl (perform g) index

/-- The right-hand sides looked up for a request. -/
noncomputable def Request.sides (g : Grammar) : Request → List Rhs
  | .lookup rhs => [rhs]
  | .recognize word => g.recognitionSides word
  | .fill word => g.fillSides word

/-- A request changes an index by its look-ups. -/
lemma Faithful.perform_eq (hg : g.WellFormed) (hi : index.Faithful g) (request : Request) :
    index.perform g request = index.lookupAll g (request.sides g) := by
  cases request with
  | lookup rhs => rfl
  | recognize word => exact congrArg Prod.snd (recognize_eq hg hi word)
  | fill word => exact (Table.fill_eq hg hi word).2

/-- An index stays faithful in every request. -/
lemma Faithful.perform (hg : g.WellFormed) (hi : index.Faithful g) (request : Request) :
    (index.perform g request).Faithful g := by
  rw [hi.perform_eq hg]
  exact hi.lookupAll _

/-- **An index stays faithful along its history.** -/
theorem Faithful.run (hg : g.WellFormed) (hi : index.Faithful g) (requests : List Request) :
    (index.run g requests).Faithful g := by
  induction requests generalizing index with
  | nil => exact hi
  | cons request requests ih => exact ih (hi.perform hg request)

/-- **A history changes an index by the look-ups of its requests**, one after the other. -/
theorem Faithful.run_eq (hg : g.WellFormed) (hi : index.Faithful g) (requests : List Request) :
    index.run g requests = index.lookupAll g (requests.flatMap (Request.sides g)) := by
  induction requests generalizing index with
  | nil => rfl
  | cons request requests ih =>
    have hstep : index.run g (request :: requests) = (index.perform g request).run g requests := rfl
    rw [hstep, ih (hi.perform hg request), hi.perform_eq hg, List.flatMap_cons, lookupAll_append]

end ProducerIndex

/-! ## What is computed after a history -/

variable {g : Grammar}

/-- **A table holds exactly what derives the parts of its word**, after any history of the index:
each cell lists these nonterminals in ascending order, every symbol can be asked for, and a symbol
is accepted if it derives the whole word. -/
theorem Table.derives_iff_mem_cell (hg : g.Constructed) (requests : List ProducerIndex.Request)
    (word : Word) :
    let t := (fill g word (ProducerIndex.empty.run g requests)).1
    (∀ i j, i ≤ j → j < word.length →
      ∃ cell, t.cell? i j = .ok cell ∧ Ascending cell ∧
        (∀ a, a ∈ cell ↔ g.Derives a (word.part i j)) ∧
        ∀ a, t.contains? i j a = .ok (decide (a ∈ cell))) ∧
    ∀ a, t.accepts a = true ↔ 0 < word.length ∧ g.Derives a word := by
  intro t
  have hwf := hg.wellFormed
  have hfilled : t.FilledTo g word word.length 0 :=
    (fill_eq hwf ((ProducerIndex.faithful_empty g).run hwf requests) word).1
  refine ⟨fun i j hij hj => ?_, fun a => hfilled.accepts_iff hwf⟩
  refine ⟨(g.derivers (word.part i j)).toList, hfilled.cell?_eq hij hj, ?_, fun a => ?_, fun a => ?_⟩
  · exact SymbolSet.toList_ascending (hwf.size_le (Grammar.size_derivers g _))
  · exact Grammar.mem_toList_derivers hwf
  · exact hfilled.contains?_eq hwf hij hj

/-- The table of `(())`, filled with an index that has seen other words, has `S` in the cell of the
inner parentheses and accepts it. -/
theorem Table.accepts_parentheses :
    let t := (fill Grammar.parentheses [.ofNat 4, .ofNat 4, .ofNat 5, .ofNat 5]
      (ProducerIndex.empty.run Grammar.parentheses [.recognize [.ofNat 4, .ofNat 7],
        .lookup (.pair (.ofNat 9) (.ofNat 0)), .fill [.ofNat 5, .ofNat 0]])).1
    Grammar.parentheses.Constructed ∧ (∃ cell, t.cell? 1 2 = .ok cell ∧ .ofNat 2 ∈ cell) ∧
      t.accepts (.ofNat 2) = true := by
  have hg := Grammar.constructed_parentheses
  obtain ⟨hcells, haccepts⟩ := Table.derives_iff_mem_cell hg [.recognize [.ofNat 4, .ofNat 7],
    .lookup (.pair (.ofNat 9) (.ofNat 0)), .fill [.ofNat 5, .ofNat 0]]
    [.ofNat 4, .ofNat 4, .ofNat 5, .ofNat 5]
  obtain ⟨cell, hcell, -, hmem, -⟩ := hcells 1 2 (by decide) (by decide)
  refine ⟨hg, ⟨cell, hcell, (hmem _).2 Grammar.derives_inner⟩, ?_⟩
  exact (haccepts _).2 ⟨by decide, Grammar.derives_parentheses⟩

/-- **A recognition accepts exactly the words of terminals that the start symbol can be rewritten
to**, after any history of the index; so does a fresh index, and so does a full table that was
filled after any other history. -/
theorem recognize_iff_rewrites (hg : g.Constructed)
    (requests requests' : List ProducerIndex.Request) (word : Word) :
    let accepted := (recognize g word (ProducerIndex.empty.run g requests)).1.accepted
    (accepted = true ↔
      (∀ a ∈ word, g.isTerminal a = true) ∧ g.RewritesMany [g.start] word) ∧
    accepted = isMember g word ∧
    accepted = (Table.fill g word (ProducerIndex.empty.run g requests')).1.accepts g.start := by
  intro accepted
  have hwf := hg.wellFormed
  have hempty := ProducerIndex.faithful_empty g
  have hmember : accepted = isMember g word :=
    accepted_recognize hwf (hempty.run hwf requests) word
  have hiff : accepted = true ↔ g.Derives g.start word := by
    rw [hmember]
    exact isMember_iff_derives hwf
  refine ⟨hiff.trans (Grammar.derives_iff_rewritesMany hwf hwf.start_lt), hmember, ?_⟩
  have hfilled := (Table.fill_eq hwf (hempty.run hwf requests') word).1
  rw [Bool.eq_iff_iff, hiff, hfilled.accepts_iff hwf]
  exact ⟨fun h => ⟨List.length_pos_iff.2 h.ne_nil, h⟩, fun h => h.2⟩

/-- The word `(())` is recognized after an early end for another word. -/
theorem recognize_parentheses :
    Grammar.parentheses.Constructed ∧
      (recognize Grammar.parentheses [.ofNat 4, .ofNat 4, .ofNat 5, .ofNat 5]
        (ProducerIndex.empty.run Grammar.parentheses
          [.recognize [.ofNat 4, .ofNat 7, .ofNat 5]])).1.accepted = true :=
  ⟨Grammar.constructed_parentheses,
    (recognize_iff_rewrites Grammar.constructed_parentheses _ [] _).1.2
      ⟨by decide, Grammar.derives_parentheses.rewritesMany⟩⟩

end Chomsky
