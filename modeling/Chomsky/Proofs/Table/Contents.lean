import Chomsky.Table.Fill
import Chomsky.Proofs.Derivation
import Chomsky.Proofs.Producers
import Chomsky.Proofs.Table.Layout
import Mathlib.Data.List.Basic

set_option autoImplicit false

/-!
# What a filled table holds

The cell of a part of a word holds the nonterminals that derive the part.  Cells are filled by the
length of their parts and from left to right, and a cell only reads cells of shorter parts; so the
invariant is that all cells before the current one are final.  What the index has seen in the
end is settled by the grammar and the word as well: a look-up for each position, and one for each
pair of nonterminals that derive the two pieces of some split.

## Main definitions

* `Chomsky.Grammar.derivers` — the nonterminals that derive a word.
* `Chomsky.Grammar.splitSides`, `Chomsky.Grammar.spanSides`, `Chomsky.Grammar.fillSides` — the
  right-hand sides looked up for a part, for the parts of one length and for a word.
* `Chomsky.Table.FilledTo` — the invariant: all cells before a given one are final.

## Main results

* `Chomsky.Grammar.gather_splitSides` — the look-ups for a part give what derives the part.
* `Chomsky.Table.FilledTo.fillCell_eq` — what the filling of one cell does.
* `Chomsky.Table.fill_eq` — the table and the index after the filling.
-/

namespace Chomsky

/-- A loop over consecutive numbers keeps an invariant that each pass keeps. -/
lemma foldl_range'_induction {σ : Type} (motive : Nat → σ → Prop) (f : σ → Nat → σ)
    (start count : Nat) {s : σ} (h0 : motive start s)
    (hstep : ∀ k s, start ≤ k → k < start + count → motive k s → motive (k + 1) (f s k)) :
    motive (start + count) ((List.range' start count).foldl f s) := by
  induction count with
  | zero => exact h0
  | succ count ih =>
    rw [List.range'_1_concat, List.foldl_append]
    refine hstep (start + count) _ (by omega) (by omega) (ih fun k s hk hlt => ?_)
    exact hstep k s hk (by omega)

/-- All pairs of a symbol of `left` and a symbol of `right`, in order. -/
def Rhs.pairs (left right : List Symbol) : List Rhs :=
  left.flatMap fun a => right.map (Rhs.pair a)

/-- The pairs are those of a left and a right symbol. -/
lemma Rhs.mem_pairs {left right : List Symbol} {rhs : Rhs} :
    rhs ∈ Rhs.pairs left right ↔ ∃ a ∈ left, ∃ b ∈ right, rhs = .pair a b := by
  simp only [pairs, List.mem_flatMap, List.mem_map, eq_comm]

/-- There are as many pairs as the two numbers multiplied. -/
lemma Rhs.length_pairs (left right : List Symbol) :
    (Rhs.pairs left right).length = left.length * right.length := by
  simp [pairs, List.length_flatMap]

namespace Grammar

variable {g : Grammar} {word : Word} {a : Symbol}

open Classical in
/-- The nonterminals that derive a word. -/
noncomputable def derivers (g : Grammar) (word : Word) : SymbolSet :=
  .ofPred g.numNonterminals fun a => decide (g.Derives a word)

/-- The set of what derives a word has a place for each nonterminal. -/
@[simp] lemma size_derivers (g : Grammar) (word : Word) :
    (g.derivers word).size = g.numNonterminals := by
  rw [derivers, SymbolSet.size_ofPred]

open Classical in
/-- The members are the nonterminals that derive the word. -/
lemma contains_derivers (hg : g.WellFormed) :
    (g.derivers word).contains a = true ↔ g.Derives a word := by
  rw [derivers, SymbolSet.contains_ofPred, Bool.and_eq_true, decide_eq_true_eq, decide_eq_true_eq]
  exact ⟨fun h => h.2, fun h => ⟨h.lhs_lt hg, h⟩⟩

/-- Beyond the nonterminals nothing is a member. -/
lemma contains_derivers_of_not_lt (hg : g.WellFormed) (ha : ¬ a.toNat < g.numNonterminals) :
    (g.derivers word).contains a = false :=
  Bool.eq_false_iff.2 fun h => ha (((contains_derivers hg).1 h).lhs_lt hg)

/-- What derives the word is listed. -/
lemma mem_toList_derivers (hg : g.WellFormed) :
    a ∈ (g.derivers word).toList ↔ g.Derives a word := by
  rw [SymbolSet.mem_toList (hg.size_le (size_derivers g word)), contains_derivers hg]

/-- The right-hand sides looked up for the part from `first` to `first + span`. -/
noncomputable def splitSides (g : Grammar) (word : Word) (span first : Nat) : List Rhs :=
  (List.range span).flatMap fun split =>
    Rhs.pairs (g.derivers (word.part first (first + split))).toList
      (g.derivers (word.part (first + split + 1) (first + span))).toList

/-- The right-hand sides looked up for the parts of `span + 1` symbols. -/
noncomputable def spanSides (g : Grammar) (word : Word) (span : Nat) : List Rhs :=
  (List.range' 0 (word.length - span)).flatMap (g.splitSides word span)

/-- The right-hand sides looked up for a word. -/
noncomputable def fillSides (g : Grammar) (word : Word) : List Rhs :=
  word.map .terminal ++ (List.range' 1 (word.length - 1)).flatMap (g.spanSides word)

/-- The producers of a symbol are what derives it. -/
lemma producers_terminal (hg : g.WellFormed) (t : Symbol) :
    g.producers (.terminal t) = g.derivers [t] := by
  refine SymbolSet.ext_contains (by rw [size_producers, size_derivers])
    (hg.size_le (size_producers g _)) fun a => ?_
  rw [contains_producers hg, contains_derivers hg, derives_singleton_iff]

/-- **The look-ups for a part give what derives the part.**

**Proof sketch.** A member is the left-hand side of a rule for a pair whose symbols derive the two
pieces of some split, and this is how a part of two symbols or more is derived. -/
theorem gather_splitSides (hg : g.WellFormed) {span first : Nat} (hspan : 0 < span)
    (hlast : first + span < word.length) :
    g.gather (.empty g.numNonterminals) (g.splitSides word span first) =
      g.derivers (word.part first (first + span)) := by
  have hsize : (SymbolSet.empty g.numNonterminals).size = g.numNonterminals :=
    SymbolSet.size_empty _
  refine SymbolSet.ext_contains (by rw [size_gather hsize, size_derivers])
    (hg.size_le (size_gather hsize _)) fun a => ?_
  rw [contains_gather hg hsize, contains_derivers hg, derives_part_iff hspan hlast,
    SymbolSet.contains_empty]
  constructor
  · rintro (h | ⟨rhs, hrhs, hr⟩)
    · exact absurd h (by simp)
    · obtain ⟨split, hsplit, hpair⟩ := List.mem_flatMap.1 hrhs
      obtain ⟨b, hb, c, hc, rfl⟩ := Rhs.mem_pairs.1 hpair
      exact ⟨split, List.mem_range.1 hsplit, b, c, hr, (mem_toList_derivers hg).1 hb,
        (mem_toList_derivers hg).1 hc⟩
  · rintro ⟨split, hsplit, b, c, hr, hb, hc⟩
    refine Or.inr ⟨.pair b c, List.mem_flatMap.2 ⟨split, List.mem_range.2 hsplit, ?_⟩, hr⟩
    exact Rhs.mem_pairs.2
      ⟨b, (mem_toList_derivers hg).2 hb, c, (mem_toList_derivers hg).2 hc, rfl⟩

end Grammar

namespace Table

variable {g : Grammar} {word : Word} {t : Table} {index : ProducerIndex}

/-! ## One cell -/

/-- What one split adds, and the look-ups for it. -/
lemma combine_eq (hi : index.Faithful g) (left right : List Symbol) (found : SymbolSet) :
    combine g left right found index =
      (g.gather found (Rhs.pairs left right), index.lookupAll g (Rhs.pairs left right)) := by
  induction left generalizing found index with
  | nil => rfl
  | cons a left ih =>
    have hpairs : Rhs.pairs (a :: left) right = right.map (.pair a) ++ Rhs.pairs left right :=
      List.flatMap_cons
    -- the pairs that begin with `a` come first
    have hrow := hi.foldl_union_eq (right.map (.pair a)) found
    rw [List.foldl_map] at hrow
    rw [hpairs, Grammar.gather_append, ProducerIndex.lookupAll_append, ← ih (hi.lookupAll _)]
    exact congrArg (fun acc => combine g left right acc.1 acc.2) hrow

/-- What several splits add, and the look-ups for them. -/
lemma foldl_combine_eq (hi : index.Faithful g) (left right : Nat → List Symbol)
    (splits : List Nat) (found : SymbolSet) :
    splits.foldl (fun (acc : SymbolSet × ProducerIndex) split =>
        combine g (left split) (right split) acc.1 acc.2) (found, index) =
      (g.gather found (splits.flatMap fun split => Rhs.pairs (left split) (right split)),
        index.lookupAll g (splits.flatMap fun split => Rhs.pairs (left split) (right split))) := by
  induction splits generalizing found index with
  | nil => rfl
  | cons split splits ih =>
    rw [List.flatMap_cons, Grammar.gather_append, ProducerIndex.lookupAll_append, List.foldl_cons,
      combine_eq hi]
    exact ih (hi.lookupAll _) _

/-! ## The invariant of the filling -/

/-- A table of a word in which all cells before that of the part from `first` to `first + span` hold
what derives their parts: those of shorter parts, and those of parts as long that begin earlier. -/
structure FilledTo (g : Grammar) (word : Word) (span first : Nat) (t : Table) : Prop where
  length_eq : t.length = word.length
  width_eq : t.width = g.numNonterminals
  size_cells : t.cells.size = t.length * (t.length + 1) / 2
  get_eq : ∀ i j, i ≤ j → j < word.length → j < i + span ∨ j = i + span ∧ i < first →
    t.get i j = g.derivers (word.part i j)

namespace FilledTo

variable {span first : Nat}

/-- No cell is final at first. -/
lemma empty (g : Grammar) (word : Word) :
    (empty word.length g.numNonterminals).FilledTo g word 0 0 where
  length_eq := rfl
  width_eq := rfl
  size_cells := by simp [Table.empty]
  get_eq i j hij _ hdone := by omega

/-- The next cell becomes final. -/
lemma put (h : t.FilledTo g word span first) (hlast : first + span < word.length) :
    (t.put first (first + span) (g.derivers (word.part first (first + span)))).FilledTo g word span
      (first + 1) where
  length_eq := h.length_eq
  width_eq := h.width_eq
  size_cells := by rw [size_cells_put, h.size_cells, length_put]
  get_eq i j hij hj hdone := by
    by_cases hcell : first = i ∧ first + span = j
    · obtain ⟨rfl, rfl⟩ := hcell
      exact get_put_self h.size_cells (by omega) (by rw [h.length_eq]; exact hlast)
    · rw [get_put_of_ne (by omega) hij hcell]
      exact h.get_eq i j hij hj (by omega)

/-- After the last part of one length come the parts one symbol longer. -/
lemma next_span (h : t.FilledTo g word span first) (hfirst : word.length ≤ first + span) :
    t.FilledTo g word (span + 1) 0 :=
  { h with get_eq := fun i j hij hj hdone => h.get_eq i j hij hj (by omega) }

/-- The look-ups for the next cell are those for its part: both pieces of each split are shorter, so their
cells are final. -/
lemma splitSides_eq (h : t.FilledTo g word span first) (hlast : first + span < word.length) :
    (List.range span).flatMap (fun split =>
      Rhs.pairs (t.get first (first + split)).toList
        (t.get (first + split + 1) (first + span)).toList) = g.splitSides word span first := by
  refine List.flatMap_congr fun split hsplit => ?_
  have hlt := List.mem_range.1 hsplit
  rw [h.get_eq first (first + split) (by omega) (by omega) (by omega),
    h.get_eq (first + split + 1) (first + span) (by omega) (by omega) (by omega)]

/-- What all splits together give for the next cell. -/
lemma derived_eq (hg : g.WellFormed) (h : t.FilledTo g word span first) (hi : index.Faithful g)
    (hspan : 0 < span) (hlast : first + span < word.length) :
    derived g t span first index =
      (g.derivers (word.part first (first + span)),
        index.lookupAll g (g.splitSides word span first)) := by
  have hderived : derived g t span first index = _ :=
    foldl_combine_eq hi (fun split => (t.get first (first + split)).toList)
      (fun split => (t.get (first + split + 1) (first + span)).toList) (List.range span) _
  rwa [h.splitSides_eq hlast, h.width_eq, Grammar.gather_splitSides hg hspan hlast] at hderived

/-- **What the filling of one cell does.** -/
theorem fillCell_eq (hg : g.WellFormed) (h : t.FilledTo g word span first)
    (hi : index.Faithful g) (hspan : 0 < span) (hlast : first + span < word.length) :
    fillCell g span first t index =
      (t.put first (first + span) (g.derivers (word.part first (first + span))),
        index.lookupAll g (g.splitSides word span first)) := by
  rw [fillCell, h.derived_eq hg hi hspan hlast]

/-! ## The loops -/

/-- The cells of single symbols from a position on become final, and the symbols are looked up. -/
lemma fillDiagonal_eq (hg : g.WellFormed) {position : Nat} {rest : Word}
    (hrest : word.drop position = rest) (h : t.FilledTo g word 0 position)
    (hi : index.Faithful g) :
    (fillDiagonal g position rest t index).1.FilledTo g word 0 word.length ∧
      (fillDiagonal g position rest t index).2 = index.lookupAll g (rest.map .terminal) := by
  induction rest generalizing position t index with
  | nil =>
    have hlen := List.drop_eq_nil_iff.1 hrest
    exact ⟨{ h with get_eq := fun i j hij hj hdone => h.get_eq i j hij hj (by omega) }, rfl⟩
  | cons a rest ih =>
    obtain ⟨hlt, ha, hrest⟩ := Word.drop_eq_cons hrest
    have hput := h.put hlt
    simp only [Nat.add_zero] at hput
    rw [Word.part_self hlt, ha, ← Grammar.producers_terminal hg] at hput
    unfold fillDiagonal
    rw [hi.lookup_eq]
    exact ih hrest hput (hi.lookupAll _)

/-- The cells of the parts of one length become final, and the look-ups for them are made. -/
lemma fillSpan_eq (hg : g.WellFormed) (h : t.FilledTo g word span 0) (hi : index.Faithful g)
    (hspan : 0 < span) :
    (fillSpan g span t index).1.FilledTo g word (span + 1) 0 ∧
      (fillSpan g span t index).2 = index.lookupAll g (g.spanSides word span) := by
  have hloop := foldl_range'_induction
    (fun first (s : Table × ProducerIndex) => s.1.FilledTo g word span first ∧
      s.2 = index.lookupAll g ((List.range' 0 first).flatMap (g.splitSides word span)))
    (fun s first => fillCell g span first s.1 s.2) 0 (t.length - span) (s := (t, index))
    ⟨h, rfl⟩ ?_
  · rw [Nat.zero_add, h.length_eq] at hloop
    obtain ⟨hfilled, hindex⟩ := hloop
    unfold fillSpan
    rw [List.range_eq_range', h.length_eq]
    exact ⟨hfilled.next_span (by omega), hindex⟩
  · rintro first ⟨t', index'⟩ - hlt ⟨ht', rfl⟩
    rw [h.length_eq] at hlt
    dsimp only at ht' ⊢
    rw [ht'.fillCell_eq hg (hi.lookupAll _) hspan (by omega), List.range'_1_concat,
      List.flatMap_append, ProducerIndex.lookupAll_append]
    refine ⟨ht'.put (by omega), ?_⟩
    simp

/-- All other cells become final, and the look-ups for them are made. -/
lemma fillSpans_eq (hg : g.WellFormed) (h : t.FilledTo g word 1 0) (hi : index.Faithful g) :
    (fillSpans g t index).1.FilledTo g word word.length 0 ∧
      (fillSpans g t index).2 =
        index.lookupAll g ((List.range' 1 (word.length - 1)).flatMap (g.spanSides word)) := by
  have hloop := foldl_range'_induction
    (fun span (s : Table × ProducerIndex) => s.1.FilledTo g word span 0 ∧
      s.2 = index.lookupAll g ((List.range' 1 (span - 1)).flatMap (g.spanSides word)))
    (fun s span => fillSpan g span s.1 s.2) 1 (t.length - 1) (s := (t, index)) ⟨h, rfl⟩ ?_
  · rw [h.length_eq, Nat.add_sub_cancel_left] at hloop
    obtain ⟨hfilled, hindex⟩ := hloop
    unfold fillSpans
    rw [h.length_eq]
    refine ⟨{ hfilled with get_eq := fun i j hij hj hdone => ?_ }, hindex⟩
    exact hfilled.get_eq i j hij hj (by omega)
  · rintro span ⟨t', index'⟩ hpos - ⟨ht', rfl⟩
    obtain ⟨hfilled, hindex⟩ := fillSpan_eq hg ht' (hi.lookupAll _) hpos
    refine ⟨hfilled, ?_⟩
    have hconcat : List.range' 1 (span + 1 - 1) = List.range' 1 (span - 1) ++ [span] := by
      obtain ⟨n, rfl⟩ : ∃ n, span = n + 1 := ⟨span - 1, by omega⟩
      rw [Nat.add_sub_cancel, Nat.add_sub_cancel, List.range'_1_concat, Nat.add_comm 1 n]
    rw [hconcat, List.flatMap_append, ProducerIndex.lookupAll_append]
    simpa using hindex

end FilledTo

/-! ## Queries on a full table -/

namespace FilledTo

variable {i j : Nat} {a : Symbol}

/-- A cell within the table holds what derives its part. -/
lemma get?_eq (h : t.FilledTo g word word.length 0) (hij : i ≤ j) (hj : j < word.length) :
    t.get? i j = .ok (g.derivers (word.part i j)) := by
  rw [get?, h.length_eq, if_pos ⟨hij, hj⟩, h.get_eq i j hij hj (by omega)]

/-- The members of a cell are listed in ascending order. -/
lemma cell?_eq (h : t.FilledTo g word word.length 0) (hij : i ≤ j) (hj : j < word.length) :
    t.cell? i j = .ok (g.derivers (word.part i j)).toList := by
  rw [cell?, h.get?_eq hij hj]
  rfl

/-- Any symbol can be asked for. -/
lemma contains?_eq (hg : g.WellFormed) (h : t.FilledTo g word word.length 0) (hij : i ≤ j)
    (hj : j < word.length) :
    t.contains? i j a = .ok (decide (a ∈ (g.derivers (word.part i j)).toList)) := by
  have hmem : (g.derivers (word.part i j)).contains a =
      decide (a ∈ (g.derivers (word.part i j)).toList) := by
    rw [Bool.eq_iff_iff, decide_eq_true_eq, Grammar.mem_toList_derivers hg,
      Grammar.contains_derivers hg]
  rw [contains?, h.width_eq, h.get?_eq hij hj, ← hmem]
  split_ifs with ha
  · rfl
  · rw [Grammar.contains_derivers_of_not_lt hg ha]

/-- A symbol is accepted if it derives the whole word. -/
lemma accepts_iff (hg : g.WellFormed) (h : t.FilledTo g word word.length 0) :
    t.accepts a = true ↔ 0 < word.length ∧ g.Derives a word := by
  rw [accepts, Bool.and_eq_true, isEmpty, h.length_eq, Bool.not_eq_true', decide_eq_false_iff_not,
    Nat.pos_iff_ne_zero]
  refine and_congr_right fun hne => ?_
  have hpos : 0 < word.length := Nat.pos_of_ne_zero hne
  rw [h.get_eq 0 (word.length - 1) (by omega) (by omega) (by omega), Word.part_whole,
    Grammar.contains_derivers hg]

end FilledTo

/-! ## The table of a word -/

/-- The table and the index after the filling. -/
lemma fill_eq (hg : g.WellFormed) (hi : index.Faithful g) (word : Word) :
    (fill g word index).1.FilledTo g word word.length 0 ∧
      (fill g word index).2 = index.lookupAll g (g.fillSides word) := by
  obtain ⟨hdiag, hindex⟩ := FilledTo.fillDiagonal_eq hg (List.drop_zero (l := word))
    (FilledTo.empty g word) hi
  have hspans := FilledTo.fillSpans_eq hg (hdiag.next_span (by omega))
    (hi.lookupAll (word.map .terminal))
  unfold fill Grammar.fillSides
  rw [ProducerIndex.lookupAll_append, ← hindex]
  rw [← hindex] at hspans
  exact hspans

end Table

end Chomsky
