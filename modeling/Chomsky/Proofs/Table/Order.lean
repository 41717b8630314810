import Chomsky.Proofs.Guarded.Filling

set_option autoImplicit false

/-!
# The order in which a table is filled

The loops of the filling visit the cells by the length of their parts, and from left to right.  Each cell has
one visit, and a visit writes to no cell but its own.  So a cell is empty up to its visit and final after it,
and a visit finds all cells of shorter parts final.

## Main definitions

* `Chomsky.Table.order` — the cells in the order of their visits.
* `Chomsky.Table.visit` — the filling of one cell; `Chomsky.Guarded.visit?` — the same bit by bit and with
  guards.
* `Chomsky.Table.visited` — the table and the index after some visits.

## Main results

* `Chomsky.Table.pairwise_order` — shorter parts come before longer ones, and left ones before right ones.
* `Chomsky.Table.visited_length_order` — all visits together are the filling of the table.
* `Chomsky.Table.get_visit` — a visit changes no other cell.
* `Chomsky.Table.get_visited_of_le`, `Chomsky.Table.get_visited_of_lt` — a cell up to its visit and after it.
* `Chomsky.Guarded.visit?_eq` — visits pass their guards.
* `Chomsky.Table.cells_filled_once` — the layout of a table and the course of its filling.
-/

namespace Chomsky

namespace Table

/-! ## The visits -/

/-- The cells of a table for a word of `n` symbols in the order in which they are filled, each given by its
span, which is one less than the length of its part, and its first position. -/
def order (n : Nat) : List (Nat × Nat) :=
  (List.range n).flatMap fun span => (List.range (n - span)).map fun first => (span, first)

/-- Fills the cell of a span and a first position. -/
def visit (g : Grammar) (word : Word) (s : Table × ProducerIndex) :
    Nat × Nat → Table × ProducerIndex
  | (0, position) => fillDiagonal g position (word.part position position) s.1 s.2
  | (span + 1, first) => fillCell g (span + 1) first s.1 s.2

/-- The table and the index when the first `k` cells have been filled. -/
def visited (g : Grammar) (word : Word) (index : ProducerIndex) (k : Nat) : Table × ProducerIndex :=
  ((order word.length).take k).foldl (visit g word) (.empty word.length g.numNonterminals, index)

variable {n span first span' first' i j k m : Nat}

/-! ## The order -/

/-- The cells are those of the parts of the word. -/
lemma mem_order : (span, first) ∈ order n ↔ span + first < n := by
  simp only [order, List.mem_flatMap, List.mem_map, List.mem_range, Prod.mk.injEq]
  constructor
  · rintro ⟨span, hspan, first, hfirst, rfl, rfl⟩
    omega
  · intro h
    exact ⟨span, by omega, first, by omega, rfl, rfl⟩

/-- **Shorter parts come before longer ones**, and of the parts of one length left ones before right ones. -/
theorem pairwise_order (n : Nat) :
    (order n).Pairwise fun p q => p.1 < q.1 ∨ p.1 = q.1 ∧ p.2 < q.2 := by
  refine List.pairwise_flatMap.2 ⟨fun span _ => List.pairwise_map.2 ?_, ?_⟩
  · exact List.pairwise_lt_range.imp fun hlt => Or.inr ⟨rfl, hlt⟩
  · refine List.pairwise_lt_range.imp fun {span span'} hlt p hp q hq => Or.inl ?_
    obtain ⟨first, -, rfl⟩ := List.mem_map.1 hp
    obtain ⟨first', -, rfl⟩ := List.mem_map.1 hq
    exact hlt

example : order 3 = [(0, 0), (0, 1), (0, 2), (1, 0), (1, 1), (2, 0)] := by decide

/-- Which of two visits comes first. -/
lemma lt_iff_of_order (hm : (order n)[m]? = some (span', first'))
    (hk : (order n)[k]? = some (span, first)) :
    m < k ↔ span' < span ∨ span' = span ∧ first' < first := by
  obtain ⟨hmlt, hm⟩ := List.getElem?_eq_some_iff.1 hm
  obtain ⟨hklt, hk⟩ := List.getElem?_eq_some_iff.1 hk
  have hpairwise := List.pairwise_iff_getElem.1 (pairwise_order n)
  constructor
  · intro hlt
    have h := hpairwise m k hmlt hklt hlt
    rwa [hm, hk] at h
  · intro hbefore
    by_contra hle
    -- the visits cannot be the same, nor come the other way round
    rcases Nat.lt_or_eq_of_le (Nat.le_of_not_lt hle) with hlt | rfl
    · have h := hpairwise k m hklt hmlt hlt
      rw [hm, hk] at h
      dsimp only at h
      omega
    · rw [hm, Prod.mk.injEq] at hk
      omega

/-- **Each cell has one visit.** -/
theorem exists_getElem?_order (hij : i ≤ j) (hj : j < n) :
    ∃ k, ∀ m : Nat, (order n)[m]? = some (j - i, i) ↔ m = k := by
  obtain ⟨k, hk⟩ := List.mem_iff_getElem?.1 (mem_order.2 (show j - i + i < n by omega))
  refine ⟨k, fun m => ⟨fun hm => ?_, fun hmk => hmk ▸ hk⟩⟩
  have hmk := lt_iff_of_order hm hk
  have hkm := lt_iff_of_order hk hm
  omega

variable {g : Grammar} {word : Word} {index : ProducerIndex} {s : Table × ProducerIndex}

/-! ## One visit -/

/-- The visit of a single symbol. -/
lemma visit_zero (h : first < word.length) :
    visit g word s (0, first) =
      (s.1.put first first (s.2.lookup g (.terminal word[first])).1,
        (s.2.lookup g (.terminal word[first])).2) := by
  rw [visit, Word.part_self h]
  rfl

/-- A visit replaces the contents of its cell. -/
lemma exists_visit_eq (h : (span, first) ∈ order word.length) :
    ∃ found index', visit g word s (span, first) = (s.1.put first (first + span) found, index') := by
  have hlt := mem_order.1 h
  cases span with
  | zero => exact ⟨_, _, visit_zero (by omega)⟩
  | succ span => exact ⟨_, _, rfl⟩

/-- **A visit changes no other cell.** -/
theorem get_visit (h : (span, first) ∈ order word.length) (hij : i ≤ j)
    (hne : (span, first) ≠ (j - i, i)) : (visit g word s (span, first)).1.get i j = s.1.get i j := by
  obtain ⟨found, index', hvisit⟩ := exists_visit_eq (g := g) (s := s) h
  rw [hvisit]
  refine get_put_of_ne (Nat.le_add_right first span) hij fun hcell => hne ?_
  exact Prod.ext (by omega) hcell.1

/-- Visits of other cells do not change a cell. -/
lemma get_foldl_visit {cells : List (Nat × Nat)} (h : cells ⊆ order word.length) (hij : i ≤ j)
    (hnot : (j - i, i) ∉ cells) : (cells.foldl (visit g word) s).1.get i j = s.1.get i j := by
  induction cells generalizing s with
  | nil => rfl
  | cons cell cells ih =>
    obtain ⟨hcell, hcells⟩ := List.cons_subset.1 h
    obtain ⟨hne, hnot⟩ := List.ne_and_not_mem_of_not_mem_cons hnot
    rw [List.foldl_cons, ih hcells hnot]
    exact get_visit hcell hij hne.symm

/-- Visits keep the measures of the table. -/
lemma measures_foldl_visit {cells : List (Nat × Nat)} (h : cells ⊆ order word.length) :
    let t := (cells.foldl (visit g word) s).1
    t.length = s.1.length ∧ t.width = s.1.width ∧ t.cells.size = s.1.cells.size := by
  induction cells generalizing s with
  | nil => exact ⟨rfl, rfl, rfl⟩
  | cons cell cells ih =>
    obtain ⟨hcell, hcells⟩ := List.cons_subset.1 h
    obtain ⟨found, index', hvisit⟩ := exists_visit_eq (g := g) (s := s) hcell
    have hrest := ih (s := visit g word s cell) hcells
    rw [hvisit] at hrest
    simpa only [List.foldl_cons, hvisit, length_put, width_put, size_cells_put] using hrest

/-! ## All visits -/

/-- The state after a visit. -/
lemma visited_succ {cell : Nat × Nat} (hk : (order word.length)[k]? = some cell) :
    visited g word index (k + 1) = visit g word (visited g word index k) cell := by
  rw [visited, List.take_add_one, hk, List.foldl_append]
  rfl

/-- The cells of single symbols are filled by their visits. -/
lemma fillDiagonal_eq_foldl {position : Nat} {rest : Word} (hrest : word.drop position = rest)
    (t : Table) (index : ProducerIndex) :
    fillDiagonal g position rest t index =
      ((List.range' position rest.length).map fun first => (0, first)).foldl (visit g word) (t, index) := by
  induction rest generalizing position t index with
  | nil => rfl
  | cons a rest ih =>
    obtain ⟨hlt, ha, hrest⟩ := Word.drop_eq_cons hrest
    rw [List.length_cons, List.range'_succ, List.map_cons, List.foldl_cons, visit_zero hlt, ha, ← ih hrest]
    rfl

/-- The filling of the cells of single symbols does not change the length. -/
@[simp] lemma length_fillDiagonal (g : Grammar) (position : Nat) (word : Word) (t : Table)
    (index : ProducerIndex) : (fillDiagonal g position word t index).1.length = t.length := by
  induction word generalizing position t index with
  | nil => rfl
  | cons a rest ih => exact ih (position + 1) _ _

/-- The filling of the cells of one span does not change it either. -/
@[simp] lemma length_fillSpan (g : Grammar) (span : Nat) (t : Table) (index : ProducerIndex) :
    (fillSpan g span t index).1.length = t.length :=
  List.foldlRecOn (motive := fun s : Table × ProducerIndex => s.1.length = t.length) _ _ rfl
    fun _ hs _ _ => hs

/-- The cells of several spans are filled by their visits. -/
lemma foldl_fillSpan_eq {spans : List Nat} (hspans : ∀ span ∈ spans, 0 < span) (t : Table)
    (index : ProducerIndex) :
    spans.foldl (fun s span => fillSpan g span s.1 s.2) (t, index) =
      (spans.flatMap fun span => (List.range (t.length - span)).map fun first => (span, first)).foldl
        (visit g word) (t, index) := by
  induction spans generalizing t index with
  | nil => rfl
  | cons span spans ih =>
    obtain ⟨hspan, hspans⟩ := List.forall_mem_cons.1 hspans
    have hvisits : fillSpan g span t index =
        ((List.range (t.length - span)).map fun first => (span, first)).foldl (visit g word)
          (t, index) := by
      obtain ⟨span, rfl⟩ := Nat.exists_eq_succ_of_ne_zero hspan.ne'
      rw [List.foldl_map]
      rfl
    rw [List.foldl_cons, ih hspans, List.flatMap_cons, List.foldl_append, ← hvisits, length_fillSpan]

/-- The single symbols come first. -/
lemma order_eq (n : Nat) :
    order n = (List.range' 0 n).map (fun first => (0, first)) ++
      (List.range' 1 (n - 1)).flatMap fun span =>
        (List.range (n - span)).map fun first => (span, first) := by
  cases n with
  | zero => rfl
  | succ n =>
    rw [order, List.range_eq_range', List.range'_succ, List.flatMap_cons, Nat.sub_zero,
      List.range_eq_range']
    rfl

/-- **All visits together are the filling of the table.** -/
theorem visited_length_order (g : Grammar) (word : Word) (index : ProducerIndex) :
    visited g word index (order word.length).length = fill g word index := by
  have hlength : (fillDiagonal g 0 word (.empty word.length g.numNonterminals) index).1.length =
      word.length := length_fillDiagonal ..
  have hspans : ∀ span ∈ List.range' 1 (word.length - 1), 0 < span := fun span hspan =>
    (List.mem_range'_1.1 hspan).1
  rw [visited, List.take_length, order_eq, List.foldl_append,
    ← fillDiagonal_eq_foldl (List.drop_zero (l := word)), fill]
  -- the table keeps its length, so the later spans run over the same positions
  generalize fillDiagonal g 0 word (.empty word.length g.numNonterminals) index = s at hlength ⊢
  obtain ⟨t, index⟩ := s
  dsimp only at hlength ⊢
  rw [← hlength] at hspans ⊢
  exact (foldl_fillSpan_eq hspans t index).symm

/-- What is left to do after some visits are the other ones. -/
lemma fill_eq_foldl_drop (g : Grammar) (word : Word) (index : ProducerIndex) (k : Nat) :
    fill g word index = ((order word.length).drop k).foldl (visit g word) (visited g word index k) := by
  rw [← visited_length_order, visited, visited, List.take_length, ← List.foldl_append,
    List.take_append_drop]

/-! ## A cell in the course of the filling -/

/-- **A cell is empty up to its visit.** -/
theorem get_visited_of_le (hk : ∀ m : Nat, (order word.length)[m]? = some (j - i, i) ↔ m = k)
    (hij : i ≤ j) (hm : m ≤ k) : (visited g word index m).1.get i j = .empty g.numNonterminals := by
  -- its visit is none of the first ones
  have hnot : (j - i, i) ∉ (order word.length).take m := fun hmem => by
    obtain ⟨l, hlt, hl⟩ := List.mem_take_iff_getElem.1 hmem
    have := (hk l).1 (List.getElem?_eq_some_iff.2 ⟨by omega, hl⟩)
    omega
  rw [visited, get_foldl_visit (List.take_subset m _) hij hnot, get_empty]

/-- **A cell is final after its visit.** -/
theorem get_visited_of_lt (hk : ∀ m : Nat, (order word.length)[m]? = some (j - i, i) ↔ m = k)
    (hij : i ≤ j) (hm : k < m) :
    (visited g word index m).1.get i j = (fill g word index).1.get i j := by
  -- its visit is none of those to come
  have hnot : (j - i, i) ∉ (order word.length).drop m := fun hmem => by
    obtain ⟨l, hl⟩ := List.mem_iff_getElem?.1 hmem
    rw [List.getElem?_drop] at hl
    have := (hk (m + l)).1 hl
    omega
  rw [fill_eq_foldl_drop g word index m, get_foldl_visit (List.drop_subset m _) hij hnot]

end Table

/-! ## Bit by bit and with guards -/

namespace Guarded

open Table (order visit visited)

/-- Fills the cell of a span and a first position, bit by bit and with guards. -/
def visit? (g : Grammar) (word : Word) (s : Table × Index) : Nat × Nat → Except Fault (Table × Index)
  | (0, position) => fillDiagonal? g position (word.part position position) s.1 s.2
  | (span + 1, first) => fillCell? g (span + 1) first s.1 s.2

variable {g : Grammar} {word : Word} {index : ProducerIndex} {span first k : Nat}

/-- A bit that is set changes no cell but the one of its row. -/
lemma get_of_set?_eq_ok {t t' : Table} {a : Symbol} {i j i' j' : Nat}
    (h : set? (Table.row i j) t a = .ok t') (hij : i ≤ j) (hij' : i' ≤ j')
    (hne : ¬(i = i' ∧ j = j')) : t'.get i' j' = t.get i' j' := by
  unfold set? bit? at h
  split_ifs at h
  · obtain rfl := Except.ok.inj h
    rw [Table.get, Table.get, Array.getElem?_modify, if_neg (mt (Table.row_inj hij hij').1 hne)]
  · exact absurd h (by simp [bind, Except.bind])

/-- At a visit, the cells before are final, and its own cell and the later ones are empty. -/
lemma filling_visited (hg : g.WellFormed) (hi : index.Faithful g)
    (hk : (order word.length)[k]? = some (span, first)) :
    Filling g word span first (visited g word index k).1 := by
  have hempty := Table.FilledTo.empty g word
  obtain ⟨hlength, hwidth, hsize⟩ := Table.measures_foldl_visit (g := g)
    (s := (.empty word.length g.numNonterminals, index)) (List.take_subset k (order word.length))
  refine ⟨⟨hlength, hwidth, ?_, fun i j hij hj hdone => ?_⟩, fun i j hij hj hlater => ?_⟩
  · rw [visited, hsize, hlength]
    exact hempty.size_cells
  · obtain ⟨m, hm⟩ := Table.exists_getElem?_order hij hj
    have hlt : m < k := (Table.lt_iff_of_order ((hm m).2 rfl) hk).2 (by omega)
    rw [Table.get_visited_of_lt hm hij hlt]
    exact (Table.fill_eq hg hi word).1.get_eq i j hij hj (by omega)
  · obtain ⟨m, hm⟩ := Table.exists_getElem?_order hij hj
    have hle : ¬ m < k := fun hlt => by
      have := (Table.lt_iff_of_order ((hm m).2 rfl) hk).1 hlt
      omega
    exact Table.get_visited_of_le hm hij (Nat.le_of_not_lt hle)

/-- **Visits pass their guards**, if the index is faithful. -/
lemma visit?_eq_of_faithful (hg : g.WellFormed) {s : Table × ProducerIndex} (hs : s.2.Faithful g)
    (h : Filling g word span first s.1) (hlast : first + span < word.length) (asked : List Rhs) :
    (visit g word s (span, first)).2.Faithful g ∧
      ∃ asked', visit? g word (noted s asked) (span, first) =
        .ok (noted (visit g word s (span, first)) asked') := by
  cases span with
  | zero =>
    rw [Nat.add_zero] at hlast
    have hsymbol := (h.fillSymbol?_eq hg hs hlast rfl asked).1
    rw [Table.visit_zero hlast, hs.lookup_eq]
    refine ⟨hs.lookupAll _, asked ++ [.terminal word[first]], ?_⟩
    rw [visit?, Word.part_self hlast, fillDiagonal?]
    show (fillSymbol? g first word[first] s.1 ⟨s.2, asked⟩ >>= _) = _
    rw [hsymbol]
    rfl
  | succ span =>
    obtain ⟨hcell, -, hfaithful⟩ := h.fillCell?_eq hg hs (Nat.succ_pos span) hlast asked
    exact ⟨hfaithful, _, hcell⟩

/-- An index stays faithful along the visits. -/
lemma faithful_visited (hg : g.WellFormed) (hi : index.Faithful g) (k : Nat) :
    (visited g word index k).2.Faithful g := by
  induction k with
  | zero => exact hi
  | succ k ih =>
    cases hk : (order word.length)[k]? with
    | none =>
      rw [visited, List.take_add_one, hk, Option.toList_none, List.append_nil]
      exact ih
    | some cell =>
      have hlast := Table.mem_order.1 (List.mem_of_getElem? hk)
      rw [Table.visited_succ hk]
      exact (visit?_eq_of_faithful hg ih (filling_visited hg hi hk) (by omega) []).1

/-- **Visits pass their guards**, after any visits before. -/
theorem visit?_eq (hg : g.WellFormed) (hi : index.Faithful g) {cell : Nat × Nat}
    (hk : (order word.length)[k]? = some cell) (asked : List Rhs) :
    ∃ asked', visit? g word (noted (visited g word index k) asked) cell =
      .ok (noted (visited g word index (k + 1)) asked') := by
  have hlast := Table.mem_order.1 (List.mem_of_getElem? hk)
  rw [Table.visited_succ hk]
  exact (visit?_eq_of_faithful hg (faithful_visited hg hi k) (filling_visited hg hi hk) (by omega)
    asked).2

end Guarded

/-! ## The layout and the order together -/

namespace Table

open Guarded (set? visit? noted)

/-- **Each cell of a table is filled once, after all cells of shorter parts.**  The cells are numbered one by
one, and a bit that is set changes no cell but its own.  The filling is a sequence of visits, and a visit
changes no cell but its own.  Each cell has exactly one visit: up to it, the cell is empty, after it, the cell
is as in the full table, and at the visit so are all cells of shorter parts.  For the index of a constructed
grammar after any history, the visits do the same bit by bit, and no guard stops them.

**Proof sketch.** Visits are ordered by span and then by first position.  So no visit comes twice, and those of
shorter parts come before.  As a visit leaves other cells alone, a cell keeps its first contents up to its visit
and its last contents from there on. -/
theorem cells_filled_once (g : Grammar) (word : Word) (index : ProducerIndex) :
    (∀ n, Set.BijOn (fun cell : Nat × Nat => row cell.1 cell.2) {cell | cell.1 ≤ cell.2 ∧ cell.2 < n}
        (Set.Iio (n * (n + 1) / 2)) ∧
      ∀ width, (empty n width).cells.size = n * (n + 1) / 2) ∧
    (∀ (t t' : Table) (a : Symbol) (i j i' j' : Nat), i ≤ j → i' ≤ j' → ¬(i = i' ∧ j = j') →
      set? (row i j) t a = .ok t' → t'.get i' j' = t.get i' j') ∧
    visited g word index (order word.length).length = fill g word index ∧
    (∀ s span first i j, (span, first) ∈ order word.length → i ≤ j → (span, first) ≠ (j - i, i) →
      (visit g word s (span, first)).1.get i j = s.1.get i j) ∧
    (∀ i j, i ≤ j → j < word.length → ∃ k : Nat,
      (∀ m : Nat, (order word.length)[m]? = some (j - i, i) ↔ m = k) ∧
      (∀ m ≤ k, (visited g word index m).1.get i j = .empty g.numNonterminals) ∧
      (∀ m, k < m → (visited g word index m).1.get i j = (fill g word index).1.get i j) ∧
      ∀ i' j', i' ≤ j' → j' < word.length → j' - i' < j - i →
        (visited g word index k).1.get i' j' = (fill g word index).1.get i' j') ∧
    (g.Constructed → ∀ requests, index = ProducerIndex.empty.run g requests →
      ∀ (k : Nat) cell asked, (order word.length)[k]? = some cell →
        ∃ asked', visit? g word (noted (visited g word index k) asked) cell =
          .ok (noted (visited g word index (k + 1)) asked')) := by
  refine ⟨fun n => ⟨row_bijOn n, fun width => Array.size_replicate ..⟩,
    fun t t' a i j i' j' hij hij' hne hset => Guarded.get_of_set?_eq_ok hset hij hij' hne,
    visited_length_order g word index,
    fun s span first i j h hij hne => get_visit h hij hne, fun i j hij hj => ?_, ?_⟩
  · obtain ⟨k, hk⟩ := exists_getElem?_order hij hj
    refine ⟨k, hk, fun m hm => get_visited_of_le hk hij hm, fun m hm => get_visited_of_lt hk hij hm,
      fun i' j' hij' hj' hshorter => ?_⟩
    -- a cell of a smaller span has its visit before
    obtain ⟨m, hm⟩ := exists_getElem?_order hij' hj'
    have hlt : m < k := (lt_iff_of_order ((hm m).2 rfl) ((hk k).2 rfl)).2 (Or.inl hshorter)
    exact get_visited_of_lt hm hij' hlt
  · rintro hg requests rfl k cell asked hcell
    have hi := (ProducerIndex.faithful_empty g).run hg.wellFormed requests
    exact Guarded.visit?_eq hg.wellFormed hi hcell asked

/-- In the filling of the table of `(())`, the cell of the inner parentheses is filled with what it has in the
end, when the cells of single symbols are full.  The index has seen another word. -/
theorem cells_filled_once_parentheses :
    Grammar.parentheses.Constructed ∧
      let word := [.ofNat 4, .ofNat 4, .ofNat 5, .ofNat 5]
      let index := ProducerIndex.empty.run Grammar.parentheses [.recognize [.ofNat 4, .ofNat 7]]
      let final := (fill Grammar.parentheses word index).1
      ∃ k : Nat, (order 4)[k]? = some (1, 1) ∧
        (visited Grammar.parentheses word index k).1.get 1 2 =
          .empty Grammar.parentheses.numNonterminals ∧
        (visited Grammar.parentheses word index (k + 1)).1.get 1 2 = final.get 1 2 ∧
        (visited Grammar.parentheses word index k).1.get 2 2 = final.get 2 2 ∧
        ∃ s, visit? Grammar.parentheses word
          (noted (visited Grammar.parentheses word index k) []) (1, 1) = .ok s := by
  have hg := Grammar.constructed_parentheses
  obtain ⟨-, -, -, -, hcells, hvisits⟩ := cells_filled_once Grammar.parentheses
    [.ofNat 4, .ofNat 4, .ofNat 5, .ofNat 5]
    (ProducerIndex.empty.run Grammar.parentheses [.recognize [.ofNat 4, .ofNat 7]])
  obtain ⟨k, hk, hbefore, hafter, hshorter⟩ := hcells 1 2 (by decide) (by decide)
  have hcell := (hk k).2 rfl
  obtain ⟨asked, hvisit⟩ := hvisits hg _ rfl k (1, 1) [] hcell
  exact ⟨hg, k, hcell, hbefore k (Nat.le_refl k), hafter (k + 1) (Nat.lt_succ_self k),
    hshorter 2 2 (by decide) (by decide) (by decide), _, hvisit⟩

end Table

end Chomsky
