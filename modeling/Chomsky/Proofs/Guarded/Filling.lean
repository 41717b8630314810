import Chomsky.Proofs.Guarded.Basic

set_option autoImplicit false

/-!
# Tables are filled within the guards

The filling of a table with guards gives the same table as without them, and no guard stops it.  The
positions of the loops are those of parts of the word, the producers of a right-hand side are nonterminals,
and all sets that are joined have a place for each nonterminal.  A cell is filled bit by bit, into an empty
row; so the invariant of the filling is that the cells before the current one are final and that the current
one and the later ones are empty.

## Main definitions

* `Chomsky.Guarded.noted` — the result of a computation, with its look-ups noted.
* `Chomsky.Guarded.Filling` — the invariant of the filling.

## Main results

* `Chomsky.Guarded.foldlM_noted` — a loop passes its guards if each pass does.
* `Chomsky.Guarded.lookup?_eq` — look-ups pass their guards.
* `Chomsky.Guarded.Filling.fillCell?_eq` — so does the filling of one cell.
* `Chomsky.Guarded.fill?_eq` — so does the filling of a table.
-/

namespace Chomsky.Guarded

variable {g : Grammar} {word : Word} {t : Table} {index : ProducerIndex}

/-! ## Loops and look-ups -/

/-- The result of a computation, with the look-ups that it has made noted in its index. -/
def noted {α : Type} (s : α × ProducerIndex) (asked : List Rhs) : α × Index := (s.1, ⟨s.2, asked⟩)

/-- **A loop passes its guards if each pass does.** -/
theorem foldlM_noted {α β : Type} (f? : α × Index → β → Except Fault (α × Index))
    (f : α × ProducerIndex → β → α × ProducerIndex) (sides : β → List Rhs)
    (motive : Nat → α × ProducerIndex → Prop) (xs : List β) (asked : List Rhs)
    {s : α × ProducerIndex} (h0 : motive 0 s)
    (hstep : ∀ k (hk : k < xs.length) s asked, motive k s →
      f? (noted s asked) xs[k] = .ok (noted (f s xs[k]) (asked ++ sides xs[k])) ∧
        motive (k + 1) (f s xs[k])) :
    xs.foldlM f? (noted s asked) = .ok (noted (xs.foldl f s) (asked ++ xs.flatMap sides)) ∧
      motive xs.length (xs.foldl f s) := by
  induction xs generalizing motive asked s with
  | nil => exact ⟨by simp [noted, pure, Except.pure], h0⟩
  | cons x xs ih =>
    obtain ⟨hx, hmotive⟩ := hstep 0 (Nat.succ_pos _) s asked h0
    obtain ⟨hxs, hend⟩ := ih (fun k => motive (k + 1)) (asked ++ sides x) hmotive
      fun k hk => hstep (k + 1) (Nat.succ_lt_succ hk)
    refine ⟨?_, hend⟩
    rw [List.getElem_cons_zero] at hx
    rw [List.foldlM_cons, hx, List.flatMap_cons, ← List.append_assoc, List.foldl_cons]
    exact hxs

/-- Rules can be scanned if their left-hand sides have a place in the set. -/
lemma foldlM_assign?_eq {rules : List Rule} {found : SymbolSet} (rhs : Rhs)
    (h : ∀ r ∈ rules, r.lhs.toNat < found.size) :
    rules.foldlM (fun found r =>
        if r.rhs = rhs then (found.assign? r.lhs true).mapError Fault.symbols else .ok found) found =
      .ok (((rules.filter fun r => r.rhs = rhs).map Rule.lhs).foldl SymbolSet.insert found) := by
  induction rules generalizing found with
  | nil => rfl
  | cons r rules ih =>
    obtain ⟨hr, hrules⟩ := List.forall_mem_cons.1 h
    rw [List.foldlM_cons]
    by_cases hrhs : r.rhs = rhs
    · have hassign : found.assign? r.lhs true = .ok (found.insert r.lhs) := if_pos hr
      rw [if_pos hrhs, hassign, List.filter_cons_of_pos (by simpa using hrhs)]
      refine ih fun r' hr' => ?_
      rw [SymbolSet.size_insert]
      exact hrules r' hr'
    · rw [if_neg hrhs, List.filter_cons_of_neg (by simpa using hrhs)]
      exact ih hrules

/-- A scan finds the producers: the left-hand sides of rules are nonterminals. -/
lemma scan?_eq (hg : g.WellFormed) (rhs : Rhs) : scan? g rhs = .ok (g.producers rhs) :=
  foldlM_assign?_eq rhs fun r hr => by
    rw [SymbolSet.size_empty]
    exact hg.lhs_lt r hr

/-- **Look-ups pass their guards.** -/
theorem lookup?_eq (hg : g.WellFormed) (rhs : Rhs) (index : ProducerIndex) (asked : List Rhs) :
    lookup? g rhs ⟨index, asked⟩ = .ok (noted (index.lookup g rhs) (asked ++ [rhs])) := by
  unfold lookup? ProducerIndex.lookup
  dsimp only
  cases index.memo[rhs]? with
  | some found => rfl
  | none =>
    rw [scan?_eq hg]
    rfl

/-! ## The table -/

/-- The cell of a part of the word has a number. -/
lemma row?_eq {first last : Nat} (h : first ≤ last) (hlast : last < t.length) :
    row? t first last = .ok (Table.row first last) :=
  if_pos ⟨h, hlast⟩

/-- The cell of a part of the word can be read. -/
lemma cell?_eq {span first i j : Nat} (h : t.FilledTo g word span first) (hij : i ≤ j)
    (hj : j < word.length) : cell? t i j = .ok (t.get i j).toList := by
  have hj' : j < t.length := by rw [h.length_eq]; exact hj
  have hrow := Table.row_lt h.size_cells hij hj'
  rw [cell?, row?_eq hij hj', Table.get, Array.getElem?_eq_getElem hrow]
  simp [bind, Except.bind, Array.getElem?_eq_getElem hrow]

/-- Two changes of one row can be made at once. -/
lemma modify_modify (cells : Array SymbolSet) (row : Nat) (f h : SymbolSet → SymbolSet) :
    (cells.modify row f).modify row h = cells.modify row fun s => h (f s) := by
  refine Array.ext_getElem? fun i => ?_
  rw [Array.getElem?_modify, Array.getElem?_modify, Array.getElem?_modify]
  split_ifs
  · rw [Option.map_map]
    rfl
  · rfl

/-- Bits in a row of the table and below its width can be set. -/
lemma setAll?_eq_modify {row : Nat} (hrow : row < t.length * (t.length + 1) / 2)
    {members : List Symbol} (hmembers : ∀ a ∈ members, a.toNat < t.width) :
    setAll? row members t =
      .ok { t with cells := t.cells.modify row fun s => members.foldl SymbolSet.insert s } := by
  induction members generalizing t with
  | nil =>
    have hcells : t.cells.modify row (fun s => s) = t.cells := by
      refine Array.ext_getElem? fun i => ?_
      rw [Array.getElem?_modify]
      split_ifs <;> simp
    exact congrArg (fun cells => Except.ok { t with cells }) hcells.symm
  | cons a members ih =>
    obtain ⟨ha, hmembers⟩ := List.forall_mem_cons.1 hmembers
    have hset : set? row t a =
        .ok { t with cells := t.cells.modify row fun s => s.insert a } := by
      rw [set?, bit?, if_pos ⟨hrow, ha⟩]
      rfl
    rw [setAll?, List.foldlM_cons, hset]
    refine (@ih { t with cells := t.cells.modify row fun s => s.insert a } hrow hmembers).trans ?_
    rw [modify_modify]
    rfl

/-- A table in the course of being filled, in which the cells that are not yet final are empty. -/
structure Filling (g : Grammar) (word : Word) (span first : Nat) (t : Table) : Prop extends
    t.FilledTo g word span first where
  get_empty : ∀ i j, i ≤ j → j < word.length → i + span < j ∨ j = i + span ∧ first ≤ i →
    t.get i j = .empty g.numNonterminals

namespace Filling

variable {span first : Nat}

/-- At first all cells are empty. -/
lemma empty (g : Grammar) (word : Word) :
    Filling g word 0 0 (.empty word.length g.numNonterminals) where
  toFilledTo := .empty g word
  get_empty i j _ _ _ := Table.get_empty word.length g.numNonterminals i j

/-- The next cell becomes final, and the later ones stay empty. -/
lemma put (h : Filling g word span first t) (hlast : first + span < word.length) :
    Filling g word span (first + 1)
      (t.put first (first + span) (g.derivers (word.part first (first + span)))) where
  toFilledTo := h.toFilledTo.put hlast
  get_empty i j hij hj hlater := by
    rw [Table.get_put_of_ne (by omega) hij (by omega)]
    exact h.get_empty i j hij hj (by omega)

/-- After the last part of one length come the parts one symbol longer. -/
lemma next_span (h : Filling g word span first t) (hfirst : word.length ≤ first + span) :
    Filling g word (span + 1) 0 t where
  toFilledTo := h.toFilledTo.next_span hfirst
  get_empty i j hij hj hlater := h.get_empty i j hij hj (by omega)

/-- **A cell that is not yet final can be given any set of nonterminals**, bit by bit.

**Proof sketch.** Its row is empty, so once the bits of all members are set, it holds the set. -/
theorem setAll?_eq (h : Filling g word span first t) (hg : g.WellFormed)
    (hlast : first + span < word.length) {s : SymbolSet} (hs : s.size = g.numNonterminals) :
    setAll? (Table.row first (first + span)) s.toList t = .ok (t.put first (first + span) s) := by
  have hlast' : first + span < t.length := by rw [h.length_eq]; exact hlast
  have hrow := Table.row_lt h.size_cells (Nat.le_add_right first span) hlast'
  have hcell : t.cells[Table.row first (first + span)] = .empty g.numNonterminals := by
    rw [← h.get_empty first (first + span) (by omega) hlast (by omega), Table.get,
      Array.getElem?_eq_getElem hrow, Option.getD_some]
  have hmembers : ∀ a ∈ s.toList, a.toNat < t.width := fun a ha => by
    rw [h.width_eq, ← hs]
    exact SymbolSet.lt_size_of_contains ((SymbolSet.mem_toList (hg.size_le hs) a).1 ha)
  have hinserted : s.toList.foldl SymbolSet.insert (.empty g.numNonterminals) = s := by
    rw [← hs]
    exact SymbolSet.ofList_toList (hg.size_le hs)
  rw [setAll?_eq_modify (by rw [← h.size_cells]; exact hrow) hmembers]
  refine congrArg (fun cells => Except.ok { t with cells }) (Array.ext_getElem? fun i => ?_)
  rw [Array.getElem?_modify, Array.getElem?_setIfInBounds]
  split_ifs with hi
  · subst hi
    rw [Array.getElem?_eq_getElem hrow, hcell, Option.map_some, hinserted]
  · rfl

end Filling

/-! ## One cell after the other -/

/-- A set of nonterminals and an index that is faithful. -/
def Joinable (g : Grammar) (acc : SymbolSet × ProducerIndex) : Prop :=
  acc.1.size = g.numNonterminals ∧ acc.2.Faithful g

/-- A look-up whose producers are joined to a set of nonterminals. -/
lemma join?_eq (hg : g.WellFormed) {acc : SymbolSet × ProducerIndex} (hacc : Joinable g acc) (rhs : Rhs)
    (asked : List Rhs) :
    join? g (noted acc asked) rhs =
        .ok (noted (acc.1.union (acc.2.lookup g rhs).1, (acc.2.lookup g rhs).2) (asked ++ [rhs])) ∧
      Joinable g (acc.1.union (acc.2.lookup g rhs).1, (acc.2.lookup g rhs).2) := by
  obtain ⟨hsize, hi⟩ := hacc
  have hsizes : acc.1.size = (acc.2.lookup g rhs).1.size := by
    rw [hi.lookup_fst, Grammar.size_producers, hsize]
  have hunion : acc.1.union? (acc.2.lookup g rhs).1 = .ok (acc.1.union (acc.2.lookup g rhs).1, _) :=
    if_pos hsizes
  refine ⟨?_, (SymbolSet.size_union hsizes).trans hsize, hi.lookup_snd rhs⟩
  show (lookup? g rhs ⟨acc.2, asked⟩ >>= _) = _
  rw [lookup?_eq hg]
  show ((acc.1.union? (acc.2.lookup g rhs).1).mapError Fault.symbols >>= _) = _
  rw [hunion]
  rfl

/-- One split passes its guards. -/
lemma combine?_eq (hg : g.WellFormed) {acc : SymbolSet × ProducerIndex} (hacc : Joinable g acc)
    (left right : List Symbol) (asked : List Rhs) :
    combine? g left right (noted acc asked) =
        .ok (noted (Table.combine g left right acc.1 acc.2) (asked ++ Rhs.pairs left right)) ∧
      Joinable g (Table.combine g left right acc.1 acc.2) := by
  refine foldlM_noted (fun acc a => right.foldlM (fun acc b => join? g acc (.pair a b)) acc)
    (fun acc a => right.foldl (fun acc b =>
      (acc.1.union (acc.2.lookup g (.pair a b)).1, (acc.2.lookup g (.pair a b)).2)) acc)
    (fun a => right.map (.pair a)) (fun _ => Joinable g) left asked hacc ?_
  intro k _ acc asked hacc
  -- the pairs that begin with the same symbol
  have hrow := foldlM_noted (fun acc b => join? g acc (.pair left[k] b))
    (fun acc b => (acc.1.union (acc.2.lookup g (.pair left[k] b)).1,
      (acc.2.lookup g (.pair left[k] b)).2))
    (fun b => [.pair left[k] b]) (fun _ => Joinable g) right asked hacc
    fun k' _ acc asked hacc => join?_eq hg hacc (.pair left[k] right[k']) asked
  rwa [← List.map_eq_flatMap] at hrow

variable {span first position : Nat} {a : Symbol} {rest : Word}

namespace Filling

/-- All splits of the next part pass their guards. -/
lemma derived?_eq (h : Filling g word span first t) (hg : g.WellFormed) (hi : index.Faithful g)
    (hlast : first + span < word.length) (asked : List Rhs) :
    derived? g t span first ⟨index, asked⟩ =
      .ok (noted (Table.derived g t span first index) (asked ++ g.splitSides word span first)) := by
  have hempty : Joinable g (SymbolSet.empty t.width, index) :=
    ⟨by rw [h.width_eq, SymbolSet.size_empty], hi⟩
  have hloop := foldlM_noted
    (fun acc split => do
      let left ← cell? t first (first + split)
      let right ← cell? t (first + split + 1) (first + span)
      combine? g left right acc)
    (fun acc split => Table.combine g (t.get first (first + split)).toList
      (t.get (first + split + 1) (first + span)).toList acc.1 acc.2)
    (fun split => Rhs.pairs (t.get first (first + split)).toList
      (t.get (first + split + 1) (first + span)).toList)
    (fun _ => Joinable g) (List.range span) asked hempty ?_
  · rw [h.splitSides_eq hlast] at hloop
    exact hloop.1
  · -- both pieces are parts of the word
    intro k hk acc asked hacc
    rw [List.length_range] at hk
    rw [List.getElem_range, cell?_eq h.toFilledTo (by omega) (by omega),
      cell?_eq h.toFilledTo (by omega) (by omega)]
    exact combine?_eq hg hacc _ _ asked

/-- **The filling of one cell passes its guards.**

**Proof sketch.** The cells read are those of parts of the word, and what is collected from them are
nonterminals, so they can be set in the row of the cell, which is empty. -/
theorem fillCell?_eq (h : Filling g word span first t) (hg : g.WellFormed) (hi : index.Faithful g)
    (hspan : 0 < span) (hlast : first + span < word.length) (asked : List Rhs) :
    fillCell? g span first t ⟨index, asked⟩ =
        .ok (noted (Table.fillCell g span first t index) (asked ++ g.splitSides word span first)) ∧
      Filling g word span (first + 1) (Table.fillCell g span first t index).1 ∧
      (Table.fillCell g span first t index).2.Faithful g := by
  have hlast' : first + span < t.length := by rw [h.length_eq]; exact hlast
  rw [h.toFilledTo.fillCell_eq hg hi hspan hlast]
  refine ⟨?_, h.put hlast, hi.lookupAll _⟩
  rw [fillCell?, h.derived?_eq hg hi hlast asked, h.derived_eq hg hi hspan hlast]
  show (row? t first (first + span) >>= fun row => setAll? row
    (g.derivers (word.part first (first + span))).toList t >>= _) = _
  rw [row?_eq (Nat.le_add_right first span) hlast']
  show (setAll? (Table.row first (first + span)) _ t >>= _) = _
  rw [h.setAll?_eq hg hlast (Grammar.size_derivers g _)]
  rfl

/-- The filling of the cells of one span passes its guards. -/
lemma fillSpan?_eq (h : Filling g word span 0 t) (hg : g.WellFormed) (hi : index.Faithful g)
    (hspan : 0 < span) (asked : List Rhs) :
    fillSpan? g span t ⟨index, asked⟩ =
        .ok (noted (Table.fillSpan g span t index) (asked ++ g.spanSides word span)) ∧
      Filling g word (span + 1) 0 (Table.fillSpan g span t index).1 ∧
      (Table.fillSpan g span t index).2.Faithful g := by
  have hloop := foldlM_noted (fun acc first => fillCell? g span first acc.1 acc.2)
    (fun s first => Table.fillCell g span first s.1 s.2) (g.splitSides word span)
    (fun first s => Filling g word span first s.1 ∧ s.2.Faithful g) (List.range (t.length - span)) asked
    (s := (t, index)) ⟨h, hi⟩ fun first hfirst s asked hs => by
      rw [List.length_range, h.length_eq] at hfirst
      rw [List.getElem_range]
      exact hs.1.fillCell?_eq hg hs.2 hspan (by omega) asked
  obtain ⟨heq, hfilling, hfaithful⟩ := hloop
  have hlength := h.length_eq
  rw [List.length_range] at hfilling
  unfold fillSpan? Table.fillSpan
  refine ⟨?_, hfilling.next_span (by omega), hfaithful⟩
  rw [Grammar.spanSides, ← List.range_eq_range', ← hlength]
  exact heq

/-- The filling of all other cells passes its guards. -/
lemma fillSpans?_eq (h : Filling g word 1 0 t) (hg : g.WellFormed) (hi : index.Faithful g)
    (asked : List Rhs) :
    fillSpans? g t ⟨index, asked⟩ =
      .ok (noted (Table.fillSpans g t index)
        (asked ++ (List.range' 1 (word.length - 1)).flatMap (g.spanSides word))) := by
  have hloop := foldlM_noted (fun acc span => fillSpan? g span acc.1 acc.2)
    (fun s span => Table.fillSpan g span s.1 s.2) (g.spanSides word)
    (fun k s => Filling g word (1 + k) 0 s.1 ∧ s.2.Faithful g) (List.range' 1 (t.length - 1)) asked
    (s := (t, index)) ⟨h, hi⟩ fun k hk s asked hs => by
      rw [List.getElem_range', Nat.one_mul]
      exact hs.1.fillSpan?_eq hg hs.2 (by omega) asked
  unfold fillSpans? Table.fillSpans
  rw [h.length_eq] at hloop ⊢
  exact hloop.1

/-- The filling of the cell of a single symbol passes its guards. -/
lemma fillSymbol?_eq (h : Filling g word 0 position t) (hg : g.WellFormed) (hi : index.Faithful g)
    (hlt : position < word.length) (ha : word[position] = a) (asked : List Rhs) :
    fillSymbol? g position a t ⟨index, asked⟩ =
        .ok ((g.producers (.terminal a)).isEmpty,
          noted (t.put position position (g.producers (.terminal a)), index.lookupAll g [.terminal a])
            (asked ++ [.terminal a])) ∧
      Filling g word 0 (position + 1) (t.put position position (g.producers (.terminal a))) := by
  have hlt' : position < t.length := by rw [h.length_eq]; exact hlt
  have hput := h.put hlt
  simp only [Nat.add_zero] at hput
  rw [Word.part_self hlt, ha, ← Grammar.producers_terminal hg] at hput
  refine ⟨?_, hput⟩
  rw [fillSymbol?, row?_eq (Nat.le_refl _) hlt']
  show (lookup? g (.terminal a) ⟨index, asked⟩ >>= _) = _
  rw [lookup?_eq hg, hi.lookup_eq]
  show (setAll? (Table.row position position) (g.producers (.terminal a)).toList t >>= _) = _
  have hset := h.setAll?_eq hg hlt (Grammar.size_producers g (.terminal a))
  rw [Nat.add_zero] at hset
  rw [hset]
  rfl

/-- The filling of the cells of single symbols passes its guards. -/
lemma fillDiagonal?_eq (hrest : word.drop position = rest) (h : Filling g word 0 position t)
    (hg : g.WellFormed) (hi : index.Faithful g) (asked : List Rhs) :
    fillDiagonal? g position rest t ⟨index, asked⟩ =
        .ok (noted (Table.fillDiagonal g position rest t index) (asked ++ rest.map .terminal)) ∧
      Filling g word 0 word.length (Table.fillDiagonal g position rest t index).1 := by
  induction rest generalizing position t index asked with
  | nil =>
    have hlen := List.drop_eq_nil_iff.1 hrest
    refine ⟨by simp [fillDiagonal?, Table.fillDiagonal, noted], ?_⟩
    exact { h with
      get_eq := fun i j hij hj hdone => h.get_eq i j hij hj (by omega)
      get_empty := fun i j hij hj hlater => h.get_empty i j hij hj (by omega) }
  | cons a rest ih =>
    obtain ⟨hlt, ha, hrest⟩ := Word.drop_eq_cons hrest
    obtain ⟨hsymbol, hput⟩ := h.fillSymbol?_eq hg hi hlt ha asked
    obtain ⟨heq, hfilling⟩ := ih hrest hput (hi.lookupAll [.terminal a]) (asked ++ [.terminal a])
    rw [List.append_assoc] at heq
    unfold fillDiagonal? Table.fillDiagonal
    rw [hsymbol, hi.lookup_eq]
    exact ⟨heq, hfilling⟩

/-- The filling up to the first symbol that no rule produces passes its guards. -/
lemma fillProduced?_of_some (hrest : word.drop position = rest) (h : Filling g word 0 position t)
    (hg : g.WellFormed) (hi : index.Faithful g) {k : Nat} (hk : g.unproduced? rest = some k)
    (asked : List Rhs) :
    ∃ t', fillProduced? g position rest t ⟨index, asked⟩ =
      .ok (some (position + k), t', ⟨index.lookupAll g ((rest.take (k + 1)).map .terminal),
        asked ++ (rest.take (k + 1)).map .terminal⟩) := by
  induction rest generalizing position t index asked k with
  | nil => exact absurd hk (by simp [Grammar.unproduced?])
  | cons a rest ih =>
    obtain ⟨hlt, ha, hrest⟩ := Word.drop_eq_cons hrest
    obtain ⟨hsymbol, hput⟩ := h.fillSymbol?_eq hg hi hlt ha asked
    rw [Grammar.unproduced?, List.findIdx?_cons] at hk
    unfold fillProduced?
    rw [hsymbol]
    simp only [bind, Except.bind]
    split_ifs at hk ⊢ with hempty
    · obtain rfl := Option.some.inj hk
      exact ⟨_, rfl⟩
    · obtain ⟨k', hk', rfl⟩ := Option.map_eq_some_iff.1 hk
      obtain ⟨t', ht'⟩ := ih hrest hput (hi.lookupAll [.terminal a]) hk' (asked ++ [.terminal a])
      refine ⟨t', ht'.trans ?_⟩
      rw [Nat.add_assoc, Nat.add_comm 1 k', List.append_assoc]
      rfl

/-- If every symbol is produced, the filling of all single symbols passes its guards. -/
lemma fillProduced?_of_none (hrest : word.drop position = rest) (h : Filling g word 0 position t)
    (hg : g.WellFormed) (hi : index.Faithful g) (hnone : g.unproduced? rest = none)
    (asked : List Rhs) :
    fillProduced? g position rest t ⟨index, asked⟩ =
      (fillDiagonal? g position rest t ⟨index, asked⟩).map fun s => (none, s) := by
  induction rest generalizing position t index asked with
  | nil => rfl
  | cons a rest ih =>
    obtain ⟨hlt, ha, hrest⟩ := Word.drop_eq_cons hrest
    obtain ⟨hsymbol, hput⟩ := h.fillSymbol?_eq hg hi hlt ha asked
    rw [Grammar.unproduced?, List.findIdx?_cons] at hnone
    unfold fillProduced? fillDiagonal?
    rw [hsymbol]
    simp only [bind, Except.bind]
    split_ifs at hnone ⊢ with hempty
    exact ih hrest hput (hi.lookupAll [.terminal a]) (Option.map_eq_none_iff.1 hnone)
      (asked ++ [.terminal a])

end Filling

/-! ## The table of a word -/

/-- After the cells of single symbols, the filling of all others passes its guards. -/
lemma fillSpans?_fillDiagonal_eq (hg : g.WellFormed) (hi : index.Faithful g) (word : Word)
    (asked : List Rhs) :
    let s := Table.fillDiagonal g 0 word (.empty word.length g.numNonterminals) index
    fillSpans? g s.1 ⟨s.2, asked ++ word.map .terminal⟩ =
      .ok (noted (Table.fill g word index) (asked ++ g.fillSides word)) := by
  intro s
  have hrest : word.drop 0 = word := List.drop_zero
  have hempty := Filling.empty g word
  have hdiagonal := (hempty.fillDiagonal?_eq hrest hg hi asked).2
  have hfaithful : s.2.Faithful g := by
    rw [(hempty.toFilledTo.fillDiagonal_eq hg hrest hi).2]
    exact hi.lookupAll _
  have hspans := (hdiagonal.next_span (by omega)).fillSpans?_eq hg hfaithful
    (asked ++ word.map .terminal)
  rw [List.append_assoc] at hspans
  exact hspans

/-- **The filling of a table passes its guards.** -/
theorem fill?_eq (hg : g.WellFormed) (hi : index.Faithful g) (word : Word) (asked : List Rhs) :
    fill? g word ⟨index, asked⟩ =
      .ok (noted (Table.fill g word index) (asked ++ g.fillSides word)) := by
  unfold fill?
  rw [((Filling.empty g word).fillDiagonal?_eq List.drop_zero hg hi asked).1]
  exact fillSpans?_fillDiagonal_eq hg hi word asked

end Chomsky.Guarded
