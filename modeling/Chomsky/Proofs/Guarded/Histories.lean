import Chomsky.Proofs.Guarded.Filling

set_option autoImplicit false

/-!
# No guard fails

Once a grammar is constructed, nothing that is asked of its index makes a guard fail: neither a look-up of
any right-hand side, nor the recognition or the table of any word of any symbols, whatever was asked before.
With guards, each of them gives what it gives without.  Only a caller of a table can fail, and only by asking
for a cell that the table does not have.

## Main results

* `Chomsky.Guarded.recognize?_eq` — recognitions pass their guards.
* `Chomsky.Guarded.run?_eq` — histories pass their guards.
* `Chomsky.Guarded.no_guard_fails` — what is asked after a history passes its guards as well.
-/

namespace Chomsky.Guarded

variable {g : Grammar} {word : Word} {t : Table} {index : ProducerIndex}

/-! ## Queries on a full table -/

/-- The verdict of a table passes its guards. -/
lemma accepts?_eq (hg : g.WellFormed) (h : t.FilledTo g word word.length 0) (a : Symbol) :
    accepts? t a = .ok (t.accepts a) := by
  unfold accepts? Table.accepts
  by_cases hempty : t.isEmpty = true
  · rw [if_pos hempty, hempty]
    rfl
  · have hpos : t.length ≠ 0 := fun hzero => hempty (decide_eq_true hzero)
    have hlast : t.length - 1 < t.length := by omega
    have hrow := Table.row_lt h.size_cells (Nat.zero_le (t.length - 1)) hlast
    rw [if_neg hempty, Bool.eq_false_iff.2 hempty, contains?, Bool.not_false, Bool.true_and]
    split_ifs with ha
    · have hbit : bit? t (Table.row 0 (t.length - 1)) a.toNat = .ok () :=
        if_pos ⟨by rw [← h.size_cells]; exact hrow, ha⟩
      rw [row?_eq (Nat.zero_le _) hlast]
      show (bit? t (Table.row 0 (t.length - 1)) a.toNat >>= _) = _
      rw [hbit]
      rfl
    · rw [h.width_eq] at ha
      rw [h.length_eq] at hlast ⊢
      rw [h.get_eq 0 (word.length - 1) (Nat.zero_le _) hlast (by omega),
        Grammar.contains_derivers_of_not_lt hg ha]

/-- A cell is refused if it is not one of the table. -/
lemma cell?_eq_mapError (h : t.FilledTo g word word.length 0) (i j : Nat) :
    cell? t i j = (t.cell? i j).mapError .position := by
  by_cases hij : i ≤ j ∧ j < word.length
  · rw [cell?_eq h hij.1 hij.2, h.get_eq i j hij.1 hij.2 (by omega), h.cell?_eq hij.1 hij.2]
    rfl
  · rw [← h.length_eq] at hij
    rw [cell?, row?, if_neg hij, Table.cell?, Table.get?, if_neg hij]
    rfl

/-- The cells of a table are those of the parts of its word. -/
lemma cell?_fails_iff (h : t.FilledTo g word word.length 0) (i j : Nat) :
    (∃ fault, cell? t i j = .error fault) ↔ ¬ (i ≤ j ∧ j < word.length) := by
  constructor
  · rintro ⟨fault, hfault⟩ ⟨hij, hj⟩
    rw [cell?_eq h hij hj] at hfault
    exact absurd hfault (by simp)
  · intro hij
    rw [← h.length_eq] at hij
    exact ⟨.position ⟨i, j, t.length⟩, by rw [cell?, row?, if_neg hij]; rfl⟩

/-! ## Recognitions -/

/-- **Recognitions pass their guards.**

**Proof sketch.** An early end comes at the first symbol that no rule produces, in either computation.
Without one, what is done is the filling of the whole table, and then its verdict. -/
theorem recognize?_eq (hg : g.WellFormed) (hi : index.Faithful g) (word : Word) (asked : List Rhs) :
    recognize? g word ⟨index, asked⟩ =
      .ok (noted (recognize g word index) (asked ++ g.recognitionSides word)) := by
  have hrest : word.drop 0 = word := List.drop_zero
  have hfilling := Filling.empty g word
  unfold recognize? recognize Grammar.recognitionSides
  split_ifs with hempty
  · obtain rfl := List.isEmpty_iff.1 hempty
    show _ = Except.ok (noted (Recognition.emptyWord, index) (asked ++ []))
    rw [List.append_nil]
    rfl
  · cases hun : g.unproduced? word with
    | some position =>
      obtain ⟨t₁, hplain⟩ := Table.fillDiagonal?_of_some hi 0 hun
        (t := .empty word.length g.numNonterminals)
      obtain ⟨t₂, hguarded⟩ := hfilling.fillProduced?_of_some hrest hg hi hun asked
      rw [hplain, hguarded, Nat.zero_add]
      rfl
    | none =>
      rw [Table.fillDiagonal?_of_none hi 0 hun, hfilling.fillProduced?_of_none hrest hg hi hun asked,
        (hfilling.fillDiagonal?_eq hrest hg hi asked).1]
      show (fillSpans? g _ _ >>= _) = Except.ok (noted
        (Recognition.decided word.length ((Table.fill g word index).1.accepts g.start),
          (Table.fill g word index).2) (asked ++ g.fillSides word))
      rw [fillSpans?_fillDiagonal_eq hg hi word asked]
      show (accepts? (Table.fill g word index).1 g.start >>= _) = _
      rw [accepts?_eq hg (Table.fill_eq hg hi word).1]
      rfl

/-! ## Histories -/

/-- A request passes its guards. -/
lemma perform?_eq (hg : g.WellFormed) (hi : index.Faithful g) (request : ProducerIndex.Request)
    (asked : List Rhs) :
    perform? g ⟨index, asked⟩ request = .ok ⟨index.perform g request, asked ++ request.sides g⟩ := by
  cases request with
  | lookup rhs =>
    rw [perform?, lookup?_eq hg]
    rfl
  | recognize word =>
    rw [perform?, recognize?_eq hg hi]
    rfl
  | fill word =>
    rw [perform?, fill?_eq hg hi]
    rfl

/-- **Histories pass their guards**, and the look-ups noted are those of the requests. -/
theorem run?_eq (hg : g.WellFormed) (hi : index.Faithful g) (requests : List ProducerIndex.Request)
    (asked : List Rhs) :
    run? g ⟨index, asked⟩ requests = .ok ⟨index.run g requests,
      asked ++ requests.flatMap (ProducerIndex.Request.sides g)⟩ := by
  induction requests generalizing index asked with
  | nil =>
    rw [List.flatMap_nil, List.append_nil]
    rfl
  | cons request requests ih =>
    have hrest := ih (hi.perform hg request) (asked ++ request.sides g)
    rw [List.append_assoc] at hrest
    rw [run?, List.foldlM_cons, perform?_eq hg hi, List.flatMap_cons]
    exact hrest

/-- **No guard fails after the construction of a grammar.**  Every history of the index of a constructed
grammar passes its guards.  After it, so do the look-up of any right-hand side and the recognition and the
table of any word, with the results that they have without guards.  A full table gives its verdict about any
symbol, and it refuses a cell if and only if the positions are not those of a part of the word. -/
theorem no_guard_fails (hg : g.Constructed) (requests : List ProducerIndex.Request) :
    ∃ asked,
      let index := ProducerIndex.empty.run g requests
      run? g .empty requests = .ok ⟨index, asked⟩ ∧
      (∀ rhs, ∃ asked', lookup? g rhs ⟨index, asked⟩ = .ok (noted (index.lookup g rhs) asked')) ∧
      ∀ word,
        (∃ asked', recognize? g word ⟨index, asked⟩ = .ok (noted (recognize g word index) asked')) ∧
        (∃ asked', fill? g word ⟨index, asked⟩ = .ok (noted (Table.fill g word index) asked')) ∧
        let t := (Table.fill g word index).1
        (∀ a, accepts? t a = .ok (t.accepts a)) ∧
        ∀ i j, cell? t i j = (t.cell? i j).mapError .position ∧
          ((∃ fault, cell? t i j = .error fault) ↔ ¬ (i ≤ j ∧ j < word.length)) := by
  have hwf := hg.wellFormed
  have hempty := ProducerIndex.faithful_empty g
  have hi := hempty.run hwf requests
  refine ⟨_, run?_eq hwf hempty requests [], fun rhs => ⟨_, lookup?_eq hwf rhs _ _⟩, fun word => ?_⟩
  have hfilled := (Table.fill_eq hwf hi word).1
  refine ⟨⟨_, recognize?_eq hwf hi word _⟩, ⟨_, fill?_eq hwf hi word _⟩, accepts?_eq hwf hfilled, ?_⟩
  exact fun i j => ⟨cell?_eq_mapError hfilled i j, cell?_fails_iff hfilled i j⟩

/-- After a look-up of symbols that are not those of the grammar and the recognition of a word of such
symbols, the table of `()` gives its verdict about any symbol and has no cell for a third position. -/
theorem no_guard_fails_parentheses :
    Grammar.parentheses.Constructed ∧
      let requests := [.lookup (.pair (.ofNat 4294967295) (.ofNat 0)), .recognize [.ofNat 9, .ofNat 4]]
      let t := (Table.fill Grammar.parentheses [.ofNat 4, .ofNat 5]
        (ProducerIndex.empty.run Grammar.parentheses requests)).1
      (∃ index, run? Grammar.parentheses .empty requests = .ok index) ∧
        accepts? t (.ofNat 4294967295) = .ok (t.accepts (.ofNat 4294967295)) ∧
        ∃ fault, cell? t 1 2 = .error fault := by
  have hg := Grammar.constructed_parentheses
  obtain ⟨asked, hrun, -, hwords⟩ := no_guard_fails hg
    [.lookup (.pair (.ofNat 4294967295) (.ofNat 0)), .recognize [.ofNat 9, .ofNat 4]]
  obtain ⟨-, -, haccepts, hcells⟩ := hwords [.ofNat 4, .ofNat 5]
  exact ⟨hg, ⟨_, hrun⟩, haccepts _, (hcells 1 2).2.2 (by decide)⟩

end Chomsky.Guarded
