import Chomsky.Recognition
import Chomsky.Proofs.Table.Contents

set_option autoImplicit false

/-!
# What a recognition gives

The outcome of a recognition is settled by the grammar and the word: the empty word is rejected at
once, a word with a symbol that no rule produces at the first such position, and any other word is
accepted if the start symbol derives it.  An early end loses nothing, since every symbol of a word
derived is produced.  The look-ups that are made are settled as well, whatever the index remembers.

## Main definitions

* `Chomsky.Grammar.unproduced?` — the first position whose symbol no rule produces.
* `Chomsky.Grammar.outcome`, `Chomsky.Grammar.recognitionSides` — the outcome and the right-hand
  sides looked up.

## Main results

* `Chomsky.recognize_eq` — what a recognition gives and what the index has seen.
* `Chomsky.Grammar.accepted_outcome_iff`, `Chomsky.isMember_iff_derives` — a word is accepted if the
  start symbol derives it.
-/

namespace Chomsky

variable {g : Grammar} {p : Nat} {word rest : Word} {t : Table} {index : ProducerIndex}

namespace Grammar

/-- The first position whose symbol no rule produces. -/
def unproduced? (g : Grammar) (word : Word) : Option Nat :=
  word.findIdx? fun a => (g.producers (.terminal a)).isEmpty

open Classical in
/-- How the recognition of a word ends. -/
noncomputable def outcome (g : Grammar) (word : Word) : Recognition :=
  if word.isEmpty then .emptyWord
  else
    match g.unproduced? word with
    | some position => .unproduced position
    | none => .decided word.length (decide (g.Derives g.start word))

/-- The right-hand sides looked up in the recognition of a word. -/
noncomputable def recognitionSides (g : Grammar) (word : Word) : List Rhs :=
  match g.unproduced? word with
  | some position => (word.take (position + 1)).map .terminal
  | none => g.fillSides word

/-- The look-ups for a word whose first symbol without a rule is at a position: those up to it. -/
lemma recognitionSides_of_unproduced (hg : g.WellFormed) (hp : p < word.length)
    (hnone : ∀ a, ⟨a, .terminal word[p]⟩ ∉ g.rules)
    (hbefore : ∀ q, (hq : q < p) → ∃ a, ⟨a, .terminal word[q]⟩ ∈ g.rules) :
    g.recognitionSides word = (word.take (p + 1)).map .terminal := by
  have hunproduced : g.unproduced? word = some p := by
    refine List.findIdx?_eq_some_iff_getElem.2 ⟨hp, (isEmpty_producers_iff hg).2 hnone, ?_⟩
    intro q hq hempty
    obtain ⟨a, ha⟩ := hbefore q hq
    exact (isEmpty_producers_iff hg).1 hempty a ha
  rw [recognitionSides, hunproduced]

/-- If there is a rule for every symbol, the look-ups are those for the table. -/
lemma recognitionSides_of_produced (hg : g.WellFormed)
    (hall : ∀ t ∈ word, ∃ a, ⟨a, .terminal t⟩ ∈ g.rules) : g.recognitionSides word = g.fillSides word := by
  have hunproduced : g.unproduced? word = none := by
    refine List.findIdx?_eq_none_iff.2 fun t ht => Bool.eq_false_iff.2 fun hempty => ?_
    obtain ⟨a, ha⟩ := hall t ht
    exact (isEmpty_producers_iff hg).1 hempty a ha
  rw [recognitionSides, hunproduced]

/-- A symbol that no rule produces stands in no word derived.

**Proof sketch.** The producers of the symbol at the position are an empty set, while a word
derived has a rule for each of its symbols. -/
lemma not_derives_of_unproduced (hg : g.WellFormed) {position : Nat} {a : Symbol}
    (h : g.unproduced? word = some position) : ¬ g.Derives a word := by
  intro ha
  obtain ⟨hlt, hempty, -⟩ := List.findIdx?_eq_some_iff_getElem.1 h
  obtain ⟨b, hb⟩ := ha.produced word[position] (List.getElem_mem hlt)
  exact (isEmpty_producers_iff hg).1 hempty b hb

/-- **A word is accepted if and only if the start symbol derives it.** -/
theorem accepted_outcome_iff (hg : g.WellFormed) :
    (g.outcome word).accepted = true ↔ g.Derives g.start word := by
  unfold outcome
  split_ifs with hempty
  · obtain rfl := List.isEmpty_iff.1 hempty
    exact ⟨fun h => absurd h (by simp [Recognition.accepted]), fun h => absurd rfl h.ne_nil⟩
  · cases hun : g.unproduced? word with
    | some position =>
      have hnot := not_derives_of_unproduced (a := g.start) hg hun
      simp [Recognition.accepted, hnot]
    | none => simp [Recognition.accepted]

end Grammar

/-! ## The first row -/

/-- The filling of single symbols stops at the first that no rule produces, after looking it up. -/
lemma Table.fillDiagonal?_of_some (hi : index.Faithful g) (position : Nat) {k : Nat}
    (h : g.unproduced? rest = some k) :
    ∃ t', Table.fillDiagonal? g position rest t index =
      (some (position + k), t', index.lookupAll g ((rest.take (k + 1)).map .terminal)) := by
  induction rest generalizing position k t index with
  | nil => exact absurd h (by simp [Grammar.unproduced?])
  | cons a rest ih =>
    unfold Table.fillDiagonal?
    rw [hi.lookup_eq]
    rw [Grammar.unproduced?, List.findIdx?_cons] at h
    dsimp only at h ⊢
    split_ifs at h ⊢ with hempty
    · obtain rfl := Option.some.inj h
      exact ⟨t, rfl⟩
    · obtain ⟨k', hk', rfl⟩ := Option.map_eq_some_iff.1 h
      obtain ⟨t', ht'⟩ := @ih (t.put position position (g.producers (.terminal a)))
        (index.lookupAll g [.terminal a]) (hi.lookupAll _) (position + 1) k' hk'
      refine ⟨t', ht'.trans ?_⟩
      rw [Nat.add_assoc, Nat.add_comm 1 k']
      rfl

/-- If every symbol is produced, all single symbols are filled in. -/
lemma Table.fillDiagonal?_of_none (hi : index.Faithful g) (position : Nat)
    (h : g.unproduced? rest = none) :
    Table.fillDiagonal? g position rest t index =
      (none, Table.fillDiagonal g position rest t index) := by
  induction rest generalizing position t index with
  | nil => rfl
  | cons a rest ih =>
    unfold Table.fillDiagonal? Table.fillDiagonal
    rw [hi.lookup_eq]
    rw [Grammar.unproduced?, List.findIdx?_cons] at h
    dsimp only at h ⊢
    split_ifs at h ⊢ with hempty
    exact ih (hi.lookupAll _) (position + 1) (Option.map_eq_none_iff.1 h)

/-! ## The outcome -/

open Classical in
/-- **The grammar and the word settle a recognition**, both its outcome and its look-ups. -/
theorem recognize_eq (hg : g.WellFormed) (hi : index.Faithful g) (word : Word) :
    recognize g word index = (g.outcome word, index.lookupAll g (g.recognitionSides word)) := by
  unfold recognize Grammar.outcome Grammar.recognitionSides
  split_ifs with hempty
  · obtain rfl := List.isEmpty_iff.1 hempty
    rfl
  · cases hun : g.unproduced? word with
    | some position =>
      obtain ⟨t', ht'⟩ := Table.fillDiagonal?_of_some hi 0 hun
        (t := .empty word.length g.numNonterminals)
      rw [ht', Nat.zero_add]
    | none =>
      obtain ⟨hfilled, hindex⟩ := Table.fill_eq hg hi word
      have haccepts : (Table.fill g word index).1.accepts g.start =
          decide (g.Derives g.start word) := by
        have hpos : 0 < word.length := List.length_pos_iff.2 fun h => hempty (h ▸ rfl)
        rw [Bool.eq_iff_iff, hfilled.accepts_iff hg, decide_eq_true_iff]
        exact and_iff_right hpos
      rw [Table.fillDiagonal?_of_none hi 0 hun]
      -- what remains is the filling of the whole table
      show (Recognition.decided word.length ((Table.fill g word index).1.accepts g.start),
        (Table.fill g word index).2) = _
      rw [haccepts, hindex]

/-- The verdict does not depend on what the index remembers. -/
lemma accepted_recognize (hg : g.WellFormed) (hi : index.Faithful g) (word : Word) :
    (recognize g word index).1.accepted = isMember g word := by
  rw [isMember, recognize_eq hg hi, recognize_eq hg (ProducerIndex.faithful_empty g)]

/-- A word is a member if the start symbol derives it. -/
theorem isMember_iff_derives (hg : g.WellFormed) :
    isMember g word = true ↔ g.Derives g.start word := by
  rw [isMember, recognize_eq hg (ProducerIndex.faithful_empty g)]
  exact Grammar.accepted_outcome_iff hg

/-- A word with a symbol that no rule produces is no member. -/
lemma isMember_eq_false_of_mem (hg : g.WellFormed) {s : Symbol} (hs : s ∈ word)
    (hnone : ∀ r ∈ g.rules, r.rhs ≠ .terminal s) : isMember g word = false := by
  refine Bool.eq_false_iff.2 fun h => ?_
  obtain ⟨a, ha⟩ := ((isMember_iff_derives hg).1 h).produced s hs
  exact hnone _ ha rfl

end Chomsky
