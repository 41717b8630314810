import Chomsky.Grammar.Derivation
import Mathlib.Tactic.Lemma

set_option autoImplicit false

/-!
# Derivations and rewriting

What a nonterminal derives can be read off the rules from the outside in: a single symbol by a
rule with a terminal, anything longer by a rule with a pair and a split of the word.  The rewriting
of sentential forms generates the same words of terminals, in whatever order the symbols are
replaced.

## Main definitions

* `Chomsky.Word.part` — the part of a word between two positions.
* `Chomsky.Grammar.Yields` — a sentential form yields a word, symbol by symbol.

## Main results

* `Chomsky.Grammar.derives_singleton_iff`, `Chomsky.Grammar.derives_part_iff` — derivations by the
  rule used first.
* `Chomsky.Grammar.derives_iff_rewritesMany` — a nonterminal derives a word if and only if the word
  consists of terminals and is reached from it by rewriting.
-/

namespace Chomsky

/-- The part of a word from position `first` up to and including position `last`. -/
def Word.part (word : Word) (first last : Nat) : Word :=
  (word.drop first).take (last + 1 - first)

namespace Word

variable {word : Word}

/-- The length of a part that lies within the word. -/
lemma length_part {first last : Nat} (h : last < word.length) :
    (word.part first last).length = last + 1 - first := by
  rw [part, List.length_take, List.length_drop]
  omega

/-- A part from a position to itself is the symbol there. -/
lemma part_self {position : Nat} (h : position < word.length) :
    word.part position position = [word[position]] := by
  rw [part, List.drop_eq_getElem_cons h, show position + 1 - position = 1 by omega]
  rfl

/-- The first of the symbols from a position on is the one at the position. -/
lemma drop_eq_cons {position : Nat} {a : Symbol} {rest : Word} (h : word.drop position = a :: rest) :
    ∃ hlt : position < word.length, word[position] = a ∧ word.drop (position + 1) = rest := by
  have hlt : position < word.length := by
    refine Nat.lt_of_not_le fun hle => ?_
    rw [List.drop_eq_nil_of_le hle] at h
    exact List.cons_ne_nil a rest h.symm
  rw [List.drop_eq_getElem_cons hlt] at h
  obtain ⟨ha, hrest⟩ := List.cons_eq_cons.1 h
  exact ⟨hlt, ha, hrest⟩

/-- The whole word is a part of itself. -/
lemma part_whole (word : Word) : word.part 0 (word.length - 1) = word := by
  rw [part, List.drop_zero]
  exact List.take_of_length_le (by omega)

/-- A part is composed of two shorter ones after each split. -/
lemma part_append_part (word : Word) {first split last : Nat} (h : first ≤ split) (h' : split ≤ last) :
    word.part first split ++ word.part (split + 1) last = word.part first last := by
  have hdrop : word.drop (split + 1) = (word.drop first).drop (split + 1 - first) := by
    rw [List.drop_drop]
    congr 1
    omega
  have hlen : last + 1 - first = (split + 1 - first) + (last + 1 - (split + 1)) := by omega
  rw [part, part, part, hdrop, hlen, List.take_add]

end Word

namespace Grammar

variable {g : Grammar} {a : Symbol} {u v w : Word}

/-! ## Derivations by the rule used first -/

/-- Nothing derives the empty word. -/
lemma Derives.ne_nil (h : g.Derives a w) : w ≠ [] := by
  induction h with
  | terminal _ => exact List.cons_ne_nil _ _
  | pair _ _ _ ihu _ => exact fun h => ihu (List.append_eq_nil_iff.1 h).1

/-- Only nonterminals derive words. -/
lemma Derives.lhs_lt (hg : g.WellFormed) (h : g.Derives a w) : a.toNat < g.numNonterminals := by
  cases h with
  | terminal h => exact hg.lhs_lt _ h
  | pair h _ _ => exact hg.lhs_lt _ h

/-- The words derived consist of terminals. -/
lemma Derives.isTerminal (hg : g.WellFormed) (h : g.Derives a w) :
    ∀ t ∈ w, g.isTerminal t = true := by
  induction h with
  | terminal h =>
    intro t ht
    obtain rfl := List.mem_singleton.1 ht
    exact isTerminal_iff.2 (hg.terminal_of_mem _ _ h)
  | pair _ _ _ ihu ihv =>
    intro t ht
    rcases List.mem_append.1 ht with ht | ht
    · exact ihu t ht
    · exact ihv t ht

/-- Each symbol of a word derived is produced by some rule. -/
lemma Derives.produced (h : g.Derives a w) :
    ∀ t ∈ w, ∃ b, ⟨b, .terminal t⟩ ∈ g.rules := by
  induction h with
  | @terminal a t h =>
    intro s hs
    obtain rfl := List.mem_singleton.1 hs
    exact ⟨a, h⟩
  | pair _ _ _ ihu ihv =>
    intro s hs
    rcases List.mem_append.1 hs with hs | hs
    · exact ihu s hs
    · exact ihv s hs

/-- **A single symbol is derived by a rule for it.** -/
theorem derives_singleton_iff {t : Symbol} :
    g.Derives a [t] ↔ ⟨a, .terminal t⟩ ∈ g.rules := by
  refine ⟨fun h => ?_, .terminal⟩
  generalize hw : [t] = w at h
  cases h with
  | terminal h =>
    obtain rfl : t = _ := by simpa using hw
    exact h
  | pair _ hu hv =>
    -- two non-empty words cannot make up a single symbol
    have hlen := congrArg List.length hw
    have hu' := List.length_pos_iff.2 hu.ne_nil
    have hv' := List.length_pos_iff.2 hv.ne_nil
    rw [List.length_append, List.length_singleton] at hlen
    omega

/-- **A longer part of a word is derived by a pair and a split.** -/
theorem derives_part_iff {word : Word} {first span : Nat} (hspan : 0 < span)
    (hlast : first + span < word.length) :
    g.Derives a (word.part first (first + span)) ↔
      ∃ split < span, ∃ b c, ⟨a, .pair b c⟩ ∈ g.rules ∧
        g.Derives b (word.part first (first + split)) ∧
        g.Derives c (word.part (first + split + 1) (first + span)) := by
  constructor
  · intro h
    generalize hw : word.part first (first + span) = w at h
    have hlen := congrArg List.length hw
    rw [Word.length_part hlast] at hlen
    cases h with
    | terminal _ =>
      rw [List.length_singleton] at hlen
      omega
    | @pair _ b c u v hr hu hv =>
      have hu' := List.length_pos_iff.2 hu.ne_nil
      have hv' := List.length_pos_iff.2 hv.ne_nil
      rw [List.length_append] at hlen
      refine ⟨u.length - 1, by omega, b, c, hr, ?_⟩
      -- the split is the one after the first piece
      have hsplit := Word.part_append_part word (show first ≤ first + (u.length - 1) by omega)
        (show first + (u.length - 1) ≤ first + span by omega)
      rw [hw] at hsplit
      obtain ⟨h₁, h₂⟩ := List.append_inj hsplit (by rw [Word.length_part (by omega)]; omega)
      rw [h₁, h₂]
      exact ⟨hu, hv⟩
  · rintro ⟨split, hsplit, b, c, hr, hb, hc⟩
    rw [← Word.part_append_part word (show first ≤ first + split by omega)
      (show first + split ≤ first + span by omega)]
    exact .pair hr hb hc

/-! ## Rewriting in context -/

/-- Replacements can follow replacements. -/
lemma RewritesMany.trans (h : g.RewritesMany u v) (h' : g.RewritesMany v w) :
    g.RewritesMany u w := by
  induction h' with
  | refl => exact h
  | tail _ s ih => exact ih.tail s

/-- A replacement can be made within a longer sentential form. -/
lemma Rewrites.context (x y : Word) (h : g.Rewrites u v) :
    g.Rewrites (x ++ u ++ y) (x ++ v ++ y) := by
  obtain ⟨p, q, hr⟩ := h
  simpa using Rewrites.step (x ++ p) (q ++ y) hr

/-- Replacements can be made between two unchanged parts. -/
lemma RewritesMany.context (x y : Word) (h : g.RewritesMany u v) :
    g.RewritesMany (x ++ u ++ y) (x ++ v ++ y) := by
  induction h with
  | refl => exact .refl _
  | tail _ s ih => exact ih.tail (s.context x y)

/-- A rule is one replacement in the form of its left-hand side alone. -/
lemma RewritesMany.single {r : Rule} (h : r ∈ g.rules) :
    g.RewritesMany [r.lhs] r.rhs.symbols := by
  simpa using (RewritesMany.refl [r.lhs]).tail (by simpa using Rewrites.step [] [] h)

/-- What is derived can be reached by rewriting: the pair is replaced on the left first, then on
the right. -/
lemma Derives.rewritesMany (h : g.Derives a w) : g.RewritesMany [a] w := by
  induction h with
  | terminal h => exact .single h
  | @pair a b c u v h _ _ ihu ihv =>
    have hpair : g.RewritesMany [a] [b, c] := .single h
    have hleft : g.RewritesMany [b, c] (u ++ [c]) := by simpa using ihu.context [] [c]
    have hright : g.RewritesMany (u ++ [c]) (u ++ v) := by simpa using ihv.context u []
    exact (hpair.trans hleft).trans hright

/-! ## What a sentential form yields -/

/-- A sentential form yields a word: its terminals stay, and its nonterminals derive pieces. -/
inductive Yields (g : Grammar) : Word → Word → Prop where
  | nil : Yields g [] []
  | keep {t : Symbol} {u w : Word} (ht : g.isTerminal t = true) (h : Yields g u w) :
      Yields g (t :: u) (t :: w)
  | derive {a : Symbol} {u v w : Word} (ha : g.Derives a v) (h : Yields g u w) :
      Yields g (a :: u) (v ++ w)

namespace Yields

/-- A word of terminals yields itself. -/
lemma refl (h : ∀ t ∈ w, g.isTerminal t = true) : g.Yields w w := by
  induction w with
  | nil => exact .nil
  | cons t w ih =>
    exact .keep (h t List.mem_cons_self) (ih fun s hs => h s (List.mem_cons_of_mem t hs))

/-- Forms one after the other yield words one after the other. -/
lemma append {x y : Word} (h : g.Yields u x) (h' : g.Yields v y) :
    g.Yields (u ++ v) (x ++ y) := by
  induction h with
  | nil => exact h'
  | keep ht _ ih => exact .keep ht ih
  | derive ha _ ih =>
    rw [List.cons_append, List.append_assoc]
    exact .derive ha ih

/-- What two forms one after the other yield has two parts. -/
lemma exists_of_append (h : g.Yields (u ++ v) w) :
    ∃ x y, w = x ++ y ∧ g.Yields u x ∧ g.Yields v y := by
  induction u generalizing w with
  | nil => exact ⟨[], w, rfl, .nil, h⟩
  | cons s u ih =>
    cases h with
    | keep ht h =>
      obtain ⟨x, y, rfl, hx, hy⟩ := ih h
      exact ⟨s :: x, y, rfl, .keep ht hx, hy⟩
    | @derive _ _ z _ ha h =>
      obtain ⟨x, y, rfl, hx, hy⟩ := ih h
      exact ⟨z ++ x, y, (List.append_assoc _ _ _).symm, .derive ha hx, hy⟩

/-- A nonterminal yields what it derives. -/
lemma derives_of_singleton (ha : a.toNat < g.numNonterminals) (h : g.Yields [a] w) :
    g.Derives a w := by
  cases h with
  | keep ht _ =>
    have hle := (isTerminal_iff.1 ht).1
    omega
  | derive ha h =>
    cases h with
    | nil => simpa using ha

/-- The left-hand side of a rule derives what the right-hand side yields. -/
lemma derives_lhs (hg : g.WellFormed) {r : Rule} (hr : r ∈ g.rules)
    (h : g.Yields r.rhs.symbols w) : g.Derives r.lhs w := by
  obtain ⟨a, s⟩ := r
  cases s with
  | terminal t =>
    cases h with
    | keep _ h =>
      cases h with
      | nil => exact .terminal hr
    | derive ht _ =>
      -- a terminal derives nothing
      have hlt := ht.lhs_lt hg
      have hle := (hg.terminal_of_mem a t hr).1
      omega
  | pair b c =>
    obtain ⟨hb, hc⟩ := hg.pair_of_mem a b c hr
    obtain ⟨x, y, rfl, hx, hy⟩ := exists_of_append (u := [b]) (v := [c]) h
    exact .pair hr (hx.derives_of_singleton hb) (hy.derives_of_singleton hc)

/-- A form yields what it yields after a replacement. -/
lemma of_rewrites (hg : g.WellFormed) (h : g.Rewrites u v) (hw : g.Yields v w) :
    g.Yields u w := by
  obtain ⟨p, q, hr⟩ := h
  obtain ⟨x, z, rfl, hx, hz⟩ := exists_of_append hw
  obtain ⟨x, y, rfl, hp, hy⟩ := exists_of_append hx
  rw [List.append_assoc]
  exact hp.append (.derive (derives_lhs hg hr hy) hz)

/-- What a form yields, any form that can be rewritten to it yields. -/
lemma of_rewritesMany (hg : g.WellFormed) (h : g.RewritesMany u v) (hw : g.Yields v w) :
    g.Yields u w := by
  induction h with
  | refl => exact hw
  | tail _ s ih => exact ih (of_rewrites hg s hw)

end Yields

/-- **Derivation is rewriting to a word of terminals.**

**Proof sketch.** A word of terminals yields itself, and every form on the way to it yields it
too, by induction from the end.  The form that the rewriting starts from is a single nonterminal,
which yields only what it derives. -/
theorem derives_iff_rewritesMany (hg : g.WellFormed) (ha : a.toNat < g.numNonterminals) :
    g.Derives a w ↔ (∀ t ∈ w, g.isTerminal t = true) ∧ g.RewritesMany [a] w := by
  constructor
  · intro h
    exact ⟨h.isTerminal hg, h.rewritesMany⟩
  · rintro ⟨ht, h⟩
    exact (Yields.of_rewritesMany hg h (.refl ht)).derives_of_singleton ha

end Grammar

end Chomsky
