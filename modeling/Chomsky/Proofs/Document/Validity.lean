import Chomsky.Proofs.Document.Rebuilding

set_option autoImplicit false

/-!
# Which documents are accepted

A document is rebuilt from the names of its symbols, and names may repeat.  Even so, what is accepted
can be told from the numbers alone: a document gives a grammar if and only if it is valid by number.
A left-hand side without right-hand sides asks for nothing.  Of the errors, the one about a number
without a name is found in reading order.

## Main definitions

* `Chomsky.Document.HasRule`, `Chomsky.Document.rulesBefore` — the rules of a document, and those
  before a given one.
* `Chomsky.Document.Valid` — validity by number.

## Main results

* `Chomsky.Document.exists_toGrammar_eq_ok_iff` — the documents that give grammars.
* `Chomsky.Document.accepted_iff_valid` — the same, with the condition for the error about numbers.
-/

namespace Chomsky

/-- The first part of a list shares no element with the rest if no element of the first part stands
at a later position again. -/
lemma disjoint_take_drop_iff {α : Type} {xs : List α} {k : Nat} (hk : k ≤ xs.length) :
    (xs.take k).Disjoint (xs.drop k) ↔
      ∀ i j, i < k → k ≤ j → j < xs.length → xs[i]? ≠ xs[j]? := by
  constructor
  · intro h i j hi hj hlt heq
    have htake : xs[j] ∈ xs.take k :=
      List.mem_take_iff_getElem.2 ⟨i, by omega, by simpa [hlt, show i < xs.length by omega] using heq⟩
    have hdrop : xs[j] ∈ xs.drop k :=
      List.mem_drop_iff_getElem.2 ⟨j - k, by omega, by simp [Nat.add_sub_cancel' hj]⟩
    exact h htake hdrop
  · intro h x htake hdrop
    obtain ⟨i, hi, rfl⟩ := List.mem_take_iff_getElem.1 htake
    obtain ⟨j, hj, heq⟩ := List.mem_drop_iff_getElem.1 hdrop
    refine h i (k + j) (by omega) (by omega) (by omega) ?_
    rw [List.getElem?_eq_getElem (by omega), List.getElem?_eq_getElem (by omega), heq]

namespace Document

variable {d : Document} {r : Rule}

/-- A right-hand side is stored under a left-hand side. -/
def HasRule (d : Document) (r : Rule) : Prop :=
  ∃ group ∈ d.rules, r.lhs = group.1 ∧ r.rhs ∈ group.2

/-- The rules of a document before a given one, by left-hand side and then by right-hand side. -/
def rulesBefore (d : Document) (r : Rule) : List Rule :=
  (ungroup d.rules).filter fun r' => compare r' r = .lt

/-- Validity by number: the nonterminals are among the symbols with names, no name is both that of a
nonterminal and that of a terminal, the start symbol is a nonterminal, and the rules are in normal
form. -/
structure Valid (d : Document) : Prop where
  numNonterminals_le : d.numNonterminals ≤ d.names.size
  names_ne : ∀ i j, i < d.numNonterminals → d.numNonterminals ≤ j → j < d.names.size →
    d.names.toList[i]? ≠ d.names.toList[j]?
  start_lt : d.start.toNat < d.numNonterminals
  inForm : ∀ r, d.HasRule r → r.InForm d.numNonterminals d.names.size

/-- The symbols of a rule in normal form have names. -/
lemma named_of_inForm (hk : d.numNonterminals ≤ d.names.size)
    (h : r.InForm d.numNonterminals d.names.size) : d.Named r := by
  cases h with
  | terminal ha hle hlt =>
    refine ⟨Nat.lt_of_lt_of_le ha hk, fun s hs => ?_⟩
    obtain rfl := List.mem_singleton.1 hs
    exact hlt
  | pair ha hb hc =>
    refine ⟨Nat.lt_of_lt_of_le ha hk, fun s hs => ?_⟩
    rcases List.mem_pair.1 hs with rfl | rfl
    · exact Nat.lt_of_lt_of_le hb hk
    · exact Nat.lt_of_lt_of_le hc hk

/-- **The documents that give grammars are the valid ones.**

**Proof sketch.** The description read off the names has to be proper.  As no name is both that of a
nonterminal and that of a terminal, a symbol with a name is of the kind that its name is of, whichever
of the symbols with this name it is. -/
theorem exists_toGrammar_eq_ok_iff : (∃ g, d.toGrammar = .ok g) ↔ d.Valid := by
  constructor
  · rintro ⟨g, h⟩
    obtain ⟨hk, hnamed, start, hstart, hrules⟩ := toGrammar_eq_ok_iff.1 h
    have hproper := Grammar.proper_of_ofRules hrules
    refine ⟨hk, (disjoint_take_drop_iff hk).1 hproper.disjoint, ?_, fun r hr => ?_⟩
    · have hmem := hproper.start_mem
      rw [← Names.display_eq_of_nameOf? hstart] at hmem
      exact (Names.display_mem_take_iff hproper.disjoint (Names.toNat_lt_of_nameOf? hstart)).1 hmem
    · have hr := mem_ungroup_iff.2 hr
      obtain ⟨hlhs, hrhs⟩ := hnamed r hr
      exact (Rule.inForm_named_iff hproper.disjoint hlhs hrhs).1
        (hproper.inForm _ (List.mem_map_of_mem hr))
  · intro h
    have hdisj := (disjoint_take_drop_iff h.numNonterminals_le).2 h.names_ne
    have hlt := Nat.lt_of_lt_of_le h.start_lt h.numNonterminals_le
    obtain ⟨start, hstart⟩ := Names.exists_nameOf? hlt
    have hinForm : ∀ r ∈ ungroup d.rules, r.InForm d.numNonterminals d.names.size := fun r hr =>
      h.inForm r (mem_ungroup_iff.1 hr)
    have hnamed : ∀ r ∈ ungroup d.rules, d.Named r := fun r hr =>
      named_of_inForm h.numNonterminals_le (hinForm r hr)
    have hproper : ProperDescription start (d.names.toList.take d.numNonterminals)
        (d.names.toList.drop d.numNonterminals) d.namedRules := by
      refine ⟨?_, hdisj, fun named hn => ?_⟩
      · rw [← Names.display_eq_of_nameOf? hstart]
        exact Names.display_mem_take hlt h.start_lt
      · obtain ⟨r, hr, rfl⟩ := List.mem_map.1 hn
        obtain ⟨hlhs, hrhs⟩ := hnamed r hr
        exact (Rule.inForm_named_iff hdisj hlhs hrhs).2 (hinForm r hr)
    obtain ⟨g, hg⟩ := Grammar.exists_ofRules_eq_ok hproper
    exact ⟨g, toGrammar_eq_ok_iff.2 ⟨h.numNonterminals_le, hnamed, start, hstart, hg⟩⟩

/-- In a canonical document, the rules before a given one are those that are read before it. -/
lemma mem_rulesBefore_iff {before after : List Rule} (h : d.Canonical)
    (hrules : ungroup d.rules = before ++ r :: after) {r' : Rule} :
    r' ∈ d.rulesBefore r ↔ r' ∈ before := by
  have hasc := h.ascending_ungroup
  rw [hrules] at hasc
  obtain ⟨-, hafter, hbefore⟩ := List.pairwise_append.1 hasc
  rw [rulesBefore, List.mem_filter, hrules, List.mem_append, List.mem_cons, decide_eq_true_iff]
  constructor
  · rintro ⟨hr' | rfl | hr', hlt⟩
    · exact hr'
    · exact absurd hlt (by simp)
    · have hgt := (List.pairwise_cons.1 hafter).1 r' hr'
      exact absurd (Std.TransCmp.lt_trans hlt hgt) (by simp)
  · intro hr'
    exact ⟨.inl hr', hbefore r' hr' r List.mem_cons_self⟩

/-- **A document gives a grammar if and only if it is valid by number.**  Otherwise the error is a
number without a name if there are more nonterminals than names, the start symbol has no name, or
some rule has a symbol without a name and all rules before it can be added. -/
theorem accepted_iff_valid (h : d.Canonical) :
    ((∃ g, d.toGrammar = .ok g) ↔ d.Valid) ∧
    ((∃ a, d.toGrammar = .error (.unknownSymbol a)) ↔
      d.names.size < d.numNonterminals ∨ d.names.nameOf? d.start = none ∨
        ∃ r, d.HasRule r ∧ ¬ d.Named r ∧
          ∀ start, ∃ b, d.addRules (d.builder start) (d.rulesBefore r) = .ok b) := by
  refine ⟨exists_toGrammar_eq_ok_iff, toGrammar_eq_unknownSymbol_iff.trans ?_⟩
  refine or_congr_right (or_congr_right ?_)
  simp only [exists_addRules_eq_ok_iff, forall_const]
  constructor
  · rintro ⟨before, r, after, hrules, hr, hbefore⟩
    refine ⟨r, mem_ungroup_iff.1 (by simp [hrules]), hr, fun r' hr' => ?_⟩
    exact hbefore r' ((mem_rulesBefore_iff h hrules).1 hr')
  · rintro ⟨r, hmem, hr, hbefore⟩
    obtain ⟨before, after, hrules⟩ := List.append_of_mem (mem_ungroup_iff.2 hmem)
    refine ⟨before, r, after, hrules, hr, fun r' hr' => ?_⟩
    exact hbefore r' ((mem_rulesBefore_iff h hrules).2 hr')

/-- A document is accepted whose names repeat within an alphabet and whose last left-hand side has no
name but no right-hand side either.  With a right-hand side for it, the error is its number. -/
theorem accepted_repeatedNames :
    let rules : List (Symbol × List Rhs) :=
      [(.ofNat 1, [.terminal (.ofNat 4), .pair (.ofNat 0) (.ofNat 1)])]
    let d : Document := ⟨⟨['S', 'S', 'a', 'b', 'a']⟩, 2, .ofNat 1, rules ++ [(.ofNat 9, [])]⟩
    let d' : Document :=
      ⟨⟨['S', 'S', 'a', 'b', 'a']⟩, 2, .ofNat 1, rules ++ [(.ofNat 9, [.terminal (.ofNat 3)])]⟩
    (d.Canonical ∧ ∃ g, d.toGrammar = .ok g) ∧
      d'.Canonical ∧ ∃ a, d'.toGrammar = .error (.unknownSymbol a) := by
  intro rules d d'
  have hd : d.Canonical := by unfold Canonical Ascending; decide
  have hd' : d'.Canonical := by unfold Canonical Ascending; decide
  have hrules : ∀ r, d.HasRule r → r.InForm 2 5 := by
    intro r hr
    have hmem : r ∈ [Rule.mk (.ofNat 1) (.terminal (.ofNat 4)),
        Rule.mk (.ofNat 1) (.pair (.ofNat 0) (.ofNat 1))] := mem_ungroup_iff.2 hr
    rcases List.mem_pair.1 hmem with rfl | rfl
    · exact .terminal (by decide) (by decide) (by decide)
    · exact .pair (by decide) (by decide) (by decide)
  have hdisj : ['S', 'S'].Disjoint ['a', 'b', 'a'] := by simp [List.Disjoint]
  have hvalid : d.Valid :=
    ⟨by decide, (disjoint_take_drop_iff (by decide)).1 hdisj, by decide, hrules⟩
  have hunnamed : ¬ d'.Named ⟨.ofNat 9, .terminal (.ofNat 3)⟩ := fun h => absurd h.1 (by decide)
  have hlast : d'.HasRule ⟨.ofNat 9, .terminal (.ofNat 3)⟩ :=
    ⟨(.ofNat 9, [.terminal (.ofNat 3)]), by decide, rfl, by decide⟩
  exact ⟨⟨hd, (accepted_iff_valid hd).1.2 hvalid⟩, hd',
    (accepted_iff_valid hd').2.2 (.inr (.inr ⟨_, hlast, hunnamed, fun start => ⟨_, rfl⟩⟩))⟩

end Document

end Chomsky
