import Chomsky.Proofs.Origins

set_option autoImplicit false

/-!
# The order of rules

Rules are listed by number, and that is the order of their names: the names of nonterminals are in order,
and so are those of terminals, so that of two symbols of one kind the one with the lesser name has the lesser
number.  Only numbers of one kind are compared.  Hence the rules on characters are listed in an order of
their own, which knows nothing of numbers, and the printed rules depend on nothing else.

## Main definitions

* `Chomsky.NamedRule.Precedes` — the order of rules on characters.

## Main results

* `Chomsky.NamedRule.eq_of_precedes` — rules in order are determined by which ones they are.
* `Chomsky.Grammar.WellFormed.display_lt_of_nonterminals`,
  `Chomsky.Grammar.WellFormed.display_lt_of_terminals` — lesser numbers have lesser names.
* `Chomsky.Grammar.WellFormed.pairwise_precedes` — the rules on characters are in order.
* `Chomsky.Grammar.canonical_order` — the order of the rules of a grammar, and of the printed ones.
-/

namespace Chomsky

/-! ## Rules on characters -/

/-- The order of rules on characters, which are compared by their code points: by left-hand sides first;
for one left-hand side, single characters come before pairs, single characters are in order, and pairs are
in order from left to right. -/
inductive NamedRule.Precedes : NamedRule → NamedRule → Prop where
  | lhs {x y : Char} {u v : List Char} (h : x.toNat < y.toNat) : Precedes ⟨x, u⟩ ⟨y, v⟩
  | kind {x c l m : Char} : Precedes ⟨x, [c]⟩ ⟨x, [l, m]⟩
  | single {x c d : Char} (h : c.toNat < d.toNat) : Precedes ⟨x, [c]⟩ ⟨x, [d]⟩
  | left {x l m l' m' : Char} (h : l.toNat < l'.toNat) : Precedes ⟨x, [l, m]⟩ ⟨x, [l', m']⟩
  | right {x l m m' : Char} (h : m.toNat < m'.toNat) : Precedes ⟨x, [l, m]⟩ ⟨x, [l, m']⟩

namespace NamedRule

/-- No two rules come before each other. -/
lemma Precedes.asymm {r s : NamedRule} (h : r.Precedes s) : ¬ s.Precedes r := by
  intro h'
  cases h <;> cases h' <;> omega

/-- Rules in strict order are different. -/
lemma nodup_of_precedes {rules : List NamedRule} (h : rules.Pairwise Precedes) : rules.Nodup :=
  h.imp fun hrs heq => (heq ▸ hrs).asymm (heq ▸ hrs)

/-- **Rules in order are determined by which ones they are.** -/
theorem eq_of_precedes {rules rules' : List NamedRule} (h : rules.Pairwise Precedes)
    (h' : rules'.Pairwise Precedes) (hsame : ∀ r, r ∈ rules ↔ r ∈ rules') : rules = rules' := by
  have hperm : rules.Perm rules' :=
    (List.perm_ext_iff_of_nodup (nodup_of_precedes h) (nodup_of_precedes h')).2 hsame
  exact hperm.eq_of_pairwise (fun _ _ _ _ hrs hsr => absurd hsr hrs.asymm) h h'

end NamedRule

/-! ## Rules on symbols -/

/-- Symbols are in the order of their numbers. -/
lemma Symbol.compare_eq_lt_iff {a b : Symbol} : compare a b = .lt ↔ a.toNat < b.toNat :=
  Nat.compare_eq_lt

namespace Rhs

variable {a b c d t u : Symbol}

/-- Terminals are in the order of their symbols. -/
lemma compare_terminal_terminal : compare (terminal t) (terminal u) = compare t u := by
  show compare [0, t.toNat] [0, u.toNat] = compare t.toNat u.toNat
  simp [List.compare_cons_cons]

/-- Pairs are in the order of their left symbols, and for one left symbol of their right ones. -/
lemma compare_pair_pair : compare (pair a b) (pair c d) = (compare a c).then (compare b d) := by
  show compare [1, a.toNat, b.toNat] [1, c.toNat, d.toNat] =
    (compare a.toNat c.toNat).then (compare b.toNat d.toNat)
  simp [List.compare_cons_cons]

/-- Pairs come after terminals. -/
lemma compare_pair_terminal : compare (pair a b) (terminal t) = .gt := rfl

end Rhs

/-- Of two characters in an ascending list, the one that comes first has the lesser code point. -/
lemma Ascending.toNat_lt {cs : List Char} (h : Ascending cs) {i j : Nat} {c d : Char}
    (hi : cs[i]? = some c) (hj : cs[j]? = some d) (hij : i < j) : c.toNat < d.toNat := by
  obtain ⟨hilt, rfl⟩ := List.getElem?_eq_some_iff.1 hi
  obtain ⟨hjlt, rfl⟩ := List.getElem?_eq_some_iff.1 hj
  have hlt : cs[i] < cs[j] :=
    compareOfLessAndEq_eq_lt.1 (List.pairwise_iff_getElem.1 h i j hilt hjlt hij)
  exact UInt32.lt_iff_toNat_lt.1 (Char.lt_def.1 hlt)

namespace Grammar

variable {g : Grammar} {a b t u : Symbol}

/-! ## Numbers and names -/

/-- A declared symbol is shown by the name at its number. -/
lemma getElem?_display (ha : a.toNat < g.numSymbols) :
    g.names.toList[a.toNat]? = some (g.names.display a) := by
  obtain ⟨c, hc⟩ := Names.exists_nameOf? ha
  rw [Names.display_eq_of_nameOf? hc, ← hc, Names.nameOf?]

/-- Of two nonterminals, the one with the lesser number has the lesser name. -/
lemma WellFormed.display_lt_of_nonterminals (hg : g.WellFormed) (hab : a.toNat < b.toNat)
    (hb : b.toNat < g.numNonterminals) :
    (g.names.display a).toNat < (g.names.display b).toNat := by
  have hname : ∀ s : Symbol, s.toNat < g.numNonterminals →
      (g.names.toList.take g.numNonterminals)[s.toNat]? = some (g.names.display s) := fun s hs => by
    rw [List.getElem?_take_of_lt hs, getElem?_display (Nat.lt_of_lt_of_le hs hg.numNonterminals_le)]
  exact hg.nonterminals_ascending.toNat_lt (hname a (Nat.lt_trans hab hb)) (hname b hb) hab

/-- Of two terminals, the one with the lesser number has the lesser name. -/
lemma WellFormed.display_lt_of_terminals (hg : g.WellFormed) (ht : g.numNonterminals ≤ t.toNat)
    (htu : t.toNat < u.toNat) (hu : u.toNat < g.numSymbols) :
    (g.names.display t).toNat < (g.names.display u).toNat := by
  have hname : ∀ s : Symbol, g.numNonterminals ≤ s.toNat → s.toNat < g.numSymbols →
      (g.names.toList.drop g.numNonterminals)[s.toNat - g.numNonterminals]? =
        some (g.names.display s) := fun s hk hs => by
    rw [List.getElem?_drop, Nat.add_sub_cancel' hk, getElem?_display hs]
  exact hg.terminals_ascending.toNat_lt (hname t ht (Nat.lt_trans htu hu))
    (hname u (by omega) hu) (by omega)

/-- Rules in order have names in order.

**Proof sketch.** Left-hand sides are nonterminals, single characters are terminals, and pairs consist of
nonterminals; so wherever two numbers are compared, the names are in the same order. -/
lemma WellFormed.precedes_named (hg : g.WellFormed) {r s : Rule} (hr : r ∈ g.rules) (hs : s ∈ g.rules)
    (h : compare r s = .lt) : (r.named g.names).Precedes (s.named g.names) := by
  obtain ⟨a, v⟩ := r
  obtain ⟨b, w⟩ := s
  rcases Rule.compare_eq_lt_iff.1 h with hlhs | ⟨rfl, hrhs⟩
  · exact .lhs (hg.display_lt_of_nonterminals (Symbol.compare_eq_lt_iff.1 hlhs) (hg.lhs_lt _ hs))
  dsimp only at hrhs
  cases v with
  | terminal t =>
    cases w with
    | terminal u =>
      rw [Rhs.compare_terminal_terminal, Symbol.compare_eq_lt_iff] at hrhs
      exact .single (hg.display_lt_of_terminals (hg.terminal_of_mem _ _ hr).1 hrhs
        (hg.terminal_of_mem _ _ hs).2)
    | pair l m => exact .kind
  | pair l m =>
    cases w with
    | terminal u => exact absurd hrhs (by simp [Rhs.compare_pair_terminal])
    | pair l' m' =>
      rw [Rhs.compare_pair_pair, Ordering.then_eq_lt, Symbol.compare_eq_lt_iff,
        Symbol.compare_eq_lt_iff, Std.LawfulEqOrd.compare_eq_iff_eq] at hrhs
      obtain ⟨hl', hm'⟩ := hg.pair_of_mem _ _ _ hs
      rcases hrhs with hleft | ⟨rfl, hright⟩
      · exact .left (hg.display_lt_of_nonterminals hleft hl')
      · exact .right (hg.display_lt_of_nonterminals hright hm')

/-- **The rules on characters are in order.** -/
theorem WellFormed.pairwise_precedes (hg : g.WellFormed) :
    g.namedRules.Pairwise NamedRule.Precedes :=
  List.pairwise_map.2 (hg.rules_ascending.imp_of_mem fun hr hs h => hg.precedes_named hr hs h)

/-! ## The rules of one left-hand side after the other -/

/-- Going through the nonterminals in order and through the right-hand sides of each, one goes through all
rules. -/
lemma WellFormed.flatMap_rhsOf (hg : g.WellFormed) :
    (List.range g.numNonterminals).flatMap (fun i => g.rhsOf (.ofNat i)) = g.rules.map Rule.rhs := by
  have hnum : ∀ i < g.numNonterminals, (Symbol.ofNat i).toNat = i := fun i hi => by
    have hk := hg.numNonterminals_le
    have hn := hg.numSymbols_lt
    rw [Symbol.toNat_ofNat, Nat.mod_eq_of_lt (by omega)]
  have hgroups : (List.range g.numNonterminals).flatMap
      (fun i => g.rules.filter fun r => r.lhs = .ofNat i) = g.rules := by
    refine Ascending.ext (List.pairwise_flatMap.2 ⟨fun i _ => ?_, ?_⟩) hg.rules_ascending fun r => ?_
    · exact hg.rules_ascending.sublist List.filter_sublist
    · refine List.pairwise_lt_range.imp_of_mem fun {i j} hi hj hij r hr s hs => ?_
      have hr' : r.lhs = .ofNat i := by simpa using (List.mem_filter.1 hr).2
      have hs' : s.lhs = .ofNat j := by simpa using (List.mem_filter.1 hs).2
      refine Rule.compare_eq_lt_iff.2 (.inl ?_)
      rwa [hr', hs', Symbol.compare_eq_lt_iff, hnum i (List.mem_range.1 hi),
        hnum j (List.mem_range.1 hj)]
    · simp only [List.mem_flatMap, List.mem_range, List.mem_filter, decide_eq_true_eq]
      constructor
      · rintro ⟨i, -, hr, -⟩
        exact hr
      · intro hr
        exact ⟨r.lhs.toNat, hg.lhs_lt r hr, hr, (Symbol.ofNat_toNat r.lhs).symm⟩
  rw [← hgroups, List.map_flatMap]
  rfl

/-- What is printed is a line for each rule on characters. -/
lemma display_eq (g : Grammar) :
    g.display = g.namedRules.flatMap fun r => r.lhs :: " -> ".toList ++ r.rhs ++ ['\n'] := by
  rw [namedRules, List.flatMap_map]
  rfl

/-! ## The order of every grammar -/

/-- **The order of rules**, in every grammar from whatever steps of a builder or whatever document it
comes.  By number, the rules are in strictly ascending order, first by left-hand sides and then by
right-hand sides, and those of one nonterminal after the other make up all.  On characters, they are the
rules of the origin, each once, in the order of rules on characters, and this is how they are printed, one
on a line.  So the printed rules are the same for all origins with the same rules on characters, whatever
else these describe.

**Proof sketch.** Rules in order have names in order, and rules on characters in order are determined by
which ones they are. -/
theorem canonical_order {o : Origin} {g : Grammar} (h : o.toGrammar = .ok g) :
    (g.rules.Pairwise fun r s =>
      r.lhs.toNat < s.lhs.toNat ∨ r.lhs = s.lhs ∧ compare r.rhs s.rhs = .lt) ∧
    g.numRules = g.rules.length ∧
    (List.range g.numNonterminals).flatMap (fun i => g.rhsOf (.ofNat i)) = g.rules.map Rule.rhs ∧
    (∀ r, g.namedRules.count r = if r ∈ o.rules then 1 else 0) ∧
    g.namedRules.Pairwise NamedRule.Precedes ∧
    g.display = g.namedRules.flatMap (fun r => r.lhs :: " -> ".toList ++ r.rhs ++ ['\n']) ∧
    ∀ {o' : Origin} {g' : Grammar}, o'.toGrammar = .ok g' → (∀ r, r ∈ o.rules ↔ r ∈ o'.rules) →
      g.namedRules = g'.namedRules ∧ g.display = g'.display := by
  have hg := (Origin.constructed h).wellFormed
  have horder := hg.pairwise_precedes
  refine ⟨hg.rules_ascending.imp fun hrs => ?_, rfl, hg.flatMap_rhsOf, fun r => ?_, horder,
    display_eq g, fun {o' g'} h' hsame => ?_⟩
  · rwa [← Symbol.compare_eq_lt_iff, ← Rule.compare_eq_lt_iff]
  · rw [(NamedRule.nodup_of_precedes horder).count]
    simp only [(Origin.describedBy h).mem_namedRules]
  · have hg' := (Origin.constructed h').wellFormed
    have hnamed : g.namedRules = g'.namedRules :=
      NamedRule.eq_of_precedes horder hg'.pairwise_precedes fun r => by
        rw [(Origin.describedBy h).mem_namedRules, hsame, (Origin.describedBy h').mem_namedRules]
    exact ⟨hnamed, by rw [display_eq, display_eq, hnamed]⟩

/-- The rules for balanced parentheses are printed the same when they are added in another order, when the
start symbol is another one, and when a nonterminal that is not used moves all numbers. -/
theorem canonical_order_parentheses :
    let rules : List NamedRule := [⟨'R', [')']⟩, ⟨'S', ['S', 'S']⟩, ⟨'L', ['(']⟩, ⟨'S', ['L', 'X']⟩,
      ⟨'X', ['S', 'R']⟩, ⟨'S', ['L', 'R']⟩]
    let o : Origin := .built 'S' ['S', 'L', 'R', 'X'] ['(', ')']
      (rules.map fun r => .addRule r.lhs r.rhs)
    let o' : Origin := .built 'X' ['A', 'X', 'S', 'R', 'L', 'S'] [')', '(', '-'] <|
      .rule 'S' :: .rhs ['L', 'R'] :: rules.reverse.map fun r => .addRule r.lhs r.rhs
    o.toGrammar = .ok parentheses ∧ ∃ g', o'.toGrammar = .ok g' ∧
      g'.rules.head? = some ⟨.ofNat 1, .terminal (.ofNat 5)⟩ ∧ (∀ r, r ∈ o.rules ↔ r ∈ o'.rules) ∧
      parentheses.display = g'.display ∧ parentheses.namedRules.count ⟨'S', ['L', 'R']⟩ = 1 ∧
      parentheses.rules.map Rule.rhs = [.terminal (.ofNat 4), .terminal (.ofNat 5),
        .pair (.ofNat 0) (.ofNat 1), .pair (.ofNat 0) (.ofNat 3), .pair (.ofNat 2) (.ofNat 2),
        .pair (.ofNat 2) (.ofNat 1)] := by
  intro rules o o'
  have h : o.toGrammar = .ok parentheses := rfl
  have h' : o'.toGrammar = .ok _ := rfl
  have hsub : o.rules ⊆ o'.rules := by decide
  have hsub' : o'.rules ⊆ o.rules := by decide
  have hsame : ∀ r, r ∈ o.rules ↔ r ∈ o'.rules := fun r => ⟨fun hr => hsub hr, fun hr => hsub' hr⟩
  obtain ⟨-, -, hgroups, hcount, -, -, hprinted⟩ := canonical_order h
  refine ⟨h, _, h', by decide, hsame, (hprinted h' hsame).2, ?_, ?_⟩
  · rw [hcount, if_pos (by decide)]
  · rw [← hgroups]
    decide

end Grammar

end Chomsky
