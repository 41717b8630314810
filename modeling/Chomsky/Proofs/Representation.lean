import Chomsky.Proofs.Document.Groups
import Chomsky.Proofs.Spelling

set_option autoImplicit false

/-!
# How a grammar is kept

The recognizer relies on how a grammar is kept and checks nothing of it again.  Every grammar is
well-formed; hence its numbers and its names find each other, its two kinds of symbols make up the
numbers in use, and the number after them is that of a symbol which no rule mentions.  Rules are kept
by left-hand side, and no left-hand side is kept without a right-hand side.

## Main results

* `Chomsky.Grammar.WellFormed.symbolOf?_eq_some_iff` — names and numbers find each other.
* `Chomsky.Grammar.WellFormed.ofRange?_nonterminals`,
  `Chomsky.Grammar.WellFormed.ofRange?_terminals` — the two kinds of symbols as ranges of numbers.
* `Chomsky.Grammar.Constructed.representation` — all of this, for the grammars that there are.
-/

namespace Chomsky.Grammar

variable {g : Grammar} {a : Symbol} {c : Char}

/-! ## Names and numbers -/

/-- A symbol is found by a name if and only if it has that name. -/
lemma WellFormed.symbolOf?_eq_some_iff (hg : g.WellFormed) :
    g.symbolOf? c = some a ↔ g.nameOf? a = some c :=
  Names.symbolOf?_eq_some_iff hg.names_nodup (Nat.le_of_lt hg.numSymbols_lt)

/-- The symbols with names are those with numbers in use. -/
lemma exists_nameOf?_iff : (∃ c, g.nameOf? a = some c) ↔ a.toNat < g.numSymbols :=
  ⟨fun ⟨_, hc⟩ => Names.toNat_lt_of_nameOf? hc, Names.exists_nameOf?⟩

/-! ## The two kinds of symbols -/

/-- The nonterminals are the numbers below the number of nonterminals. -/
lemma WellFormed.ofRange?_nonterminals (hg : g.WellFormed) :
    SymbolSet.ofRange? g.numSymbols 0 g.numNonterminals = .ok g.nonterminals :=
  SymbolSet.ofRange?_eq_ok (Nat.le_of_lt hg.numSymbols_lt) hg.numNonterminals_le

/-- The terminals are the other numbers in use. -/
lemma WellFormed.ofRange?_terminals (hg : g.WellFormed) :
    SymbolSet.ofRange? g.numSymbols g.numNonterminals g.numSymbols = .ok g.terminals :=
  SymbolSet.ofRange?_eq_ok (Nat.le_of_lt hg.numSymbols_lt) (Nat.le_refl _)

/-- The nonterminals are the symbols below their number. -/
lemma WellFormed.contains_nonterminals_iff (hg : g.WellFormed) :
    g.nonterminals.contains a = true ↔ a.toNat < g.numNonterminals := by
  have hk := hg.numNonterminals_le
  rw [nonterminals, SymbolSet.contains_ofPred, Bool.and_eq_true, decide_eq_true_eq, isNonterminal,
    decide_eq_true_eq]
  omega

/-- The terminals are the other declared symbols. -/
lemma contains_terminals_iff :
    g.terminals.contains a = true ↔ g.numNonterminals ≤ a.toNat ∧ a.toNat < g.numSymbols := by
  rw [terminals, SymbolSet.contains_ofPred, Bool.and_eq_true, decide_eq_true_eq, isTerminal_iff]
  omega

/-! ## The foreign symbol -/

/-- The foreign symbol is not declared. -/
lemma WellFormed.ne_foreign (hg : g.WellFormed) (ha : a.toNat < g.numSymbols) : a ≠ g.foreign := by
  rintro rfl
  rw [toNat_foreign hg] at ha
  exact absurd ha (Nat.lt_irrefl _)

/-- No rule mentions the foreign symbol. -/
lemma WellFormed.foreign_not_mem (hg : g.WellFormed) {r : Rule} (hr : r ∈ g.rules) :
    g.foreign ∉ r.lhs :: r.rhs.symbols := by
  obtain ⟨hlhs, hrhs⟩ := hg.declared hr
  intro hmem
  rcases List.mem_cons.1 hmem with heq | hmem
  · exact hg.ne_foreign hlhs heq.symm
  · exact hg.ne_foreign (hrhs _ hmem) rfl

/-! ## All together -/

/-- **How every grammar is kept**, from whatever steps of a builder or whatever document it comes.
It is well-formed.  Names and numbers in use find each other.  The groups in which its rules are
written are what entering these rules one by one gives, in any order, and none of them is empty.  The
nonterminals and the terminals are made as ranges without fault, and each number in use is in one of
them, no number in both.  The foreign symbol is not declared, and no rule mentions it. -/
theorem Constructed.representation (h : g.Constructed) :
    g.WellFormed ∧
    ((∀ c a, g.symbolOf? c = some a ↔ g.nameOf? a = some c) ∧
      ∀ a, (∃ c, g.nameOf? a = some c) ↔ a.toNat < g.numSymbols) ∧
    ((∀ entered : List Rule, (∀ r, r ∈ entered ↔ r ∈ g.rules) →
        entered.foldl Document.enter [] = g.toDocument.rules) ∧
      ∀ group ∈ g.toDocument.rules, group.2 ≠ []) ∧
    (SymbolSet.ofRange? g.numSymbols 0 g.numNonterminals = .ok g.nonterminals ∧
      SymbolSet.ofRange? g.numSymbols g.numNonterminals g.numSymbols = .ok g.terminals ∧
      ∀ a, (g.nonterminals.contains a = true ∨ g.terminals.contains a = true ↔
          a.toNat < g.numSymbols) ∧
        ¬ (g.nonterminals.contains a = true ∧ g.terminals.contains a = true)) ∧
    (∀ a, a.toNat < g.numSymbols → a ≠ g.foreign) ∧
      ∀ r ∈ g.rules, g.foreign ∉ r.lhs :: r.rhs.symbols := by
  have hg := h.wellFormed
  have hk := hg.numNonterminals_le
  refine ⟨hg, ⟨fun c a => hg.symbolOf?_eq_some_iff, fun a => exists_nameOf?_iff⟩,
    ⟨fun entered hsame => Document.foldl_enter_eq hg.rules_ascending hsame,
      (canonical_toDocument hg.rules_ascending).2.1⟩,
    ⟨hg.ofRange?_nonterminals, hg.ofRange?_terminals, fun a => ?_⟩,
    fun a => hg.ne_foreign, fun r => hg.foreign_not_mem⟩
  rw [hg.contains_nonterminals_iff, contains_terminals_iff]
  omega

/-- The grammar of balanced parentheses, one rule for which was refused while it was built. -/
theorem representation_parentheses :
    parentheses.Constructed ∧ parentheses.symbolOf? 'X' = some (.ofNat 3) ∧
      [(Symbol.ofNat 2, [Rhs.pair (.ofNat 0) (.ofNat 1), .pair (.ofNat 0) (.ofNat 3),
        .pair (.ofNat 2) (.ofNat 2)])] ⊆ parentheses.rules.reverse.foldl Document.enter [] ∧
      parentheses.nonterminals.contains (.ofNat 3) = true ∧
      parentheses.terminals.contains (.ofNat 3) = false ∧ .ofNat 5 ≠ parentheses.foreign := by
  obtain ⟨-, ⟨hnames, -⟩, ⟨hgroups, -⟩, ⟨-, -, hkinds⟩, hforeign, -⟩ :=
    constructed_parentheses.representation
  have hthree : parentheses.nonterminals.contains (.ofNat 3) = true := by decide
  refine ⟨constructed_parentheses, (hnames _ _).2 (by decide), ?_, hthree, ?_,
    hforeign _ (by decide)⟩
  · rw [hgroups _ fun r => List.mem_reverse]
    decide
  · exact Bool.eq_false_iff.2 fun hterminal => (hkinds _).2 ⟨hthree, hterminal⟩

end Chomsky.Grammar
