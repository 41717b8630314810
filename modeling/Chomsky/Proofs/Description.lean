import Chomsky.Proofs.Construction

set_option autoImplicit false

/-!
# What a grammar keeps of its description

A grammar is described by a start symbol, two alphabets and rules, all on characters.  Numbering
loses nothing of it but order and repetition: the parts on characters can be read back from the
grammar.

## Main definitions

* `Chomsky.Grammar.nonterminalNames`, `Chomsky.Grammar.terminalNames` — the two alphabets.
* `Chomsky.Grammar.DescribedBy` — a grammar agrees with a description.

## Main results

* `Chomsky.Grammar.describedBy_of_build`, `Chomsky.Grammar.describedBy_of_ofRules` — the grammar that
  is built agrees with the description that it was built from.
-/

namespace Chomsky

namespace Grammar

/-- The names of the nonterminals in ascending order. -/
def nonterminalNames (g : Grammar) : List Char := g.names.toList.take g.numNonterminals

/-- The names of the terminals in ascending order. -/
def terminalNames (g : Grammar) : List Char := g.names.toList.drop g.numNonterminals

/-- The names of the terminals are the names that terminals have. -/
lemma mem_terminalNames_iff {g : Grammar} (hg : g.WellFormed) {c : Char} :
    c ∈ g.terminalNames ↔ ∃ t, g.isTerminal t = true ∧ g.nameOf? t = some c := by
  simp only [isTerminal_iff]
  constructor
  · intro hc
    obtain ⟨i, hi⟩ := List.mem_iff_getElem?.1 hc
    rw [terminalNames, List.getElem?_drop] at hi
    have hlt : g.numNonterminals + i < g.numSymbols := (List.getElem?_eq_some_iff.1 hi).1
    have hnum : (Symbol.ofNat (g.numNonterminals + i)).toNat = g.numNonterminals + i := by
      rw [Symbol.toNat_ofNat, Nat.mod_eq_of_lt (Nat.lt_trans hlt hg.numSymbols_lt)]
    refine ⟨.ofNat (g.numNonterminals + i), ?_, ?_⟩
    · rw [hnum]
      exact ⟨Nat.le_add_right _ _, hlt⟩
    · rw [nameOf?, Names.nameOf?, hnum]
      exact hi
  · rintro ⟨t, ⟨hle, -⟩, ht⟩
    refine List.mem_iff_getElem?.2 ⟨t.toNat - g.numNonterminals, ?_⟩
    rw [terminalNames, List.getElem?_drop, Nat.add_sub_cancel' hle]
    exact ht

/-- A grammar agrees with a description on characters: it has the same start symbol, alphabets and
rules, up to order and repetition. -/
structure DescribedBy (g : Grammar) (start : Char) (nonterminals terminals : List Char)
    (rules : List NamedRule) : Prop where
  nameOf?_start : g.nameOf? g.start = some start
  mem_nonterminalNames : ∀ c, c ∈ g.nonterminalNames ↔ c ∈ nonterminals
  mem_terminalNames : ∀ c, c ∈ g.terminalNames ↔ c ∈ terminals
  mem_namedRules : ∀ r, r ∈ g.namedRules ↔ r ∈ rules

/-- A grammar agrees with the description that is read off it. -/
lemma describedBy_self {g : Grammar} {start : Char} (hstart : g.nameOf? g.start = some start) :
    g.DescribedBy start g.nonterminalNames g.terminalNames g.namedRules :=
  ⟨hstart, fun _ => Iff.rfl, fun _ => Iff.rfl, fun _ => Iff.rfl⟩

/-- A builder with the names of a fresh one gives a grammar that agrees with the alphabets of the fresh
one and with any rules that denote those that were added.

**Proof sketch.** A rule is read back by the names of its symbols, which are the characters that the
symbols were found by. -/
lemma describedBy_of_build {start : Char} {nonterminals terminals : List Char}
    {rules : List NamedRule} {b : Builder} {g : Grammar}
    (hfresh : b.start = start ∧ b.names = (Builder.new start nonterminals terminals).names ∧
      b.numNonterminals = (Builder.new start nonterminals terminals).numNonterminals)
    (hall : ∀ named ∈ rules, ∃ r, named.Denotes b.names b.numNonterminals r)
    (hmem : ∀ r, r ∈ b.rules ↔ ∃ named ∈ rules, named.Denotes b.names b.numNonterminals r)
    (h : b.build = .ok g) : g.DescribedBy start nonterminals terminals rules := by
  obtain ⟨hstart, hnames, hk⟩ := hfresh
  have hsize := Nat.le_of_lt (Builder.Consistent.new start nonterminals terminals).size_lt
  rw [← hnames] at hsize
  obtain ⟨-, a, ha, -, rfl⟩ := Builder.build_eq_ok_iff.1 h
  rw [hstart] at ha
  refine ⟨Names.nameOf?_of_symbolOf? hsize ha, fun c => ?_, fun c => ?_, fun named => ?_⟩
  · simp [nonterminalNames, hnames, hk, Builder.new]
  · simp [terminalNames, hnames, hk, Builder.new]
  · constructor
    · intro hn
      obtain ⟨r, hr, rfl⟩ := List.mem_map.1 hn
      obtain ⟨named, hn, hd⟩ := (hmem r).1 hr
      rw [hd.named_eq hsize]
      exact hn
    · intro hn
      obtain ⟨r, hd⟩ := hall named hn
      exact List.mem_map.2 ⟨r, (hmem r).2 ⟨named, hn, hd⟩, hd.named_eq hsize⟩

/-- **A grammar agrees with the description it was built from**: the builder changes nothing but its
rules, and each of these is denoted by one of the rules given. -/
theorem describedBy_of_ofRules {start : Char} {nonterminals terminals : List Char}
    {rules : List NamedRule} {g : Grammar}
    (h : ofRules start nonterminals terminals rules = .ok g) :
    g.DescribedBy start nonterminals terminals rules := by
  obtain ⟨b, hb, hbuild⟩ := bind_eq_ok_iff.1 h
  obtain ⟨hframe, hall, hmem⟩ := Builder.addRules_eq_ok hb
  have hfresh : ∀ r, r ∈ b.rules ↔ ∃ named ∈ rules,
      named.Denotes (Builder.new start nonterminals terminals).names
        (Builder.new start nonterminals terminals).numNonterminals r := fun r =>
    (hmem r).trans (or_iff_right List.not_mem_nil)
  rw [hframe] at hbuild
  exact describedBy_of_build (b := { Builder.new start nonterminals terminals with rules := b.rules })
    ⟨rfl, rfl, rfl⟩ hall hfresh hbuild

end Grammar

end Chomsky
