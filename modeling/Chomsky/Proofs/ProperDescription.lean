import Chomsky.Proofs.Spelling
import Mathlib.Data.List.Basic

set_option autoImplicit false

/-!
# Which descriptions are accepted

A description on characters becomes a grammar if and only if it is proper: its start symbol is a
nonterminal, its alphabets are disjoint, and each rule has one of the two forms of the normal form.
The grammar is then the only well-formed one that agrees with the description.

## Main definitions

* `Chomsky.NamedRule.InForm`, `Chomsky.Rule.InForm` — the two forms of rules over given alphabets, on
  characters and by number.
* `Chomsky.ProperDescription` — the descriptions of grammars.

## Main results

* `Chomsky.Grammar.DescribedBy.unique`, `Chomsky.Grammar.DescribedBy.eq_iff` — a description determines
  its grammar, and a grammar its description up to order and repetition.
* `Chomsky.Grammar.ofRules_eq_ok_iff` — the descriptions accepted, and the grammars they give.
-/

namespace Chomsky

variable {start : Char} {nonterminals terminals : List Char} {rules : List NamedRule}

/-! ## Proper descriptions -/

/-- The normal form of rules on characters: a nonterminal is replaced by one terminal or by two
nonterminals. -/
inductive NamedRule.InForm (nonterminals terminals : List Char) : NamedRule → Prop where
  | terminal {x t : Char} (hx : x ∈ nonterminals) (ht : t ∈ terminals) :
      InForm nonterminals terminals ⟨x, [t]⟩
  | pair {x y z : Char} (hx : x ∈ nonterminals) (hy : y ∈ nonterminals) (hz : z ∈ nonterminals) :
      InForm nonterminals terminals ⟨x, [y, z]⟩

/-- It can be decided whether a rule is in normal form. -/
instance NamedRule.decidableInForm (nonterminals terminals : List Char) :
    (r : NamedRule) → Decidable (r.InForm nonterminals terminals)
  | ⟨_, []⟩ => isFalse fun h => nomatch h
  | ⟨x, [t]⟩ => decidable_of_iff (x ∈ nonterminals ∧ t ∈ terminals)
      ⟨fun ⟨hx, ht⟩ => .terminal hx ht, fun | .terminal hx ht => ⟨hx, ht⟩⟩
  | ⟨x, [y, z]⟩ => decidable_of_iff (x ∈ nonterminals ∧ y ∈ nonterminals ∧ z ∈ nonterminals)
      ⟨fun ⟨hx, hy, hz⟩ => .pair hx hy hz, fun | .pair hx hy hz => ⟨hx, hy, hz⟩⟩
  | ⟨_, _ :: _ :: _ :: _⟩ => isFalse fun h => nomatch h

/-- A description is proper if its start symbol is a nonterminal, no character is in both alphabets,
and its rules are in normal form. -/
structure ProperDescription (start : Char) (nonterminals terminals : List Char)
    (rules : List NamedRule) : Prop where
  start_mem : start ∈ nonterminals
  disjoint : nonterminals.Disjoint terminals
  inForm : ∀ r ∈ rules, r.InForm nonterminals terminals

/-- Only the members of the alphabets matter for the form of a rule. -/
lemma NamedRule.InForm.mono {nonterminals' terminals' : List Char} {r : NamedRule}
    (hn : nonterminals ⊆ nonterminals') (ht : terminals ⊆ terminals')
    (h : r.InForm nonterminals terminals) : r.InForm nonterminals' terminals' := by
  cases h with
  | terminal hx hy => exact .terminal (hn hx) (ht hy)
  | pair hx hy hz => exact .pair (hn hx) (hn hy) (hn hz)

/-- The normal form of rules by number, where the first `k` of `n` symbols are the nonterminals. -/
inductive Rule.InForm (k n : Nat) : Rule → Prop where
  | terminal {a t : Symbol} (ha : a.toNat < k) (hk : k ≤ t.toNat) (hn : t.toNat < n) :
      InForm k n ⟨a, .terminal t⟩
  | pair {a b c : Symbol} (ha : a.toNat < k) (hb : b.toNat < k) (hc : c.toNat < k) :
      InForm k n ⟨a, .pair b c⟩

section Names

variable {names : Names} {k : Nat} {a : Symbol}

/-- A symbol with a small number is called by one of the first names. -/
lemma Names.display_mem_take (ha : a.toNat < names.size) (hk : a.toNat < k) :
    names.display a ∈ names.toList.take k := by
  obtain ⟨c, hc⟩ := exists_nameOf? ha
  rw [display_eq_of_nameOf? hc]
  refine List.mem_iff_getElem?.2 ⟨a.toNat, ?_⟩
  rw [List.getElem?_take_of_lt hk]
  exact hc

/-- A symbol with a larger number is called by one of the other names. -/
lemma Names.display_mem_drop (ha : a.toNat < names.size) (hk : k ≤ a.toNat) :
    names.display a ∈ names.toList.drop k := by
  obtain ⟨c, hc⟩ := exists_nameOf? ha
  rw [display_eq_of_nameOf? hc]
  refine List.mem_iff_getElem?.2 ⟨a.toNat - k, ?_⟩
  rw [List.getElem?_drop, Nat.add_sub_cancel' hk]
  exact hc

/-- If no name of the first `k` symbols is one of the others, then a symbol that has the name of one
of the first is one of them. -/
lemma Names.display_mem_take_iff (hdisj : (names.toList.take k).Disjoint (names.toList.drop k))
    (ha : a.toNat < names.size) : names.display a ∈ names.toList.take k ↔ a.toNat < k := by
  refine ⟨fun h => Nat.lt_of_not_le fun hk => ?_, display_mem_take ha⟩
  exact hdisj h (display_mem_drop ha hk)

/-- If no name is in both parts, the part that a name is in tells whether its symbol has a larger number. -/
lemma Names.display_mem_drop_iff (hdisj : (names.toList.take k).Disjoint (names.toList.drop k))
    (ha : a.toNat < names.size) : names.display a ∈ names.toList.drop k ↔ k ≤ a.toNat := by
  refine ⟨fun h => Nat.le_of_not_lt fun hk => ?_, display_mem_drop ha⟩
  exact hdisj (display_mem_take ha hk) h

/-- A rule on symbols with names is in normal form if it is so on these names, as long as no name is
both that of a nonterminal and that of a terminal. -/
lemma Rule.inForm_named_iff (hdisj : (names.toList.take k).Disjoint (names.toList.drop k)) {r : Rule}
    (hlhs : r.lhs.toNat < names.size) (hrhs : ∀ a ∈ r.rhs.symbols, a.toNat < names.size) :
    (r.named names).InForm (names.toList.take k) (names.toList.drop k) ↔ r.InForm k names.size := by
  obtain ⟨a, rhs⟩ := r
  cases rhs with
  | terminal t =>
    have ht : t.toNat < names.size := hrhs t List.mem_cons_self
    constructor
    · intro h
      cases h with
      | terminal hx ht' =>
        exact .terminal ((Names.display_mem_take_iff hdisj hlhs).1 hx)
          ((Names.display_mem_drop_iff hdisj ht).1 ht') ht
    · intro h
      cases h with
      | terminal ha hk hn =>
        exact .terminal (Names.display_mem_take hlhs ha) (Names.display_mem_drop hn hk)
  | pair b c =>
    have hb : b.toNat < names.size := hrhs b List.mem_cons_self
    have hc : c.toNat < names.size := hrhs c (List.mem_cons_of_mem _ List.mem_cons_self)
    constructor
    · intro h
      cases h with
      | pair hx hy hz =>
        exact .pair ((Names.display_mem_take_iff hdisj hlhs).1 hx)
          ((Names.display_mem_take_iff hdisj hb).1 hy) ((Names.display_mem_take_iff hdisj hc).1 hz)
    · intro h
      cases h with
      | pair ha hl hm =>
        exact .pair (Names.display_mem_take hlhs ha) (Names.display_mem_take hb hl)
          (Names.display_mem_take hc hm)

end Names

/-- A rule on characters denotes a rule on symbols if it is in normal form over the names of the
first `k` symbols and the other names, where a name in both counts as one of the first. -/
lemma NamedRule.exists_denotes_iff {names : Names} (h : names.size ≤ UInt32.size) {k : Nat}
    {named : NamedRule} :
    (∃ r, named.Denotes names k r) ↔
      named.InForm (names.toList.take k)
        ((names.toList.drop k).filter fun c => c ∉ names.toList.take k) := by
  have hlater : ∀ {c : Char}, c ∈ (names.toList.drop k).filter (fun c => c ∉ names.toList.take k) ↔
      ∃ a, names.symbolOf? c = some a ∧ k ≤ a.toNat := by
    intro c
    rw [Names.exists_le_symbolOf?_iff h, List.mem_filter, decide_eq_true_iff]
  constructor
  · rintro ⟨r, hr⟩
    cases hr with
    | terminal hc ha hn ht =>
      exact .terminal ((Names.exists_symbolOf?_lt_iff h).1 ⟨_, hc, ha⟩) (hlater.2 ⟨_, hn, ht⟩)
    | pair hc ha hx hl hy hr =>
      exact .pair ((Names.exists_symbolOf?_lt_iff h).1 ⟨_, hc, ha⟩)
        ((Names.exists_symbolOf?_lt_iff h).1 ⟨_, hx, hl⟩)
        ((Names.exists_symbolOf?_lt_iff h).1 ⟨_, hy, hr⟩)
  · intro hform
    cases hform with
    | terminal hx ht =>
      obtain ⟨a, hc, ha⟩ := (Names.exists_symbolOf?_lt_iff h).2 hx
      obtain ⟨t, hn, hk⟩ := hlater.1 ht
      exact ⟨_, .terminal hc ha hn hk⟩
    | pair hx hy hz =>
      obtain ⟨a, hc, ha⟩ := (Names.exists_symbolOf?_lt_iff h).2 hx
      obtain ⟨l, hl, hlk⟩ := (Names.exists_symbolOf?_lt_iff h).2 hy
      obtain ⟨m, hm, hmk⟩ := (Names.exists_symbolOf?_lt_iff h).2 hz
      exact ⟨_, .pair hc ha hl hlk hm hmk⟩

/-! ## What a fresh builder accepts -/

namespace Builder

/-- A new builder names the nonterminals first, in order. -/
lemma toList_take_new :
    (new start nonterminals terminals).names.toList.take
        (new start nonterminals terminals).numNonterminals = Ascending.ofList nonterminals := by
  simp [new]

/-- It names the terminals after them, in order. -/
lemma toList_drop_new :
    (new start nonterminals terminals).names.toList.drop
        (new start nonterminals terminals).numNonterminals = Ascending.ofList terminals := by
  simp [new]

/-- A fresh builder holds an error if its alphabets share a character. -/
lemma error_new_eq_none_iff :
    (new start nonterminals terminals).error = none ↔ nonterminals.Disjoint terminals := by
  simp only [new, Option.map_eq_none_iff, List.find?_eq_none, Ascending.mem_ofList,
    List.contains_iff_mem]
  exact ⟨fun h c hc ht => h c ht hc, fun h c ht hc => h hc ht⟩

/-- A fresh builder accepts the rules in normal form; over alphabets that share a character, that
character counts as a nonterminal only. -/
lemma exists_denotes_new_iff {named : NamedRule} :
    (∃ r, named.Denotes (new start nonterminals terminals).names
        (new start nonterminals terminals).numNonterminals r) ↔
      named.InForm nonterminals (terminals.filter fun c => c ∉ nonterminals) := by
  have hsize := Nat.le_of_lt (Consistent.new start nonterminals terminals).size_lt
  rw [NamedRule.exists_denotes_iff hsize, toList_take_new, toList_drop_new]
  constructor
  · exact NamedRule.InForm.mono (fun c hc => Ascending.mem_ofList.1 hc) (fun c hc => by simpa using hc)
  · exact NamedRule.InForm.mono (fun c hc => Ascending.mem_ofList.2 hc) (fun c hc => by simpa using hc)

/-- Over disjoint alphabets, a fresh builder accepts the rules in normal form. -/
lemma exists_denotes_new_iff_of_disjoint (h : nonterminals.Disjoint terminals) {named : NamedRule} :
    (∃ r, named.Denotes (new start nonterminals terminals).names
        (new start nonterminals terminals).numNonterminals r) ↔
      named.InForm nonterminals terminals := by
  have hall : (terminals.filter fun c => c ∉ nonterminals) = terminals :=
    List.filter_eq_self.2 fun c hc => decide_eq_true fun hn => h hn hc
  rw [exists_denotes_new_iff, hall]

/-- Rules that denote something can all be added, whatever rules there are already. -/
lemma exists_addRules_eq_ok {b : Builder} {rules : List NamedRule}
    (h : ∀ named ∈ rules, ∃ r, NamedRule.Denotes b.names b.numNonterminals named r) :
    ∃ b', b.addRules rules = .ok b' := by
  induction rules generalizing b with
  | nil => exact ⟨b, rfl⟩
  | cons named rules ih =>
    obtain ⟨⟨r, hr⟩, hrest⟩ := List.forall_mem_cons.1 h
    have hadd := addRule_eq_ok_iff.2 ⟨r, hr, rfl⟩
    obtain ⟨b', hb'⟩ := @ih { b with rules := Ascending.insert r b.rules } hrest
    exact ⟨b', bind_eq_ok_iff.2 ⟨_, hadd, hb'⟩⟩

end Builder

namespace Grammar

variable {g g' : Grammar}

/-! ## A description determines its grammar -/

/-- Different rules on declared symbols are different on names. -/
lemma WellFormed.eq_of_named_eq (hg : g.WellFormed) {r s : Rule}
    (hr : r.lhs.toNat < g.numSymbols ∧ g.Declared r.rhs.symbols)
    (hs : s.lhs.toNat < g.numSymbols ∧ g.Declared s.rhs.symbols)
    (h : r.named g.names = s.named g.names) : r = s := by
  have hlhs : r.lhs = s.lhs := eq_of_display_eq hg hr.1 hs.1 (congrArg NamedRule.lhs h)
  have hrhs : r.rhs.symbols = s.rhs.symbols :=
    eq_of_spell_eq hg hr.2 hs.2 (congrArg NamedRule.rhs h)
  obtain ⟨a, rhs⟩ := r
  obtain ⟨b, rhs'⟩ := s
  cases rhs <;> cases rhs' <;> simp_all [Rhs.symbols]

/-- Over the same names, a grammar with more rules on names has more rules. -/
lemma WellFormed.rules_subset (hg : g.WellFormed) (hg' : g'.WellFormed)
    (hnames : g.names = g'.names) (h : g.namedRules ⊆ g'.namedRules) : g.rules ⊆ g'.rules := by
  intro r hr
  obtain ⟨s, hs, heq⟩ := List.mem_map.1 (h (List.mem_map_of_mem hr))
  have hdeclared : s.lhs.toNat < g.numSymbols ∧ g.Declared s.rhs.symbols := by
    simpa only [Declared, numSymbols, hnames] using hg'.declared hs
  rw [← hnames] at heq
  rwa [hg.eq_of_named_eq (hg.declared hr) hdeclared heq.symm]

/-- **A description determines its grammar**: well-formed grammars that agree with one description
are equal.

**Proof sketch.** All parts of a grammar but its start symbol are ascending lists, which their
members determine, and different symbols and rules differ on names. -/
theorem DescribedBy.unique (hg : g.WellFormed) (hg' : g'.WellFormed)
    (hd : g.DescribedBy start nonterminals terminals rules)
    (hd' : g'.DescribedBy start nonterminals terminals rules) : g = g' := by
  have hn : g.nonterminalNames = g'.nonterminalNames :=
    Ascending.ext hg.nonterminals_ascending hg'.nonterminals_ascending fun c => by
      rw [hd.mem_nonterminalNames, hd'.mem_nonterminalNames]
  have ht : g.terminalNames = g'.terminalNames :=
    Ascending.ext hg.terminals_ascending hg'.terminals_ascending fun c => by
      rw [hd.mem_terminalNames, hd'.mem_terminalNames]
  have hnames : g.names = g'.names := by
    have hlist : g.names.toList = g'.names.toList := by
      rw [← List.take_append_drop g.numNonterminals g.names.toList,
        ← List.take_append_drop g'.numNonterminals g'.names.toList]
      exact congrArg₂ (· ++ ·) hn ht
    exact congrArg Names.mk hlist
  have hk : g.numNonterminals = g'.numNonterminals := by
    have hlen := congrArg List.length hn
    rwa [nonterminalNames, nonterminalNames, List.length_take_of_le hg.numNonterminals_le,
      List.length_take_of_le hg'.numNonterminals_le] at hlen
  have hstart : g.start = g'.start := by
    refine Names.nameOf?_inj hg.names_nodup hd.nameOf?_start ?_
    rw [hnames]
    exact hd'.nameOf?_start
  have hnamed : ∀ r, r ∈ g.namedRules ↔ r ∈ g'.namedRules := fun r => by
    rw [hd.mem_namedRules, hd'.mem_namedRules]
  have hrules : g.rules = g'.rules :=
    Ascending.ext hg.rules_ascending hg'.rules_ascending fun r =>
      ⟨fun hr => hg.rules_subset hg' hnames (fun r => (hnamed r).1) hr,
        fun hr => hg'.rules_subset hg hnames.symm (fun r => (hnamed r).2) hr⟩
  obtain ⟨names, k, a, rs⟩ := g
  obtain ⟨names', k', a', rs'⟩ := g'
  simp only [mk.injEq]
  exact ⟨hnames, hk, hstart, hrules⟩

/-- **Equality of grammars is equality of descriptions**: well-formed grammars are equal if and only if
the descriptions that they agree with have the same start symbol and the same members. -/
theorem DescribedBy.eq_iff (hg : g.WellFormed) (hg' : g'.WellFormed) {start' : Char}
    {nonterminals' terminals' : List Char} {rules' : List NamedRule}
    (hd : g.DescribedBy start nonterminals terminals rules)
    (hd' : g'.DescribedBy start' nonterminals' terminals' rules') :
    g = g' ↔ start = start' ∧ (∀ c, c ∈ nonterminals ↔ c ∈ nonterminals') ∧
      (∀ c, c ∈ terminals ↔ c ∈ terminals') ∧ ∀ r, r ∈ rules ↔ r ∈ rules' := by
  constructor
  · rintro rfl
    refine ⟨Option.some.inj (hd.nameOf?_start.symm.trans hd'.nameOf?_start), fun c => ?_, fun c => ?_,
      fun r => ?_⟩
    · rw [← hd.mem_nonterminalNames, hd'.mem_nonterminalNames]
    · rw [← hd.mem_terminalNames, hd'.mem_terminalNames]
    · rw [← hd.mem_namedRules, hd'.mem_namedRules]
  · rintro ⟨rfl, hn, ht, hr⟩
    refine hd.unique hg hg' ⟨hd'.nameOf?_start, fun c => ?_, fun c => ?_, fun r => ?_⟩
    · rw [hd'.mem_nonterminalNames, hn]
    · rw [hd'.mem_terminalNames, ht]
    · rw [hd'.mem_namedRules, hr]

/-! ## Acceptance -/

/-- The start symbol of a fresh builder is one of its nonterminals if it is among those given. -/
lemma exists_symbolOf?_start_iff :
    (∃ a, (Builder.new start nonterminals terminals).names.symbolOf? start = some a ∧
        a.toNat < (Builder.new start nonterminals terminals).numNonterminals) ↔
      start ∈ nonterminals := by
  have hsize := Nat.le_of_lt (Builder.Consistent.new start nonterminals terminals).size_lt
  rw [Names.exists_symbolOf?_lt_iff hsize, Builder.toList_take_new, Ascending.mem_ofList]

/-- A proper description is accepted: the rules in normal form denote rules on symbols, a fresh
builder over disjoint alphabets holds no error, and the start symbol is found. -/
lemma exists_ofRules_eq_ok (h : ProperDescription start nonterminals terminals rules) :
    ∃ g, ofRules start nonterminals terminals rules = .ok g := by
  have hdenotes : ∀ r ∈ rules, ∃ s, r.Denotes (Builder.new start nonterminals terminals).names
      (Builder.new start nonterminals terminals).numNonterminals s := fun r hr =>
    (Builder.exists_denotes_new_iff_of_disjoint h.disjoint).2 (h.inForm r hr)
  obtain ⟨b, hb⟩ := Builder.exists_addRules_eq_ok hdenotes
  obtain ⟨a, ha, hlt⟩ := exists_symbolOf?_start_iff.2 h.start_mem
  have herr : (Builder.new start nonterminals terminals).error = none :=
    Builder.error_new_eq_none_iff.2 h.disjoint
  refine ⟨⟨b.names, b.numNonterminals, a, b.rules⟩, bind_eq_ok_iff.2 ⟨b, hb, ?_⟩⟩
  rw [(Builder.addRules_eq_ok hb).1]
  exact Builder.build_eq_ok_iff.2 ⟨herr, a, ha, hlt, rfl⟩

/-- Whatever is accepted is proper. -/
lemma proper_of_ofRules (h : ofRules start nonterminals terminals rules = .ok g) :
    ProperDescription start nonterminals terminals rules := by
  obtain ⟨b, hb, hbuild⟩ := bind_eq_ok_iff.1 h
  obtain ⟨hframe, hall, -⟩ := Builder.addRules_eq_ok hb
  rw [hframe] at hbuild
  obtain ⟨hnone, a, ha, hlt, -⟩ := Builder.build_eq_ok_iff.1 hbuild
  have herr : (Builder.new start nonterminals terminals).error = none := hnone
  have hdisj := Builder.error_new_eq_none_iff.1 herr
  exact {
    start_mem := exists_symbolOf?_start_iff.1 ⟨a, ha, hlt⟩
    disjoint := hdisj
    inForm := fun r hr => (Builder.exists_denotes_new_iff_of_disjoint hdisj).1 (hall r hr) }

/-- **A description is accepted if and only if it is proper**, and it gives the one well-formed
grammar that agrees with it. -/
theorem ofRules_eq_ok_iff :
    ofRules start nonterminals terminals rules = .ok g ↔
      ProperDescription start nonterminals terminals rules ∧ g.WellFormed ∧
        g.DescribedBy start nonterminals terminals rules := by
  constructor
  · intro h
    exact ⟨proper_of_ofRules h, wellFormed_of_ofRules h, describedBy_of_ofRules h⟩
  · rintro ⟨hproper, hg, hd⟩
    obtain ⟨g', hbuilt⟩ := exists_ofRules_eq_ok hproper
    rw [DescribedBy.unique hg (wellFormed_of_ofRules hbuilt) hd (describedBy_of_ofRules hbuilt)]
    exact hbuilt

end Grammar

end Chomsky
