import Chomsky.Document.Basic
import Chomsky.Grammar.Derivation
import Chomsky.Proofs.Naming

set_option autoImplicit false

/-!
# Grammars come out well-formed

A grammar has two origins: a builder, after any sequence of steps, and a document, which is
rebuilt rule by rule.  Either way it is well-formed, whatever the alphabets, the steps and the
document are.  The steps of a builder never change its names, so what a rule on characters denotes
is settled when the builder is made; `NamedRule.Denotes` says what it is.

## Main definitions

* `Chomsky.NamedRule.Denotes` — a rule on characters denotes a rule on symbols.
* `Chomsky.Builder.Step`, `Chomsky.Builder.run` — the steps that a builder takes.
* `Chomsky.Builder.Consistent` — the invariant of builders.
* `Chomsky.Grammar.Constructed` — the grammars that builders and documents give.
* `Chomsky.Grammar.parentheses` — a small one of them, for balanced parentheses.

## Main results

* `Chomsky.Builder.parseRule_eq_ok_iff` — parsing finds the rule that is denoted.
* `Chomsky.Builder.Consistent.run` — the invariant holds along all runs.
* `Chomsky.Grammar.Constructed.wellFormed` — all these grammars are well-formed.
-/

namespace Chomsky

/-- A computation in two parts succeeds if both do. -/
lemma bind_eq_ok_iff {ε α β : Type} {x : Except ε α} {f : α → Except ε β} {b : β} :
    (x >>= f) = .ok b ↔ ∃ a, x = .ok a ∧ f a = .ok b := by
  cases x with
  | error e => simp [bind, Except.bind]
  | ok a => simp [bind, Except.bind]

/-! ## What a rule on characters denotes -/

/-- A rule on characters denotes a rule on symbols, where the first `k` symbols of the table are
the nonterminals: every character is the name of a symbol of the right kind. -/
inductive NamedRule.Denotes (names : Names) (k : Nat) : NamedRule → Rule → Prop where
  | terminal {c n : Char} {a t : Symbol} (hc : names.symbolOf? c = some a) (ha : a.toNat < k)
      (hn : names.symbolOf? n = some t) (ht : k ≤ t.toNat) :
      Denotes names k ⟨c, [n]⟩ ⟨a, .terminal t⟩
  | pair {c x y : Char} {a l r : Symbol} (hc : names.symbolOf? c = some a) (ha : a.toNat < k)
      (hx : names.symbolOf? x = some l) (hl : l.toNat < k) (hy : names.symbolOf? y = some r)
      (hr : r.toNat < k) : Denotes names k ⟨c, [x, y]⟩ ⟨a, .pair l r⟩

/-- A rule on characters denotes at most one rule. -/
lemma NamedRule.Denotes.unique {names : Names} {k : Nat} {named : NamedRule} {r s : Rule}
    (hr : named.Denotes names k r) (hs : named.Denotes names k s) : r = s := by
  cases hr with
  | terminal hc _ hn _ =>
    cases hs with
    | terminal hc' _ hn' _ =>
      obtain rfl := Option.some.inj (hc.symm.trans hc')
      obtain rfl := Option.some.inj (hn.symm.trans hn')
      rfl
  | pair hc _ hx _ hy _ =>
    cases hs with
    | pair hc' _ hx' _ hy' _ =>
      obtain rfl := Option.some.inj (hc.symm.trans hc')
      obtain rfl := Option.some.inj (hx.symm.trans hx')
      obtain rfl := Option.some.inj (hy.symm.trans hy')
      rfl

/-- A rule on symbols has the rule that denotes it as its rule on names. -/
lemma NamedRule.Denotes.named_eq {names : Names} {k : Nat} {named : NamedRule} {r : Rule}
    (h : named.Denotes names k r) (hs : names.size ≤ UInt32.size) : r.named names = named := by
  have hname : ∀ {c : Char} {a : Symbol}, names.symbolOf? c = some a → names.display a = c :=
    fun hc => Names.display_eq_of_nameOf? (Names.nameOf?_of_symbolOf? hs hc)
  cases h with
  | terminal hc ha hn ht => simp [Rule.named, Rhs.symbols, hname hc, hname hn]
  | pair hc ha hx hl hy hr => simp [Rule.named, Rhs.symbols, hname hc, hname hx, hname hy]

namespace Builder

variable {b b' : Builder} {c : Char} {text : List Char}

/-- A name is found if it is declared, as its symbol. -/
lemma lookup_eq_ok_iff {a : Symbol} : b.lookup c = .ok a ↔ b.names.symbolOf? c = some a := by
  unfold lookup
  cases b.names.symbolOf? c with
  | none => simp
  | some a' => simp

/-- A look-up that refuses terminals finds nonterminals, whatever error it refuses them with. -/
lemma lookup_nonterminal_eq_ok_iff {a : Symbol} {e : GrammarError} :
    (do let s ← b.lookup c; if b.isNonterminal s then .ok s else .error e) = .ok a ↔
      b.names.symbolOf? c = some a ∧ a.toNat < b.numNonterminals := by
  simp only [bind_eq_ok_iff, lookup_eq_ok_iff, isNonterminal, decide_eq_true_eq]
  constructor
  · rintro ⟨s, hs, h⟩
    split_ifs at h with hlt
    obtain rfl := Except.ok.inj h
    exact ⟨hs, hlt⟩
  · rintro ⟨ha, hlt⟩
    exact ⟨a, ha, if_pos hlt⟩

/-- A left-hand side is accepted if it is a nonterminal. -/
lemma leftSide_eq_ok_iff {a : Symbol} :
    b.leftSide c = .ok a ↔ b.names.symbolOf? c = some a ∧ a.toNat < b.numNonterminals :=
  lookup_nonterminal_eq_ok_iff

/-- A member of a pair is accepted if it is a nonterminal. -/
lemma pairMember_eq_ok_iff {lhs : Char} {a : Symbol} :
    b.pairMember lhs c = .ok a ↔ b.names.symbolOf? c = some a ∧ a.toNat < b.numNonterminals :=
  lookup_nonterminal_eq_ok_iff

/-- A right-hand side is one terminal or two nonterminals. -/
lemma parseRhs_eq_ok_iff {r : Rhs} :
    b.parseRhs c text = .ok r ↔
      (∃ n t, text = [n] ∧ b.names.symbolOf? n = some t ∧ b.numNonterminals ≤ t.toNat ∧
        r = .terminal t) ∨
      ∃ x y l m, text = [x, y] ∧ b.names.symbolOf? x = some l ∧ l.toNat < b.numNonterminals ∧
        b.names.symbolOf? y = some m ∧ m.toNat < b.numNonterminals ∧ r = .pair l m := by
  unfold parseRhs
  split
  · rename_i n
    simp only [bind_eq_ok_iff, lookup_eq_ok_iff, isNonterminal, decide_eq_true_eq]
    constructor
    · rintro ⟨t, ht, h⟩
      split_ifs at h with hlt
      obtain rfl := Except.ok.inj h
      exact Or.inl ⟨n, t, rfl, ht, Nat.le_of_not_lt hlt, rfl⟩
    · rintro (⟨n', t, hn, ht, hk, rfl⟩ | ⟨x, y, l, m, hxy, -⟩)
      · obtain rfl : n = n' := by simpa using hn
        exact ⟨t, ht, if_neg (Nat.not_lt.2 hk)⟩
      · simp at hxy
  · rename_i x y
    simp only [bind_eq_ok_iff, pairMember_eq_ok_iff, Except.ok.injEq]
    constructor
    · rintro ⟨l, ⟨hx, hl⟩, m, ⟨hy, hm⟩, rfl⟩
      exact Or.inr ⟨x, y, l, m, rfl, hx, hl, hy, hm, rfl⟩
    · rintro (⟨n, t, hn, -⟩ | ⟨x', y', l, m, hxy, hx, hl, hy, hm, rfl⟩)
      · simp at hn
      · obtain ⟨rfl, rfl⟩ : x = x' ∧ y = y' := by simpa using hxy
        exact ⟨l, ⟨hx, hl⟩, m, ⟨hy, hm⟩, rfl⟩
  · rename_i h1 h2
    constructor
    · intro h
      exact absurd h (by simp)
    · rintro (⟨n, t, hn, -⟩ | ⟨x, y, l, m, hxy, -⟩)
      · exact absurd hn (h1 n)
      · exact absurd hxy (h2 x y)

/-- **Parsing finds exactly the rule that is denoted.** -/
theorem parseRule_eq_ok_iff {r : Rule} :
    b.parseRule c text = .ok r ↔
      NamedRule.Denotes b.names b.numNonterminals ⟨c, text⟩ r := by
  simp only [parseRule, bind_eq_ok_iff, leftSide_eq_ok_iff, parseRhs_eq_ok_iff, Except.ok.injEq]
  constructor
  · rintro ⟨a, ⟨hc, ha⟩, s, hs, rfl⟩
    rcases hs with ⟨n, t, rfl, hn, ht, rfl⟩ | ⟨x, y, l, m, rfl, hx, hl, hy, hm, rfl⟩
    · exact .terminal hc ha hn ht
    · exact .pair hc ha hx hl hy hm
  · intro h
    cases h with
    | terminal hc ha hn ht =>
      exact ⟨_, ⟨hc, ha⟩, _, Or.inl ⟨_, _, rfl, hn, ht, rfl⟩, rfl⟩
    | pair hc ha hx hl hy hr =>
      exact ⟨_, ⟨hc, ha⟩, _, Or.inr ⟨_, _, _, _, rfl, hx, hl, hy, hr, rfl⟩, rfl⟩

/-! ## The steps of a builder -/

/-- A rule is added if it denotes one, and nothing else changes. -/
lemma addRule_eq_ok_iff :
    b.addRule c text = .ok b' ↔
      ∃ r, NamedRule.Denotes b.names b.numNonterminals ⟨c, text⟩ r ∧
        b' = { b with rules := Ascending.insert r b.rules } := by
  simp only [addRule, bind_eq_ok_iff, parseRule_eq_ok_iff, Except.ok.injEq, eq_comm (a := b')]

/-- A rule that is added joins the rules of the builder, and nothing else changes. -/
lemma mem_rules_of_addRule (h : b.addRule c text = .ok b') :
    b' = { b with rules := b'.rules } ∧ ∀ r, r ∈ b'.rules ↔
      NamedRule.Denotes b.names b.numNonterminals ⟨c, text⟩ r ∨ r ∈ b.rules := by
  obtain ⟨r₁, hr₁, rfl⟩ := addRule_eq_ok_iff.1 h
  refine ⟨rfl, fun r => Ascending.mem_insert.trans (or_congr_left ?_)⟩
  exact ⟨fun hr => hr ▸ hr₁, fun hr => hr.unique hr₁⟩

/-- A grammar is built if no error has been kept and the start symbol is a nonterminal. -/
lemma build_eq_ok_iff {g : Grammar} :
    b.build = .ok g ↔
      b.error = none ∧ ∃ a, b.names.symbolOf? b.start = some a ∧
        a.toNat < b.numNonterminals ∧ g = ⟨b.names, b.numNonterminals, a, b.rules⟩ := by
  unfold build
  cases he : b.error with
  | some e => simp
  | none =>
    cases hs : b.names.symbolOf? b.start with
    | none => simp
    | some a =>
      by_cases ha : a.toNat < b.numNonterminals
      · simp [Option.filter, isNonterminal, ha, eq_comm]
      · simp [Option.filter, isNonterminal, ha]

/-- One call on a builder: a left-hand side for the right-hand sides that follow, a right-hand side
for the current one, or a rule with both sides. -/
inductive Step where
  | rule (lhs : Char)
  | rhs (text : List Char)
  | addRule (lhs : Char) (text : List Char)
deriving DecidableEq

/-- The builder after a step.  A refused rule leaves it as it was. -/
def perform (b : Builder) : Step → Builder
  | .rule lhs => b.rule lhs
  | .rhs text => b.rhs text
  | .addRule lhs text => (b.addRule lhs text).toOption.getD b

/-- The builder after several steps. -/
def run (b : Builder) (steps : List Step) : Builder := steps.foldl perform b

/-- The invariant of builders: the names are in order, there are few enough of them to be
numbered, no name is repeated unless an error has been kept, and every rule is denoted by one on
characters. -/
structure Consistent (b : Builder) : Prop where
  numNonterminals_le : b.numNonterminals ≤ b.names.size
  size_lt : b.names.size < UInt32.size
  nonterminals_ascending : Ascending (b.names.toList.take b.numNonterminals)
  terminals_ascending : Ascending (b.names.toList.drop b.numNonterminals)
  names_nodup : b.error = none → b.names.toList.Nodup
  rules_ascending : Ascending b.rules
  denoted : ∀ r ∈ b.rules, ∃ named, NamedRule.Denotes b.names b.numNonterminals named r

namespace Consistent

/-- Fresh builders satisfy the invariant.

**Proof sketch.** Both alphabets are ascending lists of characters, hence without repetition and
far shorter than `2 ^ 32`.  A repeated name would be one in both, and the first such is the error. -/
lemma new (start : Char) (nonterminals terminals : List Char) :
    (Builder.new start nonterminals terminals).Consistent := by
  have hns := Ascending.ofList_ascending nonterminals
  have hts := Ascending.ofList_ascending terminals
  have hlen := length_le_of_nodup hns.nodup
  have hlen' := length_le_of_nodup hts.nodup
  refine ⟨?_, ?_, ?_, ?_, fun herr => ?_, List.Pairwise.nil, fun r hr => ?_⟩
  · simp [Builder.new, Names.size]
  · simp only [Builder.new, Names.size, List.length_append, UInt32.size]
    omega
  · simpa [Builder.new] using hns
  · simpa [Builder.new] using hts
  · refine List.nodup_append.2 ⟨hns.nodup, hts.nodup, fun c hc d hd heq => ?_⟩
    have hnone := List.find?_eq_none.1 (Option.map_eq_none_iff.1 herr) d hd
    exact hnone (by simpa [heq] using hc)
  · exact absurd hr (by simp [Builder.new])

/-- A builder stays consistent when a rule is added. -/
lemma addRule (h : b.Consistent) (hb : b.addRule c text = .ok b') : b'.Consistent := by
  obtain ⟨r, hr, rfl⟩ := addRule_eq_ok_iff.1 hb
  exact { h with
    rules_ascending := Ascending.insert_ascending r h.rules_ascending
    denoted := fun s hs => by
      rcases Ascending.mem_insert.1 hs with rfl | hs
      · exact ⟨_, hr⟩
      · exact h.denoted s hs }

/-- A builder stays consistent when an error is kept. -/
lemma withError (h : b.Consistent) (e : GrammarError) :
    ({ b with error := some e } : Builder).Consistent :=
  { h with names_nodup := fun herr => absurd herr (by simp) }

/-- A right-hand side keeps the invariant, whether it is added, refused or ignored. -/
lemma rhs (h : b.Consistent) (text : List Char) : (b.rhs text).Consistent := by
  unfold Builder.rhs
  split
  · exact h
  · exact h.withError _
  · split
    · rename_i b' hb
      exact h.addRule hb
    · exact h.withError _

/-- A builder stays consistent in every step. -/
lemma perform (h : b.Consistent) (step : Step) : (b.perform step).Consistent := by
  cases step with
  | rule lhs => exact { h with }
  | rhs text => exact h.rhs text
  | addRule lhs text =>
    show ((b.addRule lhs text).toOption.getD b).Consistent
    cases hb : b.addRule lhs text with
    | error e => exact h
    | ok b' => exact h.addRule hb

/-- **The invariant holds along all runs of a builder.** -/
theorem run (h : b.Consistent) (steps : List Step) : (b.run steps).Consistent := by
  induction steps generalizing b with
  | nil => exact h
  | cons step steps ih => exact ih (h.perform step)

/-- The grammar of a builder that satisfies the invariant is well-formed.

**Proof sketch.** The names, their number and the rules are taken over.  A rule that can be
written relates symbols that are found by their names, and such symbols are declared. -/
theorem build (h : b.Consistent) {g : Grammar} (hb : b.build = .ok g) : g.WellFormed := by
  obtain ⟨herr, a, ha, hlt, rfl⟩ := build_eq_ok_iff.1 hb
  have hdeclared : ∀ {c : Char} {s : Symbol}, b.names.symbolOf? c = some s →
      s.toNat < b.names.size := fun hs =>
    Names.toNat_lt_of_nameOf? (Names.nameOf?_of_symbolOf? (Nat.le_of_lt h.size_lt) hs)
  refine ⟨h.numNonterminals_le, h.size_lt, h.nonterminals_ascending, h.terminals_ascending,
    h.names_nodup herr, hlt, h.rules_ascending, fun r hr => ?_, fun a t hr => ?_,
    fun a b c hr => ?_⟩
  · obtain ⟨named, hd⟩ := h.denoted r hr
    cases hd with
    | terminal _ ha _ _ => exact ha
    | pair _ ha _ _ _ _ => exact ha
  · obtain ⟨named, hd⟩ := h.denoted _ hr
    cases hd with
    | terminal _ _ hn ht => exact ⟨ht, hdeclared hn⟩
  · obtain ⟨named, hd⟩ := h.denoted _ hr
    cases hd with
    | pair _ _ _ hl _ hr => exact ⟨hl, hr⟩

end Consistent

/-- Adding rules in order succeeds if all of them denote rules; those join the rules of the
builder, and nothing else changes. -/
lemma addRules_eq_ok {rules : List NamedRule} (h : b.addRules rules = .ok b') :
    b' = { b with rules := b'.rules } ∧
      (∀ named ∈ rules, ∃ r, NamedRule.Denotes b.names b.numNonterminals named r) ∧
      ∀ r, r ∈ b'.rules ↔ r ∈ b.rules ∨
        ∃ named ∈ rules, NamedRule.Denotes b.names b.numNonterminals named r := by
  induction rules generalizing b with
  | nil =>
    obtain rfl := Except.ok.inj h
    exact ⟨rfl, by simp, by simp⟩
  | cons named rules ih =>
    obtain ⟨b₁, h₁, h₂⟩ := bind_eq_ok_iff.1 h
    obtain ⟨r₁, hr₁, -⟩ := addRule_eq_ok_iff.1 h₁
    obtain ⟨hframe₁, hmem₁⟩ := mem_rules_of_addRule h₁
    obtain ⟨hframe, hall, hmem⟩ := ih h₂
    rw [hframe₁] at hframe hall hmem
    refine ⟨hframe, fun n hn => ?_, fun r => ?_⟩
    · rcases List.mem_cons.1 hn with rfl | hn
      · exact ⟨r₁, hr₁⟩
      · exact hall n hn
    · rw [hmem r, hmem₁ r, List.exists_mem_cons_iff, or_assoc, or_left_comm]

/-- Rules are added in two parts as they are added at once. -/
lemma addRules_append (b : Builder) (rules rules' : List NamedRule) :
    b.addRules (rules ++ rules') = b.addRules rules >>= fun b => b.addRules rules' := by
  induction rules generalizing b with
  | nil => rfl
  | cons r rules ih => simp only [List.cons_append, addRules, ih, bind_assoc]

/-- A builder stays consistent when several rules are added. -/
lemma Consistent.addRules (h : b.Consistent) {rules : List NamedRule}
    (hb : b.addRules rules = .ok b') : b'.Consistent := by
  induction rules generalizing b with
  | nil =>
    obtain rfl := Except.ok.inj hb
    exact h
  | cons named rules ih =>
    obtain ⟨b₁, h₁, h₂⟩ := bind_eq_ok_iff.1 hb
    exact ih (h.addRule h₁) h₂

end Builder

/-! ## Both origins of grammars -/

namespace Document

variable {d : Document} {b b' : Builder}

/-- The rules of a document are added by some names. -/
lemma exists_addRules {rules : List Rule} (h : d.addRules b rules = .ok b') :
    ∃ named : List NamedRule, b.addRules named = .ok b' := by
  induction rules generalizing b with
  | nil => exact ⟨[], h⟩
  | cons r rules ih =>
    obtain ⟨b₁, h₁, h₂⟩ := bind_eq_ok_iff.1 h
    obtain ⟨text, -, h₁⟩ := bind_eq_ok_iff.1 h₁
    obtain ⟨lhs, -, h₁⟩ := bind_eq_ok_iff.1 h₁
    obtain ⟨named, hnamed⟩ := ih h₂
    exact ⟨⟨lhs, text⟩ :: named, bind_eq_ok_iff.2 ⟨b₁, h₁, hnamed⟩⟩

/-- The grammar of a document is one that alphabets, a start symbol and rules describe. -/
lemma exists_ofRules {g : Grammar} (h : d.toGrammar = .ok g) :
    ∃ (start : Char) (nonterminals terminals : List Char) (rules : List NamedRule),
      Grammar.ofRules start nonterminals terminals rules = .ok g := by
  unfold toGrammar at h
  split_ifs at h with hk
  obtain ⟨start, -, h⟩ := bind_eq_ok_iff.1 h
  obtain ⟨b, hb, h⟩ := bind_eq_ok_iff.1 h
  obtain ⟨named, hnamed⟩ := exists_addRules hb
  exact ⟨start, _, _, named, bind_eq_ok_iff.2 ⟨b, hnamed, h⟩⟩

end Document

namespace Grammar

/-- A grammar that alphabets, a start symbol and rules describe is well-formed. -/
theorem wellFormed_of_ofRules {start : Char} {nonterminals terminals : List Char}
    {rules : List NamedRule} {g : Grammar}
    (h : ofRules start nonterminals terminals rules = .ok g) : g.WellFormed := by
  obtain ⟨b, hb, h⟩ := bind_eq_ok_iff.1 h
  exact ((Builder.Consistent.new start nonterminals terminals).addRules hb).build h

/-- The grammars that there are: those built by any sequence of steps from any alphabets, and those
of documents. -/
inductive Constructed (g : Grammar) : Prop where
  | built (start : Char) (nonterminals terminals : List Char) (steps : List Builder.Step)
      (h : ((Builder.new start nonterminals terminals).run steps).build = .ok g)
  | read (d : Document) (h : d.toGrammar = .ok g)

/-- **All grammars are well-formed.** -/
theorem Constructed.wellFormed {g : Grammar} (h : g.Constructed) : g.WellFormed := by
  cases h with
  | built start nonterminals terminals steps h =>
    exact ((Builder.Consistent.new start nonterminals terminals).run steps).build h
  | read d h =>
    obtain ⟨start, nonterminals, terminals, rules, h⟩ := Document.exists_ofRules h
    exact wellFormed_of_ofRules h

/-! ## A grammar to try -/

/-- The grammar of balanced parentheses `S -> SS`, `S -> LR`, `S -> LX`, `X -> SR`, `L -> (`,
`R -> )`, with the nonterminals numbered in the order `L`, `R`, `S`, `X`. -/
def parentheses : Grammar where
  names := ⟨['L', 'R', 'S', 'X', '(', ')']⟩
  numNonterminals := 4
  start := .ofNat 2
  rules := [
    ⟨.ofNat 0, .terminal (.ofNat 4)⟩,
    ⟨.ofNat 1, .terminal (.ofNat 5)⟩,
    ⟨.ofNat 2, .pair (.ofNat 0) (.ofNat 1)⟩,
    ⟨.ofNat 2, .pair (.ofNat 0) (.ofNat 3)⟩,
    ⟨.ofNat 2, .pair (.ofNat 2) (.ofNat 2)⟩,
    ⟨.ofNat 3, .pair (.ofNat 2) (.ofNat 1)⟩]

/-- The grammar of balanced parentheses in terms of a description, with one rule given twice. -/
lemma ofRules_parentheses :
    ofRules 'S' ['X', 'S', 'R', 'L', 'S'] [')', '('] [⟨'S', ['L', 'R']⟩, ⟨'S', ['S', 'S']⟩,
        ⟨'L', ['(']⟩, ⟨'S', ['L', 'X']⟩, ⟨'X', ['S', 'R']⟩, ⟨'R', [')']⟩, ⟨'L', ['(']⟩] =
      .ok parentheses :=
  rfl

/-- A builder gives the grammar of balanced parentheses, with the alphabets and rules in another
order and one rule refused. -/
lemma constructed_parentheses : parentheses.Constructed :=
  .built 'S' ['S', 'L', 'R', 'X', 'S'] [')', '('] [.rule 'S', .rhs ['S', 'S'], .rhs ['L', 'R'],
    .rhs ['L', 'X'], .addRule 'X' ['S', 'R'], .addRule 'X' ['S'], .rule 'L', .rhs ['('],
    .rule 'R', .rhs [')']] rfl

/-- The start symbol derives `()`. -/
lemma derives_inner : parentheses.Derives (.ofNat 2) [.ofNat 4, .ofNat 5] := by
  have hl : parentheses.Derives (.ofNat 0) [.ofNat 4] := .terminal (by decide)
  have hr : parentheses.Derives (.ofNat 1) [.ofNat 5] := .terminal (by decide)
  exact .pair (by decide) hl hr

/-- The start symbol derives `(())`. -/
lemma derives_parentheses :
    parentheses.Derives (.ofNat 2) [.ofNat 4, .ofNat 4, .ofNat 5, .ofNat 5] := by
  have hl : parentheses.Derives (.ofNat 0) [.ofNat 4] := .terminal (by decide)
  have hr : parentheses.Derives (.ofNat 1) [.ofNat 5] := .terminal (by decide)
  have hx : parentheses.Derives (.ofNat 3) ([.ofNat 4, .ofNat 5] ++ [.ofNat 5]) :=
    .pair (by decide) derives_inner hr
  exact .pair (by decide) hl hx

end Grammar

end Chomsky
