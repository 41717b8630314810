import Chomsky.Proofs.Cache.Transparency
import Chomsky.Proofs.Document.Rebuilding

set_option autoImplicit false

/-!
# Where grammars come from

A grammar comes from the steps of a builder or from a document.  Either origin describes it on
characters: for a builder, the rules are those that its steps ask for and that are in normal form.
The grammar agrees with the description of its origin.  So grammars are equal if and only if their
origins describe the same, however often and in whatever order the characters, the rules and the steps
come.

## Main definitions

* `Chomsky.Builder.asked` — the rules that the steps of a builder ask for.
* `Chomsky.Grammar.Origin` — the origins of grammars, with their descriptions.

## Main results

* `Chomsky.Builder.run_spec` — what a run of a builder without error has added.
* `Chomsky.Grammar.Origin.describedBy` — a grammar agrees with its origin.
* `Chomsky.Grammar.eq_iff_same_description` — when grammars are equal.
-/

namespace Chomsky

/-! ## What the steps of a builder ask for -/

namespace Builder

/-- The left-hand side for right-hand sides to come, after a step. -/
def Step.nextLhs (lhs : Option Char) : Step → Option Char
  | .rule c => some c
  | .rhs _ => lhs
  | .addRule _ _ => lhs

/-- The rule that a step asks for, where `lhs` is the current left-hand side. -/
def Step.asked? (lhs : Option Char) : Step → Option NamedRule
  | .rule _ => none
  | .rhs text => lhs.map fun c => ⟨c, text⟩
  | .addRule c text => some ⟨c, text⟩

/-- The rules that several steps ask for, from the current left-hand side `lhs` on. -/
def asked (lhs : Option Char) : List Step → List NamedRule
  | [] => []
  | step :: steps => (step.asked? lhs).toList ++ asked (step.nextLhs lhs) steps

variable {b : Builder} {c : Char} {text : List Char}

/-- A right-hand side that causes no error is that of a rule that is added. -/
lemma exists_addRule_of_rhs (h : (b.rhs text).error = none) :
    ∃ c, b.lhs = some c ∧ b.addRule c text = .ok (b.rhs text) := by
  unfold rhs at h ⊢
  cases he : b.error with
  | some e => simp [he] at h
  | none =>
    cases hlhs : b.lhs with
    | none => simp [he, hlhs] at h
    | some c =>
      cases hadd : b.addRule c text with
      | error e => simp [he, hlhs, hadd] at h
      | ok b' => exact ⟨c, rfl, by simp [hadd]⟩

/-- A rule is added if it denotes one; otherwise the builder stays as it was. -/
lemma mem_rules_perform_addRule (b : Builder) (c : Char) (text : List Char) :
    b.perform (.addRule c text) = { b with rules := (b.perform (.addRule c text)).rules } ∧
      ∀ r, r ∈ (b.perform (.addRule c text)).rules ↔
        NamedRule.Denotes b.names b.numNonterminals ⟨c, text⟩ r ∨ r ∈ b.rules := by
  have hperform : b.perform (.addRule c text) = (b.addRule c text).toOption.getD b := rfl
  cases hadd : b.addRule c text with
  | ok b' =>
    rw [hperform, hadd]
    exact mem_rules_of_addRule hadd
  | error e =>
    rw [hperform, hadd]
    refine ⟨rfl, fun r => (or_iff_right fun hr => ?_).symm⟩
    exact absurd (hadd.symm.trans (addRule_eq_ok_iff.2 ⟨r, hr, rfl⟩)) (by simp)

/-- What a step without error does: it may change the current left-hand side, and the rule that it asks
for joins the rules if it denotes one. -/
lemma perform_spec {step : Step} (h : (b.perform step).error = none) :
    b.perform step = { b with rules := (b.perform step).rules, lhs := step.nextLhs b.lhs } ∧
      ∀ r, r ∈ (b.perform step).rules ↔
        (∃ named ∈ step.asked? b.lhs, named.Denotes b.names b.numNonterminals r) ∨ r ∈ b.rules := by
  cases step with
  | rule c => exact ⟨rfl, fun r => by simp [perform, rule, Step.asked?]⟩
  | rhs text =>
    obtain ⟨c, hlhs, hadd⟩ := exists_addRule_of_rhs h
    obtain ⟨hframe, hmem⟩ := mem_rules_of_addRule hadd
    refine ⟨hframe, fun r => ?_⟩
    rw [show b.perform (.rhs text) = b.rhs text from rfl, hmem, hlhs]
    simp [Step.asked?]
  | addRule c text =>
    obtain ⟨hframe, hmem⟩ := mem_rules_perform_addRule b c text
    refine ⟨hframe, fun r => ?_⟩
    rw [hmem]
    simp [Step.asked?]

/-- **What a run without error has added**: of the rules that its steps ask for, those that denote
rules.  Of the builder, only the current left-hand side and the rules change.

**Proof sketch.** By induction on the steps; an error is never dropped, so no step had one. -/
theorem run_spec {steps : List Step} (h : (b.run steps).error = none) :
    (b.error = none ∧ (b.run steps).start = b.start ∧ (b.run steps).names = b.names ∧
      (b.run steps).numNonterminals = b.numNonterminals) ∧
    ∀ r, r ∈ (b.run steps).rules ↔
      (∃ named ∈ asked b.lhs steps, named.Denotes b.names b.numNonterminals r) ∨ r ∈ b.rules := by
  induction steps generalizing b with
  | nil => exact ⟨⟨h, rfl, rfl, rfl⟩, by simp [asked, run]⟩
  | cons step steps ih =>
    obtain ⟨⟨herr, hstart, hnames, hk⟩, hmem⟩ := ih h
    obtain ⟨hframe, hstep⟩ := perform_spec herr
    have hlhs : (b.perform step).lhs = step.nextLhs b.lhs := by rw [hframe]
    have hnames' : (b.perform step).names = b.names := by rw [hframe]
    have hk' : (b.perform step).numNonterminals = b.numNonterminals := by rw [hframe]
    refine ⟨⟨?_, hstart.trans (by rw [hframe]), hnames.trans hnames', hk.trans hk'⟩,
      fun r => (hmem r).trans ?_⟩
    · rwa [hframe] at herr
    · rw [hlhs, hnames', hk', hstep]
      simp only [asked, List.mem_append, Option.mem_toList, Option.mem_def, or_and_right, exists_or]
      rw [← or_assoc, or_comm (a := ∃ named, named ∈ asked _ steps ∧ _)]

end Builder

namespace Grammar

variable {g g' : Grammar}

/-- A grammar that a builder gives agrees with the alphabets and with those rules in normal form that
the steps ask for. -/
theorem describedBy_of_run {start : Char} {nonterminals terminals : List Char}
    {steps : List Builder.Step}
    (h : ((Builder.new start nonterminals terminals).run steps).build = .ok g) :
    g.DescribedBy start nonterminals terminals
      ((Builder.asked none steps).filter fun r => r.InForm nonterminals terminals) := by
  obtain ⟨herr, -⟩ := Builder.build_eq_ok_iff.1 h
  obtain ⟨⟨hfresh, hstart, hnames, hk⟩, hmem⟩ := Builder.run_spec herr
  have hdisj := Builder.error_new_eq_none_iff.1 hfresh
  have hform : ∀ named : NamedRule,
      (∃ r, named.Denotes (Builder.new start nonterminals terminals).names
        (Builder.new start nonterminals terminals).numNonterminals r) ↔
        named.InForm nonterminals terminals := fun named =>
    Builder.exists_denotes_new_iff_of_disjoint hdisj
  refine describedBy_of_build ⟨hstart, hnames, hk⟩ (fun named hn => ?_) (fun r => ?_) h
  · rw [hnames, hk]
    exact (hform named).2 (by simpa using (List.mem_filter.1 hn).2)
  · rw [hmem, hnames, hk]
    simp only [List.mem_filter, decide_eq_true_eq]
    constructor
    · rintro (⟨named, hn, hd⟩ | hr)
      · exact ⟨named, ⟨hn, (hform named).1 ⟨r, hd⟩⟩, hd⟩
      · exact absurd hr List.not_mem_nil
    · rintro ⟨named, ⟨hn, -⟩, hd⟩
      exact .inl ⟨named, hn, hd⟩

/-! ## Origins -/

/-- Where a grammar comes from: the alphabets, the start symbol and the steps of a builder, or a
document. -/
inductive Origin where
  | built (start : Char) (nonterminals terminals : List Char) (steps : List Builder.Step)
  | read (d : Document)

namespace Origin

/-- The grammar from an origin, or the first error. -/
def toGrammar : Origin → Except GrammarError Grammar
  | built start nonterminals terminals steps =>
    ((Builder.new start nonterminals terminals).run steps).build
  | read d => d.toGrammar

/-- The start symbol that an origin describes. -/
def start : Origin → Char
  | built start _ _ _ => start
  | read d => d.names.display d.start

/-- The nonterminals that an origin describes. -/
def nonterminals : Origin → List Char
  | built _ nonterminals _ _ => nonterminals
  | read d => d.names.toList.take d.numNonterminals

/-- The terminals that an origin describes. -/
def terminals : Origin → List Char
  | built _ _ terminals _ => terminals
  | read d => d.names.toList.drop d.numNonterminals

/-- The rules that an origin describes.  Of those that the steps of a builder ask for, only the rules
in normal form count. -/
def rules : Origin → List NamedRule
  | built _ nonterminals terminals steps =>
    (Builder.asked none steps).filter fun r => r.InForm nonterminals terminals
  | read d => d.namedRules

variable {o o' : Origin}

/-- Every grammar from a builder or a document counts as constructed. -/
lemma constructed (h : o.toGrammar = .ok g) : g.Constructed := by
  cases o with
  | built start nonterminals terminals steps => exact .built _ _ _ _ h
  | read d => exact .read d h

/-- **A grammar agrees with the description of its origin.** -/
theorem describedBy (h : o.toGrammar = .ok g) :
    g.DescribedBy o.start o.nonterminals o.terminals o.rules := by
  cases o with
  | built start nonterminals terminals steps => exact describedBy_of_run h
  | read d => exact Document.describedBy_of_toGrammar h

end Origin

/-- A cache that is asked about two grammars keeps one entry for both if they are equal, and two
otherwise. -/
lemma grammars_membership_membership (g g' : Grammar) (word word' : Word) :
    ((Cache.empty.membership g word).2.1.membership g' word').2.1.stats.grammars =
      if g = g' then 1 else 2 := by
  rw [Cache.stats, ← List.length_map Prod.fst, Cache.map_fst_membership, Cache.map_fst_membership]
  by_cases h : g = g'
  · simp [Cache.empty, h]
  · simp [Cache.empty, h, Ne.symm h]

/-- **Grammars are equal if and only if they read the same**: the start symbol has the same name, and the
names of nonterminals, the names of terminals and the rules on characters are the same.  It is as good to
compare their origins, where order and repetition do not count.  A cache tells grammars apart just as
well.

**Proof sketch.** A grammar agrees with the description of its origin and with the one that is read off
it, and well-formed grammars with descriptions of the same members are equal. -/
theorem eq_iff_same_description {o o' : Origin} {g g' : Grammar} (h : o.toGrammar = .ok g)
    (h' : o'.toGrammar = .ok g') :
    (g = g' ↔ g.nameOf? g.start = g'.nameOf? g'.start ∧
      (∀ c, c ∈ g.nonterminalNames ↔ c ∈ g'.nonterminalNames) ∧
      (∀ c, c ∈ g.terminalNames ↔ c ∈ g'.terminalNames) ∧
      ∀ r, r ∈ g.namedRules ↔ r ∈ g'.namedRules) ∧
    (g = g' ↔ o.start = o'.start ∧ (∀ c, c ∈ o.nonterminals ↔ c ∈ o'.nonterminals) ∧
      (∀ c, c ∈ o.terminals ↔ c ∈ o'.terminals) ∧ ∀ r, r ∈ o.rules ↔ r ∈ o'.rules) ∧
    ∀ word word' : Word,
      ((Cache.empty.membership g word).2.1.membership g' word').2.1.stats.grammars =
        if g = g' then 1 else 2 := by
  have hg := (Origin.constructed h).wellFormed
  have hg' := (Origin.constructed h').wellFormed
  have hd := Origin.describedBy h
  have hd' := Origin.describedBy h'
  refine ⟨?_, hd.eq_iff hg hg' hd', grammars_membership_membership g g'⟩
  rw [(describedBy_self hd.nameOf?_start).eq_iff hg hg' (describedBy_self hd'.nameOf?_start),
    hd.nameOf?_start, hd'.nameOf?_start, Option.some_inj]

/-- The grammar of balanced parentheses is built again from other steps, and it is another grammar with
one more terminal or with another start symbol. -/
theorem eq_parentheses :
    let rules : List NamedRule := [⟨'R', [')']⟩, ⟨'S', ['S', 'S']⟩, ⟨'L', ['(']⟩, ⟨'S', ['L', 'X']⟩,
      ⟨'X', ['S', 'R']⟩, ⟨'S', ['L', 'R']⟩]
    let steps : List Builder.Step := rules.map fun r => .addRule r.lhs r.rhs
    let o : Origin := .built 'S' ['S', 'L', 'R', 'X'] ['(', ')'] steps
    let again : Origin := .built 'S' ['X', 'S', 'R', 'L', 'S'] [')', '('] <|
      .rule 'S' :: .rhs ['L', 'R'] :: .addRule 'S' ['L'] :: steps
    let wider : Origin := .built 'S' ['S', 'L', 'R', 'X'] ['(', ')', '-'] steps
    let inner : Origin := .built 'X' ['S', 'L', 'R', 'X'] ['(', ')'] steps
    o.toGrammar = .ok parentheses ∧ again.toGrammar = .ok parentheses ∧
      (∃ g, wider.toGrammar = .ok g ∧ parentheses ≠ g) ∧
      ∃ g, inner.toGrammar = .ok g ∧ parentheses ≠ g := by
  intro rules steps o again wider inner
  have h : o.toGrammar = .ok parentheses := rfl
  refine ⟨h, rfl, ⟨_, rfl, fun heq => ?_⟩, ⟨_, rfl, fun heq => ?_⟩⟩
  · have hwider : wider.toGrammar = .ok _ := rfl
    obtain ⟨-, -, hterminals, -⟩ := (eq_iff_same_description h hwider).2.1.1 heq
    exact absurd ((hterminals '-').2 (by decide)) (by decide)
  · have hinner : inner.toGrammar = .ok _ := rfl
    obtain ⟨hstart, -⟩ := (eq_iff_same_description h hinner).2.1.1 heq
    exact absurd hstart (by decide)

end Grammar

end Chomsky
