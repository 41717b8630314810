import Chomsky.Proofs.Origins
import Mathlib.Data.Char
import Mathlib.Data.List.Induction

set_option autoImplicit false

/-!
# How building ends

A builder reports errors in two ways: a refused rule is reported at once and forgotten, while the first
failure of a chained right-hand side is kept for the end.  Overlapping alphabets are found when the
builder is made, and no step changes that.  So the end of building is settled by the alphabets, by the
first right-hand side that fails, and by the start symbol, in this order.

## Main definitions

* `Chomsky.Builder.lastLhs` — the left-hand side that was set last.
* `Chomsky.Builder.RhsFails`, `Chomsky.Builder.NoFailure`, `Chomsky.Builder.FirstFailure` — how
  right-hand sides among the steps fail.
* `Chomsky.Builder.Added` — the rules that the steps add.
* `Chomsky.Builder.Ends` — how building ends after given steps.

## Main results

* `Chomsky.Builder.run_frame` — what no step changes.
* `Chomsky.Builder.error_run_eq_none_iff`, `Chomsky.Builder.error_run_eq_some_iff` — the error that is
  kept.
* `Chomsky.Builder.build_run_eq_iff` — the end of building, and which rules are refused on the way.
-/

namespace Chomsky

/-- The first element of an ascending list with a property is the least. -/
lemma Ascending.find?_eq_some_iff {cs : List Char} (h : Ascending cs) {p : Char → Bool} {c : Char} :
    cs.find? p = some c ↔ c ∈ cs ∧ p c = true ∧ ∀ d ∈ cs, p d = true → c ≤ d := by
  induction cs with
  | nil => simp
  | cons d cs ih =>
    obtain ⟨hd, hcs⟩ := List.pairwise_cons.1 h
    have hlt : ∀ x ∈ cs, d < x := fun x hx => compare_lt_iff_lt.1 (hd x hx)
    cases hp : p d with
    | true =>
      rw [List.find?_cons_of_pos hp, Option.some.injEq]
      constructor
      · rintro rfl
        exact ⟨List.mem_cons_self, hp, List.forall_mem_cons.2
          ⟨fun _ => le_refl d, fun x hx _ => le_of_lt (hlt x hx)⟩⟩
      · rintro ⟨hc, -, hleast⟩
        refine le_antisymm ?_ (hleast d List.mem_cons_self hp)
        rcases List.mem_cons.1 hc with rfl | hc
        · exact le_refl c
        · exact le_of_lt (hlt c hc)
    | false =>
      rw [List.find?_cons_of_neg (by simp [hp]), ih hcs]
      constructor
      · rintro ⟨hc, hpc, hleast⟩
        exact ⟨List.mem_cons_of_mem d hc, hpc, List.forall_mem_cons.2
          ⟨fun hpd => by simp [hp] at hpd, hleast⟩⟩
      · rintro ⟨hc, hpc, hleast⟩
        refine ⟨(List.mem_cons.1 hc).resolve_left ?_, hpc, (List.forall_mem_cons.1 hleast).2⟩
        rintro rfl
        simp [hp] at hpc

namespace Builder

/-! ## What no step changes -/

/-- The left-hand side that a step sets. -/
def Step.lhs? : Step → Option Char
  | .rule c => some c
  | .rhs _ => none
  | .addRule _ _ => none

/-- The left-hand side for a right-hand side after given steps: the one that was set last. -/
def lastLhs (steps : List Step) : Option Char := (steps.filterMap Step.lhs?).getLast?

variable {b fresh : Builder} {c : Char} {text : List Char} {e : GrammarError} {step : Step}
  {before steps : List Step} {r : NamedRule}

/-- No step sets no left-hand side. -/
@[simp] lemma lastLhs_nil : lastLhs [] = none := rfl

/-- A step that sets a left-hand side replaces the one before it. -/
lemma Step.nextLhs_eq (lhs : Option Char) (step : Step) : step.nextLhs lhs = step.lhs?.or lhs := by
  cases step <;> rfl

/-- A left-hand side that is set later counts more than that of the first step. -/
lemma lastLhs_cons (step : Step) (steps : List Step) :
    lastLhs (step :: steps) = (lastLhs steps).or step.lhs? := by
  unfold lastLhs
  cases hstep : step.lhs? with
  | none => rw [List.filterMap_cons_none hstep, Option.or_none]
  | some c =>
    rw [List.filterMap_cons_some hstep, List.getLast?_cons]
    cases (steps.filterMap Step.lhs?).getLast? <;> rfl

/-- A step changes nothing but the rules, the current left-hand side and the error. -/
lemma perform_frame (b : Builder) (step : Step) :
    b.perform step = { b with
      rules := (b.perform step).rules
      lhs := step.lhs?.or b.lhs
      error := (b.perform step).error } := by
  cases step with
  | rule c => rfl
  | rhs text =>
    show b.rhs text = { b with rules := (b.rhs text).rules, error := (b.rhs text).error }
    unfold rhs
    split
    · rfl
    · rfl
    · split
      · rename_i hadd
        rw [(mem_rules_of_addRule hadd).1]
      · rfl
  | addRule c text =>
    have hframe := (mem_rules_perform_addRule b c text).1
    have herr : (b.perform (.addRule c text)).error = b.error := by rw [hframe]
    rw [herr]
    exact hframe

/-- Steps change nothing but the rules, the current left-hand side and the error. -/
theorem run_frame (b : Builder) (steps : List Step) :
    b.run steps = { b with
      rules := (b.run steps).rules
      lhs := (lastLhs steps).or b.lhs
      error := (b.run steps).error } := by
  induction steps generalizing b with
  | nil => rfl
  | cons step steps ih =>
    have hstart : (b.perform step).start = b.start := by rw [perform_frame]
    have hnames : (b.perform step).names = b.names := by rw [perform_frame]
    have hk : (b.perform step).numNonterminals = b.numNonterminals := by rw [perform_frame]
    have hlhs : (b.perform step).lhs = step.lhs?.or b.lhs := by rw [perform_frame]
    rw [lastLhs_cons, Option.or_assoc, ← hstart, ← hnames, ← hk, ← hlhs]
    exact ih (b.perform step)

/-- After some steps the left-hand side is the one that was set last, if any of them sets one. -/
lemma lhs_run (b : Builder) (steps : List Step) : (b.run steps).lhs = (lastLhs steps).or b.lhs := by
  rw [run_frame]

/-- Steps can be taken in two parts. -/
lemma run_append (b : Builder) (before steps : List Step) :
    b.run (before ++ steps) = (b.run before).run steps :=
  List.foldl_append

/-! ## Refused rules -/

/-- A rule is refused for the reason that its parts are refused for. -/
lemma addRule_eq_error_iff : b.addRule c text = .error e ↔ b.parseRule c text = .error e := by
  rw [addRule, bind_eq_error_iff]
  refine or_iff_left ?_
  rintro ⟨r, -, h⟩
  exact absurd h (by simp)

/-- What a rule means to a builder does not depend on the steps before it. -/
lemma parseRule_run (b : Builder) (steps : List Step) (c : Char) (text : List Char) :
    (b.run steps).parseRule c text = b.parseRule c text := by
  rw [run_frame]
  rfl

/-- A rule is refused for the same reason whatever the steps before it are. -/
theorem addRule_run_eq_error_iff :
    (b.run steps).addRule c text = .error e ↔ b.addRule c text = .error e := by
  rw [addRule_eq_error_iff, addRule_eq_error_iff, parseRule_run]

/-- A rule is added whatever the steps before it are, if it denotes one over the alphabets. -/
theorem exists_addRule_run_eq_ok_iff :
    (∃ b', (b.run steps).addRule c text = .ok b') ↔
      ∃ r, NamedRule.Denotes b.names b.numNonterminals ⟨c, text⟩ r := by
  have hnames : (b.run steps).names = b.names := by rw [run_frame]
  have hk : (b.run steps).numNonterminals = b.numNonterminals := by rw [run_frame]
  simp only [addRule_eq_ok_iff, hnames, hk]
  exact ⟨fun ⟨_, r, hr, _⟩ => ⟨r, hr⟩, fun ⟨r, hr⟩ => ⟨_, r, hr, rfl⟩⟩

/-- A refused rule might as well not have been given. -/
lemma run_refused (h : (b.run before).addRule c text = .error e) (later : List Step) :
    b.run (before ++ .addRule c text :: later) = b.run (before ++ later) := by
  have hperform : (b.run before).perform (.addRule c text) = b.run before := by
    show ((b.run before).addRule c text).toOption.getD (b.run before) = b.run before
    rw [h]
    rfl
  rw [run_append, run_append]
  show ((b.run before).perform (.addRule c text)).run later = (b.run before).run later
  rw [hperform]

/-! ## Failures of right-hand sides -/

/-- A right-hand side fails after given steps: no left-hand side has been set, or the rule for the one
set last is refused. -/
inductive RhsFails (fresh : Builder) (before : List Step) (text : List Char) : GrammarError → Prop where
  | missingLhs (h : lastLhs before = none) : RhsFails fresh before text .missingLhs
  | refused {c : Char} {e : GrammarError} (hlhs : lastLhs before = some c)
      (h : fresh.addRule c text = .error e) : RhsFails fresh before text e

/-- No right-hand side among the steps fails. -/
def NoFailure (fresh : Builder) (steps : List Step) : Prop :=
  ∀ before text after, steps = before ++ .rhs text :: after → ∀ e, ¬ RhsFails fresh before text e

/-- The error of the first right-hand side among the steps that fails. -/
inductive FirstFailure (fresh : Builder) : List Step → GrammarError → Prop where
  | mk {before : List Step} {text : List Char} {e : GrammarError} (hbefore : NoFailure fresh before)
      (h : RhsFails fresh before text e) (after : List Step) :
      FirstFailure fresh (before ++ .rhs text :: after) e

/-- An error is kept. -/
lemma error_run_of_some (h : b.error = some e) (steps : List Step) : (b.run steps).error = some e := by
  induction steps generalizing b with
  | nil => exact h
  | cons step steps ih =>
    refine ih ?_
    cases step with
    | rule c => exact h
    | rhs text =>
      show (b.rhs text).error = some e
      simp only [rhs, h]
    | addRule c text =>
      rw [(mem_rules_perform_addRule b c text).1]
      exact h

/-- Where there is no error yet, only a right-hand side causes one. -/
lemma error_perform_of_not_rhs (h : b.error = none) (hstep : ∀ text, step ≠ .rhs text) :
    (b.perform step).error = none := by
  cases step with
  | rule c => exact h
  | rhs text => exact absurd rfl (hstep text)
  | addRule c text =>
    rw [(mem_rules_perform_addRule b c text).1]
    exact h

/-- Where there is no error yet, a right-hand side causes one if it fails. -/
lemma error_rhs_eq_some_iff (hlhs : fresh.lhs = none) (h : (fresh.run before).error = none) :
    ((fresh.run before).rhs text).error = some e ↔ RhsFails fresh before text e := by
  have hcurrent : (fresh.run before).lhs = lastLhs before := by rw [lhs_run, hlhs, Option.or_none]
  unfold rhs
  rw [h, hcurrent]
  cases hlast : lastLhs before with
  | none =>
    constructor
    · intro heq
      obtain rfl := Option.some.inj heq
      exact .missingLhs hlast
    · rintro (_ | ⟨hc, _⟩)
      · rfl
      · simp [hlast] at hc
  | some c =>
    dsimp only
    cases hadd : (fresh.run before).addRule c text with
    | ok b' =>
      have hnone : b'.error = none := by rw [(mem_rules_of_addRule hadd).1, h]
      simp only [hnone]
      refine iff_of_false (by simp) ?_
      rintro (hmissing | ⟨hc, href⟩)
      · simp [hlast] at hmissing
      · obtain rfl := Option.some.inj (hlast.symm.trans hc)
        exact absurd (hadd.symm.trans (addRule_run_eq_error_iff.2 href)) (by simp)
    | error e' =>
      have hadd' := addRule_run_eq_error_iff.1 hadd
      constructor
      · intro heq
        obtain rfl := Option.some.inj heq
        exact .refused hlast hadd'
      · rintro (hmissing | ⟨hc, href⟩)
        · simp [hlast] at hmissing
        · obtain rfl := Option.some.inj (hlast.symm.trans hc)
          obtain rfl := Except.error.inj (hadd'.symm.trans href)
          rfl

/-- One more step makes no failure unless it is a right-hand side that fails. -/
lemma noFailure_append_singleton :
    NoFailure fresh (steps ++ [step]) ↔
      NoFailure fresh steps ∧ ∀ text, step = .rhs text → ∀ e, ¬ RhsFails fresh steps text e := by
  constructor
  · refine fun h => ⟨fun before text after hsteps => ?_, fun text hstep => ?_⟩
    · refine h before text (after ++ [step]) ?_
      rw [hsteps, List.append_assoc, List.cons_append]
    · exact h steps text [] (by rw [hstep])
  · rintro ⟨hsteps, hstep⟩ before text after heq
    rcases List.eq_nil_or_concat' after with rfl | ⟨after, last, rfl⟩
    · obtain ⟨rfl, hlast⟩ := List.append_inj' heq rfl
      exact hstep text (List.cons.inj hlast).1
    · rw [← List.cons_append, ← List.append_assoc] at heq
      exact hsteps before text after (List.append_inj' heq rfl).1

/-- **No error is kept** if no right-hand side fails. -/
theorem error_run_eq_none_iff (herr : fresh.error = none) (hlhs : fresh.lhs = none) :
    (fresh.run steps).error = none ↔ NoFailure fresh steps := by
  induction steps using List.reverseRecOn with
  | nil => exact iff_of_true herr fun before text after h => by simp at h
  | append_singleton steps step ih =>
    rw [noFailure_append_singleton, ← ih, run_append]
    constructor
    · intro h
      have hsteps : (fresh.run steps).error = none := by
        cases hkept : (fresh.run steps).error with
        | none => rfl
        | some e => exact absurd ((error_run_of_some hkept [step]).symm.trans h) (by simp)
      refine ⟨hsteps, fun text hstep e hfails => ?_⟩
      subst hstep
      exact absurd (((error_rhs_eq_some_iff hlhs hsteps).2 hfails).symm.trans h) (by simp)
    · rintro ⟨hsteps, hstep⟩
      by_cases hrhs : ∃ text, step = .rhs text
      · obtain ⟨text, rfl⟩ := hrhs
        show ((fresh.run steps).rhs text).error = none
        cases hkept : ((fresh.run steps).rhs text).error with
        | none => rfl
        | some e => exact absurd ((error_rhs_eq_some_iff hlhs hsteps).1 hkept) (hstep text rfl e)
      · exact error_perform_of_not_rhs hsteps fun text hstep => hrhs ⟨text, hstep⟩

/-- A failure stays the first one, whatever steps come later. -/
lemma FirstFailure.append (h : FirstFailure fresh steps e) (later : List Step) :
    FirstFailure fresh (steps ++ later) e := by
  cases h with
  | mk hbefore hfails after =>
    rw [List.append_assoc, List.cons_append]
    exact .mk hbefore hfails (after ++ later)

/-- **The error that is kept** is that of the first right-hand side that fails. -/
theorem error_run_eq_some_iff (herr : fresh.error = none) (hlhs : fresh.lhs = none) :
    (fresh.run steps).error = some e ↔ FirstFailure fresh steps e := by
  constructor
  · intro h
    induction steps using List.reverseRecOn with
    | nil => exact absurd (herr.symm.trans h) (by simp)
    | append_singleton steps step ih =>
      rw [run_append] at h
      cases hkept : (fresh.run steps).error with
      | some e' =>
        obtain rfl := Option.some.inj ((error_run_of_some hkept [step]).symm.trans h)
        exact (ih hkept).append [step]
      | none =>
        by_cases hrhs : ∃ text, step = .rhs text
        · obtain ⟨text, rfl⟩ := hrhs
          exact .mk ((error_run_eq_none_iff herr hlhs).1 hkept)
            ((error_rhs_eq_some_iff hlhs hkept).1 h) []
        · have hnone := error_perform_of_not_rhs hkept fun text hstep => hrhs ⟨text, hstep⟩
          exact absurd (hnone.symm.trans h) (by simp)
  · rintro ⟨hbefore, hfails, after⟩
    have hnone := (error_run_eq_none_iff herr hlhs).2 hbefore
    rw [run_append]
    exact error_run_of_some ((error_rhs_eq_some_iff hlhs hnone).2 hfails) after

/-! ## Rules that are added -/

/-- A rule is added by one of the steps: the step asks for it, with both sides or for the left-hand side
that was set last, and it is not refused. -/
structure Added (fresh : Builder) (steps : List Step) (r : NamedRule) : Prop where
  exists_step : ∃ before step after, steps = before ++ step :: after ∧
    step.asked? (lastLhs before) = some r
  accepted : ∃ b, fresh.addRule r.lhs r.rhs = .ok b

/-- The rules that steps ask for are those that one of them asks for. -/
lemma mem_asked_iff {lhs : Option Char} :
    r ∈ asked lhs steps ↔ ∃ before step after, steps = before ++ step :: after ∧
      step.asked? ((lastLhs before).or lhs) = some r := by
  induction steps generalizing lhs with
  | nil => simp [asked]
  | cons step steps ih =>
    have hlater : ∀ before, (lastLhs before).or (step.nextLhs lhs) =
        (lastLhs (step :: before)).or lhs := fun before => by
      rw [lastLhs_cons, Option.or_assoc, Step.nextLhs_eq]
    rw [asked, List.mem_append, Option.mem_toList, ih]
    constructor
    · rintro (h | ⟨before, step', after, rfl, h⟩)
      · exact ⟨[], step, steps, rfl, h⟩
      · exact ⟨step :: before, step', after, rfl, by rwa [← hlater]⟩
    · rintro ⟨before, step', after, hsteps, h⟩
      cases before with
      | nil =>
        obtain ⟨rfl, rfl⟩ := List.cons.inj hsteps
        exact .inl h
      | cons first before =>
        obtain ⟨rfl, rfl⟩ := List.cons.inj hsteps
        exact .inr ⟨before, step', after, rfl, by rwa [hlater]⟩

variable {start : Char} {nonterminals terminals : List Char} {result : Except GrammarError Grammar}

variable (start) in
/-- Over disjoint alphabets, a rule is added if it is in normal form, whatever the steps before it
are. -/
lemma exists_addRule_run_new_iff (steps : List Step) (h : nonterminals.Disjoint terminals) :
    (∃ b, ((new start nonterminals terminals).run steps).addRule c text = .ok b) ↔
      NamedRule.InForm nonterminals terminals ⟨c, text⟩ :=
  exists_addRule_run_eq_ok_iff.trans (exists_denotes_new_iff_of_disjoint h)

variable (start) in
/-- Over disjoint alphabets, the rules added are those in normal form that the steps ask for. -/
lemma mem_filter_asked_iff (h : nonterminals.Disjoint terminals) :
    r ∈ (asked none steps).filter (fun r => r.InForm nonterminals terminals) ↔
      Added (new start nonterminals terminals) steps r := by
  simp only [List.mem_filter, mem_asked_iff, Option.or_none, decide_eq_true_eq,
    ← exists_addRule_run_new_iff start [] h]
  exact ⟨fun ⟨hstep, hok⟩ => ⟨hstep, hok⟩, fun ⟨hstep, hok⟩ => ⟨hstep, hok⟩⟩

/-! ## The end of building -/

/-- How building ends after given steps.  Alphabets that overlap are an error whatever the steps are, and
the error names the least character in both.  Otherwise the first right-hand side that fails settles
the error, whatever follows it, and then a start symbol that is no nonterminal.  Otherwise there is a
grammar, and its rules are those that the steps add. -/
inductive Ends (start : Char) (nonterminals terminals : List Char) (steps : List Step) :
    Except GrammarError Grammar → Prop where
  | overlap {c : Char} (hn : c ∈ nonterminals) (ht : c ∈ terminals)
      (hleast : ∀ d ∈ nonterminals, d ∈ terminals → c ≤ d) :
      Ends start nonterminals terminals steps (.error (.overlappingAlphabets c))
  | failure {e : GrammarError} (hdisjoint : nonterminals.Disjoint terminals)
      (h : FirstFailure (new start nonterminals terminals) steps e) :
      Ends start nonterminals terminals steps (.error e)
  | start (hdisjoint : nonterminals.Disjoint terminals)
      (hnone : NoFailure (new start nonterminals terminals) steps) (hstart : start ∉ nonterminals) :
      Ends start nonterminals terminals steps (.error (.startNotNonterminal start))
  | grammar {g : Grammar} {rules : List NamedRule} (hdisjoint : nonterminals.Disjoint terminals)
      (hnone : NoFailure (new start nonterminals terminals) steps) (hstart : start ∈ nonterminals)
      (hrules : ∀ r, r ∈ rules ↔ Added (new start nonterminals terminals) steps r)
      (hg : g.WellFormed) (hd : g.DescribedBy start nonterminals terminals rules) :
      Ends start nonterminals terminals steps (.ok g)

variable (start) in
/-- A fresh builder holds the least character in both alphabets as its error. -/
lemma error_new_eq_some_iff :
    (new start nonterminals terminals).error = some e ↔ ∃ c, c ∈ nonterminals ∧ c ∈ terminals ∧
      (∀ d ∈ nonterminals, d ∈ terminals → c ≤ d) ∧ e = .overlappingAlphabets c := by
  have hts := Ascending.ofList_ascending terminals
  show (((Ascending.ofList terminals).find? _).map _) = some e ↔ _
  simp only [Option.map_eq_some_iff, Ascending.find?_eq_some_iff hts, Ascending.mem_ofList,
    List.contains_iff_mem]
  constructor
  · rintro ⟨c, ⟨ht, hn, hleast⟩, rfl⟩
    exact ⟨c, hn, ht, fun d hdn hdt => hleast d hdt hdn, rfl⟩
  · rintro ⟨c, hn, ht, hleast, rfl⟩
    exact ⟨c, ⟨ht, hn, fun d hdt hdn => hleast d hdn hdt⟩, rfl⟩

/-- An error that is kept is the result. -/
lemma build_of_error (h : b.error = some e) : b.build = .error e := by
  simp only [build, h]

/-- A builder with the names of a fresh one and without an error gives a grammar if the start symbol is
among the nonterminals given. -/
lemma exists_build_eq_ok_iff (hstart : b.start = start)
    (hnames : b.names = (new start nonterminals terminals).names)
    (hk : b.numNonterminals = (new start nonterminals terminals).numNonterminals)
    (h : b.error = none) : (∃ g, b.build = .ok g) ↔ start ∈ nonterminals := by
  rw [← @Grammar.exists_symbolOf?_start_iff start nonterminals terminals]
  simp only [build_eq_ok_iff, h, hstart, hnames, hk, true_and]
  exact ⟨fun ⟨_, a, ha, hlt, _⟩ => ⟨a, ha, hlt⟩, fun ⟨a, ha, hlt⟩ => ⟨_, a, ha, hlt, rfl⟩⟩

/-- Without an error that is kept, a grammar is built if the start symbol is a nonterminal. -/
lemma exists_build_run_eq_ok_iff (h : ((new start nonterminals terminals).run steps).error = none) :
    (∃ g, ((new start nonterminals terminals).run steps).build = .ok g) ↔ start ∈ nonterminals := by
  have hstart : ((new start nonterminals terminals).run steps).start = start := by
    rw [run_frame]
    rfl
  have hnames : ((new start nonterminals terminals).run steps).names =
      (new start nonterminals terminals).names := by rw [run_frame]
  have hk : ((new start nonterminals terminals).run steps).numNonterminals =
      (new start nonterminals terminals).numNonterminals := by rw [run_frame]
  exact exists_build_eq_ok_iff hstart hnames hk h

/-- Without an error that is kept, building fails for the start symbol alone. -/
lemma build_of_not_ok (h : b.error = none) (hnot : ¬ ∃ g, b.build = .ok g) :
    b.build = .error (.startNotNonterminal b.start) := by
  unfold build at hnot ⊢
  rw [h] at hnot ⊢
  cases hstart : (b.names.symbolOf? b.start).filter b.isNonterminal with
  | none => rfl
  | some a =>
    refine absurd ⟨⟨b.names, b.numNonterminals, a, b.rules⟩, ?_⟩ hnot
    simp only [hstart]

/-- Building ends as it is said to end. -/
lemma Ends.build_eq (h : Ends start nonterminals terminals steps result) :
    ((new start nonterminals terminals).run steps).build = result := by
  cases h with
  | overlap hn ht hleast =>
    have herr := (error_new_eq_some_iff start).2 ⟨_, hn, ht, hleast, rfl⟩
    exact build_of_error (error_run_of_some herr steps)
  | failure hdisjoint h =>
    exact build_of_error ((error_run_eq_some_iff (error_new_eq_none_iff.2 hdisjoint) rfl).2 h)
  | start hdisjoint hnone hstart =>
    have herr := (error_run_eq_none_iff (error_new_eq_none_iff.2 hdisjoint) rfl).2 hnone
    have hframe : ((new start nonterminals terminals).run steps).start = start := by
      rw [run_frame]
      rfl
    rw [build_of_not_ok herr fun hok => hstart ((exists_build_run_eq_ok_iff herr).1 hok), hframe]
  | grammar hdisjoint hnone hstart hrules hg hd =>
    have herr := (error_run_eq_none_iff (error_new_eq_none_iff.2 hdisjoint) rfl).2 hnone
    obtain ⟨g', hg'⟩ := (exists_build_run_eq_ok_iff herr).2 hstart
    have hd' := Grammar.describedBy_of_run hg'
    have hwf := ((Consistent.new start nonterminals terminals).run steps).build hg'
    rw [hg', (Grammar.DescribedBy.eq_iff hwf hg hd' hd).2
      ⟨rfl, fun _ => Iff.rfl, fun _ => Iff.rfl, fun r => ?_⟩]
    rw [mem_filter_asked_iff start hdisjoint, hrules]

/-- Building ends in some way. -/
lemma exists_ends (start : Char) (nonterminals terminals : List Char) (steps : List Step) :
    ∃ result, Ends start nonterminals terminals steps result := by
  cases hnew : (new start nonterminals terminals).error with
  | some e =>
    obtain ⟨c, hn, ht, hleast, rfl⟩ := (error_new_eq_some_iff start).1 hnew
    exact ⟨_, .overlap hn ht hleast⟩
  | none =>
    have hdisjoint := error_new_eq_none_iff.1 hnew
    cases herr : ((new start nonterminals terminals).run steps).error with
    | some e => exact ⟨_, .failure hdisjoint ((error_run_eq_some_iff hnew rfl).1 herr)⟩
    | none =>
      have hnone := (error_run_eq_none_iff hnew rfl).1 herr
      by_cases hstart : start ∈ nonterminals
      · obtain ⟨g, hg⟩ := (exists_build_run_eq_ok_iff herr).2 hstart
        exact ⟨_, .grammar hdisjoint hnone hstart (fun r => mem_filter_asked_iff start hdisjoint)
          (((Consistent.new start nonterminals terminals).run steps).build hg)
          (Grammar.describedBy_of_run hg)⟩
      · exact ⟨_, .start hdisjoint hnone hstart⟩

/-- **How building ends**, whatever the alphabets, the start symbol and the steps are.  On the way, a rule
is refused or not whatever the steps before it are; over disjoint alphabets those in normal form are
not.  A refused rule leaves the builder as it was, so the end is as if the rule had not been given.

**Proof sketch.** Steps change nothing that a rule is judged by.  Building ends in one of the ways said,
and each of them settles the result. -/
theorem build_run_eq_iff (start : Char) (nonterminals terminals : List Char) (steps : List Step) :
    let fresh := new start nonterminals terminals
    (∀ result, (fresh.run steps).build = result ↔ Ends start nonterminals terminals steps result) ∧
    (∀ c text e, (fresh.run steps).addRule c text = .error e ↔ fresh.addRule c text = .error e) ∧
    (nonterminals.Disjoint terminals → ∀ c text,
      (∃ b, (fresh.run steps).addRule c text = .ok b) ↔
        NamedRule.InForm nonterminals terminals ⟨c, text⟩) ∧
    ∀ c text e, (fresh.run steps).addRule c text = .error e → ∀ later,
      fresh.run (steps ++ .addRule c text :: later) = fresh.run (steps ++ later) := by
  refine ⟨fun result => ⟨?_, Ends.build_eq⟩, fun c text e => addRule_run_eq_error_iff,
    fun hdisjoint c text => exists_addRule_run_new_iff start steps hdisjoint,
    fun c text e hrefused later => run_refused hrefused later⟩
  rintro rfl
  obtain ⟨result, hends⟩ := exists_ends start nonterminals terminals steps
  rw [hends.build_eq]
  exact hends

/-- A right-hand side with a terminal in a pair fails, and the right-hand side after it is ignored.  A rule
is added nevertheless, and a refused one leaves no trace. -/
theorem ends_terminalInPair :
    let fresh := new 'S' ['S', 'A'] ['a']
    let steps : List Step := [.rule 'S', .rhs ['A', 'S'], .addRule 'S' ['A'], .rhs ['a', 'A'],
      .rule 'x', .rhs ['a']]
    Ends 'S' ['S', 'A'] ['a'] steps (.error (.terminalInPair 'S' 'a')) ∧
      ['S', 'A'].Disjoint ['a'] ∧ (∃ b, (fresh.run steps).addRule 'A' ['a'] = .ok b) ∧
      fresh.addRule 'S' ['A'] = .error (.unitRule 'S' 'A') ∧
      fresh.run (steps ++ [.addRule 'S' ['A'], .rule 'A']) = fresh.run (steps ++ [.rule 'A']) := by
  intro fresh steps
  have hdisjoint : ['S', 'A'].Disjoint ['a'] := by simp
  have hbuild : (fresh.run steps).build = .error (.terminalInPair 'S' 'a') := rfl
  have hfresh : fresh.addRule 'S' ['A'] = .error (.unitRule 'S' 'A') := rfl
  obtain ⟨hends, herror, hadded, hleft⟩ := build_run_eq_iff 'S' ['S', 'A'] ['a'] steps
  have hrefused := (herror 'S' ['A'] _).2 hfresh
  exact ⟨(hends _).1 hbuild, hdisjoint,
    (hadded hdisjoint 'A' ['a']).2 (.terminal (by decide) (by decide)), hfresh,
    hleft 'S' ['A'] _ hrefused [.rule 'A']⟩

end Builder

end Chomsky
