import Chomsky.Proofs.Document.Groups
import Chomsky.Proofs.ProperDescription

set_option autoImplicit false

/-!
# Rebuilding a grammar from a document

A document speaks of symbols by number, and its grammar is built from their names.  So a document
gives what the description gives that is read off its names, as long as every number in use has one.
A number without a name is an error of its own, which no step of a builder can raise.

## Main definitions

* `Chomsky.Document.Named` — all symbols of a rule have names.
* `Chomsky.Document.builder` — the fresh builder that the rules of a document are added to.
* `Chomsky.Document.Accepts` — a rule of a document can be added.

## Main results

* `Chomsky.Document.toGrammar_eq_ok_iff` — the grammar of a document is that of its description.
* `Chomsky.Document.toGrammar_eq_unknownSymbol_iff` — when the error is a number without a name.
-/

namespace Chomsky

/-- A computation in two parts fails if one of them does. -/
lemma bind_eq_error_iff {ε α β : Type} {x : Except ε α} {f : α → Except ε β} {e : ε} :
    (x >>= f) = .error e ↔ x = .error e ∨ ∃ a, x = .ok a ∧ f a = .error e := by
  cases x with
  | error e' => simp [bind, Except.bind]
  | ok a => simp [bind, Except.bind]

/-! ## Errors of builders -/

/-- Whether an error is a number without a name. -/
def GrammarError.isUnknown : GrammarError → Bool
  | unknownSymbol _ => true
  | _ => false

namespace Builder

variable {b b' : Builder} {c lhs : Char} {text : List Char} {e : GrammarError}

/-- A name that is not declared is not called an unknown symbol. -/
lemma isUnknown_of_lookup (h : b.lookup c = .error e) : e.isUnknown = false := by
  unfold lookup at h
  split at h
  · exact absurd h (by simp)
  · obtain rfl := Except.error.inj h
    rfl

/-- A look-up that refuses terminals has the error of a look-up, or the one it refuses them with. -/
lemma isUnknown_of_lookup_nonterminal {e' : GrammarError} (he' : e'.isUnknown = false)
    (h : (do let s ← b.lookup c; if b.isNonterminal s then .ok s else .error e') = .error e) :
    e.isUnknown = false := by
  rcases bind_eq_error_iff.1 h with h | ⟨s, -, h⟩
  · exact isUnknown_of_lookup h
  · split_ifs at h
    obtain rfl := Except.error.inj h
    exact he'

/-- Nor is a left-hand side that is refused. -/
lemma isUnknown_of_leftSide (h : b.leftSide c = .error e) : e.isUnknown = false :=
  isUnknown_of_lookup_nonterminal rfl h

/-- Nor is a member of a pair that is refused. -/
lemma isUnknown_of_pairMember (h : b.pairMember lhs c = .error e) : e.isUnknown = false :=
  isUnknown_of_lookup_nonterminal rfl h

/-- Nor is a right-hand side that is refused. -/
lemma isUnknown_of_parseRhs (h : b.parseRhs lhs text = .error e) : e.isUnknown = false := by
  unfold parseRhs at h
  split at h
  · rcases bind_eq_error_iff.1 h with h | ⟨t, -, h⟩
    · exact isUnknown_of_lookup h
    · split_ifs at h
      obtain rfl := Except.error.inj h
      rfl
  · rcases bind_eq_error_iff.1 h with h | ⟨l, -, h⟩
    · exact isUnknown_of_pairMember h
    · rcases bind_eq_error_iff.1 h with h | ⟨m, -, h⟩
      · exact isUnknown_of_pairMember h
      · exact absurd h (by simp)
  · obtain rfl := Except.error.inj h
    rfl

/-- A rule is never refused for a number. -/
lemma isUnknown_of_addRule (h : b.addRule lhs text = .error e) : e.isUnknown = false := by
  rcases bind_eq_error_iff.1 h with h | ⟨r, -, h⟩
  · rcases bind_eq_error_iff.1 h with h | ⟨a, -, h⟩
    · exact isUnknown_of_leftSide h
    · rcases bind_eq_error_iff.1 h with h | ⟨s, -, h⟩
      · exact isUnknown_of_parseRhs h
      · exact absurd h (by simp)
  · exact absurd h (by simp)

/-- The error of a fresh builder, after rules were added, is about its alphabets or its start
symbol. -/
lemma isUnknown_of_build {start : Char} {nonterminals terminals : List Char}
    {rules : List NamedRule} (hb : (new start nonterminals terminals).addRules rules = .ok b)
    (h : b.build = .error e) : e.isUnknown = false := by
  have herr : b.error = (new start nonterminals terminals).error := by rw [(addRules_eq_ok hb).1]
  unfold build at h
  split at h
  · rename_i e' he'
    obtain rfl := Except.error.inj h
    rw [herr] at he'
    obtain ⟨c, -, rfl⟩ := Option.map_eq_some_iff.1 he'
    rfl
  · split at h
    · exact absurd h (by simp)
    · obtain rfl := Except.error.inj h
      rfl

end Builder

/-! ## Rules by number -/

namespace Document

variable {d : Document} {b b' : Builder} {r : Rule} {rules : List Rule}

/-- All symbols of a rule have names. -/
def Named (d : Document) (r : Rule) : Prop :=
  r.lhs.toNat < d.names.size ∧ ∀ a ∈ r.rhs.symbols, a.toNat < d.names.size

/-- A symbol with a name is called by it. -/
lemma nameOf_eq_ok {a : Symbol} (h : a.toNat < d.names.size) :
    d.nameOf a = .ok (d.names.display a) := by
  obtain ⟨c, hc⟩ := Names.exists_nameOf? h
  rw [nameOf, hc, Names.display_eq_of_nameOf? hc]

/-- A symbol without a name is unknown. -/
lemma nameOf_eq_error {a : Symbol} (h : ¬ a.toNat < d.names.size) :
    d.nameOf a = .error (.unknownSymbol a) := by
  have hnone : d.names.nameOf? a = none := List.getElem?_eq_none (Nat.le_of_not_lt h)
  rw [nameOf, hnone]

/-- Symbols with names are spelled by them. -/
lemma mapM_nameOf_eq_ok {w : Word} (h : ∀ a ∈ w, a.toNat < d.names.size) :
    w.mapM d.nameOf = .ok (w.map d.names.display) := by
  induction w with
  | nil => rfl
  | cons a w ih =>
    obtain ⟨ha, hw⟩ := List.forall_mem_cons.1 h
    rw [List.mapM_cons, nameOf_eq_ok ha, ih hw]
    rfl

/-- A symbol without a name makes a right-hand side unknown. -/
lemma mapM_nameOf_eq_error {w : Word} (h : ¬ ∀ a ∈ w, a.toNat < d.names.size) :
    ∃ a, w.mapM d.nameOf = .error (.unknownSymbol a) := by
  induction w with
  | nil => exact absurd (by simp) h
  | cons a w ih =>
    rw [List.mapM_cons]
    by_cases ha : a.toNat < d.names.size
    · have hw : ¬ ∀ s ∈ w, s.toNat < d.names.size := fun hw => h (List.forall_mem_cons.2 ⟨ha, hw⟩)
      obtain ⟨s, hs⟩ := ih hw
      exact ⟨s, by rw [nameOf_eq_ok ha, hs]; rfl⟩
    · exact ⟨a, by rw [nameOf_eq_error ha]; rfl⟩

/-- A rule is added by its names. -/
lemma addRule_of_named (h : d.Named r) :
    d.addRule b r = b.addRule (r.named d.names).lhs (r.named d.names).rhs := by
  rw [addRule, mapM_nameOf_eq_ok h.2, nameOf_eq_ok h.1]
  rfl

/-- A rule with a number without a name is refused for that number. -/
lemma addRule_of_not_named (h : ¬ d.Named r) :
    ∃ a, d.addRule b r = .error (.unknownSymbol a) := by
  unfold addRule
  by_cases hrhs : ∀ a ∈ r.rhs.symbols, a.toNat < d.names.size
  · have hlhs : ¬ r.lhs.toNat < d.names.size := fun hlhs => h ⟨hlhs, hrhs⟩
    exact ⟨r.lhs, by rw [mapM_nameOf_eq_ok hrhs, nameOf_eq_error hlhs]; rfl⟩
  · obtain ⟨a, ha⟩ := mapM_nameOf_eq_error hrhs
    exact ⟨a, by rw [ha]; rfl⟩

/-- A rule that is added has names for all its symbols. -/
lemma named_of_addRule (h : d.addRule b r = .ok b') : d.Named r := by
  by_contra hnot
  obtain ⟨a, ha⟩ := addRule_of_not_named (b := b) hnot
  exact absurd (ha.symm.trans h) (by simp)

/-- Rules are added by their names. -/
lemma addRules_eq_ok_iff :
    d.addRules b rules = .ok b' ↔
      (∀ r ∈ rules, d.Named r) ∧ b.addRules (rules.map fun r => r.named d.names) = .ok b' := by
  induction rules generalizing b with
  | nil => simp [addRules, Builder.addRules]
  | cons r rules ih =>
    simp only [addRules, List.map_cons, Builder.addRules, bind_eq_ok_iff, ih, List.forall_mem_cons]
    constructor
    · rintro ⟨b₁, h, hrules, h'⟩
      have hr := named_of_addRule h
      exact ⟨⟨hr, hrules⟩, b₁, addRule_of_named hr ▸ h, h'⟩
    · rintro ⟨⟨hr, hrules⟩, b₁, h, h'⟩
      exact ⟨b₁, (addRule_of_named hr).trans h, hrules, h'⟩

/-- Adding rules fails for a number if some rule has one without a name and all rules before it are
added. -/
lemma addRules_eq_unknownSymbol_iff :
    (∃ a, d.addRules b rules = .error (.unknownSymbol a)) ↔
      ∃ before r after, rules = before ++ r :: after ∧ ¬ d.Named r ∧
        ∃ b', d.addRules b before = .ok b' := by
  induction rules generalizing b with
  | nil => simp [addRules]
  | cons r rules ih =>
    constructor
    · rintro ⟨a, h⟩
      rcases bind_eq_error_iff.1 h with h | ⟨b₁, hadd, h⟩
      · refine ⟨[], r, rules, rfl, fun hr => ?_, b, rfl⟩
        have hknown := Builder.isUnknown_of_addRule ((addRule_of_named hr).symm.trans h)
        exact absurd hknown (by simp [GrammarError.isUnknown])
      · obtain ⟨before, s, after, rfl, hs, b', hb'⟩ := ih.1 ⟨a, h⟩
        exact ⟨r :: before, s, after, rfl, hs, b', bind_eq_ok_iff.2 ⟨b₁, hadd, hb'⟩⟩
    · rintro ⟨before, s, after, heq, hs, b', hb'⟩
      cases before with
      | nil =>
        obtain ⟨rfl, rfl⟩ := List.cons.inj heq
        obtain ⟨a, ha⟩ := addRule_of_not_named (b := b) hs
        exact ⟨a, bind_eq_error_iff.2 (.inl ha)⟩
      | cons r' before =>
        obtain ⟨rfl, rfl⟩ := List.cons.inj heq
        obtain ⟨b₁, h, hb'⟩ := bind_eq_ok_iff.1 hb'
        obtain ⟨a, ha⟩ := ih.2 ⟨before, s, after, rfl, hs, b', hb'⟩
        exact ⟨a, bind_eq_error_iff.2 (.inr ⟨b₁, h, ha⟩)⟩

/-! ## The grammar of a document -/

/-- The fresh builder that the rules of a document are added to. -/
def builder (d : Document) (start : Char) : Builder :=
  .new start (d.names.toList.take d.numNonterminals) (d.names.toList.drop d.numNonterminals)

/-- The rules of a document on the names of their symbols. -/
def namedRules (d : Document) : List NamedRule := (ungroup d.rules).map fun r => r.named d.names

/-- A rule of a document can be added: its symbols have names, and the builder takes these. -/
def Accepts (d : Document) (r : Rule) : Prop :=
  ∀ start, ∃ b, d.addRule (d.builder start) r = .ok b

/-- A rule is accepted if its symbols have names and it is in normal form over these; a name in both
alphabets counts as a nonterminal only. -/
lemma accepts_iff :
    d.Accepts r ↔ d.Named r ∧ (r.named d.names).InForm (d.names.toList.take d.numNonterminals)
      ((d.names.toList.drop d.numNonterminals).filter
        fun c => c ∉ d.names.toList.take d.numNonterminals) := by
  constructor
  · intro h
    obtain ⟨b, hb⟩ := h default
    have hr := named_of_addRule hb
    obtain ⟨s, hs, -⟩ := Builder.addRule_eq_ok_iff.1 ((addRule_of_named hr).symm.trans hb)
    exact ⟨hr, Builder.exists_denotes_new_iff.1 ⟨s, hs⟩⟩
  · rintro ⟨hr, hform⟩ start
    obtain ⟨s, hs⟩ := (@Builder.exists_denotes_new_iff start).2 hform
    exact ⟨_, (addRule_of_named hr).trans (Builder.addRule_eq_ok_iff.2 ⟨s, hs, rfl⟩)⟩

/-- Rules are added one after the other if each of them is accepted. -/
lemma exists_addRules_eq_ok_iff {start : Char} :
    (∃ b, d.addRules (d.builder start) rules = .ok b) ↔ ∀ r ∈ rules, d.Accepts r := by
  simp only [accepts_iff, addRules_eq_ok_iff]
  constructor
  · rintro ⟨b, hnamed, hb⟩ r hr
    have hall := (Builder.addRules_eq_ok hb).2.1 _ (List.mem_map_of_mem hr)
    exact ⟨hnamed r hr, Builder.exists_denotes_new_iff.1 hall⟩
  · intro h
    have hall : ∀ named ∈ rules.map fun r => r.named d.names, ∃ s,
        named.Denotes (d.builder start).names (d.builder start).numNonterminals s := by
      rintro named hn
      obtain ⟨r, hr, rfl⟩ := List.mem_map.1 hn
      exact Builder.exists_denotes_new_iff.2 (h r hr).2
    obtain ⟨b, hb⟩ := Builder.exists_addRules_eq_ok hall
    exact ⟨b, fun r hr => (h r hr).1, hb⟩

/-- The start symbol is looked up by its number. -/
lemma nameOf_start_eq_ok_iff {c : Char} :
    d.nameOf d.start = .ok c ↔ d.names.nameOf? d.start = some c := by
  unfold nameOf
  cases d.names.nameOf? d.start with
  | none => simp
  | some c' => simp

/-- After the checks, the rules are added to a fresh builder. -/
lemma toGrammar_eq {start : Char} (hk : d.numNonterminals ≤ d.names.size)
    (hstart : d.names.nameOf? d.start = some start) :
    d.toGrammar = (d.addRules (d.builder start) (ungroup d.rules) >>= Builder.build) := by
  unfold toGrammar
  rw [if_neg (Nat.not_lt.2 hk), nameOf_start_eq_ok_iff.2 hstart]
  rfl

/-- **The grammar of a document is that of its description**, as long as every number in use has a
name. -/
theorem toGrammar_eq_ok_iff {g : Grammar} :
    d.toGrammar = .ok g ↔
      d.numNonterminals ≤ d.names.size ∧ (∀ r ∈ ungroup d.rules, d.Named r) ∧
        ∃ start, d.names.nameOf? d.start = some start ∧
          Grammar.ofRules start (d.names.toList.take d.numNonterminals)
            (d.names.toList.drop d.numNonterminals) d.namedRules = .ok g := by
  unfold toGrammar
  split_ifs with hk
  · exact ⟨fun h => absurd h (by simp), fun h => absurd hk (Nat.not_lt.2 h.1)⟩
  · simp only [bind_eq_ok_iff, nameOf_start_eq_ok_iff, addRules_eq_ok_iff, Grammar.ofRules,
      namedRules]
    constructor
    · rintro ⟨c, hc, b, ⟨hnamed, hb⟩, hbuild⟩
      exact ⟨Nat.le_of_not_lt hk, hnamed, c, hc, b, hb, hbuild⟩
    · rintro ⟨-, hnamed, c, hc, b, hb, hbuild⟩
      exact ⟨c, hc, b, ⟨hnamed, hb⟩, hbuild⟩

/-- The grammar of a document agrees with the description read off the names of the document. -/
lemma describedBy_of_toGrammar {g : Grammar} (h : d.toGrammar = .ok g) :
    g.DescribedBy (d.names.display d.start) (d.names.toList.take d.numNonterminals)
      (d.names.toList.drop d.numNonterminals) d.namedRules := by
  obtain ⟨-, -, start, hstart, hrules⟩ := toGrammar_eq_ok_iff.1 h
  rw [Names.display_eq_of_nameOf? hstart]
  exact Grammar.describedBy_of_ofRules hrules

/-- **When the error is a number without a name**: there are more nonterminals than names, the start
symbol has no name, or a rule has a symbol without one and all rules before it are accepted.

**Proof sketch.** The checks are made in this order, and neither a builder that refuses a rule nor
one that refuses to build ever speaks of numbers. -/
theorem toGrammar_eq_unknownSymbol_iff :
    (∃ a, d.toGrammar = .error (.unknownSymbol a)) ↔
      d.names.size < d.numNonterminals ∨ d.names.nameOf? d.start = none ∨
        ∃ before r after, ungroup d.rules = before ++ r :: after ∧ ¬ d.Named r ∧
          ∀ r' ∈ before, d.Accepts r' := by
  by_cases hk : d.names.size < d.numNonterminals
  · exact iff_of_true ⟨_, if_pos hk⟩ (.inl hk)
  cases hstart : d.names.nameOf? d.start with
  | none =>
    have herror : d.nameOf d.start = .error (.unknownSymbol d.start) := by rw [nameOf, hstart]
    refine iff_of_true ⟨d.start, ?_⟩ (.inr (.inl rfl))
    exact (if_neg hk).trans (bind_eq_error_iff.2 (.inl herror))
  | some start =>
    have hrules : (∃ a, d.toGrammar = .error (.unknownSymbol a)) ↔
        ∃ a, d.addRules (d.builder start) (ungroup d.rules) = .error (.unknownSymbol a) := by
      rw [toGrammar_eq (Nat.le_of_not_lt hk) hstart]
      refine exists_congr fun a => ⟨fun h => ?_, fun h => bind_eq_error_iff.2 (.inl h)⟩
      rcases bind_eq_error_iff.1 h with h | ⟨b, hb, h⟩
      · exact h
      · have hknown := Builder.isUnknown_of_build (addRules_eq_ok_iff.1 hb).2 h
        exact absurd hknown (by simp [GrammarError.isUnknown])
    refine hrules.trans (addRules_eq_unknownSymbol_iff.trans ?_)
    simp only [exists_addRules_eq_ok_iff, hk, false_or, reduceCtorEq]

end Document

end Chomsky
