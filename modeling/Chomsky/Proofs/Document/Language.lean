import Chomsky.Proofs.Document.Validity

set_option autoImplicit false

/-!
# The language of a document

The grammar of a document numbers the symbols anew, by their names.  Read by number, the document
has a language of its own: the spellings of the words that its start symbol derives by its rules as
they stand.  No text of it is lost in the grammar, as derivations are carried along names.  Symbols
that share a name become one symbol, so the grammar may have more texts; if the names are distinct,
derivations are carried back as well, and the language is the same.

## Main definitions

* `Chomsky.Grammar.Legible` — the symbols of a grammar can be told by their names.
* `Chomsky.Document.byNumber`, `Chomsky.Document.Generates` — a document as it stands, and its
  language.

## Main results

* `Chomsky.Grammar.Legible.exists_derives` — derivations are carried along names.
* `Chomsky.Document.generates_iff_isMember` — the rules and the language of the grammar of a document.
-/

namespace Chomsky

/-! ## Derivations along names -/

section Names

variable {names names' : Names} {a b c : Symbol} {r : Rule}

/-- A rule that reads like one with a terminal has a terminal. -/
lemma Rule.exists_terminal_of_named_eq {t : Symbol}
    (h : r.named names' = (Rule.mk a (.terminal t)).named names) :
    ∃ a' t', r = ⟨a', .terminal t'⟩ ∧ names'.display a' = names.display a ∧
      names'.display t' = names.display t := by
  obtain ⟨a', rhs⟩ := r
  cases rhs with
  | terminal t' => simpa [named, Rhs.symbols] using h
  | pair b' c' => simp [named, Rhs.symbols] at h

/-- A rule that reads like one with a pair has a pair. -/
lemma Rule.exists_pair_of_named_eq (h : r.named names' = (Rule.mk a (.pair b c)).named names) :
    ∃ a' b' c', r = ⟨a', .pair b' c'⟩ ∧ names'.display a' = names.display a ∧
      names'.display b' = names.display b ∧ names'.display c' = names.display c := by
  obtain ⟨a', rhs⟩ := r
  cases rhs with
  | terminal t' => simp [named, Rhs.symbols] at h
  | pair b' c' => simpa [named, Rhs.symbols] using h

end Names

namespace Grammar

variable {g g' : Grammar} {a : Symbol} {w : Word}

/-- The symbols of a grammar can be told by their names: no two have the same one, and those in the
rules all have one. -/
structure Legible (g : Grammar) : Prop where
  names_nodup : g.names.toList.Nodup
  declared : ∀ r ∈ g.rules, r.lhs.toNat < g.numSymbols ∧ g.Declared r.rhs.symbols

/-- The symbols of a well-formed grammar can be told by their names. -/
lemma WellFormed.legible (hg : g.WellFormed) : g.Legible :=
  ⟨hg.names_nodup, fun _ hr => hg.declared hr⟩

/-- What derives a word has a name. -/
lemma Legible.lhs_declared (hg : g.Legible) (h : g.Derives a w) : a.toNat < g.numSymbols := by
  cases h with
  | terminal hr => exact (hg.declared _ hr).1
  | pair hr _ _ => exact (hg.declared _ hr).1

/-- **Derivations are carried along names** to a legible grammar that has the rules on names.

**Proof sketch.** By induction on the derivation.  The rule used has a counterpart of the same form
and names.  If it is a pair, the symbols that take over the two pieces have the names of the pair of
the counterpart, so they are that pair. -/
theorem Legible.exists_derives (hg' : g'.Legible) (hsub : g.namedRules ⊆ g'.namedRules)
    (h : g.Derives a w) :
    ∃ a' w', g'.Derives a' w' ∧ g'.names.display a' = g.names.display a ∧ g'.spell w' = g.spell w := by
  induction h with
  | @terminal a t hr =>
    obtain ⟨r', hr', hnamed⟩ := List.mem_map.1 (hsub (List.mem_map_of_mem hr))
    obtain ⟨a', t', rfl, ha, ht⟩ := Rule.exists_terminal_of_named_eq hnamed
    exact ⟨a', [t'], .terminal hr', ha, congrArg ([·]) ht⟩
  | @pair a b c u v hr _ _ ihu ihv =>
    obtain ⟨r', hr', hnamed⟩ := List.mem_map.1 (hsub (List.mem_map_of_mem hr))
    obtain ⟨a', b', c', rfl, ha, hb, hc⟩ := Rule.exists_pair_of_named_eq hnamed
    have hdeclared := (hg'.declared _ hr').2
    have hb' := hdeclared b' List.mem_cons_self
    have hc' := hdeclared c' (List.mem_cons_of_mem _ List.mem_cons_self)
    obtain ⟨b₁, u', hu, hb₁, hu'⟩ := ihu
    obtain ⟨c₁, v', hv, hc₁, hv'⟩ := ihv
    -- one symbol derives the piece and stands in the rule
    obtain rfl : b₁ = b' := Names.eq_of_display_eq hg'.names_nodup (hg'.lhs_declared hu) hb'
      (hb₁.trans hb.symm)
    obtain rfl : c₁ = c' := Names.eq_of_display_eq hg'.names_nodup (hg'.lhs_declared hv) hc'
      (hc₁.trans hc.symm)
    refine ⟨a', u' ++ v', .pair hr' hu hv, ha, ?_⟩
    rw [spell, spell, List.map_append, List.map_append]
    exact congrArg₂ (· ++ ·) hu' hv'

end Grammar

/-! ## Documents by number -/

namespace Document

variable {d : Document} {g : Grammar}

/-- The parts of a document as they stand, with its own numbers and none of the checks. -/
def byNumber (d : Document) : Grammar := ⟨d.names, d.numNonterminals, d.start, ungroup d.rules⟩

/-- A document generates a text if its start symbol derives a word by number that the names of its
symbols spell. -/
def Generates (d : Document) (text : List Char) : Prop :=
  ∃ w, d.byNumber.Derives d.start w ∧ d.byNumber.spell w = text

/-- A document with distinct names can be read by them, if it gives a grammar. -/
lemma legible_byNumber (h : d.toGrammar = .ok g) (hn : d.names.toList.Nodup) :
    d.byNumber.Legible :=
  ⟨hn, (toGrammar_eq_ok_iff.1 h).2.1⟩

/-- The grammar of a document has its rules, with every number replaced by its name. -/
lemma mem_namedRules_iff (h : d.toGrammar = .ok g) {named : NamedRule} :
    named ∈ g.namedRules ↔ named ∈ d.byNumber.namedRules :=
  (describedBy_of_toGrammar h).mem_namedRules named

/-- The start symbol of the grammar of a document has the name of that of the document. -/
lemma display_start_eq (h : d.toGrammar = .ok g) :
    g.names.display g.start = d.names.display d.start :=
  Names.display_eq_of_nameOf? (describedBy_of_toGrammar h).nameOf?_start

/-- No text is lost in the grammar of a document. -/
lemma Generates.isMember {text : List Char} (h : d.toGrammar = .ok g) (htext : d.Generates text) :
    isMember g (g.word text) = true := by
  have hg : g.WellFormed := (Grammar.Constructed.read d h).wellFormed
  obtain ⟨w, hw, rfl⟩ := htext
  obtain ⟨a, w', hw', ha, hspell⟩ :=
    hg.legible.exists_derives (fun _ hr => (mem_namedRules_iff h).2 hr) hw
  have hstart : a = g.start := Names.eq_of_display_eq hg.names_nodup (hg.legible.lhs_declared hw')
    (hg.declared_start _ List.mem_cons_self) (ha.trans (display_start_eq h).symm)
  exact (Grammar.isMember_word_iff_exists_derives hg).2 ⟨w', hstart ▸ hw', hspell⟩

/-- No text is added if the names of the document are distinct. -/
lemma generates_of_isMember {text : List Char} (h : d.toGrammar = .ok g)
    (hn : d.names.toList.Nodup) (htext : isMember g (g.word text) = true) :
    d.Generates text := by
  have hg : g.WellFormed := (Grammar.Constructed.read d h).wellFormed
  have hd := legible_byNumber h hn
  obtain ⟨w, hw, rfl⟩ := (Grammar.isMember_word_iff_exists_derives hg).1 htext
  obtain ⟨a, w', hw', ha, hspell⟩ :=
    hd.exists_derives (fun _ hr => (mem_namedRules_iff h).1 hr) hw
  obtain ⟨-, -, c, hc, -⟩ := toGrammar_eq_ok_iff.1 h
  have hstart : a = d.start := Names.eq_of_display_eq hn (hd.lhs_declared hw')
    (Names.toNat_lt_of_nameOf? hc) (ha.trans (display_start_eq h))
  exact ⟨w', hstart ▸ hw', hspell⟩

/-- **The grammar of a document keeps its rules and its language.**  The rules on characters are those
of the document with every number replaced by its name.  Every text that the document generates by
number is a member; if its names are distinct, there are no other members.

**Proof sketch.** The grammar and the document have the same rules on names, and the start symbols
have the same name.  So a derivation by number is carried along names to the grammar, in which symbols
have distinct names, and back if the names of the document are distinct too. -/
theorem generates_iff_isMember (h : d.toGrammar = .ok g) :
    (∀ named, named ∈ g.namedRules ↔ ∃ r, d.HasRule r ∧ r.named d.names = named) ∧
    (∀ text, d.Generates text → isMember g (g.word text) = true) ∧
    (d.names.toList.Nodup →
      ∀ text, isMember g (g.word text) = true ↔ d.Generates text) := by
  refine ⟨fun named => ?_, fun text htext => htext.isMember h, fun hn text =>
    ⟨generates_of_isMember h hn, fun htext => htext.isMember h⟩⟩
  rw [mem_namedRules_iff h, Grammar.namedRules, List.mem_map]
  simp only [byNumber, mem_ungroup_iff, HasRule]

/-- A document is renumbered that lists its symbols out of order.  By number it generates `aa`, and
not `ab`. -/
theorem isMember_renumbered :
    let d : Document := ⟨⟨['B', 'A', 'b', 'a']⟩, 2, .ofNat 1,
      [(.ofNat 0, [.terminal (.ofNat 3)]), (.ofNat 1, [.pair (.ofNat 0) (.ofNat 0)])]⟩
    let g : Grammar := ⟨⟨['A', 'B', 'a', 'b']⟩, 2, .ofNat 0,
      [⟨.ofNat 0, .pair (.ofNat 1) (.ofNat 1)⟩, ⟨.ofNat 1, .terminal (.ofNat 2)⟩]⟩
    (d.toGrammar = .ok g ∧ d.names.toList.Nodup) ∧
      isMember g (g.word ['a', 'a']) = true ∧ ¬ d.Generates ['a', 'b'] := by
  intro d g
  have h : d.toGrammar = .ok g := rfl
  have hn : d.names.toList.Nodup := by decide
  have hb : d.byNumber.Derives (.ofNat 0) [.ofNat 3] := .terminal (by decide)
  have haa : d.Generates ['a', 'a'] := ⟨_, .pair (by decide) hb hb, rfl⟩
  obtain ⟨-, hmember, hiff⟩ := generates_iff_isMember h
  refine ⟨⟨h, hn⟩, hmember _ haa, fun hab => ?_⟩
  -- no rule is for `b`
  obtain ⟨x, hx⟩ := Grammar.exists_namedRule_of_isMember (Grammar.Constructed.read d h).wellFormed
    ((hiff hn _).2 hab) (show 'b' ∈ ['a', 'b'] by decide)
  have hrules : g.namedRules = [⟨'A', ['B', 'B']⟩, ⟨'B', ['a']⟩] := rfl
  simp [hrules] at hx

end Document

end Chomsky
