import Chomsky.Proofs.Derivation
import Chomsky.Proofs.Description
import Chomsky.Proofs.Recognition

set_option autoImplicit false

/-!
# Rewriting on characters

A sentential form is spelled by the names of its symbols.  The rules on characters rewrite
spellings just as the rules on symbols rewrite forms: different symbols have different names, so
no replacement on characters mistakes one symbol for another.  A text is read as a word by looking
up its characters; those that are not terminals are read as one foreign symbol, which no rule
mentions.  Together, the verdict about a text is what the rules on characters say about it.

## Main definitions

* `Chomsky.Grammar.spell` — the spelling of a sentential form.
* `Chomsky.Grammar.Declared` — a sentential form has no symbols but declared ones.

## Main results

* `Chomsky.Grammar.rewritesMany_spell_iff` — rewriting of spellings is rewriting of forms.
* `Chomsky.Grammar.isMember_word_iff`, `Chomsky.Grammar.isMember_word_iff_exists_derives` — the members
  of a grammar on characters, by rewriting and by derivations.
* `Chomsky.isMember_word_iff_rewrites` — the members in terms of a description.
-/

namespace Chomsky

/-- Whatever rewrites by some rules rewrites by more. -/
lemma NamedRule.RewritesMany.mono {rules rules' : List NamedRule} {u v : List Char}
    (hsub : rules ⊆ rules') (h : RewritesMany rules u v) : RewritesMany rules' u v := by
  induction h with
  | refl => exact .refl _
  | tail _ s ih =>
    obtain ⟨p, q, hr⟩ := s
    exact ih.tail (.step p q (hsub hr))

namespace Grammar

variable {g : Grammar} {a b : Symbol} {c : Char} {u v : Word}

/-! ## Spelling -/

/-- The spelling of a sentential form by the names of its symbols. -/
def spell (g : Grammar) (form : Word) : List Char := form.map g.names.display

/-- All symbols of a sentential form are declared. -/
def Declared (g : Grammar) (form : Word) : Prop := ∀ a ∈ form, a.toNat < g.numSymbols

/-- Declared symbols of one name are the same. -/
lemma eq_of_display_eq (hg : g.WellFormed) (ha : a.toNat < g.numSymbols)
    (hb : b.toNat < g.numSymbols) (h : g.names.display a = g.names.display b) : a = b :=
  Names.eq_of_display_eq hg.names_nodup ha hb h

/-- Forms of declared symbols that are spelled the same are the same. -/
lemma eq_of_spell_eq (hg : g.WellFormed) (hu : g.Declared u) (hv : g.Declared v)
    (h : g.spell u = g.spell v) : u = v := by
  induction u generalizing v with
  | nil => exact (List.map_eq_nil_iff.1 h.symm).symm
  | cons a u ih =>
    obtain ⟨b, v, rfl, hab, huv⟩ := List.map_eq_cons_iff.1 h.symm
    obtain ⟨ha, hu⟩ := List.forall_mem_cons.1 hu
    obtain ⟨hb, hv⟩ := List.forall_mem_cons.1 hv
    rw [eq_of_display_eq hg ha hb hab.symm, ih hu hv huv.symm]

/-- The sides of a rule consist of declared symbols. -/
lemma WellFormed.declared (hg : g.WellFormed) {r : Rule} (hr : r ∈ g.rules) :
    r.lhs.toNat < g.numSymbols ∧ g.Declared r.rhs.symbols := by
  have hk := hg.numNonterminals_le
  refine ⟨Nat.lt_of_lt_of_le (hg.lhs_lt r hr) hk, fun s hs => ?_⟩
  obtain ⟨a, rhs⟩ := r
  cases rhs with
  | terminal t =>
    obtain rfl := List.mem_singleton.1 hs
    exact (hg.terminal_of_mem a s hr).2
  | pair l m =>
    obtain ⟨hl, hm⟩ := hg.pair_of_mem a l m hr
    rcases List.mem_pair.1 hs with rfl | rfl
    · omega
    · omega

/-- The start symbol is declared. -/
lemma WellFormed.declared_start (hg : g.WellFormed) : g.Declared [g.start] :=
  List.forall_mem_singleton.2 (Nat.lt_of_lt_of_le hg.start_lt hg.numNonterminals_le)

/-! ## Rewriting of spellings -/

/-- A replacement of symbols is one of characters. -/
lemma Rewrites.spell (h : g.Rewrites u v) :
    NamedRule.Rewrites g.namedRules (g.spell u) (g.spell v) := by
  obtain ⟨p, q, hr⟩ := h
  have hstep := NamedRule.Rewrites.step (g.spell p) (g.spell q)
    (List.mem_map_of_mem (f := fun r => r.named g.names) hr)
  simpa [Grammar.spell, Rule.named, namedRules] using hstep

/-- Replacements can be made in the spelling of a form. -/
lemma RewritesMany.spell (h : g.RewritesMany u v) :
    NamedRule.RewritesMany g.namedRules (g.spell u) (g.spell v) := by
  induction h with
  | refl => exact .refl _
  | tail _ s ih => exact ih.tail s.spell

/-- A replacement of characters in a spelling is one of symbols.

**Proof sketch.** The spelling falls into the part before the replaced character, the character
and the part after it, and so does the form.  The replaced symbol has the name of the left-hand
side of the rule, hence is that symbol. -/
lemma exists_of_rewrites_spell (hg : g.WellFormed) (hu : g.Declared u) {text : List Char}
    (h : NamedRule.Rewrites g.namedRules (g.spell u) text) :
    ∃ v, text = g.spell v ∧ g.Rewrites u v ∧ g.Declared v := by
  generalize hspelled : g.spell u = before at h
  obtain ⟨p, q, hr⟩ := h
  obtain ⟨r, hmem, rfl⟩ := List.mem_map.1 hr
  obtain ⟨x, y, rfl, rfl, hy⟩ := List.map_eq_append_iff.1 hspelled
  obtain ⟨a, z, rfl, ha, rfl⟩ := List.map_eq_cons_iff.1 hy
  obtain ⟨hx, haz⟩ := List.forall_mem_append.1 hu
  obtain ⟨hlt, hz⟩ := List.forall_mem_cons.1 haz
  obtain ⟨hlhs, hrhs⟩ := hg.declared hmem
  obtain rfl : a = r.lhs := eq_of_display_eq hg hlt hlhs ha
  refine ⟨x ++ r.rhs.symbols ++ z, by simp [Grammar.spell, Rule.named], .step x z hmem, ?_⟩
  exact List.forall_mem_append.2 ⟨List.forall_mem_append.2 ⟨hx, hrhs⟩, hz⟩

/-- Replacements in the spelling of a form are made in the form. -/
lemma exists_of_rewritesMany_spell (hg : g.WellFormed) (hu : g.Declared u) {text : List Char}
    (h : NamedRule.RewritesMany g.namedRules (g.spell u) text) :
    ∃ v, text = g.spell v ∧ g.RewritesMany u v ∧ g.Declared v := by
  induction h with
  | refl => exact ⟨u, rfl, .refl u, hu⟩
  | tail _ s ih =>
    obtain ⟨v, rfl, huv, hv⟩ := ih
    obtain ⟨w, rfl, hvw, hw⟩ := exists_of_rewrites_spell hg hv s
    exact ⟨w, rfl, huv.tail hvw, hw⟩

/-- **Rewriting of spellings is rewriting of forms.** -/
theorem rewritesMany_spell_iff (hg : g.WellFormed) (hu : g.Declared u) (hv : g.Declared v) :
    NamedRule.RewritesMany g.namedRules (g.spell u) (g.spell v) ↔ g.RewritesMany u v := by
  refine ⟨fun h => ?_, RewritesMany.spell⟩
  obtain ⟨w, hvw, huw, hw⟩ := exists_of_rewritesMany_spell hg hu h
  rw [eq_of_spell_eq hg hv hw hvw]
  exact huw

/-! ## Reading texts -/

/-- A character that is the name of a terminal is read as that terminal. -/
lemma letter_of_mem (hg : g.WellFormed) (hc : c ∈ g.terminalNames) :
    g.isTerminal (g.letter c) = true ∧ g.names.display (g.letter c) = c := by
  obtain ⟨t, ht, hname⟩ := (mem_terminalNames_iff hg).1 hc
  have hfound : g.symbolOf? c = some t :=
    (Names.symbolOf?_eq_some_iff hg.names_nodup (Nat.le_of_lt hg.numSymbols_lt)).2 hname
  have hletter : g.letter c = t := by
    simp [letter, hfound, Option.filter, ht]
  rw [hletter]
  exact ⟨ht, Names.display_eq_of_nameOf? hname⟩

/-- Any other character is read as the foreign symbol. -/
lemma letter_of_not_mem (hg : g.WellFormed) (hc : c ∉ g.terminalNames) :
    g.letter c = g.foreign := by
  unfold letter
  cases hs : g.symbolOf? c with
  | none => rfl
  | some a =>
    have hname := Names.nameOf?_of_symbolOf? (Nat.le_of_lt hg.numSymbols_lt) hs
    have hnot : g.isTerminal a = false :=
      Bool.eq_false_iff.2 fun ha => hc ((mem_terminalNames_iff hg).2 ⟨a, ha, hname⟩)
    simp [Option.filter, hnot]

/-- The number of the foreign symbol is the first that is not in use. -/
lemma toNat_foreign (hg : g.WellFormed) : g.foreign.toNat = g.numSymbols := by
  rw [foreign, Symbol.toNat_ofNat, Nat.mod_eq_of_lt hg.numSymbols_lt]

/-- The foreign symbol is no terminal. -/
lemma isTerminal_foreign (hg : g.WellFormed) : g.isTerminal g.foreign = false := by
  simp [isTerminal, toNat_foreign hg]

/-- The characters read as terminals are the names of the terminals. -/
lemma isTerminal_letter_iff (hg : g.WellFormed) :
    g.isTerminal (g.letter c) = true ↔ c ∈ g.terminalNames := by
  by_cases hc : c ∈ g.terminalNames
  · exact iff_of_true (letter_of_mem hg hc).1 hc
  · rw [letter_of_not_mem hg hc, isTerminal_foreign hg]
    exact iff_of_false Bool.false_ne_true hc

/-- A text of terminals is the spelling of its word. -/
lemma spell_word (hg : g.WellFormed) {text : List Char} (h : ∀ c ∈ text, c ∈ g.terminalNames) :
    g.spell (g.word text) = text := by
  rw [spell, word, List.map_map]
  exact (List.map_congr_left fun c hc => (letter_of_mem hg (h c hc)).2).trans (List.map_id' text)

/-! ## Members on characters -/

/-- The start symbol is spelled as it is described. -/
lemma DescribedBy.spell_start {start : Char} {nonterminals terminals : List Char}
    {rules : List NamedRule} (hd : g.DescribedBy start nonterminals terminals rules) :
    g.spell [g.start] = [start] := by
  rw [spell, List.map_singleton, Names.display_eq_of_nameOf? hd.nameOf?_start]

/-- **The members of a grammar are the texts of terminals that its rules on characters give.** -/
theorem isMember_word_iff (hg : g.WellFormed) (text : List Char) :
    isMember g (g.word text) = true ↔
      (∀ c ∈ text, c ∈ g.terminalNames) ∧
        NamedRule.RewritesMany g.namedRules (g.spell [g.start]) text := by
  have hletters : (∀ t ∈ g.word text, g.isTerminal t = true) ↔
      ∀ c ∈ text, c ∈ g.terminalNames := by
    simp only [word, List.forall_mem_map, isTerminal_letter_iff hg]
  rw [isMember_iff_derives hg, derives_iff_rewritesMany hg hg.start_lt, hletters]
  refine and_congr_right fun htext => ?_
  have hword : g.Declared (g.word text) := fun t ht =>
    (isTerminal_iff.1 (hletters.2 htext t ht)).2
  rw [← rewritesMany_spell_iff hg hg.declared_start hword, spell_word hg htext]

/-- The word of the spelling of terminals is that of these terminals. -/
lemma word_spell (hg : g.WellFormed) {w : Word} (h : ∀ t ∈ w, g.isTerminal t = true) :
    g.word (g.spell w) = w := by
  rw [spell, word, List.map_map]
  refine (List.map_congr_left fun t ht => ?_).trans (List.map_id' w)
  have hlt := (isTerminal_iff.1 (h t ht)).2
  obtain ⟨c, hc⟩ := Names.exists_nameOf? hlt
  have hmem : g.names.display t ∈ g.terminalNames := by
    rw [Names.display_eq_of_nameOf? hc]
    exact (mem_terminalNames_iff hg).2 ⟨t, h t ht, hc⟩
  obtain ⟨hletter, hname⟩ := letter_of_mem hg hmem
  exact eq_of_display_eq hg (isTerminal_iff.1 hletter).2 hlt hname

/-- **The members of a grammar are the spellings of the words that its start symbol derives.** -/
theorem isMember_word_iff_exists_derives (hg : g.WellFormed) {text : List Char} :
    isMember g (g.word text) = true ↔ ∃ w, g.Derives g.start w ∧ g.spell w = text := by
  rw [isMember_iff_derives hg]
  constructor
  · intro h
    refine ⟨g.word text, h, spell_word hg fun c hc => ?_⟩
    exact (isTerminal_letter_iff hg).1 (h.isTerminal hg _ (List.mem_map_of_mem hc))
  · rintro ⟨w, h, rfl⟩
    rwa [word_spell hg (h.isTerminal hg)]

/-- Each character of a member has a rule of its own. -/
lemma exists_namedRule_of_isMember (hg : g.WellFormed) {text : List Char}
    (h : isMember g (g.word text) = true) (hc : c ∈ text) :
    ∃ x, ⟨x, [c]⟩ ∈ g.namedRules := by
  have hterminal := ((isMember_word_iff hg text).1 h).1 c hc
  obtain ⟨b, hb⟩ := ((isMember_iff_derives hg).1 h).produced _ (List.mem_map_of_mem hc)
  refine ⟨g.names.display b, List.mem_map.2 ⟨_, hb, ?_⟩⟩
  simp [Rule.named, Rhs.symbols, (letter_of_mem hg hterminal).2]

/-- A character with a rule of its own is the name of a terminal. -/
lemma mem_terminalNames_of_namedRule (hg : g.WellFormed) {x : Char}
    (h : ⟨x, [c]⟩ ∈ g.namedRules) : c ∈ g.terminalNames := by
  obtain ⟨⟨a, rhs⟩, hr, hnamed⟩ := List.mem_map.1 h
  cases rhs with
  | terminal t =>
    have ht := hg.terminal_of_mem a t hr
    obtain ⟨d, hd⟩ := Names.exists_nameOf? ht.2
    obtain rfl : d = c := by
      simpa [Rule.named, Rhs.symbols, Names.display_eq_of_nameOf? hd] using
        congrArg NamedRule.rhs hnamed
    exact (mem_terminalNames_iff hg).2 ⟨t, isTerminal_iff.2 ht, hd⟩
  | pair l m =>
    exact absurd (congrArg (fun r => r.rhs.length) hnamed) (by simp [Rule.named, Rhs.symbols])

/-- **More rules on characters make more members**, however their symbols are numbered and
whatever else the alphabets hold. -/
theorem isMember_word_mono {g' : Grammar} (hg : g.WellFormed) (hg' : g'.WellFormed)
    (hstart : g.spell [g.start] = g'.spell [g'.start]) (hsub : g.namedRules ⊆ g'.namedRules)
    {text : List Char} (h : isMember g (g.word text) = true) :
    isMember g' (g'.word text) = true := by
  refine (isMember_word_iff hg' text).2 ⟨fun c hc => ?_, ?_⟩
  · obtain ⟨x, hx⟩ := exists_namedRule_of_isMember hg h hc
    exact mem_terminalNames_of_namedRule hg' (hsub hx)
  · rw [← hstart]
    exact ((isMember_word_iff hg text).1 h).2.mono hsub

end Grammar

/-- **A text is a member if and only if it consists of terminals and the rules on characters give
it**, for a grammar that start symbol, alphabets and rules describe.  The verdict is the same for
every other grammar with these rules and this start symbol.  Characters that are not terminals are
read as the foreign symbol, and no member has any.

**Proof sketch.** The grammar keeps the start symbol, the terminals and the rules of its
description, so its own members on characters are the ones described. -/
theorem isMember_word_iff_rewrites {start : Char} {nonterminals terminals : List Char}
    {rules : List NamedRule} {g : Grammar}
    (h : Grammar.ofRules start nonterminals terminals rules = .ok g) (text : List Char) :
    (isMember g (g.word text) = true ↔
      (∀ c ∈ text, c ∈ terminals) ∧ NamedRule.RewritesMany rules [start] text) ∧
    (∀ (nonterminals' terminals' : List Char) (rules' : List NamedRule) (g' : Grammar),
      Grammar.ofRules start nonterminals' terminals' rules' = .ok g' →
      (∀ r, r ∈ rules' ↔ r ∈ rules) → isMember g' (g'.word text) = isMember g (g.word text)) ∧
    ∀ c ∈ text, c ∉ terminals → g.letter c = g.foreign ∧ isMember g (g.word text) = false := by
  have hg := Grammar.wellFormed_of_ofRules h
  have hd := Grammar.describedBy_of_ofRules h
  have hmembers : isMember g (g.word text) = true ↔
      (∀ c ∈ text, c ∈ terminals) ∧ NamedRule.RewritesMany rules [start] text := by
    rw [Grammar.isMember_word_iff hg, hd.spell_start]
    refine and_congr (forall₂_congr fun c _ => hd.mem_terminalNames c) ⟨fun hw => ?_, fun hw => ?_⟩
    · exact hw.mono fun r hr => (hd.mem_namedRules r).1 hr
    · exact hw.mono fun r hr => (hd.mem_namedRules r).2 hr
  refine ⟨hmembers, fun nonterminals' terminals' rules' g' h' hsame => ?_, fun c hc hnot => ?_⟩
  · have hg' := Grammar.wellFormed_of_ofRules h'
    have hd' := Grammar.describedBy_of_ofRules h'
    have hrules : ∀ r, r ∈ g'.namedRules ↔ r ∈ g.namedRules := fun r => by
      rw [hd'.mem_namedRules, hd.mem_namedRules, hsame]
    have hstart : g'.spell [g'.start] = g.spell [g.start] := by
      rw [hd'.spell_start, hd.spell_start]
    rw [Bool.eq_iff_iff]
    exact ⟨Grammar.isMember_word_mono hg' hg hstart fun r hr => (hrules r).1 hr,
      Grammar.isMember_word_mono hg hg' hstart.symm fun r hr => (hrules r).2 hr⟩
  · refine ⟨Grammar.letter_of_not_mem hg fun hmem => hnot ((hd.mem_terminalNames c).1 hmem), ?_⟩
    exact Bool.eq_false_iff.2 fun hw => hnot ((hmembers.1 hw).1 c hc)

/-- The text `()` is a member of the grammar of balanced parentheses, and `(S)` is not, whose `S` is
no terminal. -/
theorem isMember_word_parentheses :
    Grammar.ofRules 'S' ['X', 'S', 'R', 'L', 'S'] [')', '('] [⟨'S', ['L', 'R']⟩, ⟨'S', ['S', 'S']⟩,
        ⟨'L', ['(']⟩, ⟨'S', ['L', 'X']⟩, ⟨'X', ['S', 'R']⟩, ⟨'R', [')']⟩, ⟨'L', ['(']⟩] =
      .ok Grammar.parentheses ∧
    isMember Grammar.parentheses (Grammar.parentheses.word ['(', ')']) = true ∧
    isMember Grammar.parentheses (Grammar.parentheses.word ['(', 'S', ')']) = false := by
  have hbuilt := Grammar.ofRules_parentheses
  refine ⟨hbuilt, (isMember_word_iff_rewrites hbuilt _).1.2 ⟨by simp, ?_⟩,
    ((isMember_word_iff_rewrites hbuilt _).2.2 'S' (by simp) (by simp)).2⟩
  -- `S`, `LR`, `(R`, `()`
  refine .tail (v := ['(', 'R']) (.tail (v := ['L', 'R']) (.tail (.refl ['S']) ?_) ?_) ?_
  · exact .step [] [] (r := ⟨'S', ['L', 'R']⟩) (by decide)
  · exact .step [] ['R'] (r := ⟨'L', ['(']⟩) (by decide)
  · exact .step ['('] [] (r := ⟨'R', [')']⟩) (by decide)

end Chomsky
