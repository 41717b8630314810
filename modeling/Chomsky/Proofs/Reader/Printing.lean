import Chomsky.Proofs.Document.RoundTrip
import Chomsky.Proofs.Reader.Acceptance
import Chomsky.Proofs.Text.Lines

set_option autoImplicit false

/-!
# Reading what was printed

A problem is printed as a header, the text of its grammar and its words, with the ends of the rules and of
the words after them.  Whatever characters the symbols are, these lines are a way to write the problem, so
the problem is read again.

## Main definitions

* `Chomsky.Problem.print` — the text of a problem.
* `Chomsky.Problem.Printable` — the problems whose text says what they are.

## Main results

* `Chomsky.Problem.Printable.written` — the lines that are printed write the problem.
* `Chomsky.Problem.load_print` — problems that are printed are read again.
-/

namespace Chomsky

open Text Reader

/-! ## Fields, rules and words -/

/-- One more field after a space. -/
lemma Text.Laid.space {f rest : List Char} {fs : List (List Char)} (h : Laid fs rest) (hf : IsField f)
    (hrest : ∀ c ∈ rest.head?, isBlank c = true) : Laid (f :: fs) (' ' :: (f ++ rest)) :=
  .cons (w := [' ']) (List.forall_mem_singleton.2 rfl) hf hrest h

/-- A rule stands on the line that is printed for it. -/
lemma Reader.ruleLine_display (r : NamedRule) : RuleLine r r.display := by
  have hspace : Blanks [' '] := List.forall_mem_singleton.2 rfl
  have hline := RuleLine.mk (r := r) blanks_nil hspace hspace blanks_nil
  simpa [NamedRule.display] using hline

/-- It can be decided whether a line is a word. -/
instance Reader.decidableWordLine (limit : Nat) (nonterminals line : List Char) :
    Decidable (WordLine limit nonterminals line) :=
  decidable_of_iff
    (trim line ≠ endOfWords ∧ line.length ≤ limit ∧ line.all (fun c => c ∉ nonterminals) = true)
    ⟨fun ⟨htrim, hlength, hmem⟩ => ⟨htrim, hlength, by simpa using hmem⟩,
      fun h => ⟨h.trim_ne, h.length_le, by simpa using h.not_mem⟩⟩

/-! ## Printing -/

/-- The header for a grammar: its start symbol, its nonterminals and its terminals. -/
def Grammar.header (g : Grammar) : List Char :=
  g.names.display g.start :: ' ' :: g.nonterminalNames ++ ' ' :: g.terminalNames

namespace Problem

/-- The text of a problem: the header and the rules of its grammar and its words. -/
def print (p : Problem) : List Char :=
  p.grammar.header ++ ['\n'] ++ p.grammar.display ++ endOfRules ++ ['\n'] ++
    p.words.flatMap (· ++ ['\n']) ++ endOfWords ++ ['\n']

/-- The lines of the text of a problem. -/
def printedLines (p : Problem) : List (List Char) :=
  p.grammar.header :: p.grammar.namedRules.map NamedRule.display ++ endOfRules :: p.words ++ [endOfWords]

/-- The problem on characters. -/
def listing (p : Problem) : Listing :=
  ⟨p.grammar.names.display p.grammar.start, p.grammar.nonterminalNames, p.grammar.terminalNames,
    p.grammar.namedRules, p.words⟩

/-- The text of a problem says what the problem is: the grammar has a terminal and no blanks among its
symbols, and the words are lines of words. -/
structure Printable (limit : Nat) (p : Problem) : Prop where
  constructed : p.grammar.Constructed
  terminalNames_ne_nil : p.grammar.terminalNames ≠ []
  isBlank_name : ∀ c ∈ p.grammar.names.toList, isBlank c = false
  isLine_word : ∀ word ∈ p.words, '\n' ∉ word ∧ word.getLast? ≠ some '\r'
  wordLine : ∀ word ∈ p.words, WordLine limit p.grammar.nonterminalNames word

variable {limit : Nat} {p : Problem} {problems : List Problem}

/-! ## Lines -/

/-- Without blanks other than spaces, a text is a line. -/
lemma isLine_of_spaces {l : List Char} (h : ∀ c ∈ l, c = ' ' ∨ isBlank c = false) :
    '\n' ∉ l ∧ l.getLast? ≠ some '\r' := by
  refine ⟨fun hfeed => ?_, fun hret => ?_⟩
  · exact (h _ hfeed).elim (by decide) (by decide)
  · exact (h _ (List.mem_of_getLast? hret)).elim (by decide) (by decide)

/-- A problem is printed line by line. -/
lemma print_eq (p : Problem) : p.print = p.printedLines.flatMap (· ++ ['\n']) := by
  simp only [print, printedLines, Grammar.display, Grammar.namedRules, Rule.display, List.flatMap_append,
    List.flatMap_cons, List.flatMap_nil, List.flatMap_map, List.map_map, List.append_assoc,
    List.append_nil, List.cons_append, List.nil_append, Function.comp_def]

namespace Printable

/-- The start symbol of a printable problem has a name. -/
lemma nameOf?_start (h : p.Printable limit) :
    p.grammar.nameOf? p.grammar.start = some (p.grammar.names.display p.grammar.start) := by
  have hg := h.constructed.wellFormed
  obtain ⟨start, hstart⟩ := Names.exists_nameOf? (Nat.lt_of_lt_of_le hg.start_lt hg.numNonterminals_le)
  rw [Names.display_eq_of_nameOf? hstart]
  exact hstart

/-- What is printed is a proper description of a grammar. -/
lemma properDescription (h : p.Printable limit) :
    ProperDescription p.listing.start p.listing.nonterminals p.listing.terminals p.listing.rules :=
  h.constructed.wellFormed.properDescription h.nameOf?_start

/-- No nonterminal of a printable problem is blank. -/
lemma isBlank_nonterminal (h : p.Printable limit) :
    ∀ c ∈ p.grammar.nonterminalNames, isBlank c = false :=
  fun c hc => h.isBlank_name c (List.mem_of_mem_take hc)

/-- No terminal of it is blank either. -/
lemma isBlank_terminal (h : p.Printable limit) : ∀ c ∈ p.grammar.terminalNames, isBlank c = false :=
  fun c hc => h.isBlank_name c (List.mem_of_mem_drop hc)

/-- No blanks are among the symbols of a rule. -/
lemma isBlank_rule (h : p.Printable limit) {r : NamedRule} (hr : r ∈ p.grammar.namedRules) :
    ∀ c ∈ r.lhs :: r.rhs, isBlank c = false := by
  have hn := h.isBlank_nonterminal
  cases h.properDescription.inForm r hr with
  | terminal hx ht => simpa using ⟨hn _ hx, h.isBlank_terminal _ ht⟩
  | pair hx hy hz => simpa using ⟨hn _ hx, hn _ hy, hn _ hz⟩

/-- Each line that is printed is a line of the text. -/
lemma isLine (h : p.Printable limit) : ∀ l ∈ p.printedLines, '\n' ∉ l ∧ l.getLast? ≠ some '\r' := by
  have hstart := h.isBlank_nonterminal _ h.properDescription.start_mem
  intro l hl
  simp only [printedLines, List.cons_append, List.mem_cons, List.mem_append, List.mem_map,
    List.not_mem_nil, or_false] at hl
  rcases hl with rfl | (⟨r, hr, rfl⟩ | rfl | hword) | rfl
  · refine isLine_of_spaces fun c hc => ?_
    simp only [Grammar.header, List.cons_append, List.mem_cons, List.mem_append] at hc
    rcases hc with rfl | rfl | hc | rfl | hc
    · exact .inr hstart
    · exact .inl rfl
    · exact .inr (h.isBlank_nonterminal c hc)
    · exact .inl rfl
    · exact .inr (h.isBlank_terminal c hc)
  · refine isLine_of_spaces fun c hc => ?_
    have hrule := h.isBlank_rule hr
    simp only [NamedRule.display, List.cons_append, List.mem_cons, List.nil_append] at hc
    rcases hc with rfl | rfl | rfl | rfl | rfl | hc
    · exact .inr (hrule _ List.mem_cons_self)
    · exact .inl rfl
    · exact .inr rfl
    · exact .inr rfl
    · exact .inl rfl
    · exact .inr (hrule c (List.mem_cons_of_mem _ hc))
  · decide
  · exact h.isLine_word l hword
  · decide

/-! ## The lines write the problem -/

/-- The header has the start symbol and the alphabets as its fields. -/
lemma laid_header (h : p.Printable limit) :
    Laid [[p.listing.start], p.listing.nonterminals, p.listing.terminals] p.grammar.header := by
  have hstart := h.properDescription.start_mem
  have hn : IsField p.grammar.nonterminalNames := ⟨List.ne_nil_of_mem hstart, h.isBlank_nonterminal⟩
  have ht : IsField p.grammar.terminalNames := ⟨h.terminalNames_ne_nil, h.isBlank_terminal⟩
  have hs : IsField [p.listing.start] :=
    ⟨by simp, List.forall_mem_singleton.2 (h.isBlank_nonterminal _ hstart)⟩
  have hspace : ∀ rest : List Char, ∀ c ∈ (' ' :: rest).head?, isBlank c = true := by
    rintro rest c ⟨⟩
    rfl
  have hterminals : Laid [p.grammar.terminalNames] (' ' :: p.grammar.terminalNames) := by
    simpa using (Laid.nil blanks_nil).space ht (by simp)
  exact .cons (w := []) blanks_nil hs (hspace _) (hterminals.space hn (hspace _))

/-- **The lines that are printed write the problem.** -/
theorem written (h : p.Printable limit) : p.listing.Written limit p.printedLines :=
  .mk h.properDescription h.laid_header
    (List.forall₂_map_right_iff.2 (List.forall₂_same.2 fun r _ => ruleLine_display r)) (by decide)
    h.wordLine (by decide)

/-- What is printed describes the problem. -/
lemma describes (h : p.Printable limit) : p.listing.Describes p :=
  ⟨h.constructed.wellFormed, Grammar.describedBy_self h.nameOf?_start, rfl⟩

end Printable

/-- The lines of problems that are printed one after the other. -/
lemma lines_print (h : ∀ p ∈ problems, p.Printable limit) :
    lines (problems.flatMap print) = problems.flatMap printedLines := by
  have htext : problems.flatMap print = (problems.flatMap printedLines).flatMap (· ++ ['\n']) := by
    rw [List.flatMap_assoc]
    exact List.flatMap_congr fun p _ => p.print_eq
  rw [htext]
  refine lines_flatMap fun l hl => ?_
  obtain ⟨p, hp, hl⟩ := List.mem_flatMap.1 hl
  exact (h p hp).isLine l hl

/-- Problems that are printed one after the other are written. -/
lemma script_print (h : ∀ p ∈ problems, p.Printable limit) :
    Script limit (problems.map listing) (problems.flatMap printedLines) := by
  induction problems with
  | nil => exact .nil
  | cons p problems ih =>
    obtain ⟨hp, h⟩ := List.forall_mem_cons.1 h
    exact .block hp.written (ih h)

/-- **Problems that are printed are read again**, the same ones in the same order, even if symbols look like
an arrow or like the ends of rules and words. -/
theorem load_print (h : ∀ p ∈ problems, p.Printable limit) :
    load limit (problems.flatMap print) = .ok problems := by
  obtain ⟨blocks, hblocks, heq⟩ := (script_print h).readFrom_eq 0 []
  have hread : readText limit (problems.flatMap print) = ⟨blocks, none⟩ := by
    rw [List.append_nil] at heq
    rw [readText, lines_print h, readLines, heq]
    simp [readFrom, Stage.finish]
  have hdescribes : List.Forall₂ Listing.Describes (problems.map listing) problems :=
    List.forall₂_map_left_iff.2 (List.forall₂_same.2 fun p hp => (h p hp).describes)
  refine load_eq_ok_iff_readText.2 ⟨by rw [hread], ?_⟩
  rw [hread]
  exact Listing.Describes.unique_list hblocks hdescribes

/-- Problems with symbols and words that look like an arrow and like the ends of rules and words. -/
theorem load_print_arrows :
    let arrows : Grammar := ⟨⟨['#', '-', '>']⟩, 2, .ofNat 1,
      [⟨.ofNat 0, .terminal (.ofNat 2)⟩, ⟨.ofNat 1, .pair (.ofNat 0) (.ofNat 0)⟩]⟩
    let marks : Grammar := ⟨⟨['S', '#']⟩, 1, .ofNat 0, [⟨.ofNat 0, .terminal (.ofNat 1)⟩]⟩
    let problems : List Problem :=
      [⟨arrows, [[], ['>', '>'], [' ', ' ']]⟩, ⟨.parentheses, []⟩, ⟨marks, [['#', '#']]⟩]
    (∀ p ∈ problems, p.Printable 2) ∧ load 2 (problems.flatMap print) = .ok problems ∧
      arrows.header ++ ['\n'] ++ arrows.display = "- #- >\n# -> >\n- -> ##\n".toList := by
  intro arrows marks problems
  have harrows : arrows.Constructed :=
    .built '-' ['-', '#'] ['>'] [.addRule '-' ['#', '#'], .addRule '#' ['>']] rfl
  have hmarks : marks.Constructed := .built 'S' ['S'] ['#'] [.rule 'S', .rhs ['#']] rfl
  have hprintable : ∀ p ∈ problems, p.Printable 2 := by
    refine List.forall_mem_cons.2 ⟨?_, List.forall_mem_cons.2 ⟨?_, List.forall_mem_singleton.2 ?_⟩⟩
    · have hnames : arrows.names.toList.Forall fun c => isBlank c = false := ⟨rfl, rfl, rfl⟩
      exact ⟨harrows, by decide, List.forall_iff_forall_mem.1 hnames, by decide, by decide⟩
    · have hnames : Grammar.parentheses.names.toList.Forall fun c => isBlank c = false :=
        ⟨rfl, rfl, rfl, rfl, rfl, rfl⟩
      exact ⟨Grammar.constructed_parentheses, by decide, List.forall_iff_forall_mem.1 hnames, by decide,
        by decide⟩
    · have hnames : marks.names.toList.Forall fun c => isBlank c = false := ⟨rfl, rfl⟩
      exact ⟨hmarks, by decide, List.forall_iff_forall_mem.1 hnames, by decide, by decide⟩
  exact ⟨hprintable, load_print hprintable, rfl⟩

end Problem

end Chomsky
