import Chomsky.Reader
import Chomsky.Proofs.ProperDescription
import Chomsky.Proofs.Text.Fields
import Mathlib.Data.List.Forall2

set_option autoImplicit false

/-!
# The format of problems

What an input has to look like is said by the ways to write problems: as a header, rules and words
among blanks and blank lines.  The reader takes such lines one at a time; what it does with each
line is the converse of writing it.

## Main definitions

* `Chomsky.Reader.Listing` — a problem on characters.
* `Chomsky.Reader.RuleLine`, `Chomsky.Reader.Listing.Written`, `Chomsky.Reader.Script` — the ways to
  write a rule, a problem, and several problems.
* `Chomsky.Reader.Listing.Describes` — a problem is the one written.

## Main results

* `Chomsky.Reader.parseHeader_eq_ok_iff`, `Chomsky.Reader.parseRule_eq_ok_iff`,
  `Chomsky.Reader.checkWord_eq_ok_iff` — the headers, the rules and the words that are accepted.
* `Chomsky.Reader.step_header_eq_ok_iff`, `Chomsky.Reader.step_rules_eq_ok_iff`,
  `Chomsky.Reader.step_words_eq_ok_iff` — what a line does in each stage.
-/

namespace Chomsky.Reader

open Text

/-! ## Writing problems -/

/-- A problem on characters, in the order in which it is written. -/
structure Listing where
  /-- The start symbol. -/
  start : Char
  /-- The nonterminals. -/
  nonterminals : List Char
  /-- The terminals. -/
  terminals : List Char
  /-- The rules. -/
  rules : List NamedRule
  /-- The candidate words. -/
  words : List (List Char)
deriving DecidableEq

/-- A line with a rule: its two sides with an arrow between them, and blanks anywhere around the
three. -/
inductive RuleLine (r : NamedRule) : List Char → Prop where
  | mk {u v w x : List Char} (hu : Blanks u) (hv : Blanks v) (hw : Blanks w) (hx : Blanks x) :
      RuleLine r ((u ++ [r.lhs] ++ v) ++ '-' :: '>' :: (w ++ r.rhs ++ x))

/-- A line with a word: the word itself, which is not too long, holds no nonterminal and is not
taken for the end of the words. -/
structure WordLine (limit : Nat) (nonterminals line : List Char) : Prop where
  trim_ne : trim line ≠ endOfWords
  length_le : line.length ≤ limit
  not_mem : ∀ c ∈ line, c ∉ nonterminals

/-- The lines that write a problem: a header with three fields, its rules in order, the end of the
rules, its words in order, and the end of the words. -/
inductive Listing.Written (limit : Nat) (l : Listing) : List (List Char) → Prop where
  | mk {header endRules endWords : List Char} {ruleLines : List (List Char)}
      (proper : ProperDescription l.start l.nonterminals l.terminals l.rules)
      (hheader : Laid [[l.start], l.nonterminals, l.terminals] header)
      (hrules : List.Forall₂ RuleLine l.rules ruleLines)
      (hendRules : trim endRules = endOfRules)
      (hwords : ∀ word ∈ l.words, WordLine limit l.nonterminals word)
      (hendWords : trim endWords = endOfWords) :
      Written limit l (header :: ruleLines ++ endRules :: l.words ++ [endWords])

/-- The lines that write several problems, with blank lines before each problem and at the end. -/
inductive Script (limit : Nat) : List Listing → List (List Char) → Prop where
  | nil : Script limit [] []
  | blank {listings : List Listing} {line : List Char} {lines : List (List Char)}
      (hline : Blanks line) (h : Script limit listings lines) :
      Script limit listings (line :: lines)
  | block {l : Listing} {listings : List Listing} {block lines : List (List Char)}
      (hl : l.Written limit block) (h : Script limit listings lines) :
      Script limit (l :: listings) (block ++ lines)

/-- A problem is the one written: its grammar has the start symbol, the alphabets and the rules that
are written, up to order and repetition, and its words are those written. -/
structure Listing.Describes (l : Listing) (p : Problem) : Prop where
  wellFormed : p.grammar.WellFormed
  describedBy : p.grammar.DescribedBy l.start l.nonterminals l.terminals l.rules
  words_eq : p.words = l.words

variable {limit line n : Nat} {text : List Char}

/-! ## Headers -/

/-- A single symbol is a text of one character. -/
lemma single?_eq_some_iff {c : Char} : single? text = some c ↔ text = [c] := by
  unfold single?
  split
  · simp
  · rename_i hne
    simpa using hne c

/-- **The headers accepted**: three fields, the first of which is a single character. -/
theorem parseHeader_eq_ok_iff {b : Builder} :
    parseHeader text = .ok b ↔ ∃ start nonterminals terminals,
      Laid [[start], nonterminals, terminals] text ∧ b = .new start nonterminals terminals := by
  unfold parseHeader
  constructor
  · intro h
    split at h
    · rename_i field nonterminals terminals hfields
      cases hstart : single? field with
      | none => simp [hstart] at h
      | some start =>
        obtain rfl := single?_eq_some_iff.1 hstart
        exact ⟨start, nonterminals, terminals, fields_eq_iff.1 hfields, (Except.ok.inj h).symm⟩
    · exact absurd h (by simp)
  · rintro ⟨start, nonterminals, terminals, hlaid, rfl⟩
    rw [fields_eq_iff.2 hlaid]
    rfl

/-- No blank stands in the fields of a header. -/
lemma forall_field_of_laid {fields : List (List Char)} (h : Laid fields text) :
    ∀ f ∈ fields, ∀ c ∈ f, isBlank c = false := by
  rw [← fields_eq_iff.2 h]
  exact fun f hf => isBlank_of_mem_fields hf

/-- A line with fields is not blank. -/
lemma not_blanks_of_laid {f : List Char} {fs : List (List Char)} (h : Laid (f :: fs) text) :
    ¬ Blanks text := by
  intro hblank
  cases h with
  | cons hw hf hrest hlaid =>
    obtain ⟨c, hc⟩ := List.exists_mem_of_ne_nil _ hf.1
    have hblank' := hblank c (by simp [hc])
    rw [hf.2 c hc] at hblank'
    exact Bool.false_ne_true hblank'

/-! ## Rules -/

/-- A text is cut at an arrow that it has. -/
lemma eq_of_splitArrow {left right : List Char} (h : splitArrow text = some (left, right)) :
    text = left ++ '-' :: '>' :: right := by
  fun_induction splitArrow text generalizing left with
  | case1 => simp at h
  | case2 rest =>
    obtain ⟨rfl, rfl⟩ := Prod.mk.inj (Option.some.inj h)
    rfl
  | case3 c rest _ ih =>
    obtain ⟨⟨left', right'⟩, hrest, hpair⟩ := Option.map_eq_some_iff.1 h
    obtain ⟨rfl, rfl⟩ := Prod.mk.inj hpair
    rw [ih hrest]
    rfl

/-- A text is cut at its first arrow. -/
lemma splitArrow_append {left : List Char} (h : splitArrow left = none) (right : List Char) :
    splitArrow (left ++ '-' :: '>' :: right) = some (left, right) := by
  fun_induction splitArrow left with
  | case1 => rfl
  | case2 rest => simp at h
  | case3 c rest hne ih =>
    have hrest := ih (Option.map_eq_none_iff.1 h)
    -- no arrow begins inside the part before the arrow at hand, which a dash begins
    have hcut : ∀ r, c = '-' → rest ++ '-' :: '>' :: right = '>' :: r → False := by
      intro r hc htail
      cases rest with
      | nil => simp at htail
      | cons d rest => exact hne rest hc (by rw [(List.cons.inj htail).1])
    rw [List.cons_append, splitArrow, hrest]
    · rfl
    · exact hcut

/-- There is no arrow in a single character among blanks. -/
lemma splitArrow_blanks {u v : List Char} (hu : Blanks u) (hv : Blanks v) (c : Char) :
    splitArrow (u ++ [c] ++ v) = none := by
  cases hcut : splitArrow (u ++ [c] ++ v) with
  | none => rfl
  | some cut =>
    obtain ⟨left, right⟩ := cut
    have heq := eq_of_splitArrow hcut
    have hmem : ∀ d ∈ u ++ [c] ++ v, d = c ∨ isBlank d = true := by
      intro d hd
      simp only [List.mem_append, List.mem_singleton] at hd
      rcases hd with (hd | hd) | hd
      · exact .inr (hu d hd)
      · exact .inl hd
      · exact .inr (hv d hd)
    have hdash : '-' = c := (hmem '-' (by simp [heq])).resolve_right (by decide)
    have hhead : '>' = c := (hmem '>' (by simp [heq])).resolve_right (by decide)
    exact absurd (hdash.trans hhead.symm) (by decide)

/-- **The rules accepted**: those that are written on the line, if no side begins or ends with a
blank. -/
theorem parseRule_eq_ok_iff {r : NamedRule} :
    parseRule text = .ok (r.lhs, r.rhs) ↔ Trimmed [r.lhs] ∧ Trimmed r.rhs ∧ RuleLine r text := by
  unfold parseRule
  constructor
  · intro h
    split at h
    · exact absurd h (by simp)
    · rename_i left right hcut
      cases hsingle : single? (trim left) with
      | none => simp [hsingle] at h
      | some lhs =>
        simp only [hsingle, Except.ok.injEq, Prod.mk.injEq] at h
        obtain ⟨rfl, hrhs⟩ := h
        obtain ⟨hlhs, u, v, hu, hv, hleft⟩ := trim_eq_iff.1 (single?_eq_some_iff.1 hsingle)
        obtain ⟨htrimmed, w, x, hw, hx, hright⟩ := trim_eq_iff.1 hrhs
        have hline := RuleLine.mk (r := r) hu hv hw hx
        rw [← hleft, ← hright, ← eq_of_splitArrow hcut] at hline
        exact ⟨hlhs, htrimmed, hline⟩
  · rintro ⟨hlhs, hrhs, hu, hv, hw, hx⟩
    rw [splitArrow_append (splitArrow_blanks hu hv r.lhs)]
    simp only [hlhs.trim_eq hu hv, hrhs.trim_eq hw hx, single?]

/-- The line that ends the rules, character by character. -/
lemma endOfRules_eq : endOfRules = ['#', ' ', '-', '>', ' ', '#'] := rfl

/-- No rule in normal form is taken for the end of the rules: its sides would be one symbol, both a
nonterminal and a terminal. -/
lemma trim_ne_endOfRules {nonterminals terminals : List Char}
    (hdisjoint : nonterminals.Disjoint terminals) {r : NamedRule}
    (hr : r.InForm nonterminals terminals) (h : parseRule text = .ok (r.lhs, r.rhs)) :
    trim text ≠ endOfRules := by
  intro hend
  obtain ⟨-, u, v, hu, hv, htext⟩ := trim_eq_iff.1 hend
  have hblank : Blanks [' '] := List.forall_mem_singleton.2 rfl
  have hmark : Trimmed ['#'] := trimmed_singleton.2 rfl
  have hline := RuleLine.mk (r := ⟨'#', ['#']⟩) hu hblank hblank hv
  have hshape : (u ++ ['#'] ++ [' ']) ++ '-' :: '>' :: ([' '] ++ ['#'] ++ v) = text := by
    rw [htext, endOfRules_eq]
    simp
  rw [hshape] at hline
  have hparsed := parseRule_eq_ok_iff.2 ⟨hmark, hmark, hline⟩
  obtain ⟨hlhs, hrhs⟩ := Prod.mk.inj (Except.ok.inj (h.symm.trans hparsed))
  cases hr with
  | terminal hx ht =>
    obtain rfl := hlhs
    obtain rfl := List.singleton_inj.1 hrhs
    exact hdisjoint hx ht
  | pair => simp at hrhs

/-- Over alphabets without blanks, no blank begins or ends a side of a rule in normal form. -/
lemma trimmed_of_inForm {nonterminals terminals : List Char}
    (hn : ∀ c ∈ nonterminals, isBlank c = false) (ht : ∀ c ∈ terminals, isBlank c = false)
    {r : NamedRule} (hr : r.InForm nonterminals terminals) : Trimmed [r.lhs] ∧ Trimmed r.rhs := by
  cases hr with
  | terminal hx hy => exact ⟨trimmed_singleton.2 (hn _ hx), trimmed_singleton.2 (ht _ hy)⟩
  | pair hx hy hz =>
    exact ⟨trimmed_singleton.2 (hn _ hx), by simpa [Trimmed] using ⟨hn _ hy, hn _ hz⟩⟩

/-! ## Words -/

/-- A character is the name of a nonterminal if and only if it is found as one. -/
lemma any_symbolOf?_iff {g : Grammar} (hg : g.WellFormed) {c : Char} :
    (g.symbolOf? c).any g.isNonterminal = true ↔ c ∈ g.nonterminalNames := by
  rw [Grammar.nonterminalNames, ← Names.exists_symbolOf?_lt_iff (Nat.le_of_lt hg.numSymbols_lt),
    Option.any_eq_true]
  simp [Grammar.symbolOf?, Grammar.isNonterminal]

/-- **The words accepted**: those that are not too long and hold no nonterminal. -/
theorem checkWord_eq_ok_iff {g : Grammar} (hg : g.WellFormed) :
    checkWord g limit text = .ok () ↔
      text.length ≤ limit ∧ ∀ c ∈ text, c ∉ g.nonterminalNames := by
  unfold checkWord
  split_ifs with hlong
  · exact iff_of_false (by simp) fun h => absurd h.1 (Nat.not_le.2 hlong)
  · rw [and_iff_right (Nat.le_of_not_lt hlong)]
    simp only [← any_symbolOf?_iff hg, Bool.not_eq_true]
    split
    · rename_i c hc
      have hfound := List.find?_some hc
      exact iff_of_false (by simp) fun h => by simp [h c (List.mem_of_find?_eq_some hc)] at hfound
    · rename_i hnone
      exact iff_of_true rfl fun c hc => by simpa using List.find?_eq_none.1 hnone c hc

/-! ## Steps -/

variable {stage : Stage} {ended : Option Block}

/-- **Before a header**, a blank line changes nothing and a header begins the rules. -/
theorem step_header_eq_ok_iff :
    step limit line text .header = .ok (stage, ended) ↔ ended = none ∧
      (Blanks text ∧ stage = .header ∨ ∃ start nonterminals terminals,
        Laid [[start], nonterminals, terminals] text ∧
          stage = .rules line (.new start nonterminals terminals)) := by
  dsimp only [step]
  split_ifs with hblank
  · rw [isEmpty_trim_iff] at hblank
    constructor
    · intro h
      obtain ⟨rfl, rfl⟩ := Prod.mk.inj (Except.ok.inj h)
      exact ⟨rfl, .inl ⟨hblank, rfl⟩⟩
    · rintro ⟨rfl, ⟨-, rfl⟩ | ⟨start, nonterminals, terminals, hlaid, -⟩⟩
      · rfl
      · exact absurd hblank (not_blanks_of_laid hlaid)
  · rw [isEmpty_trim_iff] at hblank
    constructor
    · intro h
      split at h
      · rename_i b hb
        obtain ⟨rfl, rfl⟩ := Prod.mk.inj (Except.ok.inj h)
        obtain ⟨start, nonterminals, terminals, hlaid, rfl⟩ := parseHeader_eq_ok_iff.1 hb
        exact ⟨rfl, .inr ⟨start, nonterminals, terminals, hlaid, rfl⟩⟩
      · exact absurd h (by simp)
    · rintro ⟨rfl, ⟨h, -⟩ | ⟨start, nonterminals, terminals, hlaid, rfl⟩⟩
      · exact absurd h hblank
      · rw [parseHeader_eq_ok_iff.2 ⟨start, nonterminals, terminals, hlaid, rfl⟩]

/-- **Among the rules**, the end of the rules builds the grammar and any other line adds a rule. -/
theorem step_rules_eq_ok_iff {b : Builder} :
    step limit line text (.rules n b) = .ok (stage, ended) ↔ ended = none ∧
      (trim text = endOfRules ∧ (∃ g, b.build = .ok g ∧ stage = .words n g []) ∨
        trim text ≠ endOfRules ∧ ∃ (r : NamedRule) (b' : Builder),
          parseRule text = .ok (r.lhs, r.rhs) ∧ b.addRule r.lhs r.rhs = .ok b' ∧
            stage = .rules n b') := by
  dsimp only [step]
  split_ifs with hend
  · cases hb : b.build with
    | error e => simp [hend]
    | ok g =>
      simp only [hend, ne_eq, not_true_eq_false, true_and, false_and, or_false, Except.ok.injEq,
        Prod.mk.injEq, exists_eq_left']
      exact ⟨fun h => ⟨h.2.symm, h.1.symm⟩, fun h => ⟨h.2.symm, h.1.symm⟩⟩
  · simp only [hend, ne_eq, not_false_eq_true, true_and, false_and, false_or]
    cases hparsed : parseRule text with
    | error fault => simp
    | ok sides =>
      obtain ⟨lhs, rhs⟩ := sides
      dsimp only
      constructor
      · intro h
        split at h
        · rename_i b' hb'
          obtain ⟨rfl, rfl⟩ := Prod.mk.inj (Except.ok.inj h)
          exact ⟨rfl, ⟨lhs, rhs⟩, b', rfl, hb', rfl⟩
        · exact absurd h (by simp)
      · rintro ⟨rfl, r, b', hsides, hb', rfl⟩
        obtain ⟨rfl, rfl⟩ := Prod.mk.inj (Except.ok.inj hsides)
        rw [hb']

/-- **Among the words**, the end of the words completes the problem and any other line is a word. -/
theorem step_words_eq_ok_iff {g : Grammar} (hg : g.WellFormed) {words : List (List Char)} :
    step limit line text (.words n g words) = .ok (stage, ended) ↔
      trim text = endOfWords ∧ stage = .header ∧ ended = some ⟨n, ⟨g, words⟩⟩ ∨
        WordLine limit g.nonterminalNames text ∧ stage = .words n g (words ++ [text]) ∧
          ended = none := by
  dsimp only [step]
  split_ifs with hend
  · have hnot : ¬ WordLine limit g.nonterminalNames text := fun h => h.trim_ne hend
    simp only [hend, hnot, true_and, false_and, or_false, Except.ok.injEq, Prod.mk.injEq]
    exact ⟨fun h => ⟨h.1.symm, h.2.symm⟩, fun h => ⟨h.1.symm, h.2.symm⟩⟩
  · have hline : WordLine limit g.nonterminalNames text ↔ checkWord g limit text = .ok () := by
      rw [checkWord_eq_ok_iff hg]
      exact ⟨fun h => ⟨h.length_le, h.not_mem⟩, fun h => ⟨hend, h.1, h.2⟩⟩
    rw [hline]
    cases checkWord g limit text with
    | error e => simp [hend]
    | ok u =>
      simp only [hend, true_and, false_and, false_or, Except.ok.injEq, Prod.mk.injEq]
      exact ⟨fun h => ⟨h.1.symm, h.2.symm⟩, fun h => ⟨h.1.symm, h.2.symm⟩⟩

end Chomsky.Reader
