import Chomsky.Judge
import Chomsky.Proofs.Cache.Transparency
import Chomsky.Proofs.Reader.Acceptance

set_option autoImplicit false

/-!
# What the judge prints

For each problem that it reads the judge prints a report, in which a word is valid if and only if
the rules that are written give it from the start symbol that is written.  Neither the numbering of
symbols nor the memory that all problems of a run share shows in it.

## Main definitions

* `Chomsky.Reader.Listing.report` — the right report on a problem that is written.
* `Chomsky.Report.texts` — several reports one after the other.
* `Chomsky.Judge.findings` — what a run reports: the words of each problem with the verdicts about them.
* `Chomsky.Judge.Reports` — a run prints the right reports.

## Main results

* `Chomsky.Reader.Listing.Describes.isMember_iff` — the verdict about a word that is written.
* `Chomsky.Judge.findings_readBytes` — what is reported are the verdicts of the grammars.
* `Chomsky.Judge.texts_problems` — these verdicts make the right reports.
* `Chomsky.Judge.reports_run` — every run prints the right reports.
-/

namespace Chomsky

open Reader

/-! ## Verdicts on what is written -/

/-- Rewriting from the start symbol gives no characters but those of the alphabets. -/
lemma Grammar.mem_names_of_rewritesMany {g : Grammar} (hg : g.WellFormed) {text : List Char}
    (h : NamedRule.RewritesMany g.namedRules (g.spell [g.start]) text) :
    ∀ c ∈ text, c ∈ g.nonterminalNames ∨ c ∈ g.terminalNames := by
  obtain ⟨form, rfl, -, hform⟩ := exists_of_rewritesMany_spell hg hg.declared_start h
  intro c hc
  obtain ⟨a, ha, rfl⟩ := List.mem_map.1 hc
  rcases Nat.lt_or_ge a.toNat g.numNonterminals with hlt | hle
  · exact .inl (Names.display_mem_take (hform a ha) hlt)
  · exact .inr (Names.display_mem_drop (hform a ha) hle)

/-- **A word without nonterminals is a member if and only if the rules that are written give it**
from the start symbol that is written. -/
theorem Reader.Listing.Describes.isMember_iff {l : Listing} {p : Problem} (h : l.Describes p)
    {word : List Char} (hword : ∀ c ∈ word, c ∉ l.nonterminals) :
    isMember p.grammar (p.grammar.word word) = true ↔
      NamedRule.RewritesMany l.rules [l.start] word := by
  have hrules : NamedRule.RewritesMany p.grammar.namedRules [l.start] word ↔
      NamedRule.RewritesMany l.rules [l.start] word :=
    ⟨fun hw => hw.mono fun r hr => (h.describedBy.mem_namedRules r).1 hr,
      fun hw => hw.mono fun r hr => (h.describedBy.mem_namedRules r).2 hr⟩
  rw [Grammar.isMember_word_iff h.wellFormed, h.describedBy.spell_start, ← hrules]
  refine and_iff_right_of_imp fun hw c hc => ?_
  rw [← h.describedBy.spell_start] at hw
  refine (Grammar.mem_names_of_rewritesMany h.wellFormed hw c hc).resolve_left fun hn => ?_
  exact hword c hc ((h.describedBy.mem_nonterminalNames c).1 hn)

/-- The words that are written hold no nonterminals. -/
lemma Reader.Script.not_mem_nonterminals {limit : Nat} {listings : List Listing}
    {lines : List (List Char)} (h : Script limit listings lines) :
    ∀ l ∈ listings, ∀ word ∈ l.words, ∀ c ∈ word, c ∉ l.nonterminals := by
  induction h with
  | nil => exact fun l hl => absurd hl List.not_mem_nil
  | blank hline h ih => exact ih
  | block hl h ih =>
    obtain ⟨-, -, -, -, hwords, -⟩ := hl
    exact List.forall_mem_cons.2 ⟨fun word hword => (hwords word hword).not_mem, ih⟩

/-! ## Reports -/

open Classical in
/-- The right verdict about a word, on a line. -/
noncomputable def Reader.Listing.verdict (l : Listing) (word : List Char) : List Char :=
  if NamedRule.RewritesMany l.rules [l.start] word then word ++ " e uma palavra valida\n".toList
  else word ++ " nao e uma palavra valida\n".toList

/-- The right report on a problem: its number on a line, as the library writes numbers, the verdicts
about its words in order, and an empty line. -/
noncomputable def Reader.Listing.report (l : Listing) (number : Nat) : List Char :=
  "Instancia ".toList ++ (toString number).toList ++ ['\n'] ++ l.words.flatMap l.verdict ++ ['\n']

/-- The digits of a number are those that the library writes. -/
lemma Text.decimal_eq (n : Nat) : decimal n = (toString n).toList := by
  rw [decimal, Nat.toString_eq_repr, Nat.toList_repr]

/-- What ends the line of a valid word. -/
lemma Report.ending_newline : ending ++ ['\n'] = " e uma palavra valida\n".toList := by decide

/-- What ends the line of any other word. -/
lemma Report.negation_ending_newline :
    negation ++ (ending ++ ['\n']) = " nao e uma palavra valida\n".toList := by decide

/-- The verdict of the grammar is the right one. -/
lemma Reader.Listing.Describes.line_eq {l : Listing} {p : Problem} (h : l.Describes p)
    {word : List Char} (hword : ∀ c ∈ word, c ∉ l.nonterminals) :
    Report.line word (isMember p.grammar (p.grammar.word word)) = l.verdict word := by
  have hmember := h.isMember_iff hword
  unfold Report.line Listing.verdict
  cases hverdict : isMember p.grammar (p.grammar.word word) with
  | true =>
    rw [if_pos rfl, if_pos (hmember.1 hverdict), List.append_nil, List.append_assoc,
      Report.ending_newline]
  | false =>
    have hnot : ¬ NamedRule.RewritesMany l.rules [l.start] word := fun hw =>
      absurd (hmember.2 hw) (by simp [hverdict])
    rw [if_neg Bool.false_ne_true, if_neg hnot, List.append_assoc, List.append_assoc,
      Report.negation_ending_newline]

/-- A report with a verdict about each word has a line for each. -/
lemma Report.text_map (number : Nat) (words : List (List Char)) (accepts : List Char → Bool) :
    Report.text number words (words.map accepts) =
      heading ++ Text.decimal number ++ ['\n'] ++
        words.flatMap (fun word => line word (accepts word)) ++ ['\n'] := by
  rw [Report.text, ← List.map_prod_left_eq_zip, List.flatMap_map]

/-- The verdicts of the grammar make the right report. -/
lemma Reader.Listing.Describes.text_eq {l : Listing} {p : Problem} (h : l.Describes p)
    (hwords : ∀ word ∈ l.words, ∀ c ∈ word, c ∉ l.nonterminals) (number : Nat) :
    Report.text number p.words (p.symbolWords.map (isMember p.grammar)) = l.report number := by
  have hlines : l.words.flatMap (fun word =>
      Report.line word (isMember p.grammar (p.grammar.word word))) = l.words.flatMap l.verdict :=
    List.flatMap_congr fun word hword => h.line_eq (hwords word hword)
  rw [Problem.symbolWords, List.map_map, h.words_eq, Report.text_map, Text.decimal_eq]
  simp only [Function.comp_apply, hlines]
  rfl

/-! ## What a run reports -/

/-- Several reports, each of words with verdicts, numbered from `number` on. -/
def Report.texts (number : Nat) : List (List (List Char) × List Bool) → List Char
  | [] => []
  | (words, verdicts) :: reports => text number words verdicts ++ texts (number + 1) reports

/-- A problem that was read is one of those written. -/
lemma Reader.Listing.exists_describes {listings : List Listing} {problems : List Problem}
    (h : List.Forall₂ Describes listings problems) : ∀ p ∈ problems, ∃ l ∈ listings, l.Describes p := by
  induction h with
  | nil => exact fun p hp => absurd hp List.not_mem_nil
  | cons hl _ ih =>
    refine List.forall_mem_cons.2 ⟨⟨_, List.mem_cons_self, hl⟩, fun p hp => ?_⟩
    obtain ⟨l, hmem, hdescribes⟩ := ih p hp
    exact ⟨l, List.mem_cons_of_mem _ hmem, hdescribes⟩

namespace Judge

/-- What is reported about problems: the words of each and the verdicts about them, with one cache for all
problems. -/
def findingsFrom (cache : Cache) : List Block → List (List (List Char) × List Bool)
  | [] => []
  | b :: rest =>
    let (verdicts, cache, _) := cache.evaluateAll b.problem.grammar b.problem.symbolWords
    (b.problem.words, verdicts) :: findingsFrom cache rest

/-- What a run reports on what was read. -/
def findings (reading : Reading) : List (List (List Char) × List Bool) :=
  findingsFrom .empty reading.blocks

/-- What is printed are the texts of the reports. -/
lemma output_judgeBlocks_eq_texts (number : Nat) (cache : Cache) (blocks : List Block) :
    (judgeBlocks number cache blocks).1 = Report.texts number (findingsFrom cache blocks) := by
  induction blocks generalizing number cache with
  | nil => rfl
  | cons b rest ih => exact congrArg (_ ++ ·) (ih _ _)

/-- A sound cache gives the verdicts of the grammars. -/
lemma findingsFrom_eq {cache : Cache} (hc : cache.Sound) {blocks : List Block}
    (hwf : ∀ b ∈ blocks, b.problem.grammar.WellFormed) :
    findingsFrom cache blocks = blocks.map fun b =>
      (b.problem.words, b.problem.symbolWords.map (isMember b.problem.grammar)) := by
  induction blocks generalizing cache with
  | nil => rfl
  | cons b rest ih =>
    obtain ⟨hb, hrest⟩ := List.forall_mem_cons.1 hwf
    obtain ⟨hverdicts, hsound⟩ := hc.membershipAll hb b.problem.symbolWords
    rw [List.map_cons, ← hverdicts, ← ih hsound hrest]
    rfl

/-- The grammars that are read are well-formed. -/
lemma wellFormed_of_mem_problems (limit : Nat) (input : List UInt8) :
    ∀ p ∈ (readBytes limit input).problems, p.grammar.WellFormed := by
  obtain ⟨listings, -, -, hproblems, -, -⟩ := exists_script_readLines limit (Text.linesOfBytes input)
  intro p hp
  obtain ⟨l, -, hl⟩ := Listing.exists_describes hproblems p hp
  exact hl.wellFormed

/-- What a run reports are the verdicts of the grammars about the words. -/
lemma findings_readBytes (limit : Nat) (input : List UInt8) :
    findings (readBytes limit input) = (readBytes limit input).problems.map fun p =>
      (p.words, p.symbolWords.map (isMember p.grammar)) := by
  rw [Reading.problems, List.map_map]
  exact findingsFrom_eq Cache.sound_empty fun b hb =>
    wellFormed_of_mem_problems limit input b.problem (List.mem_map_of_mem hb)

/-- What is printed for a reading are the reports of its findings. -/
lemma output_runReading (reading : Reading) :
    (runReading reading).output = Report.texts 1 (findings reading) :=
  output_judgeBlocks_eq_texts 1 .empty reading.blocks

/-- The verdicts of the grammars make the right reports. -/
lemma texts_problems {listings : List Listing} {problems : List Problem}
    (hd : List.Forall₂ Listing.Describes listings problems)
    (hwords : ∀ l ∈ listings, ∀ word ∈ l.words, ∀ c ∈ word, c ∉ l.nonterminals) (number : Nat) :
    Report.texts number (problems.map fun p => (p.words, p.symbolWords.map (isMember p.grammar))) =
      (listings.zipIdx number).flatMap fun (l, i) => l.report i := by
  induction hd generalizing number with
  | nil => rfl
  | @cons l p listings problems hl _ ih =>
    obtain ⟨hhead, hwords⟩ := List.forall_mem_cons.1 hwords
    rw [List.map_cons, Report.texts, hl.text_eq hhead, ih hwords, List.zipIdx_cons, List.flatMap_cons]

/-! ## Runs -/

/-- A run prints the right reports on an input: one on each problem that is read before the end or
the first fault, numbered from one, where the problems are those that the first lines of the input
write.  It ends with the status one if there was a fault, and with zero if not. -/
def Reports (limit : Nat) (input : List UInt8) (r : Run) : Prop :=
  let reading := readBytes limit input
  ∃ listings consumed,
    Script limit listings consumed ∧ consumed.map some <+: Text.linesOfBytes input ∧
      List.Forall₂ Listing.Describes listings reading.problems ∧
      r.output = ((listings.zipIdx 1).flatMap fun (l, i) => l.report i) ∧
      r.status = if reading.error.isSome then 1 else 0

/-- What was read of an input is reported rightly. -/
lemma reports_runReading (limit : Nat) (input : List UInt8) :
    Reports limit input (runReading (readBytes limit input)) := by
  obtain ⟨listings, consumed, hscript, hproblems, hprefix, -⟩ :=
    exists_script_readLines limit (Text.linesOfBytes input)
  refine ⟨listings, consumed, hscript, hprefix, hproblems, ?_, ?_⟩
  · rw [output_runReading, findings_readBytes]
    exact texts_problems hproblems hscript.not_mem_nonterminals 1
  · unfold Run.status runReading
    cases (readBytes limit input).error with
    | none => rfl
    | some e => rfl

/-- **Every run prints the right reports**, whatever the input and the limit are, and whatever the
limit was set by. -/
theorem reports_run (input : List UInt8) :
    (∀ limit : Nat, Reports limit input (runReading (readBytes limit input))) ∧
      ∀ setting : Option (List Char), Reports (WordLimit.ofSetting setting).1 input (run setting input) :=
  ⟨fun limit => reports_runReading limit input, fun setting =>
    reports_runReading (WordLimit.ofSetting setting).1 input⟩

/-- What is printed for two problems and a line that is no header.  A word counts as it is written, also with
the blank that it begins with. -/
theorem reports_run_twoProblems :
    let text := "S SA ab\nS -> AA\nA -> a\n# -> #\naa\nba\n#\nS S a\n# -> #\n a\n#\nS".toList
    let input := Text.encode text
    let r := runReading (readBytes 5 input)
    Reports 5 input r ∧
      r.output = ("Instancia 1\naa e uma palavra valida\nba nao e uma palavra valida\n\n" ++
        "Instancia 2\n a nao e uma palavra valida\n\n").toList ∧
      r.status = 1 := by
  intro text input r
  -- the grammars read, `S -> AA` and `A -> a`, and one without rules
  let first : Grammar :=
    ⟨⟨['A', 'S', 'a', 'b']⟩, 2, .ofNat 1,
      [⟨.ofNat 0, .terminal (.ofNat 2)⟩, ⟨.ofNat 1, .pair (.ofNat 0) (.ofNat 0)⟩]⟩
  let second : Grammar := ⟨⟨['S', 'a']⟩, 1, .ofNat 0, []⟩
  have hread : readBytes 5 input = ⟨[⟨1, first, ["aa".toList, "ba".toList]⟩,
      ⟨8, second, [" a".toList]⟩], some ⟨.header ['S'], 12⟩⟩ := by
    rw [readBytes_encode]
    rfl
  obtain ⟨hfirst, hsecond⟩ : first.WellFormed ∧ second.WellFormed := by
    have hwf := wellFormed_of_mem_problems 5 input
    rw [hread] at hwf
    exact ⟨hwf ⟨first, _⟩ List.mem_cons_self, hwf ⟨second, _⟩ (List.mem_cons_of_mem _ List.mem_cons_self)⟩
  have haa : isMember first (first.word "aa".toList) = true := by
    have ha : first.Derives (.ofNat 0) [.ofNat 2] := .terminal (by decide)
    exact (isMember_iff_derives hfirst).2 (.pair (by decide) ha ha)
  -- there is no rule for `b`; in the second grammar there is none at all
  have hba : isMember first (first.word "ba".toList) = false :=
    isMember_eq_false_of_mem hfirst (by decide : .ofNat 3 ∈ _) (by decide)
  have hblank : isMember second (second.word " a".toList) = false :=
    isMember_eq_false_of_mem hsecond (by decide : .ofNat 1 ∈ _) (by decide)
  refine ⟨(reports_run input).1 5, ?_, ?_⟩
  · rw [output_runReading, findings_readBytes, hread]
    simp only [Reading.problems, Problem.symbolWords, List.map_cons, List.map_nil, haa, hba, hblank]
    decide
  · exact congrArg (fun reading => (runReading reading).status) hread

end Judge

end Chomsky
