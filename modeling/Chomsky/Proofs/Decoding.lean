import Chomsky.Proofs.Judging
import Chomsky.Proofs.Text.Lines

set_option autoImplicit false

/-!
# Reading reports back

The wording of a verdict is ambiguous by itself: an accepted word that ends in ` nao` would have the same
line as the rejected word in front of it.  No input brings this about.  The terminals of a header are free
of blanks, so an accepted word is, and no word holds a line feed.  Hence what a run prints determines what
it reports.

## Main definitions

* `Chomsky.Report.Clear` — a verdict that can be read off its line.

## Main results

* `Chomsky.Report.Clear.line_append_inj`, `Chomsky.Report.text_append_inj` — a line and a report can be
  read back.
* `Chomsky.Reader.Listing.Describes.clear` — the verdicts about a problem that was read are clear.
* `Chomsky.Judge.output_eq_iff_findings_eq` — two runs print the same if and only if they report the same.
-/

namespace Chomsky

open Reader

/-! ## Verdicts that can be read off -/

namespace Report

variable {word word' : List Char} {accepted accepted' : Bool} {words words' : List (List Char)}
  {verdicts verdicts' : List Bool} {rest rest' : List Char}

/-- A verdict that can be read off its line: the word fits on a line, and there is no blank in it if it is
accepted. -/
structure Clear (word : List Char) (accepted : Bool) : Prop where
  feed_not_mem : '\n' ∉ word
  not_blank : accepted = true → ∀ c ∈ word, Text.isBlank c = false

/-- Without these conditions, different verdicts may have the same line. -/
example : line "x nao".toList true = line "x".toList false := by decide

/-- The contents of the line of a verdict. -/
def lineContents (word : List Char) (accepted : Bool) : List Char :=
  word ++ (if accepted then [] else negation) ++ ending

/-- A line is its contents and a line feed. -/
lemma line_append (word : List Char) (accepted : Bool) (rest : List Char) :
    line word accepted ++ rest = lineContents word accepted ++ '\n' :: rest := by
  rw [line, lineContents, List.append_assoc, List.singleton_append]

/-- No line is empty. -/
lemma lineContents_ne_nil (word : List Char) (accepted : Bool) : lineContents word accepted ≠ [] :=
  List.append_ne_nil_of_right_ne_nil _ (by decide)

/-- A verdict that can be read off its line stays on the line. -/
lemma Clear.feed_not_mem_lineContents (h : Clear word accepted) : '\n' ∉ lineContents word accepted := by
  have hnegation : '\n' ∉ (if accepted then [] else negation) := by
    cases accepted <;> decide
  have hending : '\n' ∉ ending := by decide
  simp only [lineContents, List.mem_append, not_or]
  exact ⟨⟨h.feed_not_mem, hnegation⟩, hending⟩

/-- An accepted word does not end like a rejected one. -/
lemma Clear.ne_append_negation (h : Clear word true) : word ≠ word' ++ negation := by
  rintro rfl
  have hblank := h.not_blank rfl ' ' (List.mem_append_right _ (by decide))
  exact absurd hblank (by decide)

/-- **A verdict can be read off its line.**

**Proof sketch.** The line ends at its first line feed.  If the verdicts differ, the word that is accepted
is the other one with the negation after it, in which there is a blank. -/
theorem Clear.line_append_inj (h : Clear word accepted) (h' : Clear word' accepted')
    (heq : line word accepted ++ rest = line word' accepted' ++ rest') :
    word = word' ∧ accepted = accepted' ∧ rest = rest' := by
  rw [line_append, line_append] at heq
  obtain ⟨hcontents, hrest⟩ := Text.append_cons_inj_of_not_mem h.feed_not_mem_lineContents
    h'.feed_not_mem_lineContents heq
  have hwords : word ++ (if accepted then [] else negation) =
      word' ++ (if accepted' then [] else negation) := List.append_cancel_right hcontents
  cases accepted <;> cases accepted'
  · exact ⟨List.append_cancel_right hwords, rfl, hrest⟩
  · simp only [Bool.false_eq_true, if_false, if_true, List.append_nil] at hwords
    exact absurd hwords.symm h'.ne_append_negation
  · simp only [Bool.false_eq_true, if_false, if_true, List.append_nil] at hwords
    exact absurd hwords h.ne_append_negation
  · simp only [if_true, List.append_nil] at hwords
    exact ⟨hwords, rfl, hrest⟩

/-! ## Reports that can be read back -/

/-- The lines of a report can be read back up to the empty line that ends it. -/
lemma lines_append_inj (h : List.Forall₂ Clear words verdicts) (h' : List.Forall₂ Clear words' verdicts')
    (heq : (words.zip verdicts).flatMap (fun v => line v.1 v.2) ++ '\n' :: rest =
      (words'.zip verdicts').flatMap (fun v => line v.1 v.2) ++ '\n' :: rest') :
    words = words' ∧ verdicts = verdicts' ∧ rest = rest' := by
  -- no verdict has an empty line
  have hempty : ∀ {word accepted} {xs ys : List Char}, Clear word accepted →
      '\n' :: xs ≠ line word accepted ++ ys := by
    intro word accepted xs ys hclear hline
    rw [line_append] at hline
    obtain ⟨hnil, -⟩ : [] = lineContents word accepted ∧ xs = ys :=
      Text.append_cons_inj_of_not_mem List.not_mem_nil hclear.feed_not_mem_lineContents hline
    exact lineContents_ne_nil word accepted hnil.symm
  induction h generalizing words' verdicts' with
  | nil =>
    cases h' with
    | nil => exact ⟨rfl, rfl, (List.cons.inj heq).2⟩
    | cons hclear' _ =>
      rw [List.zip_cons_cons, List.flatMap_cons, List.append_assoc] at heq
      exact absurd heq (hempty hclear')
  | cons hclear _ ih =>
    cases h' with
    | nil =>
      rw [List.zip_cons_cons, List.flatMap_cons, List.append_assoc] at heq
      exact absurd heq.symm (hempty hclear)
    | cons hclear' htail' =>
      rw [List.zip_cons_cons, List.zip_cons_cons, List.flatMap_cons, List.flatMap_cons,
        List.append_assoc, List.append_assoc] at heq
      obtain ⟨rfl, rfl, hlines⟩ := hclear.line_append_inj hclear' heq
      obtain ⟨rfl, rfl, hrest⟩ := ih htail' hlines
      exact ⟨rfl, rfl, hrest⟩

/-- **A report can be read back.** -/
theorem text_append_inj {number : Nat} (h : List.Forall₂ Clear words verdicts)
    (h' : List.Forall₂ Clear words' verdicts')
    (heq : text number words verdicts ++ rest = text number words' verdicts' ++ rest') :
    words = words' ∧ verdicts = verdicts' ∧ rest = rest' := by
  simp only [text, List.append_assoc, List.append_cancel_left_eq, List.singleton_append] at heq
  exact lines_append_inj h h' (List.cons.inj heq).2

/-- No report is empty. -/
lemma text_ne_nil (number : Nat) (words : List (List Char)) (verdicts : List Bool) :
    text number words verdicts ≠ [] :=
  List.append_ne_nil_of_right_ne_nil _ (List.cons_ne_nil _ _)

/-- Several reports can be read back. -/
lemma texts_inj {number : Nat} {reports reports' : List (List (List Char) × List Bool)}
    (h : ∀ r ∈ reports, List.Forall₂ Clear r.1 r.2) (h' : ∀ r ∈ reports', List.Forall₂ Clear r.1 r.2)
    (heq : texts number reports = texts number reports') : reports = reports' := by
  induction reports generalizing number reports' with
  | nil =>
    cases reports' with
    | nil => rfl
    | cons r reports' => exact absurd (List.append_eq_nil_iff.1 heq.symm).1 (text_ne_nil _ _ _)
  | cons r reports ih =>
    cases reports' with
    | nil => exact absurd (List.append_eq_nil_iff.1 heq).1 (text_ne_nil _ _ _)
    | cons r' reports' =>
      obtain ⟨hr, h⟩ := List.forall_mem_cons.1 h
      obtain ⟨hr', h'⟩ := List.forall_mem_cons.1 h'
      obtain ⟨hwords, hverdicts, hrest⟩ := text_append_inj hr hr' heq
      rw [Prod.ext hwords hverdicts, ih h h' hrest]

end Report

/-! ## The verdicts about what was read -/

namespace Reader

/-- The words of the problems that are written are among the lines. -/
lemma Script.mem_lines {limit : Nat} {listings : List Listing} {lines : List (List Char)}
    (h : Script limit listings lines) : ∀ l ∈ listings, ∀ word ∈ l.words, word ∈ lines := by
  induction h with
  | nil => exact fun l hl => absurd hl List.not_mem_nil
  | blank hline h ih => exact fun l hl word hword => List.mem_cons_of_mem _ (ih l hl word hword)
  | block hl h ih =>
    obtain ⟨-, -, -, -, -, -⟩ := hl
    refine List.forall_mem_cons.2 ⟨fun word hword => ?_, fun l hl word hword => ?_⟩
    · simp [hword]
    · exact List.mem_append_right _ (ih l hl word hword)

/-- The terminals of the problems that are written are not blank. -/
lemma Script.not_blank_terminal {limit : Nat} {listings : List Listing} {lines : List (List Char)}
    (h : Script limit listings lines) :
    ∀ l ∈ listings, ∀ c ∈ l.terminals, Text.isBlank c = false := by
  induction h with
  | nil => exact fun l hl => absurd hl List.not_mem_nil
  | blank hline h ih => exact ih
  | block hl h ih =>
    obtain ⟨-, hheader, -, -, -, -⟩ := hl
    exact List.forall_mem_cons.2 ⟨forall_field_of_laid hheader _ (by simp), ih⟩

/-- **The verdicts about a problem that was read are clear**: words are lines, and an accepted word consists
of terminals. -/
theorem Listing.Describes.clear {l : Listing} {p : Problem} (h : l.Describes p)
    (hfeed : ∀ word ∈ l.words, '\n' ∉ word) (hblank : ∀ c ∈ l.terminals, Text.isBlank c = false) :
    List.Forall₂ Report.Clear p.words (p.symbolWords.map (isMember p.grammar)) := by
  rw [Problem.symbolWords, List.map_map, List.forall₂_map_right_iff, List.forall₂_same]
  intro word hword
  refine ⟨hfeed word (h.words_eq ▸ hword), fun haccepted c hc => hblank c ?_⟩
  have hterminals := ((Grammar.isMember_word_iff h.wellFormed word).1 haccepted).1
  exact (h.describedBy.mem_terminalNames c).1 (hterminals c hc)

end Reader

namespace Judge

/-- What a run reports is clear. -/
lemma clear_findings_readBytes (limit : Nat) (input : List UInt8) :
    ∀ r ∈ findings (readBytes limit input), List.Forall₂ Report.Clear r.1 r.2 := by
  obtain ⟨listings, consumed, hscript, hproblems, hconsumed, -⟩ :=
    exists_script_readLines limit (Text.linesOfBytes input)
  intro r hr
  rw [findings_readBytes] at hr
  obtain ⟨p, hp, rfl⟩ := List.mem_map.1 hr
  obtain ⟨l, hl, hdescribed⟩ := Listing.exists_describes hproblems p hp
  refine hdescribed.clear (fun word hword => ?_) (hscript.not_blank_terminal l hl)
  have hmem : some word ∈ consumed.map some := List.mem_map_of_mem (hscript.mem_lines l hl word hword)
  exact Text.feed_not_mem_of_mem_linesOfBytes (hconsumed.subset hmem)

/-- Runs on bytes print the same if and only if they report the same. -/
lemma output_eq_iff_of_limits (limit limit' : Nat) (input input' : List UInt8) :
    (runReading (readBytes limit input)).output = (runReading (readBytes limit' input')).output ↔
      findings (readBytes limit input) = findings (readBytes limit' input') := by
  rw [output_runReading, output_runReading]
  refine ⟨Report.texts_inj (clear_findings_readBytes limit input)
    (clear_findings_readBytes limit' input'), ?_⟩
  exact congrArg (Report.texts 1)

/-- **Any two runs print the same if and only if they report the same**: as many problems, with the same
words and the same verdicts.  What is reported are the verdicts of the grammars about the words, and no
accepted word holds a blank.  It makes no difference whether the limits on the length of words are given
or set. -/
theorem output_eq_iff_findings_eq :
    (∀ (limit limit' : Nat) (input input' : List UInt8),
      (runReading (readBytes limit input)).output = (runReading (readBytes limit' input')).output ↔
        findings (readBytes limit input) = findings (readBytes limit' input')) ∧
    (∀ (setting setting' : Option (List Char)) (input input' : List UInt8),
      (run setting input).output = (run setting' input').output ↔
        findings (readBytes (WordLimit.ofSetting setting).1 input) =
          findings (readBytes (WordLimit.ofSetting setting').1 input')) ∧
    ∀ (limit : Nat) (input : List UInt8),
      findings (readBytes limit input) = (readBytes limit input).problems.map (fun p =>
        (p.words, p.symbolWords.map (isMember p.grammar))) ∧
      ∀ r ∈ findings (readBytes limit input), List.Forall₂ Report.Clear r.1 r.2 :=
  ⟨output_eq_iff_of_limits, fun setting setting' input input' =>
    output_eq_iff_of_limits (WordLimit.ofSetting setting).1 (WordLimit.ofSetting setting').1 input input',
    fun limit input => ⟨findings_readBytes limit input, clear_findings_readBytes limit input⟩⟩

end Judge

end Chomsky
