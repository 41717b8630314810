import Chomsky.Proofs.Reader.Acceptance
import Chomsky.Proofs.Reader.Iteration
import Chomsky.Proofs.Reader.Refusals

set_option autoImplicit false

/-!
# Which error ends the reading

Reading ends with an error if and only if the input begins with problems and the lines of one more
problem, all in order, and the next line is refused or there is none.  So the first fault in reading order
is the one reported.  It is reported at its own line, except that a grammar refused at the end of its rules
is reported at its header, and an input that ends inside a problem at its last line.

## Main definitions

* `Chomsky.Reader.Fault` — the faults of an input, with kind and line.

## Main results

* `Chomsky.Reader.Reached.readFrom_eq` — the lines that lead to a stage lead the reader there.
* `Chomsky.Reader.Reached.fault_of_step`, `Chomsky.Reader.Reached.fault_of_error` — an error has a fault
  behind it.
* `Chomsky.Reader.Fault.error_eq` — a fault is reported.
* `Chomsky.Reader.items_and_faults` — what a cursor gives, and which errors there are.
-/

namespace Chomsky.Reader

open Text

variable {limit n : Nat} {text : List Char} {stage stage' : Stage} {listings listings' : List Listing}
  {before block : List (List Char)} {lines rest : List (Option (List Char))} {e : LoadError}
  {kind : LoadFault.Kind}

/-- The faults of an input: its lines begin with problems and the lines that lead to a stage of one more
problem, and there the next line is refused, or the grammar is at the end of its rules, or there is no
next line. -/
inductive Fault (limit : Nat) : List (Option (List Char)) → LoadFault.Kind → LoadError → Prop where
  | notText {listings : List Listing} {before block : List (List Char)} {stage : Stage}
      {rest : List (Option (List Char))} (hbefore : Script limit listings before)
      (hblock : Reached limit stage block) :
      Fault limit ((before ++ block).map some ++ none :: rest) .reading
        ⟨.notText, (before ++ block).length + 1⟩
  | header {listings : List Listing} {before : List (List Char)} {text : List Char} {fault : LoadFault}
      {rest : List (Option (List Char))} (hbefore : Script limit listings before)
      (hblank : ¬ Blanks text) (h : HeaderFault text fault) :
      Fault limit (before.map some ++ some text :: rest) .grammar ⟨fault, before.length + 1⟩
  | rule {listings : List Listing} {before block : List (List Char)} {b : Builder} {text : List Char}
      {fault : LoadFault} {rest : List (Option (List Char))} (hbefore : Script limit listings before)
      (hblock : Reached limit (.rules (before.length + 1) b) block) (hend : trim text ≠ endOfRules)
      (h : RuleFault b text fault) :
      Fault limit ((before ++ block).map some ++ some text :: rest) .grammar
        ⟨fault, (before ++ block).length + 1⟩
  | grammar {listings : List Listing} {before ruleLines : List (List Char)} {header text : List Char}
      {start : Char} {nonterminals terminals : List Char} {rules : List NamedRule} {b : Builder}
      {e : GrammarError} {rest : List (Option (List Char))} (hbefore : Script limit listings before)
      (hheader : Laid [[start], nonterminals, terminals] header)
      (hrules : List.Forall₂ RuleLine rules ruleLines)
      (hb : (Builder.new start nonterminals terminals).addRules rules = .ok b)
      (hend : trim text = endOfRules) (h : DescriptionFault start nonterminals terminals e) :
      Fault limit ((before ++ header :: ruleLines).map some ++ some text :: rest) .grammar
        ⟨.grammar e, before.length + 1⟩
  | word {listings : List Listing} {before block : List (List Char)} {g : Grammar}
      {words : List (List Char)} {text : List Char} {e : WordError} {rest : List (Option (List Char))}
      (hbefore : Script limit listings before)
      (hblock : Reached limit (.words (before.length + 1) g words) block)
      (hend : trim text ≠ endOfWords) (h : WordFault limit g.nonterminalNames text e) :
      Fault limit ((before ++ block).map some ++ some text :: rest) .word
        ⟨.word e, (before ++ block).length + 1⟩
  | rulesUnfinished {listings : List Listing} {before block : List (List Char)} {b : Builder}
      (hbefore : Script limit listings before)
      (hblock : Reached limit (.rules (before.length + 1) b) block) :
      Fault limit ((before ++ block).map some) .grammar ⟨.rulesUnfinished, (before ++ block).length⟩
  | wordsUnfinished {listings : List Listing} {before block : List (List Char)} {g : Grammar}
      {words : List (List Char)} (hbefore : Script limit listings before)
      (hblock : Reached limit (.words (before.length + 1) g words) block) :
      Fault limit ((before ++ block).map some) .word ⟨.wordsUnfinished, (before ++ block).length⟩

/-- Every fault has the kind that it is stated with. -/
lemma Fault.kind_eq (h : Fault limit lines kind e) : e.kind = kind := by
  cases h with
  | notText => rfl
  | header _ _ h => cases h <;> rfl
  | rule _ _ _ h => cases h <;> rfl
  | grammar => rfl
  | word => rfl
  | rulesUnfinished => rfl
  | wordsUnfinished => rfl

/-- The block that leads to a stage after the header has lines. -/
lemma Reached.block_ne_nil (h : Reached limit stage block) (hstage : stage ≠ .header) : block ≠ [] := by
  cases h with
  | header => exact absurd rfl hstage
  | rules => simp
  | words => simp

/-- A fault is reported at a line of the input. -/
lemma Fault.line_mem (h : Fault limit lines kind e) : 1 ≤ e.line ∧ e.line ≤ lines.length := by
  have hnext : ∀ (read : List (List Char)) (line : Option (List Char)) (rest : List (Option (List Char))),
      1 ≤ read.length + 1 ∧ read.length + 1 ≤ (read.map some ++ line :: rest).length := by simp
  cases h with
  | notText => exact hnext _ _ _
  | header => exact hnext _ _ _
  | rule => exact hnext _ _ _
  | grammar => simp
  | word => exact hnext _ _ _
  | rulesUnfinished _ hblock =>
    have hpos := List.length_pos_iff.2 (hblock.block_ne_nil (by simp))
    simp only [List.length_map, List.length_append, le_refl, and_true]
    omega
  | wordsUnfinished _ hblock =>
    have hpos := List.length_pos_iff.2 (hblock.block_ne_nil (by simp))
    simp only [List.length_map, List.length_append, le_refl, and_true]
    omega

/-! ## The place in an input -/

/-- The grammar among whose words the reader is has been built. -/
lemma Reached.wellFormed {g : Grammar} {words : List (List Char)}
    (h : Reached limit (.words n g words) block) : g.WellFormed := by
  cases h with
  | words _ _ _ hg _ => exact Grammar.wellFormed_of_ofRules hg

/-- The header of the problem that a stage belongs to, if there is one, is at a given line. -/
def Stage.HeaderAt (line : Nat) : Stage → Prop
  | .header => True
  | .rules n _ => n = line
  | .words n _ _ => n = line

/-- The lines that lead to a stage lead there at whatever line the header is. -/
lemma Reached.exists_headerAt (h : Reached limit stage block) (line : Nat) :
    ∃ stage' : Stage, Reached limit stage' block ∧ stage'.HeaderAt line := by
  cases h with
  | header => exact ⟨_, .header, trivial⟩
  | rules hheader hrules hb => exact ⟨_, .rules (n := line) hheader hrules hb, rfl⟩
  | words hheader hrules hend hg hwords =>
    exact ⟨_, .words (n := line) hheader hrules hend hg hwords, rfl⟩

/-- A header is where the problem begins, and the other lines of a problem leave it there. -/
lemma Stage.HeaderAt.step {line : Nat} {ended : Option Block} (h : stage.HeaderAt line)
    (hstep : step limit n text stage = .ok (stage', ended)) (hheader : stage = .header → n = line) :
    stage'.HeaderAt line := by
  cases stage with
  | header =>
    obtain ⟨-, ⟨-, rfl⟩ | ⟨_, _, _, -, rfl⟩⟩ := step_header_eq_ok_iff.1 hstep
    · trivial
    · exact hheader rfl
  | rules m b =>
    obtain ⟨-, ⟨-, _, -, rfl⟩ | ⟨-, _, _, -, -, rfl⟩⟩ := step_rules_eq_ok_iff.1 hstep <;> exact h
  | words m g words =>
    obtain rfl | ⟨rfl, -⟩ := step_words_cases hstep
    · trivial
    · exact h

/-- Scripts can be written one after the other. -/
lemma Script.append {lines lines' : List (List Char)} (h : Script limit listings lines)
    (h' : Script limit listings' lines') : Script limit (listings ++ listings') (lines ++ lines') := by
  induction h with
  | nil => exact h'
  | blank hline _ ih => exact .blank hline ih
  | block hl _ ih =>
    rw [List.append_assoc]
    exact .block hl ih

/-! ## Errors have faults -/

/-- An error at a line has a fault behind it. -/
lemma Reached.fault_of_step (hbefore : Script limit listings before) (hblock : Reached limit stage block)
    (hline : stage.HeaderAt (before.length + 1))
    (hstep : step limit ((before ++ block).length + 1) text stage = .error e)
    (rest : List (Option (List Char))) :
    ∃ kind, Fault limit ((before ++ block).map some ++ some text :: rest) kind e := by
  obtain ⟨fault, line⟩ := e
  cases hblock with
  | header =>
    obtain ⟨hblank, h, rfl⟩ := step_header_eq_error_iff.1 hstep
    rw [List.append_nil]
    exact ⟨_, .header hbefore hblank h⟩
  | rules hheader hrules hb =>
    obtain rfl : _ = before.length + 1 := hline
    rcases step_rules_eq_error_iff.1 hstep with ⟨hend, e', hbuild, he⟩ | ⟨hend, h, rfl⟩
    · obtain ⟨rfl, rfl⟩ := LoadError.mk.inj he
      exact ⟨_, .grammar hbefore hheader hrules hb hend ((build_eq_error_iff hb).1 hbuild)⟩
    · exact ⟨_, .rule hbefore (.rules hheader hrules hb) hend h⟩
  | words hheader hrules hend hg hwords =>
    obtain rfl : _ = before.length + 1 := hline
    obtain ⟨hnot, e', h, he⟩ :=
      (step_words_eq_error_iff (Grammar.wellFormed_of_ofRules hg)).1 hstep
    obtain ⟨rfl, rfl⟩ := LoadError.mk.inj he
    exact ⟨_, .word hbefore (.words hheader hrules hend hg hwords) hnot h⟩

/-- **An error has a fault behind it.**

**Proof sketch.** By induction on the lines that have not been read: a line that is taken in continues the
problem at hand, or completes it, or is a blank line between problems. -/
theorem Reached.fault_of_error (hbefore : Script limit listings before)
    (hblock : Reached limit stage block) (hline : stage.HeaderAt (before.length + 1))
    (hn : n = (before ++ block).length) (herr : (readFrom limit n stage rest).error = some e) :
    ∃ kind, Fault limit ((before ++ block).map some ++ rest) kind e := by
  induction rest generalizing n listings before stage block with
  | nil =>
    rw [List.append_nil]
    cases hblock with
    | header => simp [readFrom, Stage.finish] at herr
    | rules hheader hrules hb =>
      obtain rfl : _ = before.length + 1 := hline
      obtain rfl := Option.some.inj herr
      rw [hn]
      exact ⟨_, .rulesUnfinished hbefore (.rules hheader hrules hb)⟩
    | words hheader hrules hend hg hwords =>
      obtain rfl : _ = before.length + 1 := hline
      obtain rfl := Option.some.inj herr
      rw [hn]
      exact ⟨_, .wordsUnfinished hbefore (.words hheader hrules hend hg hwords)⟩
  | cons first rest ih =>
    cases first with
    | none =>
      obtain rfl := Option.some.inj herr
      rw [hn]
      exact ⟨_, .notText hbefore hblock⟩
    | some text =>
      rw [readFrom] at herr
      cases hstep : step limit (n + 1) text stage with
      | error e' =>
        simp only [hstep, Option.some.injEq] at herr
        subst herr hn
        exact hblock.fault_of_step hbefore hline hstep rest
      | ok outcome =>
        -- the line goes to the problems before, or to the lines of the problem at hand
        obtain ⟨stage', _ | b⟩ := outcome
        · simp only [hstep] at herr
          rcases hblock.step_none hstep with ⟨rfl, hblank, rfl⟩ | hnext
          · cases hblock
            have hmore := hbefore.append (.blank hblank .nil)
            have hfault := ih hmore .header trivial (by simp [hn]) herr
            simpa using hfault
          · have hline' := hline.step hstep fun hheader => by
              subst hheader
              cases hblock
              simp [hn]
            have hfault := ih hbefore hnext hline' (by simp [hn, Nat.add_assoc]) herr
            simpa using hfault
        · simp only [hstep] at herr
          obtain ⟨rfl, l, hl, -⟩ := hblock.step_some hstep
          have hmore := hbefore.append (.block hl .nil)
          have hfault := ih hmore .header trivial (by simp [hn, Nat.add_assoc]) herr
          simpa using hfault

/-! ## Faults are reported -/

/-- Reading stops at a line that is refused. -/
lemma readFrom_cons_of_error (h : step limit (n + 1) text stage = .error e) :
    readFrom limit n stage (some text :: rest) = ⟨[], some e⟩ := by
  rw [readFrom, h]

/-- **The lines that lead to a stage lead the reader there**, wherever they stand.

**Proof sketch.** The rules may stand over alphabets that share a character, which the builder then takes for
a nonterminal; without it among the terminals, the alphabets are disjoint. -/
theorem Reached.readFrom_eq (h : Reached limit stage block) (hline : stage.HeaderAt (n + 1))
    (rest : List (Option (List Char))) :
    readFrom limit n .header (block.map some ++ rest) =
      readFrom limit (n + block.length) stage rest := by
  cases h with
  | header => rfl
  | @rules m start nonterminals terminals rules b header ruleLines hheader hrules hb =>
    obtain rfl : m = n + 1 := hline
    have hblank := forall_field_of_laid hheader
    have hstep : step limit (n + 1) header .header =
        .ok (.rules (n + 1) (.new start nonterminals terminals), none) :=
      step_header_eq_ok_iff.2 ⟨rfl, .inr ⟨_, _, _, hheader, rfl⟩⟩
    have hdisjoint : nonterminals.Disjoint (terminals.filter fun c => c ∉ nonterminals) :=
      fun c hn ht => by simp [hn] at ht
    have hform : ∀ r ∈ rules, r.InForm nonterminals (terminals.filter fun c => c ∉ nonterminals) :=
      fun r hr => Builder.exists_denotes_new_iff.1 ((Builder.addRules_eq_ok hb).2.1 r hr)
    rw [List.map_cons, List.cons_append, readFrom_cons hstep,
      readFrom_rules hrules hdisjoint (hblank _ (by simp))
        (fun c hc => hblank terminals (by simp) c (List.mem_of_mem_filter hc)) hform hb,
      List.length_cons, Nat.add_assoc, Nat.add_comm 1]
  | @words m l g header endRules ruleLines hheader hrules hend hg hwords =>
    obtain rfl : m = n + 1 := hline
    have hwords' : ∀ word ∈ l.words, WordLine limit g.nonterminalNames word := fun word hword =>
      (wordLine_congr (Grammar.describedBy_of_ofRules hg).mem_nonterminalNames).2 (hwords word hword)
    have hlength : n + (header :: ruleLines ++ endRules :: l.words).length =
        n + 1 + ruleLines.length + 1 + l.words.length := by
      simp only [List.length_append, List.length_cons]
      omega
    rw [hlength]
    simp only [List.map_append, List.map_cons, List.cons_append, List.append_assoc]
    rw [readFrom_description hg hheader hrules hend,
      readFrom_words (Grammar.wellFormed_of_ofRules hg) hwords', List.nil_append]

/-- After problems and the lines that lead to a stage, the error is that of the rest of the input. -/
lemma Reached.error_readLines (hbefore : Script limit listings before) (hblock : Reached limit stage block)
    (hline : stage.HeaderAt (before.length + 1)) (rest : List (Option (List Char))) :
    (readLines limit ((before ++ block).map some ++ rest)).error =
      (readFrom limit (before ++ block).length stage rest).error := by
  obtain ⟨blocks, -, heq⟩ := hbefore.readFrom_eq 0 (block.map some ++ rest)
  rw [readLines, List.map_append, List.append_assoc, heq, Nat.zero_add, hblock.readFrom_eq hline,
    List.length_append]

/-- **A fault is reported.** -/
theorem Fault.error_eq (h : Fault limit lines kind e) : (readLines limit lines).error = some e := by
  cases h with
  | notText hbefore hblock =>
    obtain ⟨stage, hstage, hline⟩ := hblock.exists_headerAt _
    rw [hstage.error_readLines hbefore hline]
    rfl
  | @header _ before text fault rest hbefore hblank h =>
    have hstep : step limit (before.length + 1) text .header = .error ⟨fault, before.length + 1⟩ :=
      step_header_eq_error_iff.2 ⟨hblank, h, rfl⟩
    have hread := Reached.header.error_readLines hbefore trivial (some text :: rest)
    rw [List.append_nil, readFrom_cons_of_error hstep] at hread
    exact hread
  | @rule _ before block b text fault rest hbefore hblock hend h =>
    have hstep : step limit ((before ++ block).length + 1) text (.rules (before.length + 1) b) =
        .error ⟨fault, (before ++ block).length + 1⟩ :=
      step_rules_eq_error_iff.2 (.inr ⟨hend, h, rfl⟩)
    rw [hblock.error_readLines hbefore rfl, readFrom_cons_of_error hstep]
  | @grammar _ before ruleLines header text _ _ _ _ b _ _ hbefore hheader hrules hb hend h =>
    have hblock : Reached limit (.rules (before.length + 1) b) (header :: ruleLines) :=
      .rules hheader hrules hb
    have hbuild := (build_eq_error_iff hb).2 h
    rw [hblock.error_readLines hbefore rfl,
      readFrom_cons_of_error (step_rules_eq_error_iff.2 (.inl ⟨hend, _, hbuild, rfl⟩))]
  | word hbefore hblock hend h =>
    have hg := hblock.wellFormed
    rw [hblock.error_readLines hbefore rfl,
      readFrom_cons_of_error ((step_words_eq_error_iff hg).2 ⟨hend, _, h, rfl⟩)]
  | rulesUnfinished hbefore hblock =>
    have hread := hblock.error_readLines hbefore rfl []
    rw [List.append_nil] at hread
    exact hread
  | wordsUnfinished hbefore hblock =>
    have hread := hblock.error_readLines hbefore rfl []
    rw [List.append_nil] at hread
    exact hread

/-- **Reading one problem at a time ends with the first fault.**  The items are the problems in order and
then the error, if there is one, and nothing more.  There is an error exactly if the input has a fault, with
its kind and its line, which is a line of the input.  As long as the input does not end inside a problem,
an input that begins with the same lines as those read so far gives the same items.

**Proof sketch.** The items are those read at once.  An error has a fault behind it, by the lines read
before it, and a fault is reported, as these lines lead the reader to it. -/
theorem items_and_faults (limit : Nat) (input : List UInt8) :
    let lines := linesOfBytes input
    let cursor := Cursor.start lines
    let reading := readBytes limit input
    (∀ n, cursor.item? limit n =
      (reading.blocks.map .ok ++ (reading.error.map .error).toList)[n]?) ∧
    (∀ kind e, reading.error = some e ∧ e.kind = kind ↔ Fault limit lines kind e) ∧
    (∀ e, reading.error = some e → 1 ≤ e.line ∧ e.line ≤ lines.length) ∧
    ∀ n item, cursor.item? limit n = some item →
      (∀ e, item = .error e → e.fault.isUnfinished = false) →
        ∃ read, lines = read ++ (cursor.advance limit (n + 1)).ahead ∧
          ∀ input', read <+: linesOfBytes input' → ∀ m ≤ n,
            (Cursor.start (linesOfBytes input')).item? limit m = cursor.item? limit m := by
  intro lines cursor reading
  have hfault : ∀ e, reading.error = some e → Fault limit lines e.kind e := by
    intro e herr
    obtain ⟨kind, h⟩ := Reached.header.fault_of_error .nil trivial rfl herr
    rw [h.kind_eq]
    exact h
  refine ⟨fun n => Cursor.item?_eq rfl n, fun kind e => ⟨?_, fun h => ⟨h.error_eq, h.kind_eq⟩⟩,
    fun e herr => (hfault e herr).line_mem, fun n item hitem hend => ?_⟩
  · rintro ⟨herr, rfl⟩
    exact hfault e herr
  · obtain ⟨read, hread, hsame⟩ := Cursor.item?_congr rfl hitem hend
    refine ⟨read, hread, fun input' hprefix m hm => ?_⟩
    obtain ⟨rest, hrest⟩ := hprefix
    rw [← hrest]
    exact hsame rest m hm

/-- A line without an arrow ends the reading in the second problem, although a later line is not UTF-8, and
likewise if other lines follow it. -/
theorem fault_noArrow :
    let written := "S SA a\n# -> #\na\n#\n\nS SA a\nS->AA\nS a\n".toList
    let input := encode written ++ [255]
    let cursor := Cursor.start (linesOfBytes input)
    let other := Cursor.start (linesOfBytes (encode (written ++ "# -> #\n#".toList)))
    let error : LoadError := ⟨.noArrow "S a".toList, 8⟩
    Fault 5 (linesOfBytes input) .grammar error ∧ 8 ≤ (linesOfBytes input).length ∧
      cursor.item? 5 1 = some (.error error) ∧ cursor.item? 5 2 = none ∧
      other.item? 5 0 = cursor.item? 5 0 ∧ other.item? 5 1 = some (.error error) := by
  intro written input cursor other error
  obtain ⟨hitems, hfault, hline, hsame⟩ := items_and_faults 5 input
  have herr : (readBytes 5 input).error = some error := rfl
  have hitem : cursor.item? 5 1 = some (.error error) := rfl
  obtain ⟨read, hread, hothers⟩ := hsame 1 _ hitem fun e he => by
    obtain rfl := Except.error.inj he
    rfl
  have hlines : (lines written).map some ++ [none] = read ++ [none] := hread
  have hprefix : read <+: linesOfBytes (encode (written ++ "# -> #\n#".toList)) := by
    rw [← List.append_cancel_right hlines]
    exact ⟨_, rfl⟩
  refine ⟨(hfault .grammar error).1 ⟨herr, rfl⟩, (hline error herr).2, hitem, hitems 2,
    hothers _ hprefix 0 (by decide), ?_⟩
  exact (hothers _ hprefix 1 (by decide)).trans hitem

end Chomsky.Reader
