import Chomsky.Proofs.Reader.Format
import Chomsky.Proofs.Text.Bytes

set_option autoImplicit false

/-!
# What the reader accepts

The reader accepts the inputs that are ways to write problems, and gives the problems written.  One
direction follows the lines that were read of a problem from stage to stage; it also says what was
read before an error.  The other direction reads what was written, part by part.

## Main definitions

* `Chomsky.Reader.Reached` — the lines of a problem that lead to a stage.

## Main results

* `Chomsky.Reader.Reached.step_none`, `Chomsky.Reader.Reached.step_some` — what a line does to them.
* `Chomsky.Reader.exists_script_readLines` — whatever is read has been written.
* `Chomsky.Reader.Listing.Written.readFrom_eq`, `Chomsky.Reader.Script.readFrom_eq` — whatever is
  written is read.
* `Chomsky.Reader.load_eq_ok_iff` — the inputs accepted, and the problems they give.
-/

namespace Chomsky.Reader

open Text

variable {limit line n : Nat} {text : List Char} {stage stage' : Stage} {block : List (List Char)}

/-- Alphabets with the same members allow the same words. -/
lemma wordLine_congr {nonterminals nonterminals' : List Char}
    (h : ∀ c, c ∈ nonterminals ↔ c ∈ nonterminals') :
    WordLine limit nonterminals text ↔ WordLine limit nonterminals' text := by
  have hnot : (∀ c ∈ text, c ∉ nonterminals) ↔ ∀ c ∈ text, c ∉ nonterminals' := by simp only [h]
  exact ⟨fun hw => ⟨hw.trim_ne, hw.length_le, hnot.1 hw.not_mem⟩,
    fun hw => ⟨hw.trim_ne, hw.length_le, hnot.2 hw.not_mem⟩⟩

/-! ## Whatever is read has been written -/

/-- The lines of a problem that lead the reader to a stage. -/
inductive Reached (limit : Nat) : Stage → List (List Char) → Prop where
  | header : Reached limit .header []
  | rules {n : Nat} {start : Char} {nonterminals terminals : List Char} {rules : List NamedRule}
      {b : Builder} {header : List Char} {ruleLines : List (List Char)}
      (hheader : Laid [[start], nonterminals, terminals] header)
      (hrules : List.Forall₂ RuleLine rules ruleLines)
      (hb : (Builder.new start nonterminals terminals).addRules rules = .ok b) :
      Reached limit (.rules n b) (header :: ruleLines)
  | words {n : Nat} {l : Listing} {g : Grammar} {header endRules : List Char}
      {ruleLines : List (List Char)}
      (hheader : Laid [[l.start], l.nonterminals, l.terminals] header)
      (hrules : List.Forall₂ RuleLine l.rules ruleLines)
      (hendRules : trim endRules = endOfRules)
      (hg : Grammar.ofRules l.start l.nonterminals l.terminals l.rules = .ok g)
      (hwords : ∀ word ∈ l.words, WordLine limit l.nonterminals word) :
      Reached limit (.words n g l.words) (header :: ruleLines ++ endRules :: l.words)

/-- A line that does not end a problem is blank, before a header, or one more line of a problem. -/
lemma Reached.step_none (h : Reached limit stage block)
    (hstep : step limit line text stage = .ok (stage', none)) :
    stage = .header ∧ Blanks text ∧ stage' = .header ∨ Reached limit stage' (block ++ [text]) := by
  cases h with
  | header =>
    obtain ⟨-, ⟨hblank, rfl⟩ | ⟨start, nonterminals, terminals, hlaid, rfl⟩⟩ :=
      step_header_eq_ok_iff.1 hstep
    · exact .inl ⟨rfl, hblank, rfl⟩
    · exact .inr (.rules hlaid .nil rfl)
  | rules hheader hrules hb =>
    obtain ⟨-, ⟨hend, g, hg, rfl⟩ | ⟨-, r, b', hr, hb', rfl⟩⟩ := step_rules_eq_ok_iff.1 hstep
    · have hbuilt := bind_eq_ok_iff.2 ⟨_, hb, hg⟩
      exact .inr (.words (l := ⟨_, _, _, _, []⟩) hheader hrules hend hbuilt (by simp))
    · have hline : List.Forall₂ RuleLine [r] [text] :=
        .cons (parseRule_eq_ok_iff.1 hr).2.2 .nil
      refine .inr (.rules hheader (List.rel_append hrules hline) ?_)
      rw [Builder.addRules_append]
      exact bind_eq_ok_iff.2 ⟨_, hb, bind_eq_ok_iff.2 ⟨b', hb', rfl⟩⟩
  | @words n l g header endRules ruleLines hheader hrules hend hg hwords =>
    obtain ⟨-, -, hended⟩ | ⟨hline, rfl, -⟩ :=
      (step_words_eq_ok_iff (Grammar.wellFormed_of_ofRules hg)).1 hstep
    · exact absurd hended (by simp)
    · have hd := Grammar.describedBy_of_ofRules hg
      have hword := (wordLine_congr hd.mem_nonterminalNames).1 hline
      have hall : ∀ word ∈ l.words ++ [text], WordLine limit l.nonterminals word :=
        List.forall_mem_append.2 ⟨hwords, List.forall_mem_singleton.2 hword⟩
      have hmore := Reached.words (n := n) (l := { l with words := l.words ++ [text] }) hheader
        hrules hend hg hall
      rw [List.append_assoc, List.cons_append]
      exact .inr hmore

/-- A line that ends a problem completes the lines that write it. -/
lemma Reached.step_some {b : Block} (h : Reached limit stage block)
    (hstep : step limit line text stage = .ok (stage', some b)) :
    stage' = .header ∧ ∃ l : Listing, l.Written limit (block ++ [text]) ∧ l.Describes b.problem := by
  cases h with
  | header => exact absurd (step_header_eq_ok_iff.1 hstep).1 (by simp)
  | rules => exact absurd (step_rules_eq_ok_iff.1 hstep).1 (by simp)
  | @words n l g header endRules ruleLines hheader hrules hend hg hwords =>
    have hwf := Grammar.wellFormed_of_ofRules hg
    obtain ⟨hlast, rfl, hended⟩ | ⟨-, -, hended⟩ := (step_words_eq_ok_iff hwf).1 hstep
    · obtain rfl := Option.some.inj hended
      exact ⟨rfl, l, .mk (Grammar.proper_of_ofRules hg) hheader hrules hend hwords hlast,
        hwf, Grammar.describedBy_of_ofRules hg, rfl⟩
    · exact absurd hended (by simp)

/-- What is read from a stage on has been written, by lines that begin with those that led to the
stage.  If there is no error, these are all lines. -/
lemma Reached.exists_script (h : Reached limit stage block) (lines : List (Option (List Char)))
    (n : Nat) :
    ∃ listings consumed, Script limit listings consumed ∧
      List.Forall₂ Listing.Describes listings (readFrom limit n stage lines).problems ∧
      consumed.map some <+: block.map some ++ lines ∧
      ((readFrom limit n stage lines).error = none →
        consumed.map some = block.map some ++ lines) := by
  induction lines generalizing stage block n with
  | nil =>
    refine ⟨[], [], .nil, .nil, List.nil_prefix, fun herr => ?_⟩
    cases h with
    | header => rfl
    | rules => simp [readFrom, Stage.finish] at herr
    | words => simp [readFrom, Stage.finish] at herr
  | cons line lines ih =>
    cases line with
    | none => exact ⟨[], [], .nil, .nil, List.nil_prefix, fun herr => by simp [readFrom] at herr⟩
    | some text =>
      rw [readFrom]
      cases hstep : step limit (n + 1) text stage with
      | error e => exact ⟨[], [], .nil, .nil, List.nil_prefix, fun herr => by simp at herr⟩
      | ok outcome =>
        obtain ⟨stage', _ | b⟩ := outcome
        · rcases h.step_none hstep with ⟨rfl, hblank, rfl⟩ | hnext
          · cases h
            obtain ⟨listings, consumed, hscript, hproblems, hprefix, hall⟩ := ih .header (n + 1)
            refine ⟨listings, text :: consumed, .blank hblank hscript, hproblems, ?_, ?_⟩
            · exact List.cons_prefix_cons.2 ⟨rfl, hprefix⟩
            · exact fun herr => congrArg (some text :: ·) (hall herr)
          · obtain ⟨listings, consumed, hscript, hproblems, hprefix, hall⟩ := ih hnext (n + 1)
            rw [List.map_append, List.append_assoc] at hprefix hall
            exact ⟨listings, consumed, hscript, hproblems, hprefix, hall⟩
        · obtain ⟨rfl, l, hl, hd⟩ := h.step_some hstep
          obtain ⟨listings, consumed, hscript, hproblems, hprefix, hall⟩ := ih .header (n + 1)
          have hsplit : ((block ++ [text]) ++ consumed).map some =
              block.map some ++ some text :: consumed.map some := by simp
          refine ⟨l :: listings, (block ++ [text]) ++ consumed, .block hl hscript,
            .cons hd hproblems, ?_, fun herr => ?_⟩
          · rw [hsplit]
            exact (List.prefix_append_right_inj _).2 (List.cons_prefix_cons.2 ⟨rfl, hprefix⟩)
          · rw [hsplit, hall herr]
            rfl

/-- **Whatever is read has been written**: the problems read are those written by the first lines,
and by all lines unless there is an error. -/
theorem exists_script_readLines (limit : Nat) (lines : List (Option (List Char))) :
    ∃ listings consumed, Script limit listings consumed ∧
      List.Forall₂ Listing.Describes listings (readLines limit lines).problems ∧
      consumed.map some <+: lines ∧
      ((readLines limit lines).error = none → consumed.map some = lines) :=
  Reached.header.exists_script lines 0

/-! ## Whatever is written is read -/

variable {rest : List (Option (List Char))}

/-- A line that does not end a problem leads to the next stage. -/
lemma readFrom_cons (h : step limit (n + 1) text stage = .ok (stage', none)) :
    readFrom limit n stage (some text :: rest) = readFrom limit (n + 1) stage' rest := by
  rw [readFrom, h]

/-- A line that ends a problem adds it to those that follow. -/
lemma readFrom_cons_of_ended {b : Block}
    (h : step limit (n + 1) text stage = .ok (stage', some b)) :
    readFrom limit n stage (some text :: rest) =
      let reading := readFrom limit (n + 1) stage' rest
      ⟨b :: reading.blocks, reading.error⟩ := by
  rw [readFrom, h]

/-- The rules over alphabets without blanks are read. -/
lemma readFrom_rules {nonterminals terminals : List Char} {rules : List NamedRule}
    {ruleLines : List (List Char)} {b b' : Builder} {headerLine : Nat}
    (hlines : List.Forall₂ RuleLine rules ruleLines) (hdisjoint : nonterminals.Disjoint terminals)
    (hn : ∀ c ∈ nonterminals, isBlank c = false) (ht : ∀ c ∈ terminals, isBlank c = false)
    (hform : ∀ r ∈ rules, r.InForm nonterminals terminals) (hb : b.addRules rules = .ok b') (n : Nat) :
    readFrom limit n (.rules headerLine b) (ruleLines.map some ++ rest) =
      readFrom limit (n + ruleLines.length) (.rules headerLine b') rest := by
  induction hlines generalizing b n with
  | nil =>
    obtain rfl := Except.ok.inj hb
    rfl
  | @cons r text rules ruleLines hline hlines ih =>
    obtain ⟨b₁, hb₁, hb⟩ := bind_eq_ok_iff.1 hb
    obtain ⟨hr, hform⟩ := List.forall_mem_cons.1 hform
    obtain ⟨hlhs, hrhs⟩ := trimmed_of_inForm hn ht hr
    have hparsed := parseRule_eq_ok_iff.2 ⟨hlhs, hrhs, hline⟩
    have hstep : step limit (n + 1) text (.rules headerLine b) = .ok (.rules headerLine b₁, none) :=
      step_rules_eq_ok_iff.2
        ⟨rfl, .inr ⟨trim_ne_endOfRules hdisjoint hr hparsed, r, b₁, hparsed, hb₁, rfl⟩⟩
    rw [List.map_cons, List.cons_append, readFrom_cons hstep, ih hform hb,
      List.length_cons, Nat.add_assoc, Nat.add_comm 1]

/-- The words are read. -/
lemma readFrom_words {g : Grammar} (hg : g.WellFormed) {words : List (List Char)}
    (hwords : ∀ word ∈ words, WordLine limit g.nonterminalNames word) {headerLine : Nat}
    (before : List (List Char)) (n : Nat) :
    readFrom limit n (.words headerLine g before) (words.map some ++ rest) =
      readFrom limit (n + words.length) (.words headerLine g (before ++ words)) rest := by
  induction words generalizing before n with
  | nil =>
    rw [List.append_nil]
    rfl
  | cons word words ih =>
    obtain ⟨hword, hwords⟩ := List.forall_mem_cons.1 hwords
    have hstep : step limit (n + 1) word (.words headerLine g before) =
        .ok (.words headerLine g (before ++ [word]), none) :=
      (step_words_eq_ok_iff hg).2 (.inr ⟨hword, rfl, rfl⟩)
    rw [List.map_cons, List.cons_append, readFrom_cons hstep, ih hwords,
      List.length_cons, Nat.add_assoc, Nat.add_comm 1, List.append_assoc, List.singleton_append]

/-- A header with its rules is read as the grammar that they describe.

**Proof sketch.** The header gives a fresh builder.  The description is proper, so the builder takes
in all rules and builds the grammar at their end. -/
lemma readFrom_description {l : Listing} {g : Grammar} {header endRules : List Char}
    {ruleLines : List (List Char)}
    (hg : Grammar.ofRules l.start l.nonterminals l.terminals l.rules = .ok g)
    (hheader : Laid [[l.start], l.nonterminals, l.terminals] header)
    (hrules : List.Forall₂ RuleLine l.rules ruleLines) (hendRules : trim endRules = endOfRules)
    (n : Nat) :
    readFrom limit n .header (some header :: (ruleLines.map some ++ some endRules :: rest)) =
      readFrom limit (n + 1 + ruleLines.length + 1) (.words (n + 1) g []) rest := by
  obtain ⟨b, hb, hbuild⟩ := bind_eq_ok_iff.1 hg
  have hproper := Grammar.proper_of_ofRules hg
  have hblank := forall_field_of_laid hheader
  have hn := hblank l.nonterminals (by simp)
  have ht := hblank l.terminals (by simp)
  have hfirst : step limit (n + 1) header .header =
      .ok (.rules (n + 1) (.new l.start l.nonterminals l.terminals), none) :=
    step_header_eq_ok_iff.2 ⟨rfl, .inr ⟨_, _, _, hheader, rfl⟩⟩
  have hlast : step limit (n + 1 + ruleLines.length + 1) endRules (.rules (n + 1) b) =
      .ok (.words (n + 1) g [], none) :=
    step_rules_eq_ok_iff.2 ⟨rfl, .inl ⟨hendRules, g, hbuild, rfl⟩⟩
  rw [readFrom_cons hfirst, readFrom_rules hrules hproper.disjoint hn ht hproper.inForm hb,
    readFrom_cons hlast]

/-- **The lines of a problem are read as the problem**, wherever they stand, and what follows them
is read as if there were no lines before.

**Proof sketch.** The header and the rules give the grammar that they describe.  Its nonterminals
are those of the header, so it allows all words. -/
theorem Listing.Written.readFrom_eq {l : Listing} (h : l.Written limit block) (n : Nat)
    (rest : List (Option (List Char))) :
    ∃ p, l.Describes p ∧
      readFrom limit n .header (block.map some ++ rest) =
        let reading := readFrom limit (n + block.length) .header rest
        ⟨⟨n + 1, p⟩ :: reading.blocks, reading.error⟩ := by
  obtain @⟨header, endRules, endWords, ruleLines, hproper, hheader, hrules, hendRules, hwords,
    hendWords⟩ := h
  obtain ⟨g, hg⟩ := Grammar.exists_ofRules_eq_ok hproper
  have hwf := Grammar.wellFormed_of_ofRules hg
  have hd := Grammar.describedBy_of_ofRules hg
  have hwords' : ∀ word ∈ l.words, WordLine limit g.nonterminalNames word := fun word hword =>
    (wordLine_congr hd.mem_nonterminalNames).2 (hwords word hword)
  have hlast : step limit (n + 1 + ruleLines.length + 1 + l.words.length + 1) endWords
      (.words (n + 1) g l.words) = .ok (.header, some ⟨n + 1, ⟨g, l.words⟩⟩) :=
    (step_words_eq_ok_iff hwf).2 (.inl ⟨hendWords, rfl, rfl⟩)
  have hlength : n + (header :: ruleLines ++ endRules :: l.words ++ [endWords]).length =
      n + 1 + ruleLines.length + 1 + l.words.length + 1 := by
    simp only [List.length_append, List.length_cons, List.length_nil]
    omega
  refine ⟨⟨g, l.words⟩, ⟨hwf, hd, rfl⟩, ?_⟩
  rw [hlength]
  simp only [List.map_append, List.map_cons, List.map_nil, List.cons_append, List.append_assoc,
    List.nil_append]
  rw [readFrom_description hg hheader hrules hendRules, readFrom_words hwf hwords', List.nil_append,
    readFrom_cons_of_ended hlast]

/-- **Whatever is written is read**, and what follows is read as if there were nothing before. -/
theorem Script.readFrom_eq {listings : List Listing} {lines : List (List Char)}
    (h : Script limit listings lines) (n : Nat) (rest : List (Option (List Char))) :
    ∃ blocks : List Block,
      List.Forall₂ Listing.Describes listings (blocks.map Block.problem) ∧
        readFrom limit n .header (lines.map some ++ rest) =
          let reading := readFrom limit (n + lines.length) .header rest
          ⟨blocks ++ reading.blocks, reading.error⟩ := by
  induction h generalizing n with
  | nil => exact ⟨[], .nil, rfl⟩
  | @blank listings line lines hline h ih =>
    obtain ⟨blocks, hblocks, heq⟩ := ih (n + 1)
    have hstep : step limit (n + 1) line .header = .ok (.header, none) :=
      step_header_eq_ok_iff.2 ⟨rfl, .inl ⟨hline, rfl⟩⟩
    refine ⟨blocks, hblocks, ?_⟩
    rw [List.map_cons, List.cons_append, readFrom_cons hstep, heq, List.length_cons, Nat.add_assoc,
      Nat.add_comm 1]
  | @block l listings block lines hl h ih =>
    obtain ⟨blocks, hblocks, heq⟩ := ih (n + block.length)
    obtain ⟨p, hp, hblock⟩ := hl.readFrom_eq n (lines.map some ++ rest)
    refine ⟨⟨n + 1, p⟩ :: blocks, .cons hp hblocks, ?_⟩
    rw [List.map_append, List.append_assoc, hblock, heq, List.length_append, Nat.add_assoc]
    rfl

/-! ## Acceptance -/

/-- At most one problem is the one written. -/
lemma Listing.Describes.unique {l : Listing} {p q : Problem} (hp : l.Describes p)
    (hq : l.Describes q) : p = q := by
  have hgrammar := hp.describedBy.unique hp.wellFormed hq.wellFormed hq.describedBy
  have hwords := hp.words_eq.trans hq.words_eq.symm
  cases p
  cases q
  rw [Problem.mk.injEq]
  exact ⟨hgrammar, hwords⟩

/-- What is written describes one list of problems at most. -/
lemma Listing.Describes.unique_list {listings : List Listing} {problems problems' : List Problem}
    (h : List.Forall₂ Listing.Describes listings problems)
    (h' : List.Forall₂ Listing.Describes listings problems') : problems = problems' :=
  List.right_unique_forall₂' (fun _ _ _ hp hq => hp.unique hq) h h'

/-- A text gives problems if reading it ends without an error. -/
lemma load_eq_ok_iff_readText {input : List Char} {problems : List Problem} :
    load limit input = .ok problems ↔
      (readText limit input).error = none ∧ (readText limit input).problems = problems := by
  unfold load Reading.toExcept
  split <;> rename_i herr <;> simp [herr]

/-- The bytes of a text are read as the text. -/
lemma readBytes_encode (limit : Nat) (input : List Char) :
    readBytes limit (encode input) = readText limit input :=
  congrArg (readLines limit) (linesOfBytes_encode input)

/-- **An input is accepted if and only if it is a way to write problems**, and it gives the problems
written: their grammars have the start symbols, the alphabets and the rules that are written, and
their words are the lines written.  It makes no difference whether the input is read as a text or as
its bytes in UTF-8. -/
theorem load_eq_ok_iff (limit : Nat) (input : List Char) :
    (∀ problems, load limit input = .ok problems ↔
      ∃ listings, Script limit listings (lines input) ∧
        List.Forall₂ Listing.Describes listings problems) ∧
    (readBytes limit (encode input)).toExcept = load limit input := by
  refine ⟨fun problems => ⟨fun h => ?_, ?_⟩, by rw [readBytes_encode, load]⟩
  · unfold load Reading.toExcept readText at h
    obtain ⟨listings, consumed, hscript, hproblems, -, hall⟩ :=
      exists_script_readLines limit ((lines input).map some)
    split at h
    · rename_i herr
      obtain rfl := List.map_injective_iff.2 (Option.some_injective _) (hall herr)
      obtain rfl := Except.ok.inj h
      exact ⟨listings, hscript, hproblems⟩
    · exact absurd h (by simp)
  · rintro ⟨listings, hscript, hproblems⟩
    obtain ⟨blocks, hblocks, heq⟩ := hscript.readFrom_eq 0 []
    have hread : readText limit input = ⟨blocks, none⟩ := by
      rw [List.append_nil] at heq
      rw [readText, readLines, heq]
      simp [readFrom, Stage.finish]
    rw [load, hread]
    exact congrArg Except.ok (Listing.Describes.unique_list hblocks hproblems)

/-- The parts of an arrow may be symbols, and an empty line among the words is the empty word. -/
example :
    (load 5 "\n S -S a>\n-->>\n S->-- \n\t# -> #\n>>\n\n #\n\n".toList).map
      (List.map fun p => (p.grammar.namedRules, p.words)) =
    .ok [([⟨'-', ['>']⟩, ⟨'S', ['-', '-']⟩], [['>', '>'], []])] := rfl

end Chomsky.Reader
