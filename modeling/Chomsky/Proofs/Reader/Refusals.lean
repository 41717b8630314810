import Chomsky.Proofs.Building
import Chomsky.Proofs.Reader.Format

set_option autoImplicit false

/-!
# What the reader refuses

For each kind of line, the lines that are refused in it and the faults that are found: headers, rules,
words, and the end of the rules, where the grammar as a whole may be refused.

## Main definitions

* `Chomsky.Reader.HeaderFault`, `Chomsky.Reader.RuleFault`, `Chomsky.Reader.WordFault` — what is wrong
  with a line.
* `Chomsky.Reader.DescriptionFault` — what is wrong with the start symbol and the alphabets.

## Main results

* `Chomsky.Reader.parseHeader_eq_error_iff`, `Chomsky.Reader.parseRule_eq_error_iff`,
  `Chomsky.Reader.checkWord_eq_error_iff`, `Chomsky.Reader.build_eq_error_iff` — the refusals.
* `Chomsky.Reader.step_header_eq_error_iff`, `Chomsky.Reader.step_rules_eq_error_iff`,
  `Chomsky.Reader.step_words_eq_error_iff` — the error of a line in each stage.
-/

namespace Chomsky.Reader

open Text

variable {limit line n : Nat} {text : List Char} {fault : LoadFault} {e : LoadError}

/-! ## Headers -/

/-- What is wrong with a header: it has not three fields, or the first of three is not a single
character. -/
inductive HeaderFault (text : List Char) : LoadFault → Prop where
  | header {fields : List (List Char)} (h : Laid fields text) (hlength : fields.length ≠ 3) :
      HeaderFault text (.header text)
  | startSymbol {start nonterminals terminals : List Char}
      (h : Laid [start, nonterminals, terminals] text) (hstart : ∀ c, start ≠ [c]) :
      HeaderFault text (.startSymbol start)

/-- A text is no single symbol if it is not one character long. -/
lemma single?_eq_none_iff : single? text = none ↔ ∀ c, text ≠ [c] := by
  simp only [Option.eq_none_iff_forall_ne_some, ne_eq, single?_eq_some_iff]

/-- **The headers refused.** -/
theorem parseHeader_eq_error_iff : parseHeader text = .error fault ↔ HeaderFault text fault := by
  unfold parseHeader
  constructor
  · intro h
    split at h
    · rename_i start nonterminals terminals hfields
      cases hsingle : single? start with
      | some c => simp [hsingle] at h
      | none =>
        simp only [hsingle, Except.error.injEq] at h
        obtain rfl := h
        exact .startSymbol (fields_eq_iff.1 hfields) (single?_eq_none_iff.1 hsingle)
    · rename_i hfields
      obtain rfl := Except.error.inj h
      refine .header (fields_eq_iff.1 rfl) fun hlength => ?_
      obtain ⟨x, y, z, hthree⟩ := List.length_eq_three.1 hlength
      exact hfields x y z hthree
  · rintro (⟨h, hlength⟩ | ⟨h, hstart⟩)
    · rw [fields_eq_iff.2 h]
      split
      · exact absurd rfl hlength
      · rfl
    · rw [fields_eq_iff.2 h]
      simp only [single?_eq_none_iff.2 hstart]

/-! ## Rules -/

/-- A text has no arrow if its rest has none and none begins with its first character. -/
lemma splitArrow_cons_eq_none {c : Char} {rest : List Char} (hrest : splitArrow rest = none)
    (h : c = '-' → ∀ right, rest ≠ '>' :: right) : splitArrow (c :: rest) = none := by
  rw [splitArrow, hrest]
  · rfl
  · exact fun right hc hright => h hc right hright

/-- The texts that are not cut are those without an arrow. -/
lemma splitArrow_eq_none_iff : splitArrow text = none ↔ ¬ ['-', '>'] <:+: text := by
  constructor
  · rintro h ⟨left, right, htext⟩
    rw [List.append_assoc] at htext
    fun_induction splitArrow text generalizing left with
    | case1 => simp at htext
    | case2 => simp at h
    | case3 c rest hne ih =>
      cases left with
      | nil =>
        obtain ⟨rfl, rfl⟩ := List.cons.inj htext
        exact hne right rfl rfl
      | cons d left => exact ih (Option.map_eq_none_iff.1 h) left (List.cons.inj htext).2
  · intro h
    cases hcut : splitArrow text with
    | none => rfl
    | some cut => exact absurd ⟨cut.1, cut.2, by rw [eq_of_splitArrow hcut]; simp⟩ h

/-- A text is cut at its first arrow, so there is none before. -/
lemma splitArrow_left {left right : List Char} (h : splitArrow text = some (left, right)) :
    splitArrow left = none := by
  fun_induction splitArrow text generalizing left with
  | case1 => simp at h
  | case2 rest =>
    obtain ⟨rfl, -⟩ := Prod.mk.inj (Option.some.inj h)
    rfl
  | case3 c rest hne ih =>
    obtain ⟨⟨left', right'⟩, hrest, hpair⟩ := Option.map_eq_some_iff.1 h
    obtain ⟨rfl, rfl⟩ := Prod.mk.inj hpair
    refine splitArrow_cons_eq_none (ih hrest) fun hc tail htail => ?_
    refine hne (tail ++ '-' :: '>' :: right') hc ?_
    rw [eq_of_splitArrow hrest, htail, List.cons_append]

/-- What is wrong with a rule on a line: there is no arrow, or what stands before the first arrow is not a
single character among blanks, or the rule is refused. -/
inductive RuleFault (b : Builder) (text : List Char) : LoadFault → Prop where
  | noArrow (h : ¬ ['-', '>'] <:+: text) : RuleFault b text (.noArrow text)
  | leftSide {left right : List Char} (htext : text = left ++ '-' :: '>' :: right)
      (hfirst : ¬ ['-', '>'] <:+: left) (hleft : ∀ c, trim left ≠ [c]) :
      RuleFault b text (.leftSide text)
  | refused {r : NamedRule} {e : GrammarError} (hlhs : Trimmed [r.lhs]) (hrhs : Trimmed r.rhs)
      (hline : RuleLine r text) (h : b.addRule r.lhs r.rhs = .error e) :
      RuleFault b text (.grammar e)

/-- **The lines without a rule**: there is no arrow, or no single character before the first one. -/
theorem parseRule_eq_error_iff :
    parseRule text = .error fault ↔
      ¬ ['-', '>'] <:+: text ∧ fault = .noArrow text ∨
        ∃ left right, text = left ++ '-' :: '>' :: right ∧ ¬ ['-', '>'] <:+: left ∧
          (∀ c, trim left ≠ [c]) ∧ fault = .leftSide text := by
  unfold parseRule
  constructor
  · intro h
    split at h
    · rename_i hcut
      obtain rfl := Except.error.inj h
      exact .inl ⟨splitArrow_eq_none_iff.1 hcut, rfl⟩
    · rename_i left right hcut
      cases hsingle : single? (trim left) with
      | some c => simp [hsingle] at h
      | none =>
        simp only [hsingle, Except.error.injEq] at h
        exact .inr ⟨left, right, eq_of_splitArrow hcut,
          splitArrow_eq_none_iff.1 (splitArrow_left hcut), single?_eq_none_iff.1 hsingle, h.symm⟩
  · rintro (⟨harrow, rfl⟩ | ⟨left, right, rfl, hfirst, hleft, rfl⟩)
    · rw [splitArrow_eq_none_iff.2 harrow]
    · rw [splitArrow_append (splitArrow_eq_none_iff.2 hfirst)]
      simp only [single?_eq_none_iff.2 hleft]

/-! ## Words -/

/-- What is wrong with a word: it is too long, or else it holds a nonterminal, of which the first
counts. -/
inductive WordFault (limit : Nat) (nonterminals text : List Char) : WordError → Prop where
  | tooLong (h : limit < text.length) :
      WordFault limit nonterminals text (.tooLong text.length limit)
  | nonterminal {before after : List Char} {c : Char} (hlength : text.length ≤ limit)
      (htext : text = before ++ c :: after) (hbefore : ∀ d ∈ before, d ∉ nonterminals)
      (hc : c ∈ nonterminals) : WordFault limit nonterminals text (.nonterminal c)

/-- **The words refused.** -/
theorem checkWord_eq_error_iff {g : Grammar} (hg : g.WellFormed) {e : WordError} :
    checkWord g limit text = .error e ↔ WordFault limit g.nonterminalNames text e := by
  have hfound : ∀ c, (text.find? fun c => (g.symbolOf? c).any g.isNonterminal) = some c ↔
      c ∈ g.nonterminalNames ∧ ∃ before after, text = before ++ c :: after ∧
        ∀ d ∈ before, d ∉ g.nonterminalNames := by
    intro c
    rw [List.find?_eq_some_iff_append, any_symbolOf?_iff hg]
    simp only [Bool.not_eq_true', ← Bool.not_eq_true, any_symbolOf?_iff hg]
  unfold checkWord
  constructor
  · intro h
    split_ifs at h with hlong
    · obtain rfl := Except.error.inj h
      exact .tooLong hlong
    · split at h
      · rename_i c hc
        obtain rfl := Except.error.inj h
        obtain ⟨hmem, before, after, htext, hbefore⟩ := (hfound c).1 hc
        exact .nonterminal (Nat.le_of_not_lt hlong) htext hbefore hmem
      · exact absurd h (by simp)
  · rintro (hlong | ⟨hlength, htext, hbefore, hc⟩)
    · rw [if_pos hlong]
    · rw [if_neg (Nat.not_lt.2 hlength), (hfound _).2 ⟨hc, _, _, htext, hbefore⟩]

/-! ## The end of the rules -/

/-- What is wrong with a start symbol and alphabets: the alphabets share a character, the least of which
counts, or else the start symbol is no nonterminal. -/
inductive DescriptionFault (start : Char) (nonterminals terminals : List Char) : GrammarError → Prop where
  | overlap {c : Char} (hn : c ∈ nonterminals) (ht : c ∈ terminals)
      (hleast : ∀ d ∈ nonterminals, d ∈ terminals → c ≤ d) :
      DescriptionFault start nonterminals terminals (.overlappingAlphabets c)
  | start (hdisjoint : nonterminals.Disjoint terminals) (hstart : start ∉ nonterminals) :
      DescriptionFault start nonterminals terminals (.startNotNonterminal start)

/-- **The grammars refused**, whatever rules have been added. -/
theorem build_eq_error_iff {start : Char} {nonterminals terminals : List Char} {rules : List NamedRule}
    {b : Builder} (hb : (Builder.new start nonterminals terminals).addRules rules = .ok b)
    {e : GrammarError} : b.build = .error e ↔ DescriptionFault start nonterminals terminals e := by
  have hframe := (Builder.addRules_eq_ok hb).1
  have herr : b.error = (Builder.new start nonterminals terminals).error := by rw [hframe]
  have hstart : b.start = start := by
    rw [hframe]
    rfl
  have hnames : b.names = (Builder.new start nonterminals terminals).names := by rw [hframe]
  have hk : b.numNonterminals = (Builder.new start nonterminals terminals).numNonterminals := by
    rw [hframe]
  have hok : b.error = none → ((∃ g, b.build = .ok g) ↔ start ∈ nonterminals) :=
    Builder.exists_build_eq_ok_iff hstart hnames hk
  constructor
  · intro h
    cases hkept : b.error with
    | some e' =>
      obtain rfl := Except.error.inj ((Builder.build_of_error hkept).symm.trans h)
      obtain ⟨c, hn, ht, hleast, rfl⟩ := (Builder.error_new_eq_some_iff start).1 (herr ▸ hkept)
      exact .overlap hn ht hleast
    | none =>
      have hnot : ¬ ∃ g, b.build = .ok g := fun ⟨g, hg⟩ => absurd (h.symm.trans hg) (by simp)
      obtain rfl := Except.error.inj ((Builder.build_of_not_ok hkept hnot).symm.trans h)
      rw [hstart]
      exact .start (Builder.error_new_eq_none_iff.1 (herr ▸ hkept)) fun hs => hnot ((hok hkept).2 hs)
  · rintro (⟨hn, ht, hleast⟩ | ⟨hdisjoint, hs⟩)
    · exact Builder.build_of_error (herr.trans
        ((Builder.error_new_eq_some_iff start).2 ⟨_, hn, ht, hleast, rfl⟩))
    · have hnone : b.error = none := herr.trans (Builder.error_new_eq_none_iff.2 hdisjoint)
      rw [Builder.build_of_not_ok hnone fun hg => hs ((hok hnone).1 hg), hstart]

/-! ## Steps -/

/-- **Before a header**, a line is refused if it is neither blank nor a header. -/
theorem step_header_eq_error_iff :
    step limit line text .header = .error e ↔
      ¬ Blanks text ∧ HeaderFault text e.fault ∧ e.line = line := by
  dsimp only [step]
  rw [← isEmpty_trim_iff]
  split_ifs with hblank
  · simp [hblank]
  · simp only [hblank, Bool.false_eq_true, not_false_eq_true, true_and, ← parseHeader_eq_error_iff]
    cases parseHeader text with
    | ok b => simp
    | error fault => cases e; simp [eq_comm]

/-- **Among the rules**, the end of the rules is refused if the grammar is, and any other line if it is no
rule or the rule is refused. -/
theorem step_rules_eq_error_iff {b : Builder} :
    step limit line text (.rules n b) = .error e ↔
      trim text = endOfRules ∧ (∃ e', b.build = .error e' ∧ e = ⟨.grammar e', n⟩) ∨
        trim text ≠ endOfRules ∧ RuleFault b text e.fault ∧ e.line = line := by
  dsimp only [step]
  split_ifs with hend
  · simp only [hend, ne_eq, not_true_eq_false, true_and, false_and, or_false]
    cases hb : b.build with
    | ok g => simp
    | error e' => simp [eq_comm]
  · simp only [hend, ne_eq, not_false_eq_true, true_and, false_and, false_or]
    obtain ⟨fault, eline⟩ := e
    constructor
    · intro h
      cases hparsed : parseRule text with
      | error fault' =>
        simp only [hparsed, Except.error.injEq, LoadError.mk.injEq] at h
        obtain ⟨rfl, rfl⟩ := h
        rcases parseRule_eq_error_iff.1 hparsed with ⟨harrow, rfl⟩ | ⟨_, _, htext, hfirst, hleft, rfl⟩
        · exact ⟨.noArrow harrow, rfl⟩
        · exact ⟨.leftSide htext hfirst hleft, rfl⟩
      | ok sides =>
        obtain ⟨lhs, rhs⟩ := sides
        obtain ⟨hlhs, hrhs, hline⟩ := (parseRule_eq_ok_iff (r := ⟨lhs, rhs⟩)).1 hparsed
        cases hadd : b.addRule lhs rhs with
        | ok b' => simp [hparsed, hadd] at h
        | error e' =>
          simp only [hparsed, hadd, Except.error.injEq, LoadError.mk.injEq] at h
          obtain ⟨rfl, rfl⟩ := h
          exact ⟨.refused hlhs hrhs hline hadd, rfl⟩
    · rintro ⟨harrow | ⟨htext, hfirst, hleft⟩ | ⟨hlhs, hrhs, hline, hadd⟩, rfl⟩
      · rw [parseRule_eq_error_iff.2 (.inl ⟨harrow, rfl⟩)]
      · rw [parseRule_eq_error_iff.2 (.inr ⟨_, _, htext, hfirst, hleft, rfl⟩)]
      · rw [parseRule_eq_ok_iff.2 ⟨hlhs, hrhs, hline⟩]
        simp only [hadd]

/-- **Among the words**, a line is refused if it is neither the end of the words nor a word. -/
theorem step_words_eq_error_iff {g : Grammar} (hg : g.WellFormed) {words : List (List Char)} :
    step limit line text (.words n g words) = .error e ↔
      trim text ≠ endOfWords ∧
        ∃ e', WordFault limit g.nonterminalNames text e' ∧ e = ⟨.word e', line⟩ := by
  dsimp only [step]
  split_ifs with hend
  · simp [hend]
  · simp only [hend, ne_eq, not_false_eq_true, true_and, ← checkWord_eq_error_iff hg]
    cases checkWord g limit text with
    | ok u => simp
    | error e' => simp [eq_comm]

end Chomsky.Reader
