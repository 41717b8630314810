import Chomsky.Proofs.Reader.Iteration
import Chomsky.Proofs.Reader.Refusals
import Chomsky.Proofs.Text.Bytes

set_option autoImplicit false

/-!
# The limit on the length of words

A smaller limit changes what is read from an input in one way only: at the first word that it does not
allow the reading ends, with the error that says so.  Which words come up is told by a reading under the
larger limit, whatever ends that reading.  The length of a word is its number of characters.

## Main definitions

* `Chomsky.Reader.CheckedWord`, `Chomsky.Reader.checkedFrom`, `Chomsky.Reader.checkedWords` — the words
  that come up in a reading, the one that ends it included.
* `Chomsky.Reader.Reading.endAt` — a reading that ends earlier than another.

## Main results

* `Chomsky.Reader.step_congr_limit`, `Chomsky.Reader.step_of_tooLong` — a line under two limits.
* `Chomsky.Reader.readFrom_eq_of_le` — a reading under two limits.
* `Chomsky.Reader.words_eq_checkedFrom`, `Chomsky.Reader.getLast?_checkedFrom` — the words that come up are
  those of the problems read and the one that is refused.
* `Chomsky.Reader.items_of_smaller_limit` — what the calls on a reader give under two limits.
-/

namespace Chomsky.Reader

open Text

variable {limit small index line n : Nat} {text : List Char} {stage stage' : Stage}
  {ended : Option Block} {block : Block} {e : WordError} {lines : List (Option (List Char))}

/-! ## The words that come up -/

/-- A word that comes up in a reading. -/
structure CheckedWord where
  /-- How many problems end before it. -/
  problem : Nat
  /-- Its line, counted from one. -/
  line : Nat
  /-- The word. -/
  text : List Char
deriving DecidableEq

/-- Whether a line is a word. -/
def Stage.checks (text : List Char) : Stage → Bool
  | .words .. => decide (trim text ≠ endOfWords)
  | _ => false

/-- The words up to a stage, of the problem that it is in. -/
def Stage.sofar : Stage → List (List Char)
  | .words _ _ given => given
  | _ => []

/-- The word that comes up at a line, if the line is one. -/
def Stage.checked (index line : Nat) (text : List Char) (stage : Stage) : List CheckedWord :=
  if stage.checks text then [⟨index, line, text⟩] else []

/-- The words that come up when lines are read in a given stage, after `index` problems and `line` lines;
the last of them may be refused. -/
def checkedFrom (limit index line : Nat) (stage : Stage) :
    List (Option (List Char)) → List CheckedWord
  | [] => []
  | none :: _ => []
  | some text :: ahead =>
    stage.checked index (line + 1) text ++
      match step limit (line + 1) text stage with
      | .error _ => []
      | .ok (stage, none) => checkedFrom limit index (line + 1) stage ahead
      | .ok (stage, some _) => checkedFrom limit (index + 1) (line + 1) stage ahead

/-- The words that come up when an input is read. -/
def checkedWords (limit : Nat) (input : List UInt8) : List CheckedWord :=
  checkedFrom limit 0 0 .header (linesOfBytes input)

/-! ## One line -/

/-- A line among the words is a word unless it ends them. -/
lemma checks_words_iff {g : Grammar} {words : List (List Char)} :
    (Stage.words n g words).checks text = true ↔ trim text ≠ endOfWords := decide_eq_true_iff

/-- **A line does the same under two limits** unless it is a word that one of them does not allow. -/
theorem step_congr_limit (hle : small ≤ limit)
    (h : stage.checks text = true → text.length ≤ small) (line : Nat) :
    step small line text stage = step limit line text stage := by
  cases stage with
  | header => rfl
  | rules => rfl
  | words headerLine g words =>
    rw [step, step]
    split_ifs with hend
    · rfl
    · have hlen := h (checks_words_iff.2 hend)
      rw [checkWord, checkWord, if_neg (by omega), if_neg (by omega)]

/-- **A word that is too long is refused for its length**, whatever else may be wrong with it. -/
theorem step_of_tooLong (h : stage.checks text = true) (hlen : limit < text.length) (line : Nat) :
    step limit line text stage = .error ⟨.word (.tooLong text.length limit), line⟩ := by
  cases stage with
  | header => exact absurd h (by simp [Stage.checks])
  | rules => exact absurd h (by simp [Stage.checks])
  | words headerLine g words =>
    rw [step, if_neg (checks_words_iff.1 h), checkWord, if_pos hlen]

/-- A line that is not refused adds a word to its problem if it is one. -/
lemma sofar_of_step (h : step limit line text stage = .ok (stage', none)) :
    stage'.sofar = stage.sofar ++ if stage.checks text then [text] else [] := by
  cases stage with
  | header =>
    obtain ⟨-, rfl⟩ | ⟨start, nonterminals, terminals, -, rfl⟩ := (step_header_eq_ok_iff.1 h).2 <;>
      simp [Stage.sofar, Stage.checks]
  | rules headerLine b =>
    obtain ⟨-, g, -, rfl⟩ | ⟨-, r, b', -, -, rfl⟩ := (step_rules_eq_ok_iff.1 h).2 <;>
      simp [Stage.sofar, Stage.checks]
  | words headerLine g words =>
    have hend : trim text ≠ endOfWords := fun hend => by simp [step, hend] at h
    obtain rfl : stage' = .words headerLine g (words ++ [text]) := by
      rcases step_words_cases h with rfl | ⟨rfl, -⟩
      · rw [step, if_neg hend] at h
        split at h <;> simp at h
      · rfl
    rw [if_pos (checks_words_iff.2 hend)]
    rfl

/-- The line that ends a problem is not a word of it. -/
lemma words_of_step (h : step limit line text stage = .ok (stage', some block)) :
    stage.checks text = false ∧ stage'.sofar = [] ∧ block.problem.words = stage.sofar := by
  obtain rfl := stage_eq_header_of_step h
  cases stage with
  | header => exact absurd (step_header_eq_ok_iff.1 h).1 (by simp)
  | rules => exact absurd (step_rules_eq_ok_iff.1 h).1 (by simp)
  | words headerLine g words =>
    rw [step] at h
    split_ifs at h with hend
    · obtain rfl := Option.some.inj (Prod.mk.inj (Except.ok.inj h)).2
      exact ⟨by simp [Stage.checks, hend], rfl, rfl⟩
    · split at h <;> simp at h

/-- A word is refused at its own line. -/
lemma checks_of_step (h : step limit line text stage = .error ⟨.word e, n⟩) :
    stage.checks text = true ∧ n = line := by
  cases stage with
  | header => exact nomatch (step_header_eq_error_iff.1 h).2.1
  | rules headerLine b =>
    obtain ⟨-, e', -, he⟩ | ⟨-, hfault, -⟩ := step_rules_eq_error_iff.1 h
    · simp at he
    · exact nomatch hfault
  | words headerLine g words =>
    rw [step] at h
    split_ifs at h with hend
    refine ⟨checks_words_iff.2 hend, ?_⟩
    split at h
    · exact absurd h (by simp)
    · exact (LoadError.mk.inj (Except.error.inj h)).2.symm

/-! ## A whole reading -/

/-- A reading that ends with an error after some problems of another. -/
def Reading.endAt (r : Reading) (count : Nat) (e : LoadError) : Reading := ⟨r.blocks.take count, some e⟩

/-- The words that come up are lines read, in the problems read or the one after them. -/
lemma mem_checkedFrom {w : CheckedWord} (h : w ∈ checkedFrom limit index line stage lines) :
    lines[w.line - (line + 1)]? = some (some w.text) ∧ line < w.line ∧ index ≤ w.problem ∧
      w.problem ≤ index + (readFrom limit line stage lines).blocks.length := by
  induction lines generalizing index line stage with
  | nil => exact absurd h List.not_mem_nil
  | cons first lines ih =>
    cases first with
    | none => exact absurd h List.not_mem_nil
    | some text =>
      rw [checkedFrom, List.mem_append] at h
      rcases h with h | h
      · rw [Stage.checked] at h
        split_ifs at h
        · obtain rfl := List.mem_singleton.1 h
          simp
        · exact absurd h List.not_mem_nil
      · rw [readFrom]
        cases hstep : step limit (line + 1) text stage with
        | error e => simp [hstep] at h
        | ok outcome =>
          -- what holds of the lines after this one
          have hlater (k : Nat) (hk : line + 1 < k)
              (hget : lines[k - (line + 1 + 1)]? = some (some w.text)) :
              (some text :: lines)[k - (line + 1)]? = some (some w.text) := by
            rw [show k - (line + 1) = k - (line + 1 + 1) + 1 by omega, List.getElem?_cons_succ, hget]
          obtain ⟨stage', _ | block⟩ := outcome
          · simp only [hstep] at h
            obtain ⟨hget, hline, hindex, hproblem⟩ := ih h
            exact ⟨hlater w.line hline hget, by omega, hindex, hproblem⟩
          · simp only [hstep] at h
            obtain ⟨hget, hline, hindex, hproblem⟩ := ih h
            refine ⟨hlater w.line hline hget, by omega, by omega, ?_⟩
            simp only [List.length_cons]
            omega

/-- **A reading under two limits**: the smaller limit changes nothing if it allows all words that come up
under the larger one, and otherwise the reading ends at the first word that it does not allow.

**Proof sketch.** By induction on the lines.  A line that the smaller limit allows does the same under
both limits, and one that it does not allow is the first word in question. -/
theorem readFrom_eq_of_le (hle : small ≤ limit) (index line : Nat) (stage : Stage)
    (lines : List (Option (List Char))) :
    readFrom small line stage lines =
      match (checkedFrom limit index line stage lines).find? fun w => small < w.text.length with
      | none => readFrom limit line stage lines
      | some w => (readFrom limit line stage lines).endAt (w.problem - index)
          ⟨.word (.tooLong w.text.length small), w.line⟩ := by
  induction lines generalizing index line stage with
  | nil => rfl
  | cons first lines ih =>
    cases first with
    | none => rfl
    | some text =>
      by_cases htoo : stage.checks text = true ∧ small < text.length
      · rw [readFrom, step_of_tooLong htoo.1 htoo.2, checkedFrom, Stage.checked, if_pos htoo.1,
          List.singleton_append, List.find?_cons]
        simp [htoo.2, Reading.endAt]
      · have hnone : ((stage.checked index (line + 1) text).find? fun w => small < w.text.length) =
            none := by
          rw [Stage.checked]
          split_ifs with hchecks
          · exact List.find?_eq_none.2 (by simpa using fun h => htoo ⟨hchecks, h⟩)
          · rfl
        rw [readFrom, readFrom, checkedFrom, List.find?_append, hnone, Option.none_or,
          step_congr_limit hle (fun hchecks => not_lt.1 fun h => htoo ⟨hchecks, h⟩)]
        cases hstep : step limit (line + 1) text stage with
        | error e => rfl
        | ok outcome =>
          obtain ⟨stage', _ | block⟩ := outcome
          · exact ih index (line + 1) stage'
          · dsimp only
            rw [ih (index + 1) (line + 1) stage']
            cases hfind : (checkedFrom limit (index + 1) (line + 1) stage' lines).find?
                fun w => small < w.text.length with
            | none => rfl
            | some w =>
              obtain ⟨-, -, hindex, -⟩ := mem_checkedFrom (List.mem_of_find?_eq_some hfind)
              have hcount : w.problem - index = w.problem - (index + 1) + 1 := by omega
              dsimp only
              rw [hcount]
              rfl

/-- **The words of a problem** are those that come up in it. -/
theorem words_eq_checkedFrom (index : Nat) {i : Nat}
    (h : (readFrom limit line stage lines).blocks[i]? = some block) :
    block.problem.words = (if i = 0 then stage.sofar else []) ++
      ((checkedFrom limit index line stage lines).filter (·.problem = index + i)).map (·.text) := by
  induction lines generalizing index line stage i with
  | nil => simp [readFrom] at h
  | cons first lines ih =>
    cases first with
    | none => simp [readFrom] at h
    | some text =>
      rw [readFrom] at h
      rw [checkedFrom, List.filter_append, List.map_append]
      cases hstep : step limit (line + 1) text stage with
      | error e => simp [hstep] at h
      | ok outcome =>
        obtain ⟨stage', _ | ended⟩ := outcome
        · simp only [hstep] at h
          rw [ih index h, sofar_of_step hstep, Stage.checked]
          by_cases hi : i = 0 <;> split_ifs <;> simp [hi]
        · simp only [hstep] at h
          obtain ⟨hchecks, hsofar, hwords⟩ := words_of_step hstep
          rw [Stage.checked, hchecks, if_neg Bool.false_ne_true, List.filter_nil, List.map_nil,
            List.nil_append]
          cases i with
          | zero =>
            -- the words that come up later are in later problems
            have hnone : ((checkedFrom limit (index + 1) (line + 1) stage' lines).filter
                (·.problem = index + 0)) = [] := by
              refine List.filter_eq_nil_iff.2 fun w hw => ?_
              obtain ⟨-, -, hindex, -⟩ := mem_checkedFrom hw
              simp only [decide_eq_true_eq]
              omega
            obtain rfl := Option.some.inj h
            rw [hnone, if_pos rfl, List.map_nil, List.append_nil, hwords]
          | succ i =>
            rw [ih (index + 1) h, hsofar, ite_self, if_neg i.succ_ne_zero,
              show index + (i + 1) = index + 1 + i by omega]

/-- **A word that is refused** is the last that comes up. -/
theorem getLast?_checkedFrom (index : Nat)
    (h : (readFrom limit line stage lines).error = some ⟨.word e, n⟩) :
    ∃ w, (checkedFrom limit index line stage lines).getLast? = some w ∧ w.line = n ∧
      w.problem = index + (readFrom limit line stage lines).blocks.length := by
  induction lines generalizing index line stage with
  | nil => cases stage <;> simp [readFrom, Stage.finish] at h
  | cons first lines ih =>
    cases first with
    | none => simp [readFrom] at h
    | some text =>
      rw [readFrom] at h ⊢
      rw [checkedFrom]
      cases hstep : step limit (line + 1) text stage with
      | error e' =>
        simp only [hstep, Option.some.injEq] at h
        subst h
        obtain ⟨hchecks, rfl⟩ := checks_of_step hstep
        exact ⟨⟨index, line + 1, text⟩, by simp [Stage.checked, hchecks], rfl, rfl⟩
      | ok outcome =>
        obtain ⟨stage', _ | block⟩ := outcome
        · simp only [hstep] at h
          obtain ⟨w, hlast, hw⟩ := ih index h
          exact ⟨w, by rw [List.getLast?_append, hlast]; rfl, hw⟩
        · simp only [hstep] at h
          obtain ⟨w, hlast, hline, hproblem⟩ := ih (index + 1) h
          refine ⟨w, by rw [List.getLast?_append, hlast]; rfl, hline, ?_⟩
          simp only [List.length_cons]
          omega

/-! ## The calls on a reader -/

/-- The problems among the items are those read. -/
lemma getElem?_items_eq_ok_iff {r : Reading} {i : Nat} :
    r.items[i]? = some (.ok block) ↔ r.blocks[i]? = some block := by
  rw [Reading.items, List.getElem?_append, List.length_map, List.getElem?_map]
  split_ifs with hi
  · simp
  · rw [List.getElem?_eq_none (not_lt.1 hi)]
    cases r.error <;> simp [List.getElem?_singleton]

/-- The error among the items is the one that ends the reading, and it comes after all problems. -/
lemma getElem?_items_eq_error_iff {r : Reading} {i : Nat} {e : LoadError} :
    r.items[i]? = some (.error e) ↔ r.error = some e ∧ i = r.blocks.length := by
  rw [Reading.items, List.getElem?_append, List.length_map, List.getElem?_map]
  split_ifs with hi
  · simp [List.getElem?_eq_getElem hi, hi.ne]
  · have hat : i - r.blocks.length = 0 ↔ i = r.blocks.length := by omega
    cases r.error <;> simp [List.getElem?_singleton, hat, and_comm]

/-- A reading that ends earlier gives the same problems, then its error, then nothing. -/
lemma items_endAt {r : Reading} {count : Nat} (h : count ≤ r.blocks.length) (e : LoadError) :
    (∀ i < count, ∃ block, (r.endAt count e).items[i]? = some (.ok block) ∧
        r.items[i]? = some (.ok block)) ∧
      (r.endAt count e).items[count]? = some (.error e) ∧
      ∀ i, count < i → (r.endAt count e).items[i]? = none := by
  have hitems : (r.endAt count e).items = (r.blocks.take count).map .ok ++ [.error e] := rfl
  have hlen : ((r.blocks.take count).map (.ok : Block → Item)).length = count := by
    rw [List.length_map, List.length_take_of_le h]
  refine ⟨fun i hi => ?_, ?_, fun i hi => ?_⟩
  · have hblock : r.blocks[i]? = some r.blocks[i] := List.getElem?_eq_getElem (hi.trans_le h)
    refine ⟨r.blocks[i], getElem?_items_eq_ok_iff.2 ?_, getElem?_items_eq_ok_iff.2 hblock⟩
    rw [Reading.endAt, List.getElem?_take_of_lt hi, hblock]
  · rw [hitems, List.getElem?_append_right hlen.le, hlen, Nat.sub_self]
    rfl
  · rw [hitems, List.getElem?_append_right (by omega), hlen]
    exact List.getElem?_eq_none (Nat.sub_pos_of_lt hi)

/-- **The error for a word that is too long** is one about a word, and tells its length and the limit. -/
lemma kind_and_reason_tooLong (length limit n : Nat) :
    let e : LoadError := ⟨.word (.tooLong length limit), n⟩
    e.kind = .word ∧ e.reason = "word has " ++ toString length ++ " symbols, at most " ++
      toString limit ++ " are allowed" :=
  ⟨rfl, rfl⟩

/-- **What the calls on a reader give under two limits.** If the smaller limit allows every word that comes
up under the larger one, all calls give the same.  Otherwise the calls before the problem with the first
word that is too long give the same problems, the next call gives an error about a word, at the line of that
word and with its number of characters and the limit as the reason, and the calls after it give nothing.  The
words that come up under the larger limit end with the one that is refused, if a word is. -/
theorem items_of_smaller_limit (hle : small ≤ limit) (input : List UInt8) :
    let cursor : Cursor := .start (linesOfBytes input)
    ((∀ w ∈ checkedWords limit input, w.text.length ≤ small) →
        ∀ i, cursor.item? small i = cursor.item? limit i) ∧
      (∀ w, (checkedWords limit input).find? (fun w => small < w.text.length) = some w →
        (linesOfBytes input)[w.line - 1]? = some (some w.text) ∧
        (∀ block, cursor.item? limit w.problem = some (.ok block) → w.text ∈ block.problem.words) ∧
        (∀ i < w.problem, ∃ block, cursor.item? small i = some (.ok block) ∧
          cursor.item? limit i = some (.ok block)) ∧
        (∃ e : LoadError, e = ⟨.word (.tooLong w.text.length small), w.line⟩ ∧
          cursor.item? small w.problem = some (.error e) ∧ e.kind = .word ∧
          e.reason = "word has " ++ toString w.text.length ++ " symbols, at most " ++ toString small ++
            " are allowed") ∧
        ∀ i, w.problem < i → cursor.item? small i = none) ∧
      ∀ i e n, cursor.item? limit i = some (.error ⟨.word e, n⟩) →
        ∃ w, (checkedWords limit input).getLast? = some w ∧ w.line = n ∧ w.problem = i := by
  intro cursor
  have hitem (limit i : Nat) : cursor.item? limit i =
      (readFrom limit 0 .header (linesOfBytes input)).items[i]? := Cursor.item?_eq rfl i
  have hread := readFrom_eq_of_le hle 0 0 .header (linesOfBytes input)
  refine ⟨fun hall i => ?_, fun w hw => ?_, fun i e n he => ?_⟩
  · have hnone : ((checkedFrom limit 0 0 .header (linesOfBytes input)).find?
        fun w => small < w.text.length) = none :=
      List.find?_eq_none.2 fun w hw => by simpa using hall w hw
    rw [hnone] at hread
    rw [hitem, hitem, hread]
  · have hmem : w ∈ checkedFrom limit 0 0 .header (linesOfBytes input) := List.mem_of_find?_eq_some hw
    obtain ⟨hline, -, -, hproblem⟩ := mem_checkedFrom hmem
    rw [checkedWords] at hw
    rw [hw] at hread
    obtain ⟨hbefore, hfault, hafter⟩ := items_endAt (Nat.zero_add _ ▸ hproblem)
      ⟨.word (.tooLong w.text.length small), w.line⟩
    simp only [hitem, hread]
    refine ⟨hline, fun block hblock => ?_, hbefore,
      ⟨_, rfl, hfault, kind_and_reason_tooLong w.text.length small w.line⟩, hafter⟩
    rw [words_eq_checkedFrom 0 (getElem?_items_eq_ok_iff.1 hblock)]
    exact List.mem_append_right _ (List.mem_map_of_mem (List.mem_filter.2 ⟨hmem, by simp⟩))
  · rw [hitem] at he
    obtain ⟨herror, rfl⟩ := getElem?_items_eq_error_iff.1 he
    obtain ⟨w, hlast, hline, hproblem⟩ := getLast?_checkedFrom 0 herror
    exact ⟨w, hlast, hline, by rw [hproblem, Nat.zero_add]⟩

/-- Three characters are too many for a limit of two, two that take four bytes are not.  The larger limits
differ in nothing, as they allow the four characters of the word that is refused for another reason. -/
theorem items_of_smaller_limit_accents :
    let input := encode "S S aé\nS -> a\n# -> #\na\néé\n#\nS S a\n# -> #\naaa\nSSSS\n#".toList
    let cursor := Cursor.start (linesOfBytes input)
    let word : CheckedWord := ⟨1, 9, "aaa".toList⟩
    2 ≤ 5 ∧ 4 ≤ 5 ∧ (∀ w ∈ checkedWords 5 input, w.text.length ≤ 4) ∧
      (∀ i, cursor.item? 4 i = cursor.item? 5 i) ∧
      cursor.item? 5 1 = some (.error ⟨.word (.nonterminal 'S'), 10⟩) ∧
      (checkedWords 5 input).find? (fun w => 2 < w.text.length) = some word ∧
      (∃ block, cursor.item? 2 0 = some (.ok block) ∧ cursor.item? 5 0 = some (.ok block)) ∧
      (∃ e, cursor.item? 2 1 = some (.error e) ∧ e.kind = .word ∧ e.line = 9 ∧
        e.reason = "word has 3 symbols, at most 2 are allowed") ∧
      cursor.item? 2 1 = some (.error ⟨.word (.tooLong 3 2), 9⟩) ∧ cursor.item? 2 2 = none ∧
      (checkedWords 5 input).getLast?.map (·.line) = some 10 := by
  intro input cursor word
  have hwords : checkedWords 5 input = [⟨0, 4, "a".toList⟩, ⟨0, 5, "éé".toList⟩, word,
    ⟨1, 10, "SSSS".toList⟩] := rfl
  have hall : ∀ w ∈ checkedWords 5 input, w.text.length ≤ 4 := by
    rw [hwords]
    decide
  have hfirst : (checkedWords 5 input).find? (fun w => 2 < w.text.length) = some word := by
    rw [hwords]
    decide
  have hfault : cursor.item? 5 1 = some (.error ⟨.word (.nonterminal 'S'), 10⟩) := rfl
  obtain ⟨-, hsmaller, hrefused⟩ := items_of_smaller_limit (by decide : 2 ≤ 5) input
  obtain ⟨-, -, hbefore, ⟨_, rfl, htooLong, hkind, hreason⟩, hafter⟩ := hsmaller word hfirst
  obtain ⟨last, hlast, hline, -⟩ := hrefused 1 _ _ hfault
  have hwording : "word has " ++ toString word.text.length ++ " symbols, at most " ++ toString 2 ++
      " are allowed" = "word has 3 symbols, at most 2 are allowed" := by decide
  exact ⟨by decide, by decide, hall, (items_of_smaller_limit (by decide : 4 ≤ 5) input).1 hall, hfault,
    hfirst, hbefore 0 (by decide), ⟨_, htooLong, hkind, rfl, hreason.trans hwording⟩, htooLong,
    hafter 2 (by decide), by rw [hlast, Option.map_some, hline]⟩

end Chomsky.Reader
