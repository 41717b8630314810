import Chomsky.Reader.Cursor
import Chomsky.Proofs.Reader.Format

set_option autoImplicit false

/-!
# Reading problem by problem

A cursor gives what is read at once: the problems in order, then the error if there is one, and from
then on nothing.  What it has given depends on the lines that it has read and on no others, except for
the error of an input that ends inside a problem.

## Main definitions

* `Chomsky.LoadFault.isUnfinished` — the faults that are found at the end of an input.

## Main results

* `Chomsky.Reader.items_readFrom` — reading at once is reading one problem and then the others.
* `Chomsky.Reader.Cursor.item?_eq` — the items of a cursor are what is read at once.
* `Chomsky.Reader.Cursor.item?_congr` — the items of a cursor depend on the lines read.
-/

namespace Chomsky

/-- Whether a fault is the end of the input inside a problem. -/
def LoadFault.isUnfinished : LoadFault → Bool
  | rulesUnfinished | wordsUnfinished => true
  | _ => false

namespace Reader

variable {limit line n : Nat} {text : List Char} {stage stage' : Stage} {block : Block}
  {lines : List (Option (List Char))} {item : Item} {c : Cursor}

/-- Among the words, a line that is not refused ends them or is one more. -/
lemma step_words_cases {g : Grammar} {words : List (List Char)} {ended : Option Block}
    (h : step limit line text (.words n g words) = .ok (stage', ended)) :
    stage' = .header ∨ stage' = .words n g (words ++ [text]) ∧ ended = none := by
  dsimp only [step] at h
  split_ifs at h
  · exact .inl (Prod.mk.inj (Except.ok.inj h)).1.symm
  · split at h
    · obtain ⟨rfl, rfl⟩ := Prod.mk.inj (Except.ok.inj h)
      exact .inr ⟨rfl, rfl⟩
    · exact absurd h (by simp)

/-- Only the end of the words ends a problem, and then a header may follow. -/
lemma stage_eq_header_of_step (h : step limit line text stage = .ok (stage', some block)) :
    stage' = .header := by
  cases stage with
  | header => exact absurd (step_header_eq_ok_iff.1 h).1 (by simp)
  | rules => exact absurd (step_rules_eq_ok_iff.1 h).1 (by simp)
  | words => exact (step_words_cases h).resolve_right fun hmore => absurd hmore.2 (by simp)

/-- **Reading at once** gives the next item and, if that is a problem, what is read after it. -/
theorem items_readFrom (limit line : Nat) (stage : Stage) (lines : List (Option (List Char))) :
    (readFrom limit line stage lines).items =
      match nextFrom limit line stage lines with
      | (some (.ok block), c) => .ok block :: (readFrom limit c.line .header c.ahead).items
      | (item, _) => item.toList := by
  induction lines generalizing line stage with
  | nil =>
    rw [readFrom, nextFrom]
    cases stage.finish line <;> rfl
  | cons first lines ih =>
    cases first with
    | none => rfl
    | some text =>
      rw [readFrom, nextFrom]
      cases hstep : step limit (line + 1) text stage with
      | error e => rfl
      | ok outcome =>
        obtain ⟨stage', _ | block⟩ := outcome
        · exact ih (line + 1) stage'
        · obtain rfl := stage_eq_header_of_step hstep
          rfl

/-- The next item is missing at the end, and only an error leaves a cursor that gives nothing more. -/
lemma nextFrom_cases (limit line : Nat) (stage : Stage) (lines : List (Option (List Char))) :
    (∃ n, nextFrom limit line stage lines = (none, ⟨[], n, false⟩)) ∨
      (∃ e c, nextFrom limit line stage lines = (some (.error e), c) ∧ c.failed = true) ∨
      ∃ block c, nextFrom limit line stage lines = (some (.ok block), c) ∧ c.failed = false := by
  induction lines generalizing line stage with
  | nil =>
    rw [nextFrom]
    cases stage.finish line with
    | none => exact .inl ⟨line, rfl⟩
    | some e => exact .inr (.inl ⟨e, _, rfl, rfl⟩)
  | cons first lines ih =>
    cases first with
    | none => exact .inr (.inl ⟨_, _, rfl, rfl⟩)
    | some text =>
      rw [nextFrom]
      cases step limit (line + 1) text stage with
      | error e => exact .inr (.inl ⟨e, _, rfl, rfl⟩)
      | ok outcome =>
        obtain ⟨stage', _ | block⟩ := outcome
        · exact ih (line + 1) stage'
        · exact .inr (.inr ⟨block, _, rfl, rfl⟩)

/-- The next item depends on the lines that are read for it, unless the input ends inside a problem. -/
lemma nextFrom_append (h : nextFrom limit line stage lines = (some item, c))
    (hitem : ∀ e, item = .error e → e.fault.isUnfinished = false) :
    ∃ read, lines = read ++ c.ahead ∧ ∀ rest,
      nextFrom limit line stage (read ++ rest) = (some item, { c with ahead := rest }) := by
  induction lines generalizing line stage with
  | nil =>
    rw [nextFrom] at h
    cases hfinish : stage.finish line with
    | none => simp [hfinish] at h
    | some e =>
      simp only [hfinish, Prod.mk.injEq, Option.some.injEq] at h
      have hend := hitem e h.1.symm
      cases stage with
      | header => simp [Stage.finish] at hfinish
      | rules =>
        obtain rfl := Option.some.inj hfinish
        simp [LoadFault.isUnfinished] at hend
      | words =>
        obtain rfl := Option.some.inj hfinish
        simp [LoadFault.isUnfinished] at hend
  | cons first lines ih =>
    cases first with
    | none =>
      obtain ⟨hgiven, rfl⟩ := Prod.mk.inj h
      obtain rfl := Option.some.inj hgiven
      exact ⟨[none], rfl, fun rest => rfl⟩
    | some text =>
      rw [nextFrom] at h
      cases hstep : step limit (line + 1) text stage with
      | error e =>
        simp only [hstep] at h
        obtain ⟨hgiven, rfl⟩ := Prod.mk.inj h
        obtain rfl := Option.some.inj hgiven
        refine ⟨[some text], rfl, fun rest => ?_⟩
        rw [List.singleton_append, nextFrom, hstep]
      | ok outcome =>
        obtain ⟨stage', _ | block⟩ := outcome
        · simp only [hstep] at h
          obtain ⟨read, hread, hnext⟩ := ih h
          refine ⟨some text :: read, congrArg (some text :: ·) hread, fun rest => ?_⟩
          rw [List.cons_append, nextFrom, hstep]
          exact hnext rest
        · simp only [hstep] at h
          obtain ⟨hgiven, rfl⟩ := Prod.mk.inj h
          obtain rfl := Option.some.inj hgiven
          refine ⟨[some text], rfl, fun rest => ?_⟩
          rw [List.singleton_append, nextFrom, hstep]

namespace Cursor

/-- The first call gives the next item. -/
lemma item?_zero (limit : Nat) (c : Cursor) : c.item? limit 0 = (c.next limit).1 := rfl

/-- Later calls are made on the cursor after the first. -/
lemma item?_succ (limit : Nat) (c : Cursor) (n : Nat) :
    c.item? limit (n + 1) = (c.next limit).2.item? limit n := rfl

/-- Without an error so far, a cursor reads on, whatever lines are ahead of it. -/
lemma next_of_not_failed (h : c.failed = false) (ahead : List (Option (List Char))) :
    ({ c with ahead := ahead } : Cursor).next limit = nextFrom limit c.line .header ahead :=
  if_neg (by simp [h])

/-- Nothing follows an error. -/
lemma item?_of_failed (h : c.failed = true) (n : Nat) : c.item? limit n = none := by
  have hnext : c.next limit = (none, c) := if_pos h
  induction n with
  | zero => rw [item?_zero, hnext]
  | succ n ih => rw [item?_succ, hnext, ih]

/-- **The items of a cursor** are what is read at once, in order; then there is nothing. -/
theorem item?_eq (h : c.failed = false) (n : Nat) :
    c.item? limit n = (readFrom limit c.line .header c.ahead).items[n]? := by
  induction n generalizing c with
  | zero =>
    rw [item?_zero, next_of_not_failed h c.ahead, items_readFrom]
    rcases nextFrom_cases limit c.line .header c.ahead with
      ⟨m, hnext⟩ | ⟨e, c', hnext, -⟩ | ⟨block, c', hnext, -⟩ <;> rw [hnext] <;> rfl
  | succ n ih =>
    rw [item?_succ, next_of_not_failed h c.ahead, items_readFrom]
    rcases nextFrom_cases limit c.line .header c.ahead with
      ⟨m, hnext⟩ | ⟨e, c', hnext, hfailed⟩ | ⟨block, c', hnext, hfailed⟩
    · rw [hnext, ih rfl]
      rfl
    · rw [hnext, item?_of_failed hfailed]
      rfl
    · rw [hnext, ih hfailed]
      rfl

/-- **The items of a cursor depend on the lines read**: as long as the input does not end inside a
problem, another input that begins with the lines read so far gives the same items.

**Proof sketch.** By induction on the number of calls.  An item that is followed by another is a problem,
so the other input leaves its cursor at the same place. -/
theorem item?_congr (h : c.failed = false) (hn : c.item? limit n = some item)
    (hitem : ∀ e, item = .error e → e.fault.isUnfinished = false) :
    ∃ read, c.ahead = read ++ (c.advance limit (n + 1)).ahead ∧ ∀ rest, ∀ m ≤ n,
      ({ c with ahead := read ++ rest } : Cursor).item? limit m = c.item? limit m := by
  have hthis : c.next limit = nextFrom limit c.line .header c.ahead := next_of_not_failed h c.ahead
  induction n generalizing c with
  | zero =>
    have hnext : nextFrom limit c.line .header c.ahead = (some item, (c.next limit).2) := by
      rw [← hthis]
      exact Prod.ext hn rfl
    obtain ⟨read, hread, hsame⟩ := nextFrom_append hnext hitem
    refine ⟨read, hread, fun rest m hm => ?_⟩
    obtain rfl := Nat.le_zero.1 hm
    rw [hn, item?_zero, next_of_not_failed h, hsame rest]
  | succ n ih =>
    rw [item?_succ, hthis] at hn
    rcases nextFrom_cases limit c.line .header c.ahead with
      ⟨m, hnext⟩ | ⟨e, c', hnext, hfailed⟩ | ⟨block, c', hnext, hfailed⟩
    · rw [hnext, item?_eq rfl] at hn
      exact absurd hn (by simp [readFrom, Stage.finish, Reading.items])
    · rw [hnext, item?_of_failed hfailed] at hn
      exact absurd hn (by simp)
    · rw [hnext] at hthis hn
      obtain ⟨read, hread, hsame⟩ := nextFrom_append hnext (by simp)
      obtain ⟨read', hread', hsame'⟩ := ih hfailed hn (next_of_not_failed hfailed c'.ahead)
      have hadvance : c.advance limit (n + 1 + 1) = c'.advance limit (n + 1) := by
        rw [advance, hthis]
      refine ⟨read ++ read', ?_, fun rest m hm => ?_⟩
      · rw [hadvance, List.append_assoc, ← hread', ← hread]
      · have hother : ({ c with ahead := read ++ read' ++ rest } : Cursor).next limit =
            (some (.ok block), { c' with ahead := read' ++ rest }) := by
          rw [next_of_not_failed h, List.append_assoc, hsame]
        cases m with
        | zero => rw [item?_zero, item?_zero, hother, hthis]
        | succ m =>
          rw [item?_succ, item?_succ, hother, hthis]
          exact hsame' rest m (Nat.le_of_succ_le_succ hm)

end Cursor

end Reader

end Chomsky
