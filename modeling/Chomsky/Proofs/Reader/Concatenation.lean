import Chomsky.Proofs.Reader.Acceptance
import Chomsky.Proofs.Reader.Iteration
import Chomsky.Proofs.Text.Lines

set_option autoImplicit false

/-!
# Reading inputs one after the other

Between two problems, the reader keeps nothing but the number of the line.  So after an input without an
error, another one is read as if it stood alone, except that its lines are counted on.

## Main definitions

* `Chomsky.LoadError.later`, `Chomsky.Reader.Block.later`, `Chomsky.Reader.Stage.later`,
  `Chomsky.Reader.Item.later`, `Chomsky.Reader.Reading.later` — the same some lines later.

## Main results

* `Chomsky.Reader.step_later`, `Chomsky.Reader.readFrom_later` — counting lines from elsewhere changes only
  the numbers of lines.
* `Chomsky.Reader.readFrom_append`, `Chomsky.Reader.readText_append` — reading on after an input without
  an error.
* `Chomsky.Reader.items_append` — what is read from two inputs one after the other.
-/

namespace Chomsky

/-- The same error some lines later. -/
def LoadError.later (k : Nat) (e : LoadError) : LoadError := { e with line := e.line + k }

namespace Reader

open Text

/-- The same problem some lines later. -/
def Block.later (k : Nat) (b : Block) : Block := { b with line := b.line + k }

/-- The same stage in a problem some lines later. -/
def Stage.later (k : Nat) : Stage → Stage
  | .header => .header
  | .rules headerLine b => .rules (headerLine + k) b
  | .words headerLine g sofar => .words (headerLine + k) g sofar

/-- The same item some lines later. -/
def Item.later (k : Nat) : Item → Item
  | .ok block => .ok (block.later k)
  | .error e => .error (e.later k)

/-- The same problems and the same error some lines later. -/
def Reading.later (k : Nat) (r : Reading) : Reading :=
  ⟨r.blocks.map (Block.later k), r.error.map (LoadError.later k)⟩

variable {limit line n : Nat} {text : List Char} {stage stage' : Stage} {e : LoadError}
  {xs ys : List (Option (List Char))}

/-! ## Counting lines from elsewhere -/

/-- **A line does the same some lines later.** -/
theorem step_later (limit line k : Nat) (text : List Char) (stage : Stage) :
    step limit (line + k) text (stage.later k) =
      match step limit line text stage with
      | .ok (stage', ended) => .ok (stage'.later k, ended.map (Block.later k))
      | .error e => .error (e.later k) := by
  cases stage with
  | header =>
    dsimp only [step, Stage.later]
    split_ifs
    · rfl
    · cases parseHeader text <;> rfl
  | rules headerLine b =>
    dsimp only [step, Stage.later]
    split_ifs
    · cases b.build <;> rfl
    · cases parseRule text with
      | error fault => rfl
      | ok sides =>
        obtain ⟨lhs, rhs⟩ := sides
        dsimp only
        cases b.addRule lhs rhs <;> rfl
  | words headerLine g words =>
    dsimp only [step, Stage.later]
    split_ifs
    · rfl
    · cases checkWord g limit text <;> rfl

/-- The error of an input that ends too early moves with the lines. -/
lemma finish_later (line k : Nat) (stage : Stage) :
    (stage.later k).finish (line + k) = (stage.finish line).map (LoadError.later k) := by
  cases stage <;> rfl

/-- **Lines are read as the same some lines later.** -/
theorem readFrom_later (limit line k : Nat) (stage : Stage) (lines : List (Option (List Char))) :
    readFrom limit (line + k) (stage.later k) lines = (readFrom limit line stage lines).later k := by
  induction lines generalizing line stage with
  | nil => exact congrArg (Reading.mk []) (finish_later line k stage)
  | cons first lines ih =>
    cases first with
    | none =>
      rw [readFrom, readFrom, Nat.add_right_comm]
      rfl
    | some text =>
      rw [readFrom, readFrom, Nat.add_right_comm, step_later]
      cases step limit (line + 1) text stage with
      | error e => rfl
      | ok outcome =>
        obtain ⟨stage', _ | block⟩ := outcome
        · exact ih (line + 1) stage'
        · dsimp only [Option.map_some]
          rw [ih (line + 1) stage']
          rfl

/-! ## Reading on -/

/-- **Reading on after an input without an error**: it has ended between two problems. -/
theorem readFrom_append (h : (readFrom limit line stage xs).error = none)
    (ys : List (Option (List Char))) :
    readFrom limit line stage (xs ++ ys) =
      let after := readFrom limit (line + xs.length) .header ys
      ⟨(readFrom limit line stage xs).blocks ++ after.blocks, after.error⟩ := by
  induction xs generalizing line stage with
  | nil =>
    cases stage with
    | header => rfl
    | rules => simp [readFrom, Stage.finish] at h
    | words => simp [readFrom, Stage.finish] at h
  | cons first xs ih =>
    have hlength : line + (first :: xs).length = line + 1 + xs.length := by
      rw [List.length_cons, Nat.add_assoc, Nat.add_comm 1]
    rw [hlength]
    cases first with
    | none => simp [readFrom] at h
    | some text =>
      rw [readFrom] at h
      rw [List.cons_append, readFrom, readFrom]
      cases hstep : step limit (line + 1) text stage with
      | error e => simp [hstep] at h
      | ok outcome =>
        obtain ⟨stage', _ | block⟩ := outcome
        · simp only [hstep] at h
          exact ih h
        · simp only [hstep] at h
          dsimp only
          rw [ih h]
          rfl

/-- **The lines after an input without an error** are read as if they stood alone, but counted on. -/
theorem readLines_append (h : (readLines limit xs).error = none) (ys : List (Option (List Char))) :
    readLines limit (xs ++ ys) =
      let after := (readLines limit ys).later xs.length
      ⟨(readLines limit xs).blocks ++ after.blocks, after.error⟩ := by
  have hlater : readFrom limit (0 + xs.length) .header ys = (readLines limit ys).later xs.length :=
    readFrom_later limit 0 xs.length .header ys
  rw [readLines, readFrom_append h, hlater]
  rfl

/-- **A text after complete lines without an error** is read as if it stood alone, but its lines are counted
on. -/
theorem readText_append {p : List Char} (hp : p = [] ∨ p.getLast? = some '\n')
    (h : (readText limit p).error = none) (q : List Char) :
    readText limit (p ++ q) =
      let after := (readText limit q).later (lines p).length
      ⟨(readText limit p).blocks ++ after.blocks, after.error⟩ := by
  rw [readText, lines_append hp, List.map_append, readLines_append h, List.length_map]
  rfl

/-! ## Items -/

/-- So do all items of a reading. -/
lemma Reading.items_later (k : Nat) (r : Reading) : (r.later k).items = r.items.map (Item.later k) := by
  obtain ⟨blocks, error⟩ := r
  cases error <;> simp [Reading.items, Reading.later, Item.later]

/-- Without an error, the items are the problems. -/
lemma Reading.items_of_error_eq_none {r : Reading} (h : r.error = none) :
    r.items = r.blocks.map .ok := by
  simp [Reading.items, h]

/-- The items of texts one after the other. -/
lemma items_readText_append {p : List Char} (hp : p = [] ∨ p.getLast? = some '\n')
    (h : (readText limit p).error = none) (q : List Char) :
    (readText limit (p ++ q)).items =
      (readText limit p).blocks.map .ok ++ (readText limit q).items.map (Item.later (lines p).length) := by
  rw [readText_append hp h, ← Reading.items_later]
  simp [Reading.items]

/-- **Texts are read one after the other.**  After a text of complete lines that gives problems, another text
gives the items that it gives alone, except that its lines are counted on; so nothing is left of the earlier
problems.

**Proof sketch.** The lines of both texts are those of the one and then those of the other.  The first text
ends between two problems, and there the reader knows nothing but the number of the line, which it only
copies. -/
theorem items_append {p q : List Char} {problems : List Problem}
    (hp : p = [] ∨ p.getLast? = some '\n') (h : load limit p = .ok problems) :
    let cursor := fun text : List Char => Cursor.start ((lines text).map some)
    let k := (lines p).length
    (∀ n (hn : n < problems.length), ∃ block : Block, block.problem = problems[n] ∧
      (cursor p).item? limit n = some (.ok block) ∧
        (cursor (p ++ q)).item? limit n = some (.ok block)) ∧
    (∀ n, (cursor (p ++ q)).item? limit (problems.length + n) =
      ((cursor q).item? limit n).map (Item.later k)) ∧
    load limit (p ++ q) =
      match load limit q with
      | .ok others => .ok (problems ++ others)
      | .error e => .error (e.later k) := by
  intro cursor k
  obtain ⟨herr, rfl⟩ := load_eq_ok_iff_readText.1 h
  have hitem : ∀ text n, (cursor text).item? limit n = (readText limit text).items[n]? :=
    fun text n => Cursor.item?_eq rfl n
  have hitems := items_readText_append hp herr q
  refine ⟨fun n hn => ?_, fun n => ?_, ?_⟩
  · have hn' : n < (readText limit p).blocks.length := by simpa [Reading.problems] using hn
    refine ⟨(readText limit p).blocks[n], by simp [Reading.problems], ?_, ?_⟩
    · rw [hitem, Reading.items_of_error_eq_none herr]
      simp [hn']
    · rw [hitem, hitems, List.getElem?_append_left (by simpa using hn')]
      simp [hn']
  · rw [hitem, hitem, hitems, List.getElem?_append_right (by simp [Reading.problems]), ← List.getElem?_map]
    simp [Reading.problems, k]
  · rw [load, readText_append hp herr, load]
    cases hafter : (readText limit q).error with
    | none => simp [Reading.toExcept, Reading.later, Reading.problems, hafter, Block.later]
    | some e => simp [Reading.toExcept, Reading.later, hafter, k]

/-- A problem without rules is followed by one with a word that is refused, five lines later than if it
stood alone. -/
theorem items_append_wordFault :
    let p := "S S a\n# -> #\na\n#\n\n".toList
    let q := "\nS SA a\nS -> AA\n# -> #\naSa\n#".toList
    let cursor := fun text : List Char => Cursor.start ((lines text).map some)
    let problem : Problem := ⟨⟨⟨['S', 'a']⟩, 1, .ofNat 0, []⟩, [['a']]⟩
    p.getLast? = some '\n' ∧ load 5 p = .ok [problem] ∧
      (cursor (p ++ q)).item? 5 0 = some (.ok ⟨1, problem⟩) ∧
      (cursor q).item? 5 0 = some (.error ⟨.word (.nonterminal 'S'), 5⟩) ∧
      (cursor (p ++ q)).item? 5 1 = some (.error ⟨.word (.nonterminal 'S'), 10⟩) ∧
      load 5 (p ++ q) = .error ⟨.word (.nonterminal 'S'), 10⟩ := by
  intro p q cursor problem
  have hp : p.getLast? = some '\n' := rfl
  have h : load 5 p = .ok [problem] := rfl
  have hfirst : (cursor p).item? 5 0 = some (.ok ⟨1, problem⟩) := rfl
  have hfault : (cursor q).item? 5 0 = some (.error ⟨.word (.nonterminal 'S'), 5⟩) := rfl
  obtain ⟨hbefore, hafter, hload⟩ := @items_append 5 p q [problem] (.inr hp) h
  obtain ⟨block, -, hsame, hblock⟩ := hbefore 0 (by decide)
  exact ⟨hp, h, hblock.trans (hsame.symm.trans hfirst), hfault,
    (hafter 0).trans (congrArg (Option.map (Item.later 5)) hfault), hload⟩

end Reader

end Chomsky
