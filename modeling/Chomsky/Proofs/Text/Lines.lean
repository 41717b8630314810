import Chomsky.Proofs.Text.Bytes

set_option autoImplicit false

/-!
# Texts line by line

A text that ends its last line is cut into lines independently of what follows it, and lines that are
written one after the other are found again.  No line holds a line feed, so a line feed ends what stands
before it.

## Main results

* `Chomsky.Text.lines_append` — the lines of a text that begins with complete lines.
* `Chomsky.Text.lines_flatMap` — the lines of a text that is written line by line.
* `Chomsky.Text.feed_not_mem_of_mem_linesOfBytes` — no line of bytes holds a line feed.
* `Chomsky.Text.append_cons_inj_of_not_mem` — what stands before the first feed is determined.
-/

namespace Chomsky.Text

variable {p : List Char}

/-- After a feed, a list is cut as if there were nothing before. -/
lemma splitFrom_append_feed {α : Type} [DecidableEq α] (feed ret : α) (current xs ys : List α) :
    splitFrom feed ret current (xs ++ feed :: ys) =
      splitFrom feed ret current (xs ++ [feed]) ++ splitFrom feed ret [] ys := by
  induction xs generalizing current with
  | nil => simp [splitFrom]
  | cons x xs ih =>
    rw [List.cons_append, List.cons_append, splitFrom, splitFrom]
    split_ifs
    · rw [ih, List.cons_append]
    · exact ih (x :: current)

/-- **The lines after complete lines** are those of the text that follows. -/
theorem lines_append (hp : p = [] ∨ p.getLast? = some '\n') (q : List Char) :
    lines (p ++ q) = lines p ++ lines q := by
  rcases hp with rfl | hp
  · rfl
  · obtain ⟨init, rfl⟩ := List.getLast?_eq_some_iff.1 hp
    rw [List.append_assoc, List.singleton_append, lines, split, splitFrom_append_feed, List.map_append]
    rfl

/-- Nothing is chopped off if the last element is another. -/
lemma chop_of_getLast?_ne {α : Type} [DecidableEq α] {x : α} {xs : List α}
    (h : xs.getLast? ≠ some x) : chop x xs = xs := if_neg h

/-- **Lines that are written are found again**, unless a line feed stands in one of them or a carriage
return at the end of one. -/
theorem lines_flatMap {ls : List (List Char)}
    (h : ∀ l ∈ ls, '\n' ∉ l ∧ l.getLast? ≠ some '\r') : lines (ls.flatMap (· ++ ['\n'])) = ls := by
  induction ls with
  | nil => rfl
  | cons l ls ih =>
    obtain ⟨⟨hfeed, hret⟩, h⟩ := List.forall_mem_cons.1 h
    have hline : lines (l ++ ['\n']) = [l] := by
      rw [lines, split, splitFrom_append hfeed, splitFrom, if_pos rfl, List.append_nil,
        List.reverse_reverse, chop_of_getLast?_ne hret]
      simp [splitFrom, chop_of_getLast?_ne hret]
    rw [List.flatMap_cons, lines_append (.inr (by simp)), hline, ih h, List.singleton_append]

/-! ## Line feeds -/

/-- What is left after a chop was there before. -/
lemma mem_of_mem_chop {α : Type} [DecidableEq α] {x y : α} {xs : List α} (h : y ∈ chop x xs) :
    y ∈ xs := by
  unfold chop at h
  split_ifs at h
  · exact (List.dropLast_sublist xs).mem h
  · exact h

/-- No piece of a list that is cut at its feeds holds a feed. -/
lemma feed_not_mem_of_mem_splitFrom {α : Type} [DecidableEq α] {feed ret : α} {current xs piece : List α}
    (hcurrent : feed ∉ current) (h : piece ∈ splitFrom feed ret current xs) : feed ∉ piece := by
  induction xs generalizing current with
  | nil =>
    rw [splitFrom] at h
    split_ifs at h
    · exact absurd h List.not_mem_nil
    · obtain rfl := List.mem_singleton.1 h
      rwa [List.mem_reverse]
  | cons x xs ih =>
    rw [splitFrom] at h
    split_ifs at h with hx
    · rcases List.mem_cons.1 h with rfl | h
      · exact fun hmem => hcurrent (List.mem_reverse.1 (mem_of_mem_chop hmem))
      · exact ih List.not_mem_nil h
    · exact ih (List.not_mem_cons_of_ne_of_not_mem (Ne.symm hx) hcurrent) h

/-- **No line of bytes holds a line feed.** -/
theorem feed_not_mem_of_mem_linesOfBytes {bytes : List UInt8} {line : List Char}
    (h : some line ∈ linesOfBytes bytes) : '\n' ∉ line := by
  obtain ⟨piece, hpiece, hline⟩ := List.mem_map.1 h
  obtain ⟨cs, hcs, rfl⟩ := Option.map_eq_some_iff.1 hline
  have hfeed : 10 ∉ encode cs := by
    rw [encode_of_decode? hcs]
    exact feed_not_mem_of_mem_splitFrom List.not_mem_nil hpiece
  exact fun hmem => hfeed (List.mem_flatMap.2 ⟨'\n', mem_of_mem_chop hmem, by decide⟩)

/-- What stands before the first feed of a list, and what stands after it, are determined. -/
lemma append_cons_inj_of_not_mem {α : Type} {feed : α} {xs ys rest rest' : List α} (hx : feed ∉ xs)
    (hy : feed ∉ ys) (h : xs ++ feed :: rest = ys ++ feed :: rest') : xs = ys ∧ rest = rest' := by
  induction xs generalizing ys with
  | nil =>
    cases ys with
    | nil => exact ⟨rfl, (List.cons.inj h).2⟩
    | cons y ys => exact absurd (List.cons.inj h).1 (List.ne_of_not_mem_cons hy)
  | cons x xs ih =>
    cases ys with
    | nil => exact absurd (List.cons.inj h).1.symm (List.ne_of_not_mem_cons hx)
    | cons y ys =>
      obtain ⟨rfl, htail⟩ := List.cons.inj h
      obtain ⟨rfl, rfl⟩ := ih (List.not_mem_of_not_mem_cons hx) (List.not_mem_of_not_mem_cons hy) htail
      exact ⟨rfl, rfl⟩

end Chomsky.Text
