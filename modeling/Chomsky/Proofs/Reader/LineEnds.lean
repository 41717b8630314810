import Chomsky.Proofs.Reader.Iteration
import Chomsky.Proofs.Text.Lines

set_option autoImplicit false

/-!
# Line ends

A line may end in a line feed or in a carriage return and a line feed, and an input may use both.  As
long as no line has a carriage return of its own at its end, the choice is not seen in what is read, nor
is one more carriage return after a last line that does not end in a line feed.

## Main definitions

* `Chomsky.Text.returnsAt` — a text with a carriage return in front of some of its line feeds.
* `Chomsky.Text.Plain` — no line ends in a carriage return.

## Main results

* `Chomsky.Text.split_returnsAt`, `Chomsky.Text.map_split_concat` — how such a text is cut.
* `Chomsky.Text.linesOfBytes_returnsAt`, `Chomsky.Text.linesOfBytes_returnsAt_concat`,
  `Chomsky.Text.lines_returnsAt`, `Chomsky.Text.lines_returnsAt_concat` — its lines, in bytes and in
  characters.
* `Chomsky.Reader.items_of_returns`, `Chomsky.Reader.load_of_returns` — what is read from it.
-/

namespace Chomsky.Text

section Cutting

variable {α : Type} [DecidableEq α] {feed ret : α} {chosen : Nat → Bool} {xs : List α}

/-- A list with a `ret` in front of each `feed` at a chosen place, the first place having the number
`n`. -/
def returnsAt (feed ret : α) (chosen : Nat → Bool) (n : Nat) : List α → List α
  | [] => []
  | x :: xs =>
    if x = feed ∧ chosen n = true then ret :: feed :: returnsAt feed ret chosen (n + 1) xs
    else x :: returnsAt feed ret chosen (n + 1) xs

/-- No `ret` stands in front of a `feed` or at the end. -/
structure Plain (feed ret : α) (xs : List α) : Prop where
  /-- No `ret` stands in front of a `feed`. -/
  before_feed : ¬ [ret, feed] <:+: xs
  /-- No `ret` stands at the end. -/
  at_end : xs.getLast? ≠ some ret

/-- Returns before line feeds do not change the last character. -/
lemma getLast?_returnsAt (n : Nat) : (returnsAt feed ret chosen n xs).getLast? = xs.getLast? := by
  induction xs generalizing n with
  | nil => rfl
  | cons x xs ih =>
    rw [returnsAt]
    split_ifs with hx
    · rw [List.getLast?_cons, List.getLast?_cons, List.getLast?_cons, ih, hx.1]
      rfl
    · rw [List.getLast?_cons, List.getLast?_cons, ih]

/-- A `ret` that is put in front of a `feed` is dropped again when the list is cut.

**Proof sketch.** By induction on the list, with any piece being read: a `feed` ends it, and a `ret` put in
front of that `feed` is the one dropped from the piece, which has no other at its end. -/
lemma splitFrom_returnsAt (hne : ret ≠ feed) (current xs : List α)
    (h : ¬ [ret, feed] <:+: current.reverse ++ xs) (n : Nat) :
    splitFrom feed ret current (returnsAt feed ret chosen n xs) = splitFrom feed ret current xs := by
  induction xs generalizing current n with
  | nil => rfl
  | cons x xs ih =>
    have hnext : ¬ [ret, feed] <:+: (x :: current).reverse ++ xs := by
      rwa [List.reverse_cons, List.append_assoc, List.singleton_append]
    by_cases hx : x = feed
    · subst hx
      -- the piece that ends here has no `ret` of its own at its end
      have hlast : current.reverse.getLast? ≠ some ret := by
        intro hlast
        obtain ⟨init, hinit⟩ := List.getLast?_eq_some_iff.1 hlast
        exact h ⟨init, xs, by simp [hinit]⟩
      have hrest : ¬ [ret, x] <:+: ([] : List α).reverse ++ xs := fun hrest =>
        h (hrest.trans ⟨current.reverse ++ [x], [], by simp⟩)
      have hpiece : chop ret (ret :: current).reverse = chop ret current.reverse := by
        rw [List.reverse_cons, chop_concat, if_pos rfl, chop_of_getLast?_ne hlast]
      rw [returnsAt]
      split_ifs with hchosen
      · rw [splitFrom, if_neg hne, splitFrom, if_pos rfl, splitFrom, if_pos rfl, hpiece,
          ih [] hrest]
      · rw [splitFrom, if_pos rfl, splitFrom, if_pos rfl, ih [] hrest]
    · rw [returnsAt, if_neg fun hchosen => hx hchosen.1, splitFrom, if_neg hx, splitFrom, if_neg hx,
        ih (x :: current) hnext]

/-- **A list is cut into the same pieces** whether a `ret` stands in front of a `feed` or not. -/
theorem split_returnsAt (hne : ret ≠ feed) (h : Plain feed ret xs) (chosen : Nat → Bool) (n : Nat) :
    split feed ret (returnsAt feed ret chosen n xs) = split feed ret xs :=
  splitFrom_returnsAt hne [] xs h.before_feed n

/-- What follows the last `feed` is the last piece, and a `ret` after it belongs to that piece. -/
lemma splitFrom_concat (hne : ret ≠ feed) (current xs : List α) (hnil : current ≠ [] ∨ xs ≠ [])
    (hfeed : xs.getLast? ≠ some feed) :
    ∃ init piece, splitFrom feed ret current xs = init ++ [piece] ∧
      splitFrom feed ret current (xs ++ [ret]) = init ++ [piece ++ [ret]] ∧
      piece.getLast? = (current.reverse ++ xs).getLast? := by
  induction xs generalizing current with
  | nil =>
    have hcurrent : current ≠ [] := hnil.resolve_right (absurd rfl)
    refine ⟨[], current.reverse, ?_, ?_, by rw [List.append_nil]⟩
    · rw [splitFrom, if_neg (by simpa using hcurrent), List.nil_append]
    · rw [List.nil_append, splitFrom, if_neg hne, splitFrom, if_neg (by simp), List.reverse_cons,
        List.nil_append]
  | cons x xs ih =>
    have htail : xs.getLast? ≠ some feed := fun htail =>
      hfeed (by rw [List.getLast?_cons, htail, Option.getD_some])
    rw [List.cons_append, splitFrom, splitFrom]
    split_ifs with hx
    · have hxs : xs ≠ [] := by
        rintro rfl
        exact hfeed (congrArg some hx)
      obtain ⟨init, piece, hsplit, hconcat, hlast⟩ := ih [] (.inr hxs) htail
      refine ⟨chop ret current.reverse :: init, piece, by rw [hsplit]; rfl, by rw [hconcat]; rfl, ?_⟩
      rw [hlast, List.getLast?_append_of_ne_nil _ (List.cons_ne_nil x xs),
        List.getLast?_cons_of_ne_nil hxs]
      rfl
    · obtain ⟨init, piece, hsplit, hconcat, hlast⟩ := ih (x :: current)
        (.inl (List.cons_ne_nil x current)) htail
      refine ⟨init, piece, hsplit, hconcat, ?_⟩
      rw [hlast, List.reverse_cons, List.append_assoc, List.singleton_append]

/-- **A `ret` after the last piece** is not seen by what does not look at it, wherever else a `ret` stands
in front of a `feed`. -/
theorem map_split_returnsAt_concat {β : Type} {f : List α → β} (hne : ret ≠ feed)
    (hf : ∀ piece, piece.getLast? ≠ some ret → f (piece ++ [ret]) = f piece)
    (h : Plain feed ret xs) (hnil : xs ≠ []) (hfeed : xs.getLast? ≠ some feed) (n : Nat) :
    (split feed ret (returnsAt feed ret chosen n xs ++ [ret])).map f = (split feed ret xs).map f := by
  have hsame : (returnsAt feed ret chosen n xs).getLast? = xs.getLast? := getLast?_returnsAt n
  have hnil' : returnsAt feed ret chosen n xs ≠ [] := by
    rwa [← List.getLast?_isSome, hsame, List.getLast?_isSome]
  obtain ⟨init, piece, hsplit, hconcat, hlast⟩ :=
    splitFrom_concat hne [] _ (.inr hnil') (hsame.trans_ne hfeed)
  have hpiece : piece.getLast? ≠ some ret := (hlast.trans hsame).trans_ne h.at_end
  rw [← split_returnsAt hne h chosen n, split, split, hsplit, hconcat, List.map_append,
    List.map_append, List.map_singleton, List.map_singleton, hf piece hpiece]

end Cutting

/-! ## Characters and bytes -/

variable {chosen : Nat → Bool}

/-- One character that is added at the end is chopped off again. -/
lemma chop_concat_self {α : Type} [DecidableEq α] {x : α} {xs : List α} (h : xs.getLast? ≠ some x) :
    chop x (xs ++ [x]) = chop x xs := by
  rw [chop_concat, if_pos rfl, chop_of_getLast?_ne h]

/-- The contents of a line in bytes do not show a carriage return after it. -/
lemma decode?_concat {bytes : List UInt8} (h : bytes.getLast? ≠ some 13) :
    (decode? (bytes ++ [13])).map (chop '\r') = (decode? bytes).map (chop '\r') := by
  cases hdecode : decode? bytes with
  | some cs =>
    have hbytes : encode cs = bytes := encode_of_decode? hdecode
    have hcs : cs.getLast? ≠ some '\r' := by
      intro hlast
      obtain ⟨init, rfl⟩ := List.getLast?_eq_some_iff.1 hlast
      rw [encode_append] at hbytes
      exact h (by rw [← hbytes]; exact List.getLast?_concat)
    have hconcat : bytes ++ [13] = encode (cs ++ ['\r']) := by
      rw [encode_append, hbytes]
      rfl
    rw [hconcat, decode?_encode, Option.map_some, Option.map_some, chop_concat_self hcs]
  | none =>
    cases hconcat : decode? (bytes ++ [13]) with
    | none => rfl
    | some cs =>
      have hchop : encode (chop '\r' cs) = bytes := by
        rw [← chop_encode, encode_of_decode? hconcat, chop_concat, if_pos rfl]
      rw [← hchop, decode?_encode] at hdecode
      exact absurd hdecode (by simp)

/-- **The lines of bytes do not show their line ends.** -/
theorem linesOfBytes_returnsAt {bytes : List UInt8} (h : Plain 10 13 bytes) (n : Nat) :
    linesOfBytes (returnsAt 10 13 chosen n bytes) = linesOfBytes bytes := by
  rw [linesOfBytes, split_returnsAt (by decide) h chosen n, linesOfBytes]

/-- **The lines of bytes do not show a carriage return after the last line.** -/
theorem linesOfBytes_returnsAt_concat {bytes : List UInt8} (h : Plain 10 13 bytes) (hnil : bytes ≠ [])
    (hfeed : bytes.getLast? ≠ some 10) (n : Nat) :
    linesOfBytes (returnsAt 10 13 chosen n bytes ++ [13]) = linesOfBytes bytes :=
  map_split_returnsAt_concat (by decide) (fun _ => decode?_concat) h hnil hfeed n

/-- **The lines of a text do not show their line ends.** -/
theorem lines_returnsAt {text : List Char} (h : Plain '\n' '\r' text) (n : Nat) :
    lines (returnsAt '\n' '\r' chosen n text) = lines text := by
  rw [lines, split_returnsAt (by decide) h chosen n, lines]

/-- **The lines of a text do not show a carriage return after the last line.** -/
theorem lines_returnsAt_concat {text : List Char} (h : Plain '\n' '\r' text) (hnil : text ≠ [])
    (hfeed : text.getLast? ≠ some '\n') (n : Nat) :
    lines (returnsAt '\n' '\r' chosen n text ++ ['\r']) = lines text :=
  map_split_returnsAt_concat (by decide) (fun _ hpiece => chop_concat_self hpiece) h hnil hfeed n

end Chomsky.Text

namespace Chomsky.Reader

open Text

/-- **What is read does not show the line ends.**  When no line of an input ends in a carriage return, one
in front of any of the line feeds changes nothing in what the calls on a reader give, problems and error
alike, and neither does one more after a last line that is not empty and has no line feed. -/
theorem items_of_returns {input : List UInt8} (h : Plain 10 13 input) (chosen : Nat → Bool) (limit : Nat) :
    let written := returnsAt 10 13 chosen 0 input
    let cursor := Cursor.start (linesOfBytes input)
    (∀ n, (Cursor.start (linesOfBytes written)).item? limit n = cursor.item? limit n) ∧
      (input ≠ [] → input.getLast? ≠ some 10 →
        ∀ n, (Cursor.start (linesOfBytes (written ++ [13]))).item? limit n = cursor.item? limit n) := by
  intro written cursor
  refine ⟨fun n => ?_, fun hnil hfeed n => ?_⟩
  · rw [linesOfBytes_returnsAt h]
  · rw [linesOfBytes_returnsAt_concat h hnil hfeed]

/-- A word with an accent is read alike from mixed line ends, and so is a line without an arrow that ends
in nothing or in a carriage return. -/
theorem items_of_returns_mixed :
    let input := encode "S S é\nS -> é\n# -> #\né\n#\n\nS S a\nS a".toList
    let written := encode "S S é\r\nS -> é\n# -> #\r\né\r\n#\r\n\r\nS S a\r\nS a".toList
    let problem : Problem := ⟨⟨⟨['S', 'é']⟩, 1, .ofNat 0, [⟨.ofNat 0, .terminal (.ofNat 1)⟩]⟩, [['é']]⟩
    let error : LoadError := ⟨.noArrow "S a".toList, 8⟩
    Plain 10 13 input ∧ returnsAt 10 13 (fun n => n ≠ 14) 0 input = written ∧
      (Cursor.start (linesOfBytes written)).item? 5 0 = some (.ok ⟨1, problem⟩) ∧
      (Cursor.start (linesOfBytes written)).item? 5 1 = some (.error error) ∧
      (Cursor.start (linesOfBytes (written ++ [13]))).item? 5 1 = some (.error error) := by
  intro input written problem error
  have hplain : Plain 10 13 input := ⟨by decide +kernel, by decide +kernel⟩
  have hwritten : returnsAt 10 13 (fun n => n ≠ 14) 0 input = written := by decide +kernel
  have hfirst : (Cursor.start (linesOfBytes input)).item? 5 0 = some (.ok ⟨1, problem⟩) := rfl
  have hsecond : (Cursor.start (linesOfBytes input)).item? 5 1 = some (.error error) := rfl
  obtain ⟨hsame, hconcat⟩ := items_of_returns hplain (fun n => n ≠ 14) 5
  rw [hwritten] at hsame hconcat
  exact ⟨hplain, hwritten, (hsame 0).trans hfirst, (hsame 1).trans hsecond,
    (hconcat (by decide +kernel) (by decide +kernel) 1).trans hsecond⟩

/-- **A text is loaded alike** whatever its line ends. -/
theorem load_of_returns {text : List Char} (h : Plain '\n' '\r' text) (chosen : Nat → Bool)
    (limit : Nat) :
    let written := returnsAt '\n' '\r' chosen 0 text
    load limit written = load limit text ∧
      (text ≠ [] → text.getLast? ≠ some '\n' → load limit (written ++ ['\r']) = load limit text) := by
  intro written
  refine ⟨?_, fun hnil hfeed => ?_⟩
  · rw [load, readText, lines_returnsAt h, load, readText]
  · rw [load, readText, lines_returnsAt_concat h hnil hfeed, load, readText]

end Chomsky.Reader
