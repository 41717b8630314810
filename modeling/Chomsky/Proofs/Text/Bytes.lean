import Chomsky.Text.Lines
import Mathlib.Data.List.Basic
import Mathlib.Tactic.SplitIfs

set_option autoImplicit false

/-!
# Texts in bytes

A text in UTF-8 has the same lines whether it is cut into lines before it is decoded or after: the
bytes of line feed and carriage return stand for nothing else.

## Main definitions

* `Chomsky.Text.encode` — the bytes of a text.

## Main results

* `Chomsky.Text.decode?_encode`, `Chomsky.Text.encode_of_decode?` — a text is recovered from its bytes,
  and bytes from the text that they encode.
* `Chomsky.Text.linesOfBytes_encode` — the lines of the bytes are those of the text.
-/

namespace Chomsky.Text

/-- The bytes of a text in UTF-8. -/
def encode (cs : List Char) : List UInt8 := cs.flatMap String.utf8EncodeChar

variable {c : Char} {cs ds : List Char}

/-- Texts are encoded part by part. -/
lemma encode_append : encode (cs ++ ds) = encode cs ++ encode ds := List.flatMap_append

/-- A single character is encoded by its bytes. -/
lemma encode_singleton : encode [c] = String.utf8EncodeChar c := by simp [encode]

/-- **A text is recovered from its bytes.** -/
theorem decode?_encode (cs : List Char) : decode? (encode cs) = some cs := by
  have hbytes : (⟨(encode cs).toArray⟩ : ByteArray) = cs.utf8Encode :=
    ByteArray.ext List.data_toByteArray.symm
  have hvalid : cs.utf8Encode.IsValidUTF8 := ⟨cs, rfl⟩
  rw [decode?, hbytes, String.fromUTF8?, dif_pos hvalid, Option.map_some]
  exact congrArg some String.toList_ofList

/-- What was decoded encodes to the same bytes. -/
lemma encode_of_decode? {bytes : List UInt8} (h : decode? bytes = some cs) : encode cs = bytes := by
  unfold decode? String.fromUTF8? at h
  split_ifs at h with hvalid
  · obtain ⟨ds, hds⟩ := hvalid
    have hbytes : bytes = encode ds :=
      congrArg (fun b : ByteArray => b.data.toList) (hds.trans (ByteArray.ext List.data_toByteArray))
    have hdecoded : decode? bytes = some cs := by
      rw [decode?, String.fromUTF8?, dif_pos ⟨ds, hds⟩, ← h]
    rw [hbytes, decode?_encode] at hdecoded
    rw [hbytes, Option.some.inj hdecoded]
  · exact absurd h (by simp)

/-! ## Line ends -/

/-- A byte below 128 is the number of the character that it belongs to. -/
lemma toNat_eq_of_mem_utf8EncodeChar {b : UInt8} (hb : b ∈ String.utf8EncodeChar c)
    (hlt : b.toNat < 128) : c.toNat = b.toNat := by
  have hnum : c.val.toNat = c.toNat := rfl
  simp only [String.utf8EncodeChar] at hb
  split_ifs at hb with h1 h2 h3
  · obtain rfl := List.mem_singleton.1 hb
    rw [UInt8.toNat_ofNat']
    omega
  -- all bytes of a longer encoding are at least 128
  all_goals
    simp only [List.mem_cons, List.not_mem_nil, or_false] at hb
    rcases hb with rfl | rfl | rfl | rfl <;> simp only [UInt8.toNat_ofNat'] at hlt <;> omega

/-- Only a line feed has the byte of a line feed. -/
lemma feed_not_mem (h : c ≠ '\n') : 10 ∉ String.utf8EncodeChar c := fun hmem =>
  h (Char.toNat_inj.1 (toNat_eq_of_mem_utf8EncodeChar hmem (by decide)))

/-- Only a carriage return has the byte of a carriage return. -/
lemma return_not_mem (h : c ≠ '\r') : 13 ∉ String.utf8EncodeChar c := fun hmem =>
  h (Char.toNat_inj.1 (toNat_eq_of_mem_utf8EncodeChar hmem (by decide)))

/-- A chop looks at the last element only. -/
lemma chop_concat {α : Type} [DecidableEq α] (x y : α) (xs : List α) :
    chop x (xs ++ [y]) = if y = x then xs else xs ++ [y] := by
  simp [chop]

/-- Nothing is chopped off if the last part does not hold the element. -/
lemma chop_of_not_mem {α : Type} [DecidableEq α] {x : α} {xs : List α} (ys : List α) (hne : xs ≠ [])
    (h : x ∉ xs) : chop x (ys ++ xs) = ys ++ xs := by
  obtain ⟨zs, z, rfl⟩ := (List.eq_nil_or_concat' xs).resolve_left hne
  have hz : z ≠ x := fun heq => h (by simp [heq])
  rw [← List.append_assoc, chop_concat, if_neg hz]

/-- Every character has bytes. -/
lemma utf8EncodeChar_ne_nil (c : Char) : String.utf8EncodeChar c ≠ [] := by
  intro hnil
  have hlen := congrArg List.length hnil
  rw [String.length_utf8EncodeChar, List.length_nil] at hlen
  exact absurd hlen (Nat.ne_of_gt c.utf8Size_pos)

/-- A carriage return at the end is dropped before or after encoding. -/
lemma chop_encode (cs : List Char) : chop 13 (encode cs) = encode (chop '\r' cs) := by
  obtain rfl | ⟨init, c, rfl⟩ := List.eq_nil_or_concat' cs
  · rfl
  · rw [encode_append, encode_singleton, chop_concat]
    split_ifs with hc
    · subst hc
      exact chop_concat 13 13 (encode init)
    · rw [chop_of_not_mem _ (utf8EncodeChar_ne_nil c) (return_not_mem hc), encode_append,
        encode_singleton]

/-- What holds no feed joins the piece being read. -/
lemma splitFrom_append {α : Type} [DecidableEq α] {feed ret : α} {xs : List α} (h : feed ∉ xs)
    (current ys : List α) :
    splitFrom feed ret current (xs ++ ys) = splitFrom feed ret (xs.reverse ++ current) ys := by
  induction xs generalizing current with
  | nil => rfl
  | cons x xs ih =>
    rw [List.cons_append, splitFrom, if_neg (List.ne_of_not_mem_cons h).symm,
      ih (List.not_mem_of_not_mem_cons h), List.reverse_cons, List.append_assoc,
      List.singleton_append]

/-- Cutting a text at its line feeds cuts its bytes. -/
lemma splitFrom_encode (current cs : List Char) :
    splitFrom 10 13 (encode current.reverse).reverse (encode cs) =
      (splitFrom '\n' '\r' current cs).map encode := by
  induction cs generalizing current with
  | nil =>
    cases current with
    | nil => rfl
    | cons d current =>
      have hne : encode (d :: current).reverse ≠ [] := by
        rw [List.reverse_cons, encode_append, encode_singleton]
        exact List.append_ne_nil_of_right_ne_nil _ (utf8EncodeChar_ne_nil d)
      show splitFrom 10 13 (encode (d :: current).reverse).reverse [] = [encode (d :: current).reverse]
      rw [splitFrom, if_neg (by simpa using hne), List.reverse_reverse]
  | cons c cs ih =>
    have hcons : encode (c :: cs) = String.utf8EncodeChar c ++ encode cs := rfl
    rw [hcons, splitFrom]
    split_ifs with hc
    · subst hc
      show splitFrom 10 13 (encode current.reverse).reverse (10 :: encode cs) = _
      rw [splitFrom, if_pos rfl, List.reverse_reverse, chop_encode, List.map_cons, ← ih []]
      rfl
    · rw [splitFrom_append (feed_not_mem hc), ← List.reverse_append, ← ih, List.reverse_cons,
        encode_append, encode_singleton]

/-- **The lines of the bytes of a text are its lines.** -/
theorem linesOfBytes_encode (cs : List Char) : linesOfBytes (encode cs) = (lines cs).map some := by
  have hsplit : split 10 13 (encode cs) = (split '\n' '\r' cs).map encode := splitFrom_encode [] cs
  rw [linesOfBytes, hsplit, lines, List.map_map, List.map_map]
  refine List.map_congr_left fun line _ => ?_
  simp only [Function.comp_apply, decode?_encode, Option.map_some]

end Chomsky.Text
