import Chomsky.Text.Blank
import Mathlib.Data.List.TakeWhile
import Mathlib.Tactic.SplitIfs

set_option autoImplicit false

/-!
# Texts with blanks

Reading forgets where blanks stand, so what a reader accepts is said the other way round: by how the
pieces that it keeps are laid out among blanks.

## Main definitions

* `Chomsky.Text.Blanks` — a run of blanks, possibly empty.
* `Chomsky.Text.Trimmed` — a text that blanks neither begin nor end.
* `Chomsky.Text.Laid` — fields laid out among blanks.

## Main results

* `Chomsky.Text.trim_eq_iff` — the texts that are trimmed to a given one.
* `Chomsky.Text.fields_eq_iff` — the texts with given fields.
-/

namespace Chomsky.Text

/-- A run of blanks, possibly empty. -/
def Blanks (w : List Char) : Prop := ∀ c ∈ w, isBlank c = true

/-- No blank stands at either end. -/
def Trimmed (t : List Char) : Prop :=
  (∀ c ∈ t.head?, isBlank c = false) ∧ ∀ c ∈ t.getLast?, isBlank c = false

/-- A piece without blanks, not empty. -/
def IsField (f : List Char) : Prop := f ≠ [] ∧ ∀ c ∈ f, isBlank c = false

/-- Fields laid out in order, with blanks before, between and after them. -/
inductive Laid : List (List Char) → List Char → Prop where
  | nil {w : List Char} (hw : Blanks w) : Laid [] w
  | cons {w f rest : List Char} {fs : List (List Char)} (hw : Blanks w) (hf : IsField f)
      (hrest : ∀ c ∈ rest.head?, isBlank c = true) (h : Laid fs rest) :
      Laid (f :: fs) (w ++ f ++ rest)

variable {u v w t f cs : List Char} {fs : List (List Char)}

/-- The empty text is blank. -/
lemma blanks_nil : Blanks [] := fun _ h => absurd h List.not_mem_nil

/-- Blanks after blanks are blanks. -/
lemma Blanks.append (hu : Blanks u) (hv : Blanks v) : Blanks (u ++ v) :=
  List.forall_mem_append.2 ⟨hu, hv⟩

/-! ## Trimming -/

/-- Blanks in front are trimmed. -/
lemma trimLeft_append (hw : Blanks w) (cs : List Char) : trimLeft (w ++ cs) = trimLeft cs :=
  List.dropWhile_append_of_pos hw

/-- A text that does not begin with a blank is not trimmed in front. -/
lemma trimLeft_of_head (h : ∀ c ∈ cs.head?, isBlank c = false) : trimLeft cs = cs := by
  cases cs with
  | nil => rfl
  | cons c cs => exact List.dropWhile_cons_of_neg (by simp [h c rfl])

/-- A text that is trimmed in front does not begin with a blank. -/
lemma isBlank_head?_trimLeft (cs : List Char) : ∀ c ∈ (trimLeft cs).head?, isBlank c = false := by
  intro c hc
  have hnot := List.head?_dropWhile_not isBlank cs
  rwa [show (cs.dropWhile isBlank).head? = some c from hc] at hnot

/-- Trimming in front takes a run of blanks away. -/
lemma exists_trimLeft (cs : List Char) : ∃ w, Blanks w ∧ cs = w ++ trimLeft cs :=
  ⟨cs.takeWhile isBlank, fun _ hc => List.mem_takeWhile_imp hc, List.takeWhile_append_dropWhile.symm⟩

/-- Trimming at the end is trimming in front, read backwards. -/
lemma exists_trimRight (cs : List Char) : ∃ w, Blanks w ∧ cs = trimRight cs ++ w := by
  obtain ⟨w, hw, hcs⟩ := exists_trimLeft cs.reverse
  refine ⟨w.reverse, fun c hc => hw c (List.mem_reverse.1 hc), ?_⟩
  rw [trimRight, ← trimLeft, ← List.reverse_append, ← hcs, List.reverse_reverse]

/-- Blanks around a text that they neither begin nor end are trimmed away. -/
lemma Trimmed.trim_eq (ht : Trimmed t) (hu : Blanks u) (hv : Blanks v) : trim (u ++ t ++ v) = t := by
  rw [trim, List.append_assoc, trimLeft_append hu]
  by_cases hne : t = []
  · subst hne
    have hnil : trimLeft v = [] := by simpa [trimLeft] using trimLeft_append hv []
    rw [List.nil_append, hnil]
    rfl
  · have hhead : ∀ c ∈ (t ++ v).head?, isBlank c = false := by
      obtain ⟨c, t, rfl⟩ := List.exists_cons_of_ne_nil hne
      exact ht.1
    have hlast : ∀ c ∈ t.reverse.head?, isBlank c = false := by
      rw [List.head?_reverse]
      exact ht.2
    have hv' : Blanks v.reverse := fun c hc => hv c (List.mem_reverse.1 hc)
    rw [trimLeft_of_head hhead, trimRight, ← trimLeft, List.reverse_append, trimLeft_append hv',
      trimLeft_of_head hlast, List.reverse_reverse]

/-- A single character is trimmed if it is no blank. -/
lemma trimmed_singleton {c : Char} : Trimmed [c] ↔ isBlank c = false := by
  simp [Trimmed]

/-- A text is what trimming leaves, between two runs of blanks. -/
lemma exists_trim (cs : List Char) :
    Trimmed (trim cs) ∧ ∃ u v, Blanks u ∧ Blanks v ∧ cs = u ++ trim cs ++ v := by
  obtain ⟨u, hu, hcs⟩ := exists_trimLeft cs
  obtain ⟨v, hv, hleft⟩ := exists_trimRight (trimLeft cs)
  refine ⟨⟨fun c hc => ?_, fun c hc => ?_⟩, u, v, hu, hv, ?_⟩
  · have hc' : c ∈ (trimLeft cs).head? := by
      rw [hleft, List.head?_append, show (trimRight (trimLeft cs)).head? = some c from hc]
      rfl
    exact isBlank_head?_trimLeft cs c hc'
  · refine isBlank_head?_trimLeft (trimLeft cs).reverse c ?_
    rwa [trim, trimRight, List.getLast?_reverse] at hc
  · rw [List.append_assoc]
    exact hcs.trans (congrArg (u ++ ·) hleft)

/-- **The texts that are trimmed to a given one.** -/
theorem trim_eq_iff :
    trim cs = t ↔ Trimmed t ∧ ∃ u v, Blanks u ∧ Blanks v ∧ cs = u ++ t ++ v := by
  constructor
  · rintro rfl
    exact exists_trim cs
  · rintro ⟨ht, u, v, hu, hv, rfl⟩
    exact ht.trim_eq hu hv

/-- A text of blanks only is trimmed to nothing. -/
lemma isEmpty_trim_iff : (trim cs).isEmpty = true ↔ Blanks cs := by
  rw [List.isEmpty_iff, trim_eq_iff]
  constructor
  · rintro ⟨-, u, v, hu, hv, rfl⟩
    rw [List.append_nil]
    exact hu.append hv
  · intro h
    exact ⟨⟨by simp, by simp⟩, cs, [], h, blanks_nil, by simp⟩

/-! ## Fields -/

/-- Blanks may come before the fields. -/
lemma Laid.blanks_append (hw : Blanks w) (h : Laid fs cs) : Laid fs (w ++ cs) := by
  cases h with
  | nil hw' => exact .nil (hw.append hw')
  | cons hw' hf hrest h =>
    rw [← List.append_assoc, ← List.append_assoc]
    exact .cons (hw.append hw') hf hrest h

/-- Whatever is read is laid out as its fields, when the characters in `current` were read before. -/
lemma laid_fieldsFrom {current : List Char} (h : ∀ c ∈ current, isBlank c = false)
    (cs : List Char) : Laid (fieldsFrom current cs) (current.reverse ++ cs) := by
  have hfield : current ≠ [] → IsField current.reverse := fun hne =>
    ⟨by simpa using hne, fun c hc => h c (List.mem_reverse.1 hc)⟩
  induction cs generalizing current with
  | nil =>
    by_cases hne : current = []
    · subst hne
      exact .nil blanks_nil
    · rw [fieldsFrom, if_neg (by simpa using hne)]
      exact .cons blanks_nil (hfield hne) (by simp) (.nil blanks_nil)
  | cons c cs ih =>
    unfold fieldsFrom
    split_ifs with hc hne
    · obtain rfl := List.isEmpty_iff.1 hne
      have hblank : Blanks [c] := List.forall_mem_singleton.2 hc
      have hrest : Laid (fieldsFrom [] cs) cs := ih h hfield
      show Laid (fieldsFrom [] cs) ([c] ++ cs)
      exact hrest.blanks_append hblank
    · have hblank : Blanks [c] := List.forall_mem_singleton.2 hc
      have hrest := ih (fun _ h => absurd h List.not_mem_nil) (fun h => absurd rfl h)
      exact .cons blanks_nil (hfield (by simpa using hne)) (by simpa using hc)
        (hrest.blanks_append hblank)
    · have hcurrent : ∀ d ∈ c :: current, isBlank d = false :=
        List.forall_mem_cons.2 ⟨by simpa using hc, h⟩
      have hrest := ih hcurrent fun hne =>
        ⟨by simp, fun d hd => hcurrent d (List.mem_reverse.1 hd)⟩
      rwa [List.reverse_cons, List.append_assoc] at hrest

/-- Blanks in front do not change the fields. -/
lemma fields_blanks_append (hw : Blanks w) (cs : List Char) : fields (w ++ cs) = fields cs := by
  induction w with
  | nil => rfl
  | cons c w ih =>
    obtain ⟨hc, hw⟩ := List.forall_mem_cons.1 hw
    rw [← ih hw]
    simp [fields, fieldsFrom, hc]

/-- Blank-free characters join the field being read. -/
lemma fieldsFrom_append {current rest : List Char} (hf : ∀ c ∈ f, isBlank c = false) :
    fieldsFrom current (f ++ rest) = fieldsFrom (f.reverse ++ current) rest := by
  induction f generalizing current with
  | nil => rfl
  | cons c f ih =>
    obtain ⟨hc, hf⟩ := List.forall_mem_cons.1 hf
    simp [fieldsFrom, hc, ih hf]

/-- The field being read ends before a blank or the end. -/
lemma fieldsFrom_eq_cons {current rest : List Char} (hne : current ≠ [])
    (hrest : ∀ c ∈ rest.head?, isBlank c = true) :
    fieldsFrom current rest = current.reverse :: fields rest := by
  cases rest with
  | nil => simp [fieldsFrom, fields, hne]
  | cons c rest => simp [fieldsFrom, fields, hne, hrest c rfl]

/-- **The texts with given fields**: the fields stand in order, each between blanks. -/
theorem fields_eq_iff : fields cs = fs ↔ Laid fs cs := by
  constructor
  · rintro rfl
    exact laid_fieldsFrom (fun _ h => absurd h List.not_mem_nil) cs
  · intro h
    induction h with
    | @nil w hw =>
      have hnil := fields_blanks_append hw []
      rw [List.append_nil] at hnil
      exact hnil
    | @cons w f rest fs hw hf hrest h ih =>
      rw [List.append_assoc, fields_blanks_append hw, fields, fieldsFrom_append hf.2,
        List.append_nil, fieldsFrom_eq_cons (by simpa using hf.1) hrest, List.reverse_reverse, ih]

end Chomsky.Text
