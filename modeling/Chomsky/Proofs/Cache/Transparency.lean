import Chomsky.Cache
import Chomsky.Proofs.Construction
import Chomsky.Proofs.Recognition

set_option autoImplicit false

/-!
# A cache answers as if there were none

A cache remembers verdicts by grammar and word, and producers by right-hand side.  Whatever it is
asked, in whatever order, it remembers nothing that is wrong, so each answer is the verdict of a
recognition from scratch.

## Main definitions

* `Chomsky.Cache.Sound` — the invariant of caches.
* `Chomsky.Cache.Call`, `Chomsky.Cache.run` — a history of a cache, with its answers.
* `Chomsky.Cache.Call.reply` — the answer to a call, without any memory.

## Main results

* `Chomsky.Cache.Sound.perform` — every call is answered right and keeps the invariant.
* `Chomsky.Cache.replies_eq` — so is every history.
-/

namespace Chomsky

namespace Cache

variable {g : Grammar} {word : Word} {entry : Entry} {cache : Cache}

/-! ## What is remembered -/

/-- What is remembered for a grammar is right: the verdicts are those of recognitions from scratch,
and the index has the producers in that grammar. -/
structure Entry.Sound (g : Grammar) (entry : Entry) : Prop where
  verdict : ∀ word accepted, entry.verdicts[word]? = some accepted → accepted = isMember g word
  index : entry.index.Faithful g

/-- What is remembered is right for each grammar. -/
def Sound (cache : Cache) : Prop := ∀ e ∈ cache.entries, e.2.Sound e.1

/-- A new entry is sound for every grammar. -/
lemma Entry.sound_empty (g : Grammar) : Entry.empty.Sound g where
  verdict word accepted h := by simp [empty] at h
  index := ProducerIndex.faithful_empty g

/-- A cache without entries is sound. -/
lemma sound_empty : Cache.empty.Sound := fun _ he => absurd he List.not_mem_nil

/-- A sound entry gives the verdict, and stays sound with what is remembered of it.

**Proof sketch.** A verdict from memory is right by assumption.  One that is computed does not
depend on what the index remembers, so it is the verdict of a fresh index. -/
lemma Entry.Sound.verdict_eq (hg : g.WellFormed) (h : entry.Sound g) (word : Word) :
    (entry.verdict g word).1.accepted = isMember g word ∧ (entry.verdict g word).2.Sound g := by
  unfold Entry.verdict
  cases hw : entry.verdicts[word]? with
  | some accepted => exact ⟨h.verdict word accepted hw, h⟩
  | none =>
    have hmember := accepted_recognize hg h.index word
    refine ⟨hmember, ⟨fun word' accepted hw' => ?_, ?_⟩⟩
    · dsimp only at hw'
      rw [Std.HashMap.getElem?_insert, hmember] at hw'
      split_ifs at hw' with heq
      · rw [← eq_of_beq heq]
        exact (Option.some.inj hw').symm
      · exact h.verdict word' accepted hw'
    · dsimp only
      rw [recognize_eq hg h.index]
      exact h.index.lookupAll _

/-- An update acts on the entry of one grammar, which may be a new one, and on no other.

**Proof sketch.** By induction on the entries.  The first one whose grammar is the given one is
changed; if there is none, a new one is put at the end. -/
lemma updateEntry_spec {α : Type} {f : Entry → α × Entry} {P : Grammar → Entry → Prop}
    {Q : α → Prop} (hnew : P g .empty) (hf : ∀ entry, P g entry → Q (f entry).1 ∧ P g (f entry).2)
    {entries : List (Grammar × Entry)} (h : ∀ e ∈ entries, P e.1 e.2) :
    Q (updateEntry g f entries).1 ∧ ∀ e ∈ (updateEntry g f entries).2, P e.1 e.2 := by
  induction entries with
  | nil =>
    obtain ⟨hq, hp⟩ := hf .empty hnew
    exact ⟨hq, List.forall_mem_singleton.2 hp⟩
  | cons e rest ih =>
    obtain ⟨g', entry⟩ := e
    obtain ⟨he, hrest⟩ := List.forall_mem_cons.1 h
    unfold updateEntry
    split_ifs with heq
    · subst heq
      obtain ⟨hq, hp⟩ := hf entry he
      exact ⟨hq, List.forall_mem_cons.2 ⟨hp, hrest⟩⟩
    · obtain ⟨hq, hp⟩ := ih hrest
      exact ⟨hq, List.forall_mem_cons.2 ⟨he, hp⟩⟩

/-- The grammars with an entry are those from before, and the given one. -/
lemma map_fst_updateEntry {α : Type} {f : Entry → α × Entry} {entries : List (Grammar × Entry)} :
    (updateEntry g f entries).2.map Prod.fst =
      if g ∈ entries.map Prod.fst then entries.map Prod.fst else entries.map Prod.fst ++ [g] := by
  induction entries with
  | nil => rfl
  | cons e rest ih =>
    obtain ⟨g', entry⟩ := e
    unfold updateEntry
    by_cases heq : g' = g
    · simp [heq]
    · have hne : g ≠ g' := fun h => heq h.symm
      simp only [heq, if_false, List.map_cons, List.mem_cons, hne, false_or, ih]
      split_ifs <;> rfl

/-- The grammars that a cache knows after a request. -/
lemma map_fst_membership (cache : Cache) (g : Grammar) (word : Word) :
    (cache.membership g word).2.1.entries.map Prod.fst =
      if g ∈ cache.entries.map Prod.fst then cache.entries.map Prod.fst
        else cache.entries.map Prod.fst ++ [g] := by
  rw [← map_fst_updateEntry (f := Entry.verdict g word)]
  unfold Cache.membership
  dsimp only
  split_ifs <;> rfl

/-! ## Answers -/

/-- **A request gives the right verdict** and leaves the cache sound. -/
lemma Sound.membership (hg : g.WellFormed) (h : cache.Sound) (word : Word) :
    (cache.membership g word).1 = isMember g word ∧ (cache.membership g word).2.1.Sound := by
  have hspec := updateEntry_spec (P := fun g entry => entry.Sound g)
    (Q := fun answer : Answer => answer.accepted = isMember g word) (Entry.sound_empty g)
    (fun entry he => he.verdict_eq hg word) h
  refine ⟨hspec.1, ?_⟩
  -- the counters make no difference to what is remembered
  unfold Cache.membership
  dsimp only
  split_ifs
  · exact hspec.2
  · exact hspec.2

/-- A sound cache gives the verdicts about several words and stays sound. -/
lemma Sound.membershipAll (hg : g.WellFormed) (h : cache.Sound) (words : List Word) :
    (cache.membershipAll g words).1 = words.map (isMember g) ∧
      (cache.membershipAll g words).2.1.Sound := by
  induction words generalizing cache with
  | nil => exact ⟨rfl, h⟩
  | cons word words ih =>
    obtain ⟨hword, h⟩ := h.membership hg word
    obtain ⟨hwords, h⟩ := ih h
    exact ⟨congrArg₂ List.cons hword hwords, h⟩

/-- A call on a cache: for one verdict, for several, or to forget everything. -/
inductive Call where
  | membership (g : Grammar) (word : Word)
  | evaluateAll (g : Grammar) (words : List Word)
  | clear
deriving DecidableEq

/-- The answer to a call. -/
inductive Reply where
  | verdict (accepted : Bool)
  | verdicts (accepted : List Bool)
  | done
deriving DecidableEq

/-- The grammar that a call is about. -/
def Call.grammar? : Call → Option Grammar
  | membership g _ => some g
  | evaluateAll g _ => some g
  | clear => none

/-- The answer to a call, word by word and without any memory. -/
def Call.reply : Call → Reply
  | membership g word => .verdict (isMember g word)
  | evaluateAll g words => .verdicts (words.map (isMember g))
  | clear => .done

/-- The answer of a cache to a call, and the cache after it. -/
def perform (cache : Cache) : Call → Reply × Cache
  | .membership g word =>
    let (accepted, cache, _) := cache.membership g word
    (.verdict accepted, cache)
  | .evaluateAll g words =>
    let (verdicts, cache, _) := cache.evaluateAll g words
    (.verdicts verdicts, cache)
  | .clear => (.done, cache.clear)

/-- The answers of a cache to several calls in order, and the cache after them. -/
def run (cache : Cache) : List Call → List Reply × Cache
  | [] => ([], cache)
  | call :: calls =>
    let (reply, cache) := cache.perform call
    let (replies, cache) := cache.run calls
    (reply :: replies, cache)

/-- **A call gives the right reply** and leaves the cache sound. -/
lemma Sound.perform (h : cache.Sound) {call : Call}
    (hcall : ∀ g ∈ call.grammar?, g.WellFormed) :
    (cache.perform call).1 = call.reply ∧ (cache.perform call).2.Sound := by
  cases call with
  | membership g word =>
    obtain ⟨hword, hsound⟩ := h.membership (hcall g rfl) word
    exact ⟨congrArg Reply.verdict hword, hsound⟩
  | evaluateAll g words =>
    obtain ⟨hwords, hsound⟩ := h.membershipAll (hcall g rfl) words
    exact ⟨congrArg Reply.verdicts hwords, hsound⟩
  | clear => exact ⟨rfl, sound_empty⟩

/-- Every history is answered right and keeps the cache sound. -/
lemma Sound.run (h : cache.Sound) {calls : List Call}
    (hcalls : ∀ call ∈ calls, ∀ g ∈ call.grammar?, g.WellFormed) :
    (cache.run calls).1 = calls.map Call.reply ∧ (cache.run calls).2.Sound := by
  induction calls generalizing cache with
  | nil => exact ⟨rfl, h⟩
  | cons call calls ih =>
    obtain ⟨hcall, hrest⟩ := List.forall_mem_cons.1 hcalls
    obtain ⟨hreply, h⟩ := h.perform hcall
    obtain ⟨hreplies, h⟩ := ih h hrest
    exact ⟨congrArg₂ List.cons hreply hreplies, h⟩

/-- **A cache answers as if there were none**, after any history: each call gets the verdicts of
recognitions from scratch, word by word, and what is remembered stays right.  So does the
evaluation of several words with a cache of its own. -/
theorem replies_eq (calls : List Call)
    (hcalls : ∀ call ∈ calls, ∀ g ∈ call.grammar?, g.Constructed) :
    (Cache.empty.run calls).1 = calls.map Call.reply ∧ (Cache.empty.run calls).2.Sound ∧
      ∀ g : Grammar, g.Constructed → ∀ words : List Word,
        (Chomsky.evaluateAll g words).1 = words.map (isMember g) := by
  obtain ⟨hreplies, hsound⟩ :=
    sound_empty.run fun call hcall g hg => (hcalls call hcall g hg).wellFormed
  refine ⟨hreplies, hsound, fun g hg words => ?_⟩
  exact (sound_empty.membershipAll hg.wellFormed words).1

/-- The word `(())` is asked about in a batch, again on its own, and after everything was
forgotten. -/
theorem replies_parentheses :
    let word : Word := [.ofNat 4, .ofNat 4, .ofNat 5, .ofNat 5]
    let calls : List Call := [.evaluateAll .parentheses [[], word], .membership .parentheses word,
      .clear, .membership .parentheses word]
    (∀ call ∈ calls, ∀ g ∈ call.grammar?, g.Constructed) ∧
      (Cache.empty.run calls).1 = [.verdicts [false, true], .verdict true, .done, .verdict true] := by
  intro word calls
  have hcalls : ∀ call ∈ calls, ∀ g ∈ call.grammar?, g.Constructed := by
    simp [calls, Call.grammar?, Grammar.constructed_parentheses]
  have hempty : isMember .parentheses [] = false := rfl
  have hword : isMember .parentheses word = true :=
    (isMember_iff_derives Grammar.constructed_parentheses.wellFormed).2 Grammar.derives_parentheses
  refine ⟨hcalls, ?_⟩
  rw [(replies_eq calls hcalls).1]
  simp [calls, Call.reply, hempty, hword]

end Cache

end Chomsky
