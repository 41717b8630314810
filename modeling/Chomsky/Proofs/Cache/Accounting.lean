import Chomsky.Proofs.Cache.Transparency
import Chomsky.Proofs.Lookups
import Mathlib.Algebra.BigOperators.Group.Finset.Sigma

set_option autoImplicit false

/-!
# What a cache counts

The counters of a cache depend only on which words it was asked about for which grammars since
everything was last forgotten, and not on the order.  Each different request is a miss once and a hit
from then on.  The look-ups of a miss are those of a recognition with a fresh index, whatever the index
of the grammar remembers; the rules of a grammar are scanned once for each right-hand side that any of
its words needs.

## Main definitions

* `Chomsky.Cache.requested` — the requests of a history since everything was last forgotten.
* `Chomsky.Cache.askedWords` — the words among them for one grammar.
* `Chomsky.Cache.Stats.ofRequests` — the counters in terms of the requests.
* `Chomsky.Cache.Accounts` — the invariant: what is remembered and counted after some requests.

## Main results

* `Chomsky.Cache.Accounts.membership` — the invariant is kept by each request.
* `Chomsky.Cache.Accounts.run` — the invariant holds along all histories.
* `Chomsky.Cache.stats_run` — the counters after any history.
-/

namespace Chomsky

namespace Cache

variable {g h : Grammar} {word : Word} {entry : Entry} {cache : Cache}
  {asked : List (Grammar × Word)}

/-! ## Requests -/

/-- The requests since everything was last forgotten, after one more call. -/
def Call.requests (asked : List (Grammar × Word)) : Call → List (Grammar × Word)
  | membership g word => asked ++ [(g, word)]
  | evaluateAll g words => asked ++ words.map fun word => (g, word)
  | clear => []

/-- The requests of a history since everything was last forgotten. -/
def requested (calls : List Call) : List (Grammar × Word) := calls.foldl Call.requests []

/-- The words among several requests for one grammar. -/
def askedWords (asked : List (Grammar × Word)) (g : Grammar) : Finset Word :=
  ((asked.filter fun request => request.1 = g).map Prod.snd).toFinset

/-- **The counters of a cache in terms of the requests**: for each different request a miss with the
look-ups of a recognition with a fresh index, and for each grammar a scan for each different right-hand
side that is looked up for any of its words. -/
def Stats.ofRequests (asked : List (Grammar × Word)) : Cache.Stats where
  grammars := (asked.map Prod.fst).toFinset.card
  hits := asked.length - asked.toFinset.card
  misses := asked.toFinset.card
  indexLookups := ∑ request ∈ asked.toFinset, (recognize request.1 request.2 .empty).2.lookups
  indexScans := ∑ g ∈ (asked.map Prod.fst).toFinset,
    ((askedWords asked g).biUnion fun word => (g.lookedUp word).toFinset).card

/-- A word is asked for if there is a request for it. -/
lemma mem_askedWords : word ∈ askedWords asked g ↔ (g, word) ∈ asked := by
  simp [askedWords]

/-- A request adds its word to those of its grammar. -/
lemma askedWords_append_self :
    askedWords (asked ++ [(g, word)]) g = insert word (askedWords asked g) := by
  ext word'
  simp [mem_askedWords, or_comm]

/-- A request changes nothing for other grammars. -/
lemma askedWords_append_of_ne (hne : h ≠ g) :
    askedWords (asked ++ [(g, word)]) h = askedWords asked h := by
  ext word'
  simp [mem_askedWords, hne]

/-! ## Entries by grammar -/

/-- What is remembered for a grammar. -/
def entryFor (g : Grammar) : List (Grammar × Entry) → Entry
  | [] => .empty
  | (h, entry) :: rest => if h = g then entry else entryFor g rest

/-- An update reads and changes what is remembered for its grammar, and nothing else. -/
lemma updateEntry_eq {α : Type} (f : Entry → α × Entry) (entries : List (Grammar × Entry)) :
    (updateEntry g f entries).1 = (f (entryFor g entries)).1 ∧
      ∀ h, entryFor h (updateEntry g f entries).2 =
        if h = g then (f (entryFor g entries)).2 else entryFor h entries := by
  induction entries with
  | nil => exact ⟨rfl, fun h => by simp [updateEntry, entryFor, eq_comm]⟩
  | cons e rest ih =>
    obtain ⟨g', entry⟩ := e
    unfold updateEntry entryFor
    by_cases hg' : g' = g
    · rw [if_pos hg', if_pos hg']
      refine ⟨rfl, fun h => ?_⟩
      by_cases heq : g' = h
      · simp [← hg', heq]
      · simp [← hg', heq, Ne.symm heq]
    · rw [if_neg hg', if_neg hg']
      refine ⟨ih.1, fun h => ?_⟩
      by_cases heq : g' = h
      · simp [heq, heq ▸ hg']
      · simp [heq, ih.2 h]

/-- What a request does: what is remembered for its grammar answers it, and either the hits or the misses
go up by one. -/
lemma membership_eq (cache : Cache) (g : Grammar) (word : Word) :
    (∀ h, entryFor h (cache.membership g word).2.1.entries =
      if h = g then ((entryFor g cache.entries).verdict g word).2 else entryFor h cache.entries) ∧
      ((cache.membership g word).2.1.hits, (cache.membership g word).2.1.misses) =
        if ((entryFor g cache.entries).verdict g word).1.hit then (cache.hits + 1, cache.misses)
          else (cache.hits, cache.misses + 1) := by
  obtain ⟨hanswer, hentry⟩ := updateEntry_eq (g := g) (Entry.verdict g word) cache.entries
  rw [← hanswer]
  simp only [← hentry]
  unfold Cache.membership
  dsimp only
  split_ifs
  · exact ⟨fun h => rfl, rfl⟩
  · exact ⟨fun h => rfl, rfl⟩

/-- The entries can be read by their grammars, if no grammar has two. -/
lemma map_entries {α : Type} (f : Entry → α) {entries : List (Grammar × Entry)}
    (hnodup : (entries.map Prod.fst).Nodup) :
    (entries.map fun e => f e.2) =
      (entries.map Prod.fst).map fun g => f (entryFor g entries) := by
  induction entries with
  | nil => rfl
  | cons e rest ih =>
    obtain ⟨g', entry⟩ := e
    obtain ⟨hg', hrest⟩ := List.nodup_cons.1 hnodup
    have htail : ∀ g ∈ rest.map Prod.fst, entryFor g ((g', entry) :: rest) = entryFor g rest :=
      fun g hg => if_neg fun heq : g' = g => hg' (heq ▸ hg)
    rw [List.map_cons, List.map_cons, List.map_cons, ih hrest]
    refine congrArg₂ List.cons (congrArg f (if_pos rfl).symm) (List.map_congr_left fun g hg => ?_)
    rw [htail g hg]

/-- What the entries count, summed up by grammars. -/
lemma foldl_entries (f : Entry → Nat) {entries : List (Grammar × Entry)}
    (hnodup : (entries.map Prod.fst).Nodup) :
    entries.foldl (fun n e => n + f e.2) 0 =
      ∑ g ∈ (entries.map Prod.fst).toFinset, f (entryFor g entries) := by
  rw [List.sum_toFinset _ hnodup, ← map_entries f hnodup, List.sum_eq_foldl, List.foldl_map]

/-! ## One grammar -/

/-- What is remembered and counted for a grammar after requests for several words. -/
structure Entry.Accounts (g : Grammar) (words : Finset Word) (entry : Entry) : Prop where
  faithful : entry.index.Faithful g
  scansOnce : entry.index.ScansOnce
  mem_verdicts : ∀ word, word ∈ entry.verdicts ↔ word ∈ words
  mem_memo : ∀ rhs, rhs ∈ entry.index.memo ↔ ∃ word ∈ words, rhs ∈ g.lookedUp word
  lookups : entry.index.lookups = ∑ word ∈ words, (recognize g word .empty).2.lookups

namespace Entry

/-- A new entry accounts for no words. -/
lemma accounts_empty (g : Grammar) : Entry.empty.Accounts g ∅ where
  faithful := ProducerIndex.faithful_empty g
  scansOnce := .empty
  mem_verdicts word := by simp [empty]
  mem_memo rhs := by simp [empty, ProducerIndex.empty]
  lookups := rfl

/-- A verdict that is remembered is a hit, and nothing changes. -/
lemma verdict_of_mem (hmem : word ∈ entry.verdicts) :
    (entry.verdict g word).1.hit = true ∧ (entry.verdict g word).2 = entry := by
  unfold verdict
  rw [Std.HashMap.getElem?_eq_some_getElem hmem]
  exact ⟨rfl, rfl⟩

/-- Any other verdict is a miss, and what its recognition gives is remembered. -/
lemma verdict_of_not_mem (hmem : word ∉ entry.verdicts) :
    (entry.verdict g word).1.hit = false ∧
      (entry.verdict g word).2 = ⟨(recognize g word entry.index).2,
        entry.verdicts.insert word (recognize g word entry.index).1.accepted⟩ := by
  unfold verdict
  rw [Std.HashMap.getElem?_eq_none hmem]
  exact ⟨rfl, rfl⟩

/-- **A request adds its word to those accounted for**, and it is a hit if the word was among them.

**Proof sketch.** A word that was asked about is remembered, and nothing changes.  For a new one, the
recognition makes as many look-ups as with a fresh index, and of the same right-hand sides. -/
theorem Accounts.verdict {words : Finset Word} (hg : g.WellFormed) (ha : entry.Accounts g words)
    (word : Word) : ((entry.verdict g word).1.hit = true ↔ word ∈ words) ∧
      (entry.verdict g word).2.Accounts g (insert word words) := by
  by_cases hmem : word ∈ words
  · obtain ⟨hhit, hentry⟩ := verdict_of_mem (g := g) ((ha.mem_verdicts word).2 hmem)
    rw [hhit, hentry, Finset.insert_eq_self.2 hmem]
    exact ⟨iff_of_true rfl hmem, ha⟩
  · obtain ⟨hhit, hentry⟩ := verdict_of_not_mem (g := g) (mt (ha.mem_verdicts word).1 hmem)
    rw [hhit, hentry]
    refine ⟨iff_of_false Bool.false_ne_true hmem, ?_, ha.scansOnce.recognize hg ha.faithful word,
      fun word' => ?_, fun rhs => ?_, ?_⟩
    · rw [recognize_eq hg ha.faithful]
      exact ha.faithful.lookupAll _
    · rw [Std.HashMap.mem_insert, beq_iff_eq, eq_comm, ha.mem_verdicts, Finset.mem_insert]
    · rw [mem_memo_recognize hg ha.faithful, ha.mem_memo]
      simp only [Finset.mem_insert, exists_eq_or_imp, or_comm]
    · rw [lookups_recognize hg ha.faithful, ha.lookups, Finset.sum_insert hmem, Nat.add_comm]

/-- The scans are one for each right-hand side that any of the words needs. -/
lemma Accounts.length_scans {words : Finset Word} (ha : entry.Accounts g words) :
    entry.index.scans.length = (words.biUnion fun word => (g.lookedUp word).toFinset).card :=
  ha.scansOnce.length_scans fun rhs => by simp [ha.mem_memo]

end Entry

/-! ## Several grammars -/

/-- What a cache remembers and counts after some requests. -/
structure Accounts (asked : List (Grammar × Word)) (cache : Cache) : Prop where
  nodup : (cache.entries.map Prod.fst).Nodup
  mem_grammars : ∀ g, g ∈ cache.entries.map Prod.fst ↔ g ∈ asked.map Prod.fst
  entry : ∀ g, (entryFor g cache.entries).Accounts g (askedWords asked g)
  misses : cache.misses = asked.toFinset.card
  hits : cache.hits + cache.misses = asked.length

namespace Accounts

/-- An empty cache accounts for no requests. -/
lemma empty : Cache.empty.Accounts [] :=
  ⟨List.nodup_nil, fun _ => Iff.rfl, Entry.accounts_empty, rfl, rfl⟩

/-- **The invariant is kept by each request.**

**Proof sketch.** The request is a hit if and only if it was made before; then the different requests
are the same as before, and otherwise there is one more. -/
theorem membership (ha : cache.Accounts asked) (hg : g.WellFormed) (word : Word) :
    (cache.membership g word).2.1.Accounts (asked ++ [(g, word)]) := by
  obtain ⟨hentry, hcounts⟩ := membership_eq cache g word
  obtain ⟨hhit, haccounts⟩ := (ha.entry g).verdict hg word
  have hmisses := ha.misses
  have hhits := ha.hits
  simp only [hhit, mem_askedWords] at hcounts
  refine ⟨?_, fun h => ?_, fun h => ?_, ?_, ?_⟩
  · rw [map_fst_membership]
    split_ifs with hmem
    · exact ha.nodup
    · exact ha.nodup.append (List.nodup_singleton g) (by simpa using hmem)
  · rw [map_fst_membership, List.map_append, List.mem_append, ← ha.mem_grammars]
    split_ifs with hmem
    · exact ⟨Or.inl, fun hor => hor.elim id fun heq => List.mem_singleton.1 heq ▸ hmem⟩
    · exact List.mem_append
  · rw [hentry]
    split_ifs with heq
    · rw [heq, askedWords_append_self]
      exact haccounts
    · rw [askedWords_append_of_ne heq]
      exact ha.entry h
  · split_ifs at hcounts with hmem
    · simp [(Prod.mk.inj hcounts).2, hmem, hmisses]
    · simp [(Prod.mk.inj hcounts).2, hmem, hmisses]
  · rw [List.length_append, List.length_singleton]
    split_ifs at hcounts
    · rw [(Prod.mk.inj hcounts).1, (Prod.mk.inj hcounts).2]
      omega
    · rw [(Prod.mk.inj hcounts).1, (Prod.mk.inj hcounts).2]
      omega

/-- Requests for several words are accounted for. -/
lemma membershipAll (ha : cache.Accounts asked) (hg : g.WellFormed) (words : List Word) :
    (cache.membershipAll g words).2.1.Accounts (asked ++ words.map fun word => (g, word)) := by
  induction words generalizing cache asked with
  | nil =>
    rw [List.map_nil, List.append_nil]
    exact ha
  | cons word words ih =>
    have hrest := ih (ha.membership hg word)
    rwa [List.append_assoc] at hrest

/-- Every call is accounted for by its requests. -/
lemma perform (ha : cache.Accounts asked) {call : Call} (hcall : ∀ g ∈ call.grammar?, g.WellFormed) :
    (cache.perform call).2.Accounts (call.requests asked) := by
  cases call with
  | membership g word => exact ha.membership (hcall g rfl) word
  | evaluateAll g words => exact ha.membershipAll (hcall g rfl) words
  | clear => exact empty

/-- **The invariant holds along all histories.** -/
theorem run (ha : cache.Accounts asked) {calls : List Call}
    (hcalls : ∀ call ∈ calls, ∀ g ∈ call.grammar?, g.WellFormed) :
    (cache.run calls).2.Accounts (calls.foldl Call.requests asked) := by
  induction calls generalizing cache asked with
  | nil => exact ha
  | cons call calls ih =>
    obtain ⟨hcall, hrest⟩ := List.forall_mem_cons.1 hcalls
    exact ih (ha.perform hcall) hrest

/-- What a cache counts, read off the requests. -/
theorem stats_eq (ha : cache.Accounts asked) : cache.stats = .ofRequests asked := by
  have hgrammars : (cache.entries.map Prod.fst).toFinset = (asked.map Prod.fst).toFinset :=
    Finset.ext fun g => by rw [List.mem_toFinset, List.mem_toFinset, ha.mem_grammars]
  have hlength : cache.entries.length = (asked.map Prod.fst).toFinset.card := by
    rw [← hgrammars, List.toFinset_card_of_nodup ha.nodup, List.length_map]
  have hlookups : ∑ request ∈ asked.toFinset, (recognize request.1 request.2 .empty).2.lookups =
      ∑ g ∈ (asked.map Prod.fst).toFinset, (entryFor g cache.entries).index.lookups := by
    rw [Finset.sum_finset_product asked.toFinset (asked.map Prod.fst).toFinset (askedWords asked)]
    · exact Finset.sum_congr rfl fun g _ => (ha.entry g).lookups.symm
    · rintro ⟨g, word⟩
      simp only [List.mem_toFinset, mem_askedWords, List.mem_map]
      exact ⟨fun hmem => ⟨⟨_, hmem, rfl⟩, hmem⟩, And.right⟩
  have hscans : ∑ g ∈ (asked.map Prod.fst).toFinset,
      ((askedWords asked g).biUnion fun word => (g.lookedUp word).toFinset).card =
        ∑ g ∈ (asked.map Prod.fst).toFinset, (entryFor g cache.entries).index.scans.length :=
    Finset.sum_congr rfl fun g _ => (ha.entry g).length_scans.symm
  have hhits := ha.hits
  have hmisses := ha.misses
  unfold stats Stats.ofRequests
  rw [foldl_entries (fun e => e.index.lookups) ha.nodup,
    foldl_entries (fun e => e.index.scans.length) ha.nodup, hgrammars, hlookups, hscans, hlength,
    ← hmisses, ← hhits, Nat.add_sub_cancel]

end Accounts

/-! ## Histories -/

/-- The order of the requests makes no difference to the counters. -/
lemma Stats.ofRequests_perm {asked' : List (Grammar × Word)} (hperm : asked.Perm asked') :
    ofRequests asked = ofRequests asked' := by
  have hgrammars := List.toFinset_eq_of_perm _ _ (hperm.map Prod.fst)
  have hrequests := List.toFinset_eq_of_perm _ _ hperm
  have hwords : askedWords asked = askedWords asked' := by
    funext g
    ext word
    rw [mem_askedWords, mem_askedWords, hperm.mem_iff]
  unfold ofRequests
  rw [hgrammars, hrequests, hwords, hperm.length_eq]

/-- The requests of a history in which nothing is forgotten. -/
lemma foldl_requests {calls : List Call} (hclear : Call.clear ∉ calls) :
    calls.foldl Call.requests asked = asked ++ calls.flatMap (Call.requests []) := by
  induction calls generalizing asked with
  | nil => simp
  | cons call calls ih =>
    obtain ⟨hcall, hrest⟩ := not_or.1 (mt List.mem_cons.2 hclear)
    rw [List.foldl_cons, ih hrest, List.flatMap_cons, ← List.append_assoc]
    cases call with
    | membership g word => rfl
    | evaluateAll g words => rfl
    | clear => exact absurd rfl hcall

/-- **The counters after any history** are settled by the requests since everything was last forgotten:
by the different grammars, by the different requests, and by what recognitions of these with a fresh
index look up.  So histories with the same requests in another order end with the same counters, and so
does any rearrangement of the calls of a history in which nothing is forgotten. -/
theorem stats_run (calls : List Call)
    (hcalls : ∀ call ∈ calls, ∀ g ∈ call.grammar?, g.Constructed) :
    (Cache.empty.run calls).2.stats = .ofRequests (requested calls) ∧
      (∀ calls' : List Call, (∀ call ∈ calls', ∀ g ∈ call.grammar?, g.Constructed) →
        (requested calls').Perm (requested calls) →
          (Cache.empty.run calls').2.stats = (Cache.empty.run calls).2.stats) ∧
      ∀ calls' : List Call, calls'.Perm calls → Call.clear ∉ calls →
        (Cache.empty.run calls').2.stats = (Cache.empty.run calls).2.stats := by
  have hrun : ∀ calls : List Call, (∀ call ∈ calls, ∀ g ∈ call.grammar?, g.Constructed) →
      (Cache.empty.run calls).2.stats = .ofRequests (requested calls) := fun calls hcalls =>
    (Accounts.empty.run fun call hcall g hg => (hcalls call hcall g hg).wellFormed).stats_eq
  have hsame : ∀ calls' : List Call, (∀ call ∈ calls', ∀ g ∈ call.grammar?, g.Constructed) →
      (requested calls').Perm (requested calls) →
        (Cache.empty.run calls').2.stats = (Cache.empty.run calls).2.stats := by
    intro calls' hcalls' hperm
    rw [hrun calls hcalls, hrun calls' hcalls', Stats.ofRequests_perm hperm]
  refine ⟨hrun calls hcalls, hsame, fun calls' hperm hclear => hsame calls' ?_ ?_⟩
  · exact fun call hcall => hcalls call (hperm.mem_iff.1 hcall)
  · have hclear' : Call.clear ∉ calls' := fun hmem => hclear (hperm.mem_iff.1 hmem)
    rw [requested, requested, foldl_requests hclear, foldl_requests hclear']
    exact hperm.flatMap_right _

/-- Two words that start with an unknown symbol share its look-up, and a third word needs another.  The
first word is asked about twice. -/
theorem stats_parentheses :
    let foreign : Word := [.ofNat 9]
    let longer : Word := [.ofNat 9, .ofNat 4]
    let opening : Word := [.ofNat 4]
    let calls : List Call := [.clear, .membership .parentheses foreign,
      .evaluateAll .parentheses [longer, opening, foreign]]
    let calls' : List Call := [.evaluateAll .parentheses [opening, foreign, longer],
      .membership .parentheses foreign]
    (∀ call ∈ calls, ∀ g ∈ call.grammar?, g.Constructed) ∧
      (∀ call ∈ calls', ∀ g ∈ call.grammar?, g.Constructed) ∧
      (Cache.empty.run calls).2.stats = ⟨1, 1, 3, 3, 2⟩ ∧
      (Cache.empty.run calls').2.stats = ⟨1, 1, 3, 3, 2⟩ := by
  intro foreign longer opening calls calls'
  have hg := Grammar.constructed_parentheses.wellFormed
  have hcalls : ∀ call ∈ calls, ∀ g ∈ call.grammar?, g.Constructed := by
    simp [calls, Call.grammar?, Grammar.constructed_parentheses]
  have hcalls' : ∀ call ∈ calls', ∀ g ∈ call.grammar?, g.Constructed := by
    simp [calls', Call.grammar?, Grammar.constructed_parentheses]
  have hforeign : Grammar.parentheses.recognitionSides foreign = [.terminal (.ofNat 9)] :=
    Grammar.recognitionSides_singleton _
  have hlonger : Grammar.parentheses.recognitionSides longer = [.terminal (.ofNat 9)] :=
    Grammar.recognitionSides_cons hg (by decide)
  have hopening : Grammar.parentheses.recognitionSides opening = [.terminal (.ofNat 4)] :=
    Grammar.recognitionSides_singleton _
  obtain ⟨hstats, hsame, -⟩ := stats_run calls hcalls
  have hvalue : (Cache.empty.run calls).2.stats = ⟨1, 1, 3, 3, 2⟩ := by
    have hrequests : (requested calls).toFinset = {(.parentheses, foreign), (.parentheses, longer),
        (.parentheses, opening)} := by decide
    have hgrammars : ((requested calls).map Prod.fst).toFinset = {.parentheses} := by decide
    have hwords : askedWords (requested calls) .parentheses = {foreign, longer, opening} := by decide
    have hseen := Grammar.toFinset_lookedUp hg
    have hlookups : ∑ request ∈ (requested calls).toFinset,
        (recognize request.1 request.2 .empty).2.lookups = 3 := by
      rw [hrequests, Finset.sum_insert (by decide), Finset.sum_insert (by decide),
        Finset.sum_singleton, lookups_recognize_empty hg, lookups_recognize_empty hg,
        lookups_recognize_empty hg, hforeign, hlonger, hopening]
      rfl
    have hscans : ((askedWords (requested calls) .parentheses).biUnion fun word =>
        (Grammar.parentheses.lookedUp word).toFinset).card = 2 := by
      rw [hwords, Finset.biUnion_insert, Finset.biUnion_insert, Finset.singleton_biUnion, hseen,
        hseen, hseen, hforeign, hlonger, hopening]
      decide
    rw [hstats, Stats.ofRequests, hlookups, hgrammars, Finset.sum_singleton, hscans, hrequests]
    rfl
  exact ⟨hcalls, hcalls', hvalue, (hsame calls' hcalls' (by decide)).trans hvalue⟩

end Cache

end Chomsky
