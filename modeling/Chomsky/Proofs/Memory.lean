import Chomsky.Event
import Chomsky.Proofs.Guarded.Histories
import Chomsky.Proofs.Lookups

set_option autoImplicit false

/-!
# What an index keeps of its history

An index answers every look-up with the producers, however it was used before.  Of its history it keeps how
many look-ups were made, and which right-hand sides they were for; each of these was scanned for when it was
first looked up, and each scan was reported.  So the reports of a history list the right-hand sides in the
order of their first look-ups.

## Main definitions

* `Chomsky.ProducerIndex.log` — what is reported during a history; `Chomsky.Event.isScan` — the reports of
  scans among it.
* `Chomsky.Rhs.record` — the wording of the report of a scan.

## Main results

* `Chomsky.Event.message_scanned`, `Chomsky.Event.isScan_iff_prefix` — reports of scans have this wording, and
  no other reports begin as they do.
* `Chomsky.ProducerIndex.level_of_mem_log` — all reports of a history are of the most detailed level.
* `Chomsky.ProducerIndex.reverse_scans_lookupAll` — the scans of a fresh index, by its look-ups.
* `Chomsky.ProducerIndex.filter_isScan_log` — the reports of scans are the scans that the index keeps.
* `Chomsky.ProducerIndex.exact_memory` — what an index answers, counts and reports along a history.
-/

namespace Chomsky

/-! ## Reports -/

/-- Whether a scan of the rules is reported. -/
def Event.isScan : Event → Bool
  | .scanned .. => true
  | _ => false

/-- How the report of a scan names a symbol. -/
def Symbol.recorded (a : Symbol) : String := "Symbol(" ++ toString a.toNat ++ ")"

/-- How the report of a scan names a right-hand side. -/
def Rhs.recorded : Rhs → String
  | .terminal t => "Terminal(" ++ t.recorded ++ ")"
  | .pair a b => "Pair(SymbolPair(" ++ a.recorded ++ ", " ++ b.recorded ++ "))"

/-- The wording of the report of a scan: the right-hand side, and its producers in brackets. -/
def Rhs.record (rhs : Rhs) (producers : List Symbol) : String :=
  "producers of " ++ rhs.recorded ++ ": [" ++ ", ".intercalate (producers.map Symbol.recorded) ++ "]"

namespace Event

/-- **The report of a scan names the right-hand side and the producers.** -/
theorem message_scanned (rhs : Rhs) (producers : List Symbol) :
    (scanned rhs producers).message = rhs.record producers := by
  have hside : rhs.inspect = rhs.recorded := by cases rhs <;> rfl
  calc (scanned rhs producers).message
      = "producers of " ++ rhs.inspect ++ ": [" ++
          ", ".intercalate (producers.map Symbol.recorded) ++ "]" := rfl
    _ = rhs.record producers := by rw [hside]; rfl

/-- A text begins as its first part does. -/
lemma head?_toList_append {s t : String} {c : Char} (h : s.toList.head? = some c) :
    (s ++ t).toList.head? = some c := by
  rw [String.toList_append, List.head?_append, h]
  rfl

/-- The report of anything else begins with another letter. -/
lemma exists_head?_message {e : Event} (h : e.isScan = false) :
    ∃ c, e.message.toList.head? = some c ∧ c ≠ 'p' := by
  cases e with
  | scanned rhs producers => exact absurd h (by simp [isScan])
  | unproduced position => exact ⟨'n', head?_toList_append (by decide), by decide⟩
  | decided length accepted =>
    refine ⟨'w', ?_, by decide⟩
    iterate 3 apply head?_toList_append
    decide
  | cacheUsed stats =>
    refine ⟨'C', ?_, by decide⟩
    iterate 7 apply head?_toList_append
    decide
  | problemRead line rules words =>
    refine ⟨'i', ?_, by decide⟩
    iterate 6 apply head?_toList_append
    decide
  | limitIgnored value =>
    refine ⟨'i', ?_, by decide⟩
    iterate 4 apply head?_toList_append
    decide
  | loadFailed error =>
    -- the kind of the fault comes first
    obtain ⟨c, hkind, hne⟩ : ∃ c, error.kind.message.toList.head? = some c ∧ c ≠ 'p' := by
      cases error.kind with
      | grammar | word => exact ⟨'i', by decide, by decide⟩
      | reading => exact ⟨'r', by decide, by decide⟩
    refine ⟨c, ?_, hne⟩
    iterate 4 apply head?_toList_append
    exact hkind

/-- **No other report begins as that of a scan does.** -/
theorem isScan_iff_prefix (e : Event) :
    e.isScan = true ↔ "producers of ".toList <+: e.message.toList := by
  constructor
  · intro h
    cases e with
    | scanned rhs producers =>
      rw [message_scanned]
      show _ <+: ("producers of " ++ rhs.recorded ++ ": [" ++ _ ++ "]").toList
      simp only [String.toList_append, List.append_assoc]
      exact List.prefix_append _ _
    | _ => exact absurd h (by simp [isScan])
  · intro h
    by_contra hscan
    obtain ⟨c, hc, hne⟩ := exists_head?_message (Bool.eq_false_iff.2 hscan)
    obtain ⟨rest, hrest⟩ := h
    rw [← hrest] at hc
    exact hne (Option.some.inj hc).symm

end Event

namespace ProducerIndex

variable {g : Grammar} {rhs : Rhs} {index earlier middle : ProducerIndex}

/-- What is reported while a request is answered. -/
def reports (g : Grammar) (index : ProducerIndex) : Request → List Event
  | .lookup rhs => (index.lookup g rhs).2.eventsSince index
  | .recognize word =>
    let (outcome, after) := Chomsky.recognize g word index
    recognitionEvents index outcome after
  | .fill word => (Table.fill g word index).2.eventsSince index

/-- What is reported during several requests, all for one grammar. -/
def log (g : Grammar) (index : ProducerIndex) : List Request → List Event
  | [] => []
  | request :: requests => index.reports g request ++ (index.perform g request).log g requests

/-! ## The scans of a fresh index -/

/-- The last element of a list counts as different if it does not occur before. -/
lemma eraseDups_concat (sides : List Rhs) (rhs : Rhs) :
    (sides ++ [rhs]).eraseDups = if rhs ∈ sides then sides.eraseDups else sides.eraseDups ++ [rhs] := by
  rw [List.eraseDups_append, List.cons_removeAll, List.nil_removeAll, List.contains_eq_mem]
  split_ifs with helem hmem hmem
  · exact absurd hmem (of_decide_eq_false helem)
  · rfl
  · rw [List.eraseDups_nil, List.append_nil]
  · exact absurd (decide_eq_false hmem) helem

/-- **A fresh index scans for each right-hand side when it is first looked up.** -/
theorem reverse_scans_lookupAll (g : Grammar) (sides : List Rhs) :
    (empty.lookupAll g sides).scans.reverse =
      sides.eraseDups.map fun rhs => (rhs, g.producers rhs) := by
  induction sides using List.reverseRecOn with
  | nil => rfl
  | append_singleton sides rhs ih =>
    have hlast : empty.lookupAll g (sides ++ [rhs]) = ((empty.lookupAll g sides).lookup g rhs).2 :=
      lookupAll_append _ _ _ _
    rw [hlast, eraseDups_concat]
    split_ifs with hmem
    · rw [lookup_of_mem (mem_memo_lookupAll_empty.2 hmem)]
      exact ih
    · rw [lookup_of_not_mem fun h => hmem (mem_memo_lookupAll_empty.1 h), List.reverse_cons, ih,
        List.map_append]
      rfl

/-- There are as many right-hand sides remembered as different ones looked up. -/
lemma size_lookupAll_empty (g : Grammar) (sides : List Rhs) :
    (empty.lookupAll g sides).size = sides.toFinset.card := by
  have heq : (empty.lookupAll g sides).memo.keys.toFinset = sides.toFinset := by
    ext rhs
    rw [List.mem_toFinset, Std.HashMap.mem_keys, mem_memo_lookupAll_empty, List.mem_toFinset]
  rw [size, ← Std.HashMap.length_keys, ← heq, List.toFinset_card_of_nodup Std.HashMap.nodup_keys]

/-- There are as many scans. -/
lemma length_scans_lookupAll_empty (g : Grammar) (sides : List Rhs) :
    (empty.lookupAll g sides).scans.length = sides.toFinset.card :=
  (ScansOnce.empty.lookupAll sides).length_scans fun rhs => by
    rw [List.mem_toFinset, mem_memo_lookupAll_empty]

/-! ## The scans that are reported -/

/-- The scans since an earlier state are those in front of its scans. -/
lemma scansSince_eq {new : List (Rhs × SymbolSet)} (h : index.scans = new ++ earlier.scans) :
    index.scansSince earlier = new.reverse := by
  rw [scansSince, h, List.length_append, Nat.add_sub_cancel, List.take_left]

/-- Look-ups add scans in front of those made before. -/
lemma suffix_scans_lookupAll (index : ProducerIndex) (g : Grammar) (sides : List Rhs) :
    index.scans <:+ (index.lookupAll g sides).scans := by
  induction sides generalizing index with
  | nil => exact List.suffix_rfl
  | cons side sides ih =>
    refine List.IsSuffix.trans ?_ (ih (index.lookup g side).2)
    by_cases hside : side ∈ index.memo
    · rw [lookup_of_mem hside]
    · rw [lookup_of_not_mem hside]
      exact List.suffix_cons _ _

/-- The reports of scans can be cut at any state on the way. -/
lemma eventsSince_append (h : earlier.scans <:+ middle.scans) (h' : middle.scans <:+ index.scans) :
    index.eventsSince earlier = middle.eventsSince earlier ++ index.eventsSince middle := by
  obtain ⟨new, hnew⟩ := h
  obtain ⟨newer, hnewer⟩ := h'
  have hall : index.scans = (newer ++ new) ++ earlier.scans := by
    rw [List.append_assoc, hnew, hnewer]
  rw [eventsSince, eventsSince, eventsSince, scansSince_eq hall, scansSince_eq hnew.symm,
    scansSince_eq hnewer.symm, List.reverse_append, List.map_append]

/-- Everything that is reported of look-ups are scans. -/
lemma filter_isScan_eventsSince (index earlier : ProducerIndex) :
    (index.eventsSince earlier).filter Event.isScan = index.eventsSince earlier :=
  List.filter_eq_self.2 fun e he => by
    obtain ⟨s, -, rfl⟩ := List.mem_map.1 he
    rfl

/-- No verdict is the report of a scan. -/
lemma filter_isScan_events (outcome : Recognition) : outcome.events.filter Event.isScan = [] := by
  cases outcome <;> rfl

/-- The scans reported for a request are those that it adds to the index. -/
lemma filter_isScan_reports (index : ProducerIndex) (g : Grammar) (request : Request) :
    (index.reports g request).filter Event.isScan = (index.perform g request).eventsSince index := by
  cases request with
  | lookup rhs => exact filter_isScan_eventsSince _ _
  | recognize word =>
    show (recognitionEvents index _ _).filter Event.isScan = _
    rw [recognitionEvents, List.filter_append, filter_isScan_eventsSince, filter_isScan_events,
      List.append_nil]
    rfl
  | fill word => exact filter_isScan_eventsSince _ _

/-- **The reports of scans are the scans that the index keeps.** -/
theorem filter_isScan_log (hg : g.WellFormed) (hi : index.Faithful g) (requests : List Request) :
    (index.log g requests).filter Event.isScan = (index.run g requests).eventsSince index := by
  induction requests generalizing index with
  | nil => simp [log, run, eventsSince, scansSince]
  | cons request requests ih =>
    have hnext := hi.perform hg request
    have hfirst : index.scans <:+ (index.perform g request).scans := by
      rw [hi.perform_eq hg]
      exact suffix_scans_lookupAll _ _ _
    have hothers : (index.perform g request).scans <:+
        ((index.perform g request).run g requests).scans := by
      rw [hnext.run_eq hg]
      exact suffix_scans_lookupAll _ _ _
    rw [log, List.filter_append, filter_isScan_reports, ih hnext]
    exact (eventsSince_append hfirst hothers).symm

/-- What is reported of look-ups is of the most detailed level. -/
lemma level_of_mem_eventsSince {e : Event} (h : e ∈ index.eventsSince earlier) : e.level = .trace := by
  obtain ⟨s, -, rfl⟩ := List.mem_map.1 h
  rfl

/-- So is what is reported of a verdict. -/
lemma level_of_mem_events {outcome : Recognition} {e : Event} (h : e ∈ outcome.events) :
    e.level = .trace := by
  cases outcome with
  | emptyWord => exact absurd h List.not_mem_nil
  | unproduced | decided =>
    obtain rfl := List.mem_singleton.1 h
    rfl

/-- So is what is reported for a request. -/
lemma level_of_mem_reports {request : Request} {e : Event} (h : e ∈ index.reports g request) :
    e.level = .trace := by
  cases request with
  | lookup rhs => exact level_of_mem_eventsSince h
  | fill word => exact level_of_mem_eventsSince h
  | recognize word => exact (List.mem_append.1 h).elim level_of_mem_eventsSince level_of_mem_events

/-- **What is reported during a history is of the most detailed level.** -/
theorem level_of_mem_log {requests : List Request} {e : Event} (h : e ∈ index.log g requests) :
    e.level = .trace := by
  induction requests generalizing index with
  | nil => exact absurd h List.not_mem_nil
  | cons request requests ih =>
    rcases List.mem_append.1 h with h | h
    · exact level_of_mem_reports h
    · exact ih h

/-- **What an index keeps of its history.**  There is one list of all the look-ups of a history, those made
for tables included.  After it, the index answers the look-up of any right-hand side with exactly its
producers, as a set with a place for each nonterminal.  It counts all look-ups, and it remembers and has
scanned for as many right-hand sides as there are different ones among them.  For each of these, one scan is
reported, in the order of the first look-ups, with its producers in ascending order.  The reports of scans are
worded with the numbers of all these symbols, at the most detailed level, and no other report begins as they
do. -/
theorem exact_memory (hg : g.Constructed) (requests : List Request) :
    ∃ (asked : List Rhs) (listed : Rhs → List Symbol),
      let index := empty.run g requests
      let log := empty.log g requests
      Guarded.run? g .empty requests = .ok ⟨index, asked⟩ ∧
      (∀ rhs, (index.lookup g rhs).1.size = g.numNonterminals ∧
        ∀ a, (index.lookup g rhs).1.contains a = true ↔ ⟨a, rhs⟩ ∈ g.rules) ∧
      index.lookups = asked.length ∧
      index.size = asked.toFinset.card ∧
      index.scans.length = asked.toFinset.card ∧
      (∀ rhs, Ascending (listed rhs) ∧ ∀ a, a ∈ listed rhs ↔ ⟨a, rhs⟩ ∈ g.rules) ∧
      log.filter Event.isScan = asked.eraseDups.map (fun rhs => .scanned rhs (listed rhs)) ∧
      (log.filter Event.isScan).map Event.message =
        asked.eraseDups.map (fun rhs => rhs.record (listed rhs)) ∧
      ∀ e ∈ log, e.level = .trace ∧ e.display = "TRACE " ++ e.message ∧
        (e.isScan = true ↔ "producers of ".toList <+: e.message.toList) := by
  have hwf := hg.wellFormed
  have hempty := faithful_empty g
  have hrun := hempty.run_eq hwf requests
  have hscans : (empty.log g requests).filter Event.isScan =
      (requests.flatMap (Request.sides g)).eraseDups.map fun rhs =>
        .scanned rhs (g.producers rhs).toList := by
    rw [filter_isScan_log hwf hempty, hrun, eventsSince, scansSince_eq (List.append_nil _).symm,
      reverse_scans_lookupAll, List.map_map]
    rfl
  refine ⟨requests.flatMap (Request.sides g), fun rhs => (g.producers rhs).toList,
    Guarded.run?_eq hwf hempty requests [], fun rhs => ?_, ?_, ?_, ?_, fun rhs => ?_, hscans, ?_,
    fun e he => ?_⟩
  · rw [(hempty.run hwf requests).lookup_fst]
    exact ⟨Grammar.size_producers g rhs, fun a => Grammar.contains_producers hwf⟩
  · rw [hrun, lookups_lookupAll]
    exact Nat.zero_add _
  · rw [hrun, size_lookupAll_empty]
  · rw [hrun, length_scans_lookupAll_empty]
  · have hsize := hwf.size_le (Grammar.size_producers g rhs)
    refine ⟨SymbolSet.toList_ascending hsize, fun a => ?_⟩
    rw [SymbolSet.mem_toList hsize, Grammar.contains_producers hwf]
  · rw [hscans, List.map_map]
    exact List.map_congr_left fun rhs _ => Event.message_scanned rhs _
  · have hlevel := level_of_mem_log he
    refine ⟨hlevel, ?_, e.isScan_iff_prefix⟩
    rw [Event.display, hlevel]
    rfl

/-- The recognition of `()` looks up the two symbols and the pair that produces them. -/
lemma recognitionSides_parentheses :
    Grammar.parentheses.recognitionSides [.ofNat 4, .ofNat 5] =
      [.terminal (.ofNat 4), .terminal (.ofNat 5), .pair (.ofNat 0) (.ofNat 1)] := by
  have hwf := Grammar.constructed_parentheses.wellFormed
  have hall : ∀ t ∈ [.ofNat 4, .ofNat 5], ∃ a, ⟨a, .terminal t⟩ ∈ Grammar.parentheses.rules :=
    List.forall_mem_cons.2 ⟨⟨.ofNat 0, by decide⟩, List.forall_mem_singleton.2 ⟨.ofNat 1, by decide⟩⟩
  have hleft : (Grammar.parentheses.derivers [.ofNat 4]).toList = [.ofNat 0] := by
    rw [← Grammar.producers_terminal hwf]
    decide
  have hright : (Grammar.parentheses.derivers [.ofNat 5]).toList = [.ofNat 1] := by
    rw [← Grammar.producers_terminal hwf]
    decide
  rw [Grammar.recognitionSides_of_produced hwf hall]
  simp [Grammar.fillSides, Grammar.spanSides, Grammar.splitSides, Word.part, Rhs.pairs, hleft, hright]

/-- After the recognition of `()`, which looks up `LR`, and the look-ups of `LR` and `RL`, the index has
counted five look-ups and reported four scans. -/
theorem exact_memory_parentheses :
    Grammar.parentheses.Constructed ∧
      let requests := [.recognize [.ofNat 4, .ofNat 5], .lookup (.pair (.ofNat 0) (.ofNat 1)),
        .lookup (.pair (.ofNat 1) (.ofNat 0))]
      let asked := [.terminal (.ofNat 4), .terminal (.ofNat 5), .pair (.ofNat 0) (.ofNat 1),
        .pair (.ofNat 0) (.ofNat 1), .pair (.ofNat 1) (.ofNat 0)]
      let index := empty.run Grammar.parentheses requests
      let scans := (empty.log Grammar.parentheses requests).filter Event.isScan
      Guarded.run? Grammar.parentheses .empty requests = .ok ⟨index, asked⟩ ∧
        index.lookups = 5 ∧ index.size = 4 ∧ index.scans.length = 4 ∧
        scans.map Event.display = [
          "TRACE producers of Terminal(Symbol(4)): [Symbol(0)]",
          "TRACE producers of Terminal(Symbol(5)): [Symbol(1)]",
          "TRACE producers of Pair(SymbolPair(Symbol(0), Symbol(1))): [Symbol(2)]",
          "TRACE producers of Pair(SymbolPair(Symbol(1), Symbol(0))): []"] := by
  refine ⟨Grammar.constructed_parentheses, ?_⟩
  intro requests expected index scans
  have hg := Grammar.constructed_parentheses
  obtain ⟨asked, listed, hrun, -, hlookups, hsize, hscans, hlisted, -, hmessages, hlog⟩ :=
    exact_memory hg requests
  obtain rfl : asked = expected := by
    have hsides := hrun.symm.trans (Guarded.run?_eq hg.wellFormed (faithful_empty _) requests [])
    rw [(Guarded.Index.mk.inj (Except.ok.inj hsides)).2]
    simp [requests, expected, Request.sides, recognitionSides_parentheses]
  -- the producers listed are those found by a scan
  have hproducers (rhs : Rhs) : listed rhs = (Grammar.parentheses.producers rhs).toList := by
    have hwf := hg.wellFormed
    have hle := hwf.size_le (Grammar.size_producers Grammar.parentheses rhs)
    refine Ascending.ext (hlisted rhs).1 (SymbolSet.toList_ascending hle) fun a => ?_
    rw [(hlisted rhs).2, SymbolSet.mem_toList hle, Grammar.contains_producers hwf]
  have hdisplay : scans.map Event.display = (scans.map Event.message).map ("TRACE " ++ ·) := by
    rw [List.map_map]
    exact List.map_congr_left fun e he => (hlog e (List.mem_filter.1 he).1).2.1
  refine ⟨hrun, hlookups, hsize, hscans, ?_⟩
  rw [hdisplay, hmessages, List.map_map]
  simp only [Function.comp_def, hproducers]
  decide

end ProducerIndex

end Chomsky
