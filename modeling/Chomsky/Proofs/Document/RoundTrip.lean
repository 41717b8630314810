import Chomsky.Proofs.Document.Rebuilding

set_option autoImplicit false

/-!
# Writing a grammar and reading it back

A grammar is written as a document, and this as a JSON value.  Reading does not copy the parts back:
it turns numbers into names, sorts and numbers these anew and checks every rule.  It still gives the
same grammar, because the names and rules of a grammar are in the order that reading gives them.

## Main results

* `Chomsky.Document.ofJson?_toJson` — the JSON value of a canonical document describes it.
* `Chomsky.Grammar.WellFormed.toGrammar_toDocument` — the document of a grammar gives it back.
* `Chomsky.Grammar.Constructed.ofJson_toJson` — both together.
-/

namespace Chomsky

/-! ## JSON values of documents -/

/-- Items that are read one by one are read together. -/
lemma mapM_map_eq_some {α β : Type} {write : α → β} {read : β → Option α}
    (h : ∀ a, read (write a) = some a) (xs : List α) : (xs.map write).mapM read = some xs := by
  induction xs with
  | nil => rfl
  | cons x xs ih =>
    rw [List.map_cons, List.mapM_cons, h, ih]
    rfl

/-- The JSON value of a symbol describes it. -/
lemma Symbol.ofJson?_toJson (a : Symbol) : Symbol.ofJson? a.toJson = some a := by
  rw [Symbol.ofJson?, Symbol.toJson, Json.natural?_natural a.toNat_lt, Option.map_some,
    Symbol.ofNat_toNat]

/-- The JSON value of a right-hand side describes it. -/
lemma Rhs.ofJson?_toJson (rhs : Rhs) : Rhs.ofJson? rhs.toJson = some rhs := by
  cases rhs with
  | terminal t => simp [Rhs.toJson, Rhs.ofJson?, Json.Key.plain, Symbol.ofJson?_toJson]
  | pair a b =>
    have hkey : pairKey ≠ terminalKey := by decide
    simp [Rhs.toJson, Rhs.ofJson?, Json.Key.plain, Symbol.ofJson?_toJson, hkey]

namespace Document

variable {d : Document}

/-- The decimal number of a symbol is its key. -/
lemma lhsOfKey?_plain_decimal (a : Symbol) :
    lhsOfKey? (.plain (Text.decimal a.toNat)) = some a := by
  simp [lhsOfKey?, Json.Key.plain, Text.ofDecimal?_decimal, a.toNat_lt]

/-- A group for a later left-hand side is put at the end. -/
lemma insertGroup_eq_append {a : Symbol} {rs : List Rhs} {groups : List (Symbol × List Rhs)}
    (h : ∀ group ∈ groups, compare group.1 a = .lt) :
    insertGroup a rs groups = groups ++ [(a, rs)] := by
  induction groups with
  | nil => rfl
  | cons first groups ih =>
    obtain ⟨b, ss⟩ := first
    obtain ⟨hb, hrest⟩ := List.forall_mem_cons.1 h
    have hgt : compare a b = .gt := Std.OrientedCmp.gt_of_lt hb
    simp [insertGroup, hgt, ih hrest]

/-- Groups in order are read in order, after those read before. -/
lemma rulesOfMembers?_eq_some {groups more : List (Symbol × List Rhs)}
    (h : InOrder (groups ++ more)) :
    rulesOfMembers? groups (more.map fun (a, rs) =>
      (.plain (Text.decimal a.toNat), .array (rs.map Rhs.toJson))) = some (groups ++ more) := by
  induction more generalizing groups with
  | nil => simp [rulesOfMembers?]
  | cons group more ih =>
    obtain ⟨a, rs⟩ := group
    have hrs : Ascending rs := h.2 (a, rs) (by simp)
    have hbefore : ∀ group ∈ groups, compare group.1 a = .lt := by
      have hkeys := h.1
      rw [List.map_append] at hkeys
      intro group hgroup
      exact (List.pairwise_append.1 hkeys).2.2 _ (List.mem_map_of_mem hgroup) a (by simp)
    rw [List.append_cons] at h ⊢
    rw [← ih h]
    simp only [List.map_cons, rulesOfMembers?, lhsOfKey?_plain_decimal, Json.items?,
      mapM_map_eq_some Rhs.ofJson?_toJson, hrs.ofList_eq, insertGroup_eq_append hbefore,
      Option.bind_eq_bind, Option.bind_some]

/-- The fields of the JSON value of a document are found by their keys. -/
lemma record?_toJson :
    d.toJson.record? [sourceField, numNonterminalsField, startField, rulesField] =
      some [.object [(.plain namesField, .array (d.names.toList.map Json.char))],
        .natural d.numNonterminals, d.start.toJson,
        .object (d.rules.map fun (a, rs) =>
          (.plain (Text.decimal a.toNat), .array (rs.map Rhs.toJson)))] :=
  rfl

/-- The JSON value of the names lists them. -/
lemma namesOfJson?_names (names : Names) :
    namesOfJson? (.object [(.plain namesField, .array (names.toList.map Json.char))]) =
      some names := by
  have hrecord : (Json.object [(.plain namesField, .array (names.toList.map Json.char))]).record?
      [namesField] = some [.array (names.toList.map Json.char)] := rfl
  simp only [namesOfJson?, hrecord, mapM_map_eq_some Json.char?_char, Option.map_some]

/-- **The JSON value of a canonical document describes it.** -/
theorem ofJson?_toJson (h : d.Canonical) (hk : d.numNonterminals < UInt64.size) :
    ofJson? d.toJson = some d := by
  have hrules : rulesOfMembers? [] (d.rules.map fun (a, rs) =>
      (.plain (Text.decimal a.toNat), .array (rs.map Rhs.toJson))) = some d.rules :=
    rulesOfMembers?_eq_some h
  simp only [ofJson?, record?_toJson, namesOfJson?_names, Json.natural?_natural hk,
    Symbol.ofJson?_toJson, Json.members?, hrules, Option.bind_eq_bind, Option.bind_some]

end Document

/-! ## Documents of grammars -/

namespace Grammar

variable {g : Grammar}

/-- The rules of a well-formed grammar are in normal form by number. -/
lemma WellFormed.inForm (hg : g.WellFormed) {r : Rule} (hr : r ∈ g.rules) :
    r.InForm g.numNonterminals g.numSymbols := by
  obtain ⟨a, rhs⟩ := r
  have ha := hg.lhs_lt _ hr
  cases rhs with
  | terminal t =>
    obtain ⟨hk, hn⟩ := hg.terminal_of_mem a t hr
    exact .terminal ha hk hn
  | pair b c =>
    obtain ⟨hb, hc⟩ := hg.pair_of_mem a b c hr
    exact .pair ha hb hc

/-- The description read off a well-formed grammar is proper. -/
lemma WellFormed.properDescription (hg : g.WellFormed) {start : Char}
    (hstart : g.nameOf? g.start = some start) :
    ProperDescription start g.nonterminalNames g.terminalNames g.namedRules := by
  have hdisj : g.nonterminalNames.Disjoint g.terminalNames :=
    List.disjoint_take_drop hg.names_nodup (Nat.le_refl _)
  refine ⟨?_, hdisj, fun named hn => ?_⟩
  · rw [← Names.display_eq_of_nameOf? hstart]
    exact Names.display_mem_take (Names.toNat_lt_of_nameOf? hstart) hg.start_lt
  · obtain ⟨r, hr, rfl⟩ := List.mem_map.1 hn
    obtain ⟨hlhs, hrhs⟩ := hg.declared hr
    exact (Rule.inForm_named_iff hdisj hlhs hrhs).2 (hg.inForm hr)

/-- **The document of a well-formed grammar gives it back.**

**Proof sketch.** The description read off the grammar is proper, so it is accepted, and it gives the
only well-formed grammar that agrees with it. -/
theorem WellFormed.toGrammar_toDocument (hg : g.WellFormed) : g.toDocument.toGrammar = .ok g := by
  obtain ⟨start, hstart⟩ := Names.exists_nameOf? (Nat.lt_of_lt_of_le hg.start_lt hg.numNonterminals_le)
  have hrules := (canonical_toDocument hg.rules_ascending).2.2
  have hnamed : g.toDocument.namedRules = g.namedRules := by
    rw [Document.namedRules, hrules]
    rfl
  refine Document.toGrammar_eq_ok_iff.2 ⟨hg.numNonterminals_le, ?_, start, hstart, ?_⟩
  · rw [hrules]
    exact fun r hr => hg.declared hr
  · rw [hnamed]
    exact ofRules_eq_ok_iff.2 ⟨hg.properDescription hstart, hg, describedBy_self hstart⟩

/-- **Reading a grammar that was written gives it back.**  The document written has the names, the
number of nonterminals and the start symbol of the grammar, and its rules by left-hand side, all in
order and none without right-hand sides; its JSON value describes this document, and the document
gives the grammar. -/
theorem Constructed.ofJson_toJson (h : g.Constructed) :
    let d := g.toDocument
    (d.names = g.names ∧ d.numNonterminals = g.numNonterminals ∧ d.start = g.start ∧
      d.Canonical ∧ (∀ group ∈ d.rules, group.2 ≠ []) ∧ Document.ungroup d.rules = g.rules) ∧
    Document.ofJson? d.toJson = some d ∧
    (Document.ofJson? d.toJson).map Document.toGrammar = some (.ok g) := by
  intro d
  have hg := h.wellFormed
  obtain ⟨hcanonical, hne, hrules⟩ := canonical_toDocument hg.rules_ascending
  have hk : d.numNonterminals < UInt64.size := by
    have hle := hg.numNonterminals_le
    have hlt := hg.numSymbols_lt
    show g.numNonterminals < UInt64.size
    simp only [UInt32.size, UInt64.size] at hlt ⊢
    omega
  have hread := Document.ofJson?_toJson hcanonical hk
  refine ⟨⟨rfl, rfl, rfl, hcanonical, hne, hrules⟩, hread, ?_⟩
  rw [hread, Option.map_some, hg.toGrammar_toDocument]

/-- The JSON value of the grammar of balanced parentheses, and what is read back from it. -/
theorem ofJson_toJson_parentheses :
    let key (text : String) : Json.Key := ⟨text.toList, some text.toList⟩
    let number (n : Nat) : Json := .number (some n)
    let name (c : Char) : Json := .string (some [c])
    let terminal (t : Nat) : Json := .object [(key "Terminal", number t)]
    let pair (a b : Nat) : Json := .object [(key "Pair", .array [number a, number b])]
    parentheses.Constructed ∧
      parentheses.toDocument.toJson = .object [
        (key "sym_source", .object [(key "names",
          .array [name 'L', name 'R', name 'S', name 'X', name '(', name ')'])]),
        (key "num_nonterminals", number 4),
        (key "start", number 2),
        (key "rules", .object [
          (key "0", .array [terminal 4]),
          (key "1", .array [terminal 5]),
          (key "2", .array [pair 0 1, pair 0 3, pair 2 2]),
          (key "3", .array [pair 2 1])])] ∧
      (Document.ofJson? parentheses.toDocument.toJson).map Document.toGrammar =
        some (.ok parentheses) := by
  intro key number name terminal pair
  exact ⟨constructed_parentheses, rfl, (constructed_parentheses.ofJson_toJson).2.2⟩

end Grammar

end Chomsky
