import Chomsky.Document.Json
import Chomsky.Proofs.Naming

set_option autoImplicit false

/-!
# The order of grouped rules

A document keeps rules by left-hand side, both the left-hand sides and the right-hand sides of each
in ascending order.  This is the order of single rules: grouping rules in order gives groups in order,
and ungrouping gives the rules back in order.

## Main definitions

* `Chomsky.Document.enter` — one more rule in its group.

## Main results

* `Chomsky.Rule.compare_eq_lt_iff` — rules are ordered by their left-hand sides first.
* `Chomsky.Document.ascending_ungroup` — the rules of a canonical document are in order.
* `Chomsky.Grammar.canonical_toDocument` — the document of a grammar is canonical, with no empty
  group.
* `Chomsky.Document.foldl_enter_eq` — rules that are entered one by one are grouped.
* `Chomsky.Document.canonical_of_ofJson?` — every document that is read is canonical.
-/

namespace Chomsky

/-- Rules are ordered by their left-hand sides, and those of one left-hand side by their right-hand
sides. -/
lemma Rule.compare_eq_lt_iff {r s : Rule} :
    compare r s = .lt ↔
      compare r.lhs s.lhs = .lt ∨ r.lhs = s.lhs ∧ compare r.rhs s.rhs = .lt := by
  have hkeys : compare r s = (compare r.lhs s.lhs).then (compare r.rhs s.rhs) :=
    List.compare_cons_cons
  rw [hkeys, Ordering.then_eq_lt, Std.LawfulEqOrd.compare_eq_iff_eq]

/-- A list in order is its own canonical form. -/
lemma Ascending.ofList_eq {α : Type} [Ord α] [Std.LawfulEqOrd α] [Std.TransOrd α] {xs : List α}
    (h : Ascending xs) : Ascending.ofList xs = xs :=
  Ascending.ext (Ascending.ofList_ascending xs) h fun _ => Ascending.mem_ofList

namespace Document

/-- The left-hand sides are in order, and so are the right-hand sides of each. -/
def InOrder (groups : List (Symbol × List Rhs)) : Prop :=
  Ascending (groups.map Prod.fst) ∧ ∀ group ∈ groups, Ascending group.2

/-- No groups are in order. -/
lemma inOrder_nil : InOrder [] :=
  ⟨List.Pairwise.nil, fun _ h => absurd h List.not_mem_nil⟩

/-! ## Single rules -/

/-- The single rules are those of the groups. -/
lemma mem_ungroup_iff {groups : List (Symbol × List Rhs)} {r : Rule} :
    r ∈ ungroup groups ↔ ∃ group ∈ groups, r.lhs = group.1 ∧ r.rhs ∈ group.2 := by
  simp only [ungroup, List.mem_flatMap, List.mem_map]
  constructor
  · rintro ⟨group, hgroup, rhs, hrhs, rfl⟩
    exact ⟨group, hgroup, rfl, hrhs⟩
  · rintro ⟨group, hgroup, hlhs, hrhs⟩
    exact ⟨group, hgroup, r.rhs, hrhs, by rw [← hlhs]⟩

/-- The single rules of groups in order are in order. -/
lemma InOrder.ascending_ungroup {groups : List (Symbol × List Rhs)} (h : InOrder groups) :
    Ascending (ungroup groups) := by
  have hfst : groups.Pairwise fun x y => compare x.1 y.1 = .lt := List.pairwise_map.1 h.1
  refine List.pairwise_flatMap.2 ⟨fun group hgroup => ?_, hfst.imp fun hlt r hr s hs => ?_⟩
  · refine List.pairwise_map.2 ((h.2 group hgroup).imp fun hlt => ?_)
    exact Rule.compare_eq_lt_iff.2 (.inr ⟨rfl, hlt⟩)
  · obtain ⟨rhs, -, rfl⟩ := List.mem_map.1 hr
    obtain ⟨rhs', -, rfl⟩ := List.mem_map.1 hs
    exact Rule.compare_eq_lt_iff.2 (.inl hlt)

/-- **The rules of a canonical document are in order.** -/
theorem Canonical.ascending_ungroup {d : Document} (h : d.Canonical) : Ascending (ungroup d.rules) :=
  InOrder.ascending_ungroup h

/-! ## Groups -/

/-- Rules in order are grouped in order, and no group is empty.

**Proof sketch.** By induction on the rules.  Each group of the rest has a rule, which comes after the
first rule.  So the left-hand side of the first group is either that of the first rule, which then
joins the group in front, or a later one. -/
lemma inOrder_group {rules : List Rule} (h : Ascending rules) :
    InOrder (group rules) ∧ ∀ g ∈ group rules, g.2 ≠ [] := by
  induction rules with
  | nil => exact ⟨inOrder_nil, by simp [group]⟩
  | cons r rest ih =>
    obtain ⟨hr, hrest⟩ := List.pairwise_cons.1 h
    obtain ⟨⟨hkeys, hsets⟩, hne⟩ := ih hrest
    have hmem : ∀ g ∈ group rest, ∀ rhs ∈ g.2, compare r ⟨g.1, rhs⟩ = .lt := by
      intro g hg rhs hrhs
      refine hr _ ?_
      rw [← ungroup_group rest]
      exact mem_ungroup_iff.2 ⟨g, hg, rfl, hrhs⟩
    unfold group
    cases hgroups : group rest with
    | nil =>
      exact ⟨⟨List.pairwise_singleton _ _, by simp [Ascending]⟩, by simp⟩
    | cons first more =>
      obtain ⟨a, rs⟩ := first
      rw [hgroups] at hkeys hsets hne hmem
      obtain ⟨hfirst, hmore⟩ := List.forall_mem_cons.1 hsets
      obtain ⟨hfirst', hmore'⟩ := List.forall_mem_cons.1 hne
      obtain ⟨hmem, -⟩ := List.forall_mem_cons.1 hmem
      dsimp only
      split_ifs with hlhs
      · refine ⟨⟨hkeys, List.forall_mem_cons.2 ⟨?_, hmore⟩⟩, List.forall_mem_cons.2 ⟨by simp, hmore'⟩⟩
        refine List.pairwise_cons.2 ⟨fun rhs hrhs => ?_, hfirst⟩
        have hlt := Rule.compare_eq_lt_iff.1 (hmem rhs hrhs)
        rw [hlhs] at hlt
        exact (hlt.resolve_left (by simp)).2
      · refine ⟨⟨List.pairwise_cons.2 ⟨?_, hkeys⟩, List.forall_mem_cons.2 ⟨by simp [Ascending], hsets⟩⟩,
          List.forall_mem_cons.2 ⟨by simp, hne⟩⟩
        obtain ⟨rhs, hrhs⟩ := List.exists_mem_of_ne_nil _ hfirst'
        have hlt : compare r.lhs a = .lt :=
          (Rule.compare_eq_lt_iff.1 (hmem rhs hrhs)).resolve_right fun heq => hlhs heq.1
        rintro b hb
        rcases List.mem_cons.1 hb with rfl | hb
        · exact hlt
        · exact Std.TransCmp.lt_trans hlt ((List.pairwise_cons.1 hkeys).1 b hb)

end Document

/-- **The document of a grammar is canonical**: its rules are those of the grammar, grouped in order
into groups that are not empty. -/
theorem Grammar.canonical_toDocument {g : Grammar} (h : Ascending g.rules) :
    g.toDocument.Canonical ∧ (∀ group ∈ g.toDocument.rules, group.2 ≠ []) ∧
      Document.ungroup g.toDocument.rules = g.rules := by
  obtain ⟨horder, hne⟩ := Document.inOrder_group h
  exact ⟨horder, hne, Document.ungroup_group g.rules⟩

/-! ## Rules entered one by one -/

namespace Document

variable {groups groups' : List (Symbol × List Rhs)} {r s : Rule} {rules : List Rule}

/-- Enters a rule into groups in order: its right-hand side joins the group of its left-hand side,
which is made if there is none yet. -/
def enter (groups : List (Symbol × List Rhs)) (r : Rule) : List (Symbol × List Rhs) :=
  match groups with
  | [] => [(r.lhs, [r.rhs])]
  | (a, rs) :: rest =>
    match compare r.lhs a with
    | .lt => (r.lhs, [r.rhs]) :: (a, rs) :: rest
    | .eq => (a, Ascending.insert r.rhs rs) :: rest
    | .gt => (a, rs) :: enter rest r

/-- A rule brings its left-hand side. -/
lemma map_fst_enter :
    (enter groups r).map Prod.fst = Ascending.insert r.lhs (groups.map Prod.fst) := by
  induction groups with
  | nil => rfl
  | cons first groups ih =>
    obtain ⟨a, rs⟩ := first
    cases hcompare : compare r.lhs a with
    | lt => simp [enter, Ascending.insert, hcompare]
    | eq => simp [enter, Ascending.insert, hcompare]
    | gt => simp [enter, Ascending.insert, hcompare, ih]

/-- A group after a rule is entered is one from before, or that of the rule, which has gained its
right-hand side. -/
lemma mem_enter {group : Symbol × List Rhs} (h : group ∈ enter groups r) :
    group ∈ groups ∨ ∃ rs, group = (r.lhs, Ascending.insert r.rhs rs) ∧
      (rs = [] ∨ (r.lhs, rs) ∈ groups) := by
  induction groups with
  | nil => exact .inr ⟨[], List.mem_singleton.1 h, .inl rfl⟩
  | cons first groups ih =>
    obtain ⟨a, rs⟩ := first
    unfold enter at h
    split at h
    · rcases List.mem_cons.1 h with rfl | h
      · exact .inr ⟨[], rfl, .inl rfl⟩
      · exact .inl h
    · rename_i heq
      obtain rfl := Std.LawfulEqOrd.eq_of_compare heq
      rcases List.mem_cons.1 h with rfl | h
      · exact .inr ⟨rs, rfl, .inr List.mem_cons_self⟩
      · exact .inl (List.mem_cons_of_mem _ h)
    · rcases List.mem_cons.1 h with rfl | h
      · exact .inl List.mem_cons_self
      · refine (ih h).imp (List.mem_cons_of_mem _) ?_
        rintro ⟨rs, hgroup, hrs⟩
        exact ⟨rs, hgroup, hrs.imp_right (List.mem_cons_of_mem _)⟩

/-- Groups stay in order when a rule is entered. -/
lemma InOrder.enter (h : InOrder groups) (r : Rule) : InOrder (enter groups r) := by
  refine ⟨?_, fun group hgroup => ?_⟩
  · rw [map_fst_enter]
    exact Ascending.insert_ascending r.lhs h.1
  · obtain hgroup | ⟨rs, rfl, rfl | hrs⟩ := mem_enter hgroup
    · exact h.2 group hgroup
    · exact Ascending.insert_ascending r.rhs List.Pairwise.nil
    · exact Ascending.insert_ascending r.rhs (h.2 _ hrs)

/-- No group is empty after a rule is entered, if none was before. -/
lemma ne_nil_of_mem_enter (h : ∀ group ∈ groups, group.2 ≠ []) :
    ∀ group ∈ enter groups r, group.2 ≠ [] := by
  intro group hgroup
  obtain hgroup | ⟨rs, rfl, -⟩ := mem_enter hgroup
  · exact h group hgroup
  · exact List.ne_nil_of_mem (Ascending.mem_insert.2 (.inl rfl))

/-- A rule that is entered joins the single rules. -/
lemma mem_ungroup_enter : s ∈ ungroup (enter groups r) ↔ s = r ∨ s ∈ ungroup groups := by
  obtain ⟨b, rhs⟩ := s
  obtain ⟨c, rhs'⟩ := r
  simp only [mem_ungroup_iff, Rule.mk.injEq]
  induction groups with
  | nil => simp [enter]
  | cons first groups ih =>
    obtain ⟨a, rs⟩ := first
    unfold enter
    split
    · simp
    · rename_i heq
      obtain rfl := Std.LawfulEqOrd.eq_of_compare heq
      simp only [List.exists_mem_cons_iff, Ascending.mem_insert]
      rw [and_or_left, or_assoc]
    · simp only [List.exists_mem_cons_iff, ih]
      rw [or_left_comm]

/-- Rules for one left-hand side make a group of their own, before rules for others. -/
lemma group_append {a : Symbol} {rs : List Rhs} (hrs : rs ≠ [])
    (h : ∀ other ∈ group rules, other.1 ≠ a) :
    group (rs.map (Rule.mk a) ++ rules) = (a, rs) :: group rules := by
  induction rs with
  | nil => exact absurd rfl hrs
  | cons rhs rs ih =>
    cases rs with
    | nil =>
      cases hgroups : group rules with
      | nil => simp [group, hgroups]
      | cons first more =>
        have hne : a ≠ first.1 := (h first (by simp [hgroups])).symm
        simp [group, hgroups, hne]
    | cons rhs' rs =>
      rw [List.map_cons, List.cons_append, group, ih (List.cons_ne_nil _ _)]
      simp

/-- Groups in order, none of them empty, are the groups of their single rules. -/
lemma InOrder.group_ungroup (h : InOrder groups) (hne : ∀ group ∈ groups, group.2 ≠ []) :
    group (ungroup groups) = groups := by
  induction groups with
  | nil => rfl
  | cons first groups ih =>
    obtain ⟨a, rs⟩ := first
    obtain ⟨hfirst, hkeys⟩ := List.pairwise_cons.1 h.1
    obtain ⟨-, hsets⟩ := List.forall_mem_cons.1 h.2
    obtain ⟨hrs, hne⟩ := List.forall_mem_cons.1 hne
    have hrest := ih ⟨hkeys, hsets⟩ hne
    have hother : ∀ other ∈ group (ungroup groups), other.1 ≠ a := by
      rw [hrest]
      rintro other hmem rfl
      exact absurd (hfirst _ (List.mem_map_of_mem hmem)) (by simp)
    have happend := group_append hrs hother
    rwa [hrest] at happend

/-- Rules entered one by one keep the order, leave no group empty and join the single rules. -/
lemma InOrder.foldl_enter (h : InOrder groups) (hne : ∀ group ∈ groups, group.2 ≠ [])
    (rules : List Rule) :
    InOrder (rules.foldl Document.enter groups) ∧
      (∀ group ∈ rules.foldl Document.enter groups, group.2 ≠ []) ∧
      ∀ r, r ∈ ungroup (rules.foldl Document.enter groups) ↔ r ∈ ungroup groups ∨ r ∈ rules := by
  induction rules generalizing groups with
  | nil => exact ⟨h, hne, by simp⟩
  | cons r rules ih =>
    obtain ⟨horder, hne, hmem⟩ := ih (h.enter r) (ne_nil_of_mem_enter hne)
    refine ⟨horder, hne, fun s => ?_⟩
    rw [List.foldl_cons, hmem, mem_ungroup_enter, List.mem_cons, or_assoc, or_left_comm]

/-- **Rules entered one by one are grouped**, in whatever order and however often they are entered.

**Proof sketch.** Both ways give groups in order, none of them empty, with the same single rules; such
groups are determined by these rules. -/
theorem foldl_enter_eq (h : Ascending rules) {entered : List Rule}
    (hsame : ∀ r, r ∈ entered ↔ r ∈ rules) : entered.foldl enter [] = group rules := by
  obtain ⟨horder, hne, hmem⟩ := inOrder_nil.foldl_enter (by simp) entered
  have hrules : ungroup (entered.foldl enter []) = rules :=
    Ascending.ext horder.ascending_ungroup h fun r => by
      rw [hmem, hsame]
      simp [ungroup]
  rw [← hrules, horder.group_ungroup hne]

end Document

/-! ## Documents that are read -/

namespace Document

variable {a : Symbol} {rs : List Rhs} {groups groups' : List (Symbol × List Rhs)}

/-- A group brings its left-hand side. -/
lemma map_fst_insertGroup :
    (insertGroup a rs groups).map Prod.fst = Ascending.insert a (groups.map Prod.fst) := by
  induction groups with
  | nil => rfl
  | cons first groups ih =>
    obtain ⟨b, ss⟩ := first
    cases hcompare : compare a b with
    | lt => simp [insertGroup, Ascending.insert, hcompare]
    | eq => simp [insertGroup, Ascending.insert, Std.LawfulEqOrd.eq_of_compare hcompare]
    | gt => simp [insertGroup, Ascending.insert, hcompare, ih]

/-- A group is put in its place, where it replaces one for the same left-hand side. -/
lemma mem_insertGroup {group : Symbol × List Rhs} (h : group ∈ insertGroup a rs groups) :
    group = (a, rs) ∨ group ∈ groups := by
  induction groups with
  | nil => exact .inl (List.mem_singleton.1 h)
  | cons first groups ih =>
    obtain ⟨b, ss⟩ := first
    unfold insertGroup at h
    split at h
    · exact List.mem_cons.1 h
    · exact (List.mem_cons.1 h).imp_right (List.mem_cons_of_mem _)
    · rcases List.mem_cons.1 h with rfl | h
      · exact .inr List.mem_cons_self
      · exact (ih h).imp_right (List.mem_cons_of_mem _)

/-- Groups stay in order when a group is put in its place. -/
lemma InOrder.insertGroup (hrs : Ascending rs) (h : InOrder groups) :
    InOrder (insertGroup a rs groups) := by
  refine ⟨?_, fun group hgroup => ?_⟩
  · rw [map_fst_insertGroup]
    exact Ascending.insert_ascending a h.1
  · rcases mem_insertGroup hgroup with rfl | hgroup
    · exact hrs
    · exact h.2 group hgroup

/-- Groups stay in order when more of them are read. -/
lemma InOrder.rulesOfMembers? {members : List (Json.Key × Json)} (h : InOrder groups)
    (hread : rulesOfMembers? groups members = some groups') : InOrder groups' := by
  induction members generalizing groups with
  | nil =>
    obtain rfl := Option.some.inj hread
    exact h
  | cons member members ih =>
    obtain ⟨key, value⟩ := member
    obtain ⟨a, -, hread⟩ := Option.bind_eq_some_iff.1 hread
    obtain ⟨items, -, hread⟩ := Option.bind_eq_some_iff.1 hread
    obtain ⟨rs, -, hread⟩ := Option.bind_eq_some_iff.1 hread
    exact ih (h.insertGroup (Ascending.ofList_ascending rs)) hread

/-- **Every document that is read is canonical**, in whatever order its rules are written. -/
theorem canonical_of_ofJson? {j : Json} {d : Document} (h : ofJson? j = some d) : d.Canonical := by
  unfold ofJson? at h
  split at h
  · obtain ⟨names, -, h⟩ := Option.bind_eq_some_iff.1 h
    obtain ⟨k, -, h⟩ := Option.bind_eq_some_iff.1 h
    obtain ⟨start, -, h⟩ := Option.bind_eq_some_iff.1 h
    obtain ⟨members, -, h⟩ := Option.bind_eq_some_iff.1 h
    obtain ⟨rules, hrules, h⟩ := Option.bind_eq_some_iff.1 h
    obtain rfl := Option.some.inj h
    exact inOrder_nil.rulesOfMembers? hrules
  · exact absurd h (by simp)

end Document

end Chomsky
