import Aeqi.Lib.RecursiveQuery
import Aeqi.Orchestrator.Visibility

/-!
# Walks over the role graph

The recursive queries of `get_ancestor_ids`, `list_descendants` and `get_subtree`. The way down
collects roles and ends on every graph. The way up collects roles with their depths, so it ends
only where no cycle is above a role of the agent, and then the least depth of an agent's roles
is its distance.
-/

namespace Aeqi.Orchestrator

open Aeqi.Lib Relation List Option

namespace RoleStore

/-! ## The queries -/

section Queries

variable (s : RoleStore)

/-- The table `ancestor_roles`. -/
def ancestorRoles (agentId : String) (fuel : Nat) : Option (List (String × Nat)) :=
  recursiveQuery (deepen (successors (s.roleEdges.map Prod.swap))) fuel []
    ((s.agentRoles agentId).map (·, 0))

/-- The table `descendant_roles`. -/
def descendantRoles (agentId : String) (fuel : Nat) : Option (List String) :=
  recursiveQuery (successors s.roleEdges) fuel [] (s.agentRoles agentId)

/-- `MIN(ar.depth)` of the group of an occupant. -/
def minDepth (rows : List (String × Nat)) (occupant : String) : Nat :=
  (((rows.filter fun r => s.occupantAgent r.1 = some occupant).map Prod.snd).min?).getD 0

/-- The lists that `get_ancestor_ids` may select from the table: SQLite is free to order agents at
one depth. -/
structure SelectsAncestors (rows : List (String × Nat)) (ids : List String) : Prop where
  nodup : ids.Nodup
  mem : ∀ x, x ∈ ids ↔ ∃ r ∈ rows, s.occupantAgent r.1 = some x
  sorted : ids.Pairwise fun x y => s.minDepth rows x ≤ s.minDepth rows y

def listDescendants (agentId : String) (fuel : Nat) : Option (List String) :=
  (s.descendantRoles agentId fuel).map fun rows =>
    ((rows.filterMap s.occupantAgent).filter (· ≠ agentId)).dedup

/-- The agents are given with the times they were created at. -/
def getSubtree (agents : Accounts String Nat) (agentId : String) (fuel : Nat) :
    Option (List String) :=
  (s.descendantRoles agentId fuel).map fun rows =>
    (agents.keys.filter fun x => rows.any fun r => s.occupantAgent r = some x).insertionSort
      fun x y => (agents.lookup x).getD 0 ≤ (agents.lookup y).getD 0

end Queries

/-! ## What they are to find -/

section Specification

variable (s : RoleStore)

/-- A role of `a` is a role of `x` or above one. -/
def Reaches (a x : String) : Prop :=
  ∃ p c, s.occupantAgent p = some a ∧ s.occupantAgent c = some x ∧
    ReflTransGen (Linked s.roleEdges) p c

/-- So many edges lead from a role of `a` down to a role of `x`. -/
def Apart (a x : String) (n : Nat) : Prop :=
  ∃ p c, s.occupantAgent p = some a ∧ s.occupantAgent c = some x ∧
    WalkIn (Linked s.roleEdges) n p c

def Distance (a x : String) (n : Nat) : Prop := s.Apart a x n ∧ ∀ m, s.Apart a x m → n ≤ m

/-- Each agent on the way up from `x` once, the nearest first. -/
structure AncestorsOf (x : String) (ids : List String) : Prop where
  nodup : ids.Nodup
  mem : ∀ a, a ∈ ids ↔ s.Reaches a x
  head : ids.head? = some x
  sorted : ids.Pairwise fun a b => ∀ m n, s.Distance a x m → s.Distance b x n → m ≤ n

end Specification

/-! ## The way up -/

section Up

variable {s : RoleStore} {x a b : String} {fuel m n : Nat} {rows : List (String × Nat)}
  {ids : List String}

theorem reaches_iff_apart : s.Reaches a x ↔ ∃ n, s.Apart a x n := by
  constructor
  · rintro ⟨p, c, hp, hc, hpath⟩
    obtain ⟨n, hwalk⟩ := exists_walkIn hpath
    exact ⟨n, p, c, hp, hc, hwalk⟩
  · rintro ⟨n, p, c, hp, hc, hwalk⟩
    exact ⟨p, c, hp, hc, hwalk.path⟩

theorem exists_distance (h : s.Apart a x n) : ∃ m, s.Distance a x m := by
  classical
  have hex : ∃ n, s.Apart a x n := ⟨n, h⟩
  exact ⟨Nat.find hex, Nat.find_spec hex, fun m hm => Nat.find_min' hex hm⟩

theorem eq_of_apart_zero (h : s.Apart a x 0) : a = x := by
  obtain ⟨p, c, hp, hc, hwalk⟩ := h
  cases walkIn_zero hwalk
  exact some.inj (hp.symm.trans hc)

theorem nodup_agentRoles : (s.agentRoles x).Nodup := s.roles.nodupKeys.filter _

theorem mem_ancestorRoles (h : s.ancestorRoles x fuel = some rows) {p : String} :
    (p, n) ∈ rows ↔ ∃ c, s.occupantAgent c = some x ∧ WalkIn (Linked s.roleEdges) n p c := by
  rw [mem_depthQuery h, linked_map_swap]
  simp [mem_agentRoles, walkIn_swap]

theorem apart_iff (h : s.ancestorRoles x fuel = some rows) :
    s.Apart a x n ↔ ∃ p, (p, n) ∈ rows ∧ s.occupantAgent p = some a := by
  simp only [mem_ancestorRoles h]
  constructor
  · rintro ⟨p, c, hp, hc, hwalk⟩
    exact ⟨p, ⟨c, hc, hwalk⟩, hp⟩
  · rintro ⟨p, ⟨c, hc, hwalk⟩, hp⟩
    exact ⟨p, c, hp, hc, hwalk⟩

theorem minDepth_eq (h : s.ancestorRoles x fuel = some rows) (hn : s.Distance a x n) :
    s.minDepth rows a = n := by
  have hgroup : ∀ k, k ∈ (rows.filter fun r => s.occupantAgent r.1 = some a).map Prod.snd ↔
      s.Apart a x k := by
    intro k
    rw [apart_iff h, List.mem_map]
    constructor
    · rintro ⟨r, hr, rfl⟩
      obtain ⟨hrow, hocc⟩ := mem_filter.1 hr
      exact ⟨r.1, hrow, of_decide_eq_true hocc⟩
    · rintro ⟨p, hrow, hocc⟩
      exact ⟨(p, k), mem_filter.2 ⟨hrow, decide_eq_true hocc⟩, rfl⟩
  have hmin : ((rows.filter fun r => s.occupantAgent r.1 = some a).map Prod.snd).min? = some n := by
    rw [min?_eq_some_iff]
    exact ⟨(hgroup n).2 hn.1, fun k hk => hn.2 k ((hgroup k).1 hk)⟩
  unfold minDepth
  rw [hmin]
  rfl

theorem selects_ancestors (h : s.ancestorRoles x fuel = some rows)
    (hids : s.SelectsAncestors rows ids) (hseated : s.Seated x) : s.AncestorsOf x ids := by
  have hmem : ∀ a, a ∈ ids ↔ s.Reaches a x := by
    intro a
    rw [hids.mem, reaches_iff_apart]
    simp only [apart_iff h]
    constructor
    · rintro ⟨⟨p, n⟩, hrow, hocc⟩
      exact ⟨n, p, hrow, hocc⟩
    · rintro ⟨n, p, hrow, hocc⟩
      exact ⟨(p, n), hrow, hocc⟩
  have hself : s.Distance x x 0 := by
    obtain ⟨c, hc⟩ := hseated
    exact ⟨⟨c, c, hc, hc, .nil c⟩, fun m _ => m.zero_le⟩
  have hx : x ∈ ids := (hmem x).2 (reaches_iff_apart.2 ⟨0, hself.1⟩)
  have hsorted : ids.Pairwise fun a b =>
      ∀ m n, s.Distance a x m → s.Distance b x n → m ≤ n := by
    refine hids.sorted.imp fun hle m n hm hn => ?_
    rwa [minDepth_eq h hm, minDepth_eq h hn] at hle
  refine ⟨hids.nodup, hmem, ?_, hsorted⟩
  cases ids with
  | nil => cases hx
  | cons a rest =>
    by_cases hax : a = x
    · rw [hax]
      rfl
    · -- whoever comes first is as near as the agent itself
      have hrest : x ∈ rest := (mem_cons.1 hx).resolve_left (Ne.symm hax)
      obtain ⟨k, hk⟩ := reaches_iff_apart.1 ((hmem a).1 mem_cons_self)
      obtain ⟨m, hm⟩ := exists_distance hk
      have hle := rel_of_pairwise_cons hsorted hrest m 0 hm hself
      cases Nat.le_zero.1 hle
      exact absurd (eq_of_apart_zero hm.1) hax

theorem ancestorRoles_ends_iff :
    (∃ fuel rows, s.ancestorRoles x fuel = some rows) ↔ s.NoCycleAbove x := by
  unfold ancestorRoles
  rw [depthQuery_ends_iff nodup_agentRoles, linked_map_swap]
  simp [mem_agentRoles, reflTransGen_swap, transGen_swap, NoCycleAbove]

theorem sorted_eraseDups {l : List (String × Nat)} {f : String → Nat}
    (hl : l.Pairwise fun r r' => r.2 ≤ r'.2) (hle : ∀ r ∈ l, f r.1 ≤ r.2)
    (hmem : ∀ r ∈ l, ∃ r' ∈ l, r'.1 = r.1 ∧ f r.1 = r'.2) :
    ((l.map Prod.fst).eraseDups).Pairwise fun a b => f a ≤ f b := by
  induction hn : l.length using Nat.strong_induction_on generalizing l with
  | _ k ih =>
    cases l with
    | nil => exact List.Pairwise.nil
    | cons r l =>
      obtain ⟨hfirst, hl⟩ := pairwise_cons.1 hl
      have hrest : (l.map Prod.fst).filter (fun a => !a == r.1) =
          (l.filter fun r' => !r'.1 == r.1).map Prod.fst := by
        rw [List.filter_map]
        rfl
      rw [map_cons, eraseDups_cons, hrest]
      constructor
      · intro b hb
        obtain ⟨r', hr', rfl⟩ := List.mem_map.1 (mem_eraseDups.1 hb)
        obtain ⟨r'', hr'', -, hf⟩ := hmem r' (mem_cons_of_mem _ (mem_filter.1 hr').1)
        have hhead := hle r mem_cons_self
        rw [hf]
        rcases mem_cons.1 hr'' with rfl | hr''
        · exact hhead
        · exact hhead.trans (hfirst r'' hr'')
      · have hshort : (l.filter fun r' => !r'.1 == r.1).length < k := by
          rw [← hn]
          exact Nat.lt_succ_of_le (length_filter_le _ _)
        refine ih _ hshort (hl.filter _) (fun r' hr' => ?_) (fun r' hr' => ?_) rfl
        · exact hle r' (mem_cons_of_mem _ (mem_filter.1 hr').1)
        · obtain ⟨hold, hne⟩ := mem_filter.1 hr'
          obtain ⟨r'', hr'', hkey, hf⟩ := hmem r' (mem_cons_of_mem _ hold)
          rcases mem_cons.1 hr'' with rfl | hr''
          · simp [hkey] at hne
          · exact ⟨r'', mem_filter.2 ⟨hr'', by rw [hkey]; exact hne⟩, hkey, hf⟩

theorem getAncestorIds_selects (h : s.ancestorRoles x fuel = some rows)
    (hids : s.getAncestorIds x = some ids) : s.SelectsAncestors rows ids := by
  obtain ⟨table, htable, rfl⟩ := map_eq_some_iff.1 hids
  have hsame : ∀ p n, (p, n) ∈ table ↔ (p, n) ∈ rows := by
    intro p n
    rw [mem_levels_iff htable]
    simp [mem_ancestorRoles h, mem_agentRoles, linked_map_swap, walkIn_swap]
  have hmem : ∀ a, a ∈ (table.map Prod.fst).filterMap s.occupantAgent ↔
      ∃ r ∈ rows, s.occupantAgent r.1 = some a := by
    intro a
    simp only [mem_filterMap, List.mem_map]
    constructor
    · rintro ⟨p, ⟨⟨p, n⟩, hrow, rfl⟩, hocc⟩
      exact ⟨(p, n), (hsame p n).1 hrow, hocc⟩
    · rintro ⟨⟨p, n⟩, hrow, hocc⟩
      exact ⟨p, ⟨(p, n), (hsame p n).2 hrow, rfl⟩, hocc⟩
  refine ⟨nodup_eraseDups _, fun a => mem_eraseDups.trans (hmem a), ?_⟩
  -- the occupants with the depths of their roles
  have hkeys : (table.map Prod.fst).filterMap s.occupantAgent =
      (table.filterMap fun r => (s.occupantAgent r.1).map (·, r.2)).map Prod.fst := by
    rw [filterMap_map, map_filterMap]
    congr 1
    funext r
    cases hocc : s.occupantAgent r.1 <;> simp [hocc]
  have hrow : ∀ r : String × Nat,
      r ∈ table.filterMap (fun r => (s.occupantAgent r.1).map (·, r.2)) ↔ s.Apart r.1 x r.2 := by
    intro r
    rw [apart_iff h, mem_filterMap]
    constructor
    · rintro ⟨⟨p, n⟩, hp, hocc⟩
      obtain ⟨a, ha, rfl⟩ := map_eq_some_iff.1 hocc
      exact ⟨p, (hsame p n).1 hp, ha⟩
    · rintro ⟨p, hp, hocc⟩
      exact ⟨(p, r.2), (hsame p r.2).2 hp, by rw [hocc]; rfl⟩
  rw [hkeys]
  apply sorted_eraseDups
  · refine List.Pairwise.filterMap _ (fun r r' hle a ha b hb => ?_) (sorted_levels htable).1
    obtain ⟨_, -, rfl⟩ := map_eq_some_iff.1 ha
    obtain ⟨_, -, rfl⟩ := map_eq_some_iff.1 hb
    exact hle
  · intro r hr
    obtain ⟨m, hm⟩ := exists_distance ((hrow r).1 hr)
    rw [minDepth_eq h hm]
    exact hm.2 _ ((hrow r).1 hr)
  · intro r hr
    obtain ⟨m, hm⟩ := exists_distance ((hrow r).1 hr)
    exact ⟨(r.1, m), (hrow _).2 hm.1, rfl, minDepth_eq h hm⟩

end Up

/-! ## The way down -/

section Down

variable {s : RoleStore} {a x : String} {fuel : Nat} {rows ids : List String}

theorem descendantRoles_ends : ∃ rows,
    s.descendantRoles a ((s.agentRoles a).length + s.roleEdges.length) = some rows :=
  reachQuery_ends nodup_agentRoles

theorem reaches_iff_mem (h : s.descendantRoles a fuel = some rows) :
    s.Reaches a x ↔ ∃ r ∈ rows, s.occupantAgent r = some x := by
  simp only [mem_reachQuery h, mem_agentRoles]
  constructor
  · rintro ⟨p, c, hp, hc, hpath⟩
    exact ⟨c, ⟨p, hp, hpath⟩, hc⟩
  · rintro ⟨c, ⟨p, hp, hpath⟩, hc⟩
    exact ⟨p, c, hp, hc, hpath⟩

theorem mem_listDescendants (h : s.listDescendants a fuel = some ids) :
    x ∈ ids ↔ s.Reaches a x ∧ x ≠ a := by
  obtain ⟨rows, hrows, rfl⟩ := map_eq_some_iff.1 h
  rw [mem_dedup, mem_filter, mem_filterMap, reaches_iff_mem hrows, decide_eq_true_eq]

variable {agents : Accounts String Nat}

theorem mem_getSubtree (h : s.getSubtree agents a fuel = some ids) :
    x ∈ ids ↔ s.Reaches a x ∧ x ∈ agents := by
  obtain ⟨rows, hrows, rfl⟩ := map_eq_some_iff.1 h
  rw [mem_insertionSort, mem_filter, List.any_eq_true, reaches_iff_mem hrows]
  simp [AList.mem_keys, and_comm]

theorem getSubtree_ends : ∃ ids,
    s.getSubtree agents a ((s.agentRoles a).length + s.roleEdges.length) = some ids := by
  obtain ⟨rows, hrows⟩ := @descendantRoles_ends s a
  unfold getSubtree
  rw [hrows]
  exact ⟨_, rfl⟩

theorem nodup_getSubtree (h : s.getSubtree agents a fuel = some ids) : ids.Nodup := by
  obtain ⟨-, -, rfl⟩ := map_eq_some_iff.1 h
  exact (perm_insertionSort _ _).nodup_iff.2 (agents.nodupKeys.filter _)

end Down

/-! ## Exactness -/

/-- The walk up ends with the agents above, the nearest first, from an agent that has a role and
no cycle above it, and from no other; the walks down always end with the agents below. -/
theorem walks_end_iff (s : RoleStore) (x : String) (agents : Accounts String Nat) :
    ((∃ fuel rows, s.ancestorRoles x fuel = some rows ∧
        ∀ ids, s.SelectsAncestors rows ids → s.AncestorsOf x ids) ↔
      s.NoCycleAbove x ∧ s.Seated x) ∧
    (∃ fuel ids, s.listDescendants x fuel = some ids ∧ ids.Nodup ∧
      ∀ a, a ∈ ids ↔ s.Reaches x a ∧ a ≠ x) ∧
    (∃ fuel ids, s.getSubtree agents x fuel = some ids ∧ ids.Nodup ∧
      ∀ a, a ∈ ids ↔ s.Reaches x a ∧ a ∈ agents) := by
  obtain ⟨below, hbelow⟩ := @descendantRoles_ends s x
  refine ⟨⟨?_, ?_⟩, ?_, ?_⟩
  · rintro ⟨fuel, rows, hrows, hall⟩
    have hacyclic := ancestorRoles_ends_iff.1 ⟨fuel, rows, hrows⟩
    obtain ⟨ids, hids⟩ := getAncestorIds_ends_iff.2 hacyclic
    have hof := hall ids (getAncestorIds_selects hrows hids)
    obtain ⟨p, -, hp, -⟩ := (hof.mem x).1 (mem_of_mem_head? hof.head)
    exact ⟨hacyclic, p, hp⟩
  · rintro ⟨hacyclic, hseated⟩
    obtain ⟨fuel, rows, hrows⟩ := ancestorRoles_ends_iff.2 hacyclic
    exact ⟨fuel, rows, hrows, fun ids hids => selects_ancestors hrows hids hseated⟩
  · have hlist : s.listDescendants x ((s.agentRoles x).length + s.roleEdges.length) =
        some ((below.filterMap s.occupantAgent).filter (· ≠ x)).dedup := by
      unfold listDescendants
      rw [hbelow]
      rfl
    exact ⟨_, _, hlist, nodup_dedup _, fun a => mem_listDescendants hlist⟩
  · obtain ⟨ids, hids⟩ := @getSubtree_ends s x agents
    exact ⟨_, ids, hids, nodup_getSubtree hids, fun a => mem_getSubtree hids⟩

/-- Two roles of a company with their agents. -/
def mutualSeats : RoleStore :=
  { roles := ((∅ : Accounts String Role).insert "ops"
      { trustId := "acme", occupantKind := .agent, occupantId := some "bo" }).insert "ceo"
      { trustId := "acme", occupantKind := .agent, occupantId := some "ada" } }

/-- Each of the roles is put above the other; the walk from one of them does not end. -/
theorem not_walks_end : ∃ s, (mutualSeats.addEdge "ceo" "ops" >>= (·.addEdge "ops" "ceo")) = .ok s ∧
    ¬ ∃ fuel rows, s.ancestorRoles "ada" fuel = some rows ∧
      ∀ ids, s.SelectsAncestors rows ids → s.AncestorsOf "ada" ids := by
  refine ⟨{ mutualSeats with roleEdges := [("ops", "ceo"), ("ceo", "ops")] }, by rfl, ?_⟩
  rintro ⟨fuel, rows, hrows, -⟩
  have hacyclic := ancestorRoles_ends_iff.1 ⟨fuel, rows, hrows⟩
  have hdown : Linked [("ops", "ceo"), ("ceo", "ops")] "ceo" "ops" := by decide
  have hup : Linked [("ops", "ceo"), ("ceo", "ops")] "ops" "ceo" := by decide
  exact hacyclic "ceo" (by decide) "ceo" .refl (.head hdown (.single hup))

end RoleStore
end Aeqi.Orchestrator
