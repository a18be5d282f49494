import Aeqi.Orchestrator.RoleGraph

/-!
# Scope visibility

`scope_visibility.rs`: the anchors an agent sees under each scope, computed from the role graph
by `get_ancestor_ids` and `list_siblings`, and the `WHERE` fragment that filters rows by them.
The module documentation lets an agent see what is anchored below it; the fragment admits what
is anchored above it. `clause_documented_iff` says where the two agree.

Errors of the database are left out.
-/

namespace Aeqi.Orchestrator

open Aeqi.Lib Relation List

inductive Scope
  | self
  | siblings
  | children
  | branch
  | global
  deriving DecidableEq

/-- The columns that the fragment reads. -/
structure Anchored where
  scope : Scope := .self
  agentId : Option String

namespace RoleStore

variable (s : RoleStore)

/-! ## The queries on the role graph -/

def occupantAgent (id : String) : Option String :=
  (s.roles.lookup id).bind fun r => if r.occupantKind = .agent then r.occupantId else none

def agentRoles (agentId : String) : List String :=
  s.roles.keys.filter fun id => s.occupantAgent id = some agentId

/-- Nearest first; SQLite is free to order agents at one depth. Like the query, it has no
answer where a cycle of edges is above a role of the agent. -/
def getAncestorIds (agentId : String) : Option (List String) :=
  (byDepth (s.roleEdges.map Prod.swap) (s.agentRoles agentId)).map fun rows =>
    ((rows.map Prod.fst).filterMap s.occupantAgent).eraseDups

def listSiblings (agentId : String) : List String :=
  let parents := (s.roleEdges.filter fun e => s.occupantAgent e.2 = some agentId).map Prod.fst
  let children := (s.roleEdges.filter fun e => e.1 ∈ parents).map Prod.snd
  (((s.roles.keys.filter fun id => id ∈ children).filterMap s.occupantAgent).filter
    fun occupant => occupant ≠ agentId).eraseDups

end RoleStore

/-! ## The fragment -/

/-- `for s in more { if !ids.contains(&s) { ids.push(s) } }`. -/
def pushMissing (ids : List String) : List String → List String
  | [] => ids
  | s :: more => pushMissing (if s ∈ ids then ids else ids ++ [s]) more

def RoleStore.visibleAgentIds (s : RoleStore) (viewer : String) : Scope → Option (List String)
  | .global => some []
  | .self => s.getAncestorIds viewer
  | .siblings => (s.getAncestorIds viewer).map fun ids => pushMissing ids (s.listSiblings viewer)
  | .children => s.getAncestorIds viewer
  | .branch => (s.getAncestorIds viewer).map fun ids => pushMissing ids (s.listSiblings viewer)

/-- `scope='global'`, or `(scope=.. AND agent_id IN (?,..))` with its number of placeholders. -/
inductive ClausePart
  | anyAnchor
  | anchors (scope : Scope) (n : Nat)

def ClausePart.placeholders : ClausePart → Nat
  | .anyAnchor => 0
  | .anchors _ n => n

/-- The parts are joined by `OR`. -/
structure VisibilityClause where
  parts : List ClausePart
  bindParams : List String

def buildInClause (scope : Scope) (anchors : List String) (c : VisibilityClause) :
    VisibilityClause :=
  if anchors = [] then c
  else
    { parts := c.parts ++ [.anchors scope anchors.length]
      bindParams := c.bindParams ++ anchors }

/-- What SQLite makes of the parts: each takes its parameters from the front. -/
def admitsPart (row : Anchored) : List ClausePart → List String → Bool
  | [], _ => false
  | .anyAnchor :: parts, params => row.scope = .global || admitsPart row parts params
  | .anchors scope n :: parts, params =>
    (row.scope = scope && row.agentId.any fun a => a ∈ params.take n) ||
      admitsPart row parts (params.drop n)

def VisibilityClause.admits (c : VisibilityClause) (row : Anchored) : Bool :=
  admitsPart row c.parts c.bindParams

def RoleStore.visibilitySqlClause (s : RoleStore) (viewer : String) : Option VisibilityClause := do
  let ancestorIds ← s.getAncestorIds viewer
  let siblingIds := s.listSiblings viewer
  let selfAnchors := ancestorIds
  let siblingsAnchors := pushMissing ancestorIds siblingIds
  let childrenAnchors := ancestorIds
  let branchAnchors := siblingsAnchors
  let clause : VisibilityClause := { parts := [.anyAnchor], bindParams := [] }
  let clause := buildInClause .self selfAnchors clause
  let clause := buildInClause .siblings siblingsAnchors clause
  let clause := buildInClause .children childrenAnchors clause
  let clause := buildInClause .branch branchAnchors clause
  return clause

section Fragment

variable {s : RoleStore} {viewer a : String} {ids : List String}

theorem mem_pushMissing {more : List String} : a ∈ pushMissing ids more ↔ a ∈ ids ∨ a ∈ more := by
  induction more generalizing ids with
  | nil => simp [pushMissing]
  | cons b more ih =>
    rw [pushMissing, ih]
    by_cases hb : b ∈ ids
    · rw [if_pos hb, List.mem_cons]
      constructor
      · rintro (ha | ha)
        · exact .inl ha
        · exact .inr (.inr ha)
      · rintro (ha | rfl | ha)
        · exact .inl ha
        · exact .inl hb
        · exact .inr ha
    · rw [if_neg hb, List.mem_append, List.mem_singleton, List.mem_cons, or_assoc]

variable {anchors : List String}

theorem admitsPart_append {row : Anchored} {parts : List ClausePart} {params : List String}
    {scope : Scope} (hlen : (parts.map ClausePart.placeholders).sum = params.length) :
    admitsPart row (parts ++ [.anchors scope anchors.length]) (params ++ anchors) =
      (admitsPart row parts params ||
        (row.scope = scope && row.agentId.any fun a => a ∈ anchors)) := by
  induction parts generalizing params with
  | nil =>
    obtain rfl : params = [] := length_eq_zero_iff.1 hlen.symm
    simp [admitsPart]
  | cons p parts ih =>
    cases p with
    | anyAnchor =>
      rw [map_cons, sum_cons, ClausePart.placeholders, Nat.zero_add] at hlen
      rw [cons_append, admitsPart, admitsPart, ih hlen, Bool.or_assoc]
    | anchors scope' n =>
      rw [map_cons, sum_cons, ClausePart.placeholders] at hlen
      have hn : n ≤ params.length := by omega
      have hbound : (parts.map ClausePart.placeholders).sum = (params.drop n).length := by
        rw [length_drop]
        omega
      have hrest := ih hbound
      rw [cons_append, admitsPart, admitsPart, take_append_of_le_length hn,
        drop_append_of_le_length hn, hrest, Bool.or_assoc]

/-- The placeholders are as many as the parameters. -/
def VisibilityClause.Bound (c : VisibilityClause) : Prop :=
  (c.parts.map ClausePart.placeholders).sum = c.bindParams.length

variable {c : VisibilityClause}

theorem buildInClause_bound {scope : Scope} (h : c.Bound) :
    (buildInClause scope anchors c).Bound := by
  unfold buildInClause
  split
  · exact h
  · unfold VisibilityClause.Bound at h ⊢
    simp only [map_append, sum_append, map_cons, map_nil, sum_cons,
      sum_nil, ClausePart.placeholders, length_append]
    omega

theorem buildInClause_admits {scope : Scope} {row : Anchored} (h : c.Bound) :
    (buildInClause scope anchors c).admits row ↔
      c.admits row ∨ row.scope = scope ∧ ∃ a ∈ anchors, row.agentId = some a := by
  have hmem : (row.agentId.any fun a => decide (a ∈ anchors)) = true ↔
      ∃ a ∈ anchors, row.agentId = some a := by
    cases row.agentId <;> simp
  unfold buildInClause
  split
  next hnil => simp [hnil]
  · rw [VisibilityClause.admits, admitsPart_append h, Bool.or_eq_true, Bool.and_eq_true,
      decide_eq_true_eq, hmem]
    rfl

theorem clause_admits {row : Anchored} (hc : s.visibilitySqlClause viewer = some c) : c.admits row ↔
      row.scope = .global ∨
        ∃ ids, s.visibleAgentIds viewer row.scope = some ids ∧ ∃ a ∈ ids, row.agentId = some a := by
  obtain ⟨ancestorIds, hids, hc⟩ := Option.bind_eq_some_iff.1 hc
  obtain rfl := Option.some.inj hc
  have hstart : VisibilityClause.Bound { parts := [.anyAnchor], bindParams := [] } := rfl
  rw [buildInClause_admits (buildInClause_bound (buildInClause_bound (buildInClause_bound hstart))),
    buildInClause_admits (buildInClause_bound (buildInClause_bound hstart)),
    buildInClause_admits (buildInClause_bound hstart), buildInClause_admits hstart]
  obtain ⟨scope, -⟩ := row
  cases scope <;> simp [VisibilityClause.admits, admitsPart, RoleStore.visibleAgentIds, hids]

end Fragment

/-! ## The documented rules -/

namespace RoleStore

variable (s : RoleStore)

def Seated (agentId : String) : Prop := ∃ id, s.occupantAgent id = some agentId

/-- A role of `x` is above a role of `a`. -/
def Above (x a : String) : Prop :=
  ∃ p c, s.occupantAgent p = some x ∧ s.occupantAgent c = some a ∧
    TransGen (Linked s.roleEdges) p c

/-- A role of `x` and a role of `a` have a parent in common. -/
def Sibling (x a : String) : Prop :=
  ∃ p c c', Linked s.roleEdges p c ∧ Linked s.roleEdges p c' ∧
    s.occupantAgent c = some x ∧ s.occupantAgent c' = some a

def SelfRule (x a : String) : Prop := x = a ∨ s.Above x a

/-- The visibility rules of the module documentation, for viewer `x` and anchor `a`. -/
def Documented (x a : String) : Scope → Prop
  | .self => s.SelfRule x a
  | .siblings => s.SelfRule x a ∨ s.Sibling x a
  | .children => s.SelfRule x a ∨ s.Above a x
  | .branch => (s.SelfRule x a ∨ s.Sibling x a) ∨ s.SelfRule x a ∨ s.Above a x
  | .global => True

def NoCycleAbove (agentId : String) : Prop :=
  ∀ id, s.occupantAgent id = some agentId → ∀ p, ReflTransGen (Linked s.roleEdges) p id →
    ¬ TransGen (Linked s.roleEdges) p p

/-- Where it makes no difference that the fragment looks up where the rules look down, and an
agent is found at its own roles only. -/
def Agrees (x a : String) : Scope → Prop
  | .self => if a = x then s.Seated x else s.Above x a ↔ s.Above a x
  | .siblings =>
    if a = x then s.Seated x else s.Sibling x a ∨ (s.Above x a ↔ s.Above a x)
  | .children => if a = x then s.Seated x else s.Above x a → s.Above a x
  | .branch => if a = x then s.Seated x else s.Above x a → s.Above a x ∨ s.Sibling x a
  | .global => True

variable {s} {x a : String}

theorem mem_agentRoles {id : String} : id ∈ s.agentRoles x ↔ s.occupantAgent id = some x := by
  rw [agentRoles, mem_filter, decide_eq_true_eq]
  constructor
  · exact And.right
  · intro hocc
    obtain ⟨r, hr, -⟩ := Option.bind_eq_some_iff.1 hocc
    exact ⟨AList.mem_keys.1 (AList.lookup_isSome.1 (by rw [hr]; rfl)), hocc⟩

theorem above_iff : s.Above x a ↔ ∃ p ∈ s.agentRoles x, ∃ c ∈ descendants s.roleEdges p,
    s.occupantAgent c = some a := by
  simp only [mem_agentRoles, mem_descendants]
  constructor
  · rintro ⟨p, c, hp, hc, hpath⟩
    exact ⟨p, hp, c, hpath, hc⟩
  · rintro ⟨p, hp, c, hpath, hc⟩
    exact ⟨p, c, hp, hc, hpath⟩

instance : Decidable (s.Above x a) := decidable_of_iff' _ above_iff

/-! ## What the queries find -/

theorem getAncestorIds_ends_iff :
    (∃ ids, s.getAncestorIds x = some ids) ↔ s.NoCycleAbove x := by
  have hrows : (∃ ids, s.getAncestorIds x = some ids) ↔
      ∃ rows, byDepth (s.roleEdges.map Prod.swap) (s.agentRoles x) = some rows := by
    simp [getAncestorIds]
  rw [hrows, byDepth_ends_iff, linked_map_swap]
  simp [mem_agentRoles, reflTransGen_swap, transGen_swap, NoCycleAbove]

theorem mem_getAncestorIds {ids : List String} (h : s.getAncestorIds x = some ids) :
    a ∈ ids ↔ a = x ∧ s.Seated x ∨ s.Above a x := by
  obtain ⟨rows, hrows, rfl⟩ := Option.map_eq_some_iff.1 h
  rw [mem_eraseDups, mem_filterMap]
  constructor
  · rintro ⟨p, hp, hocc⟩
    obtain ⟨c, hc, hpath⟩ := (mem_levels hrows).1 hp
    rw [linked_map_swap, reflTransGen_swap] at hpath
    rw [mem_agentRoles] at hc
    rcases reflTransGen_iff_eq_or_transGen.1 hpath with rfl | hpath
    · exact .inl ⟨Option.some.inj (hocc.symm.trans hc), c, hc⟩
    · exact .inr ⟨p, c, hocc, hc, hpath⟩
  · have hmem : ∀ p c, s.occupantAgent c = some x → ReflTransGen (Linked s.roleEdges) p c →
        p ∈ rows.map Prod.fst := by
      intro p c hc hpath
      refine (mem_levels hrows).2 ⟨c, mem_agentRoles.2 hc, ?_⟩
      rwa [linked_map_swap, reflTransGen_swap]
    rintro (⟨rfl, c, hc⟩ | ⟨p, c, hp, hc, hpath⟩)
    · exact ⟨c, hmem c c hc .refl, hc⟩
    · exact ⟨p, hmem p c hc hpath.to_reflTransGen, hp⟩

theorem nodup_eraseDups (l : List String) : l.eraseDups.Nodup := by
  induction hn : l.length using Nat.strong_induction_on generalizing l with
  | _ n ih =>
    cases l with
    | nil => exact nodup_nil
    | cons b l =>
      rw [eraseDups_cons, nodup_cons]
      constructor
      · simp
      · exact ih _ (by rw [← hn]; exact Nat.lt_succ_of_le (length_filter_le _ _))
          _ rfl

theorem nodup_getAncestorIds {ids : List String} (h : s.getAncestorIds x = some ids) :
    ids.Nodup := by
  obtain ⟨-, -, rfl⟩ := Option.map_eq_some_iff.1 h
  exact nodup_eraseDups _

theorem mem_listSiblings : a ∈ s.listSiblings x ↔ s.Sibling x a ∧ a ≠ x := by
  simp only [listSiblings, mem_eraseDups, mem_filter, mem_filterMap, mem_map, decide_eq_true_eq]
  constructor
  · rintro ⟨⟨-, ⟨-, ⟨p, c'⟩, ⟨hedge', ⟨p, c⟩, ⟨hedge, hx⟩, rfl⟩, rfl⟩, ha⟩, hne⟩
    exact ⟨⟨p, c, c', hedge, hedge', hx, ha⟩, hne⟩
  · rintro ⟨⟨p, c, c', hedge, hedge', hx, ha⟩, hne⟩
    have hkey : c' ∈ s.roles.keys := (mem_filter.1 (mem_agentRoles.2 ha)).1
    exact ⟨⟨c', ⟨hkey, (p, c'), ⟨hedge', (p, c), ⟨hedge, hx⟩, rfl⟩, rfl⟩, ha⟩, hne⟩

/-! ## Where the fragment is the documented one -/

def Sees (s : RoleStore) (x a : String) : Scope → Prop
  | .self | .children => a = x ∧ s.Seated x ∨ s.Above a x
  | .siblings | .branch => (a = x ∧ s.Seated x ∨ s.Above a x) ∨ s.Sibling x a ∧ a ≠ x
  | .global => True

theorem clause_ends_iff :
    (∃ c, s.visibilitySqlClause x = some c) ↔ s.NoCycleAbove x := by
  rw [← getAncestorIds_ends_iff]
  simp only [visibilitySqlClause]
  cases s.getAncestorIds x <;> simp

def SeesRow (s : RoleStore) (x : String) (row : Anchored) : Prop :=
  row.scope = .global ∨ ∃ a, row.agentId = some a ∧ s.Sees x a row.scope

theorem clause_sees {c : VisibilityClause} {row : Anchored}
    (hc : s.visibilitySqlClause x = some c) : c.admits row ↔ s.SeesRow x row := by
  obtain ⟨ids, hids⟩ := getAncestorIds_ends_iff.2 (clause_ends_iff.1 ⟨c, hc⟩)
  rw [clause_admits hc, SeesRow]
  obtain ⟨scope, agentId⟩ := row
  cases agentId with
  | none => simp
  | some a =>
    cases scope <;>
      simp [visibleAgentIds, hids, Sees, mem_pushMissing, mem_getAncestorIds hids, mem_listSiblings]

theorem seesRow_anchor {scope : Scope} : s.SeesRow x ⟨scope, some a⟩ ↔ s.Sees x a scope := by
  cases scope <;> simp [SeesRow, Sees]

theorem seated_of_above (h : s.Above x x) : s.Seated x := by
  obtain ⟨p, -, hp, -, -⟩ := h
  exact ⟨p, hp⟩

theorem sees_documented_iff (scope : Scope) :
    (s.Sees x a scope ↔ s.Documented x a scope) ↔ s.Agrees x a scope := by
  by_cases hax : a = x
  · have hseated := @seated_of_above s a
    cases scope <;> simp only [Sees, Documented, Agrees, SelfRule] <;> grind
  · cases scope <;> simp only [Sees, Documented, Agrees, SelfRule] <;> grind

end RoleStore

open RoleStore

/-- The fragment admits the row where the documentation does, if and only if no cycle is above the
viewer and the two directions agree under the scope. -/
theorem clause_documented_iff (s : RoleStore) (x a : String) (scope : Scope) :
    (∃ c, s.visibilitySqlClause x = some c ∧ (c.admits ⟨scope, some a⟩ ↔ s.Documented x a scope)) ↔
    s.NoCycleAbove x ∧ s.Agrees x a scope := by
  rw [← clause_ends_iff, ← sees_documented_iff, ← seesRow_anchor]
  constructor
  · rintro ⟨c, hc, h⟩
    exact ⟨⟨c, hc⟩, (clause_sees hc).symm.trans h⟩
  · rintro ⟨⟨c, hc⟩, h⟩
    exact ⟨c, hc, (clause_sees hc).trans h⟩

/-- An agent that leads another. -/
def leadAndReport : RoleStore where
  entities := (∅ : Accounts String Int).insert "acme" 0
  roles := ((∅ : Accounts String Role).insert "head"
      { trustId := "acme", occupantKind := .agent, occupantId := some "lead" }).insert
    "desk" { trustId := "acme", occupantKind := .agent, occupantId := some "report" }
  roleEdges := [("head", "desk")]

/-- The lead does not see what its report anchors to itself. -/
theorem not_clause_documented : ¬ ∀ (s : RoleStore) (x a : String) (scope : Scope),
    ∃ c, s.visibilitySqlClause x = some c ∧ (c.admits ⟨scope, some a⟩ ↔ s.Documented x a scope) := by
  intro hall
  obtain ⟨c, hc, hiff⟩ := hall leadAndReport "lead" "report" .self
  have hblind : (leadAndReport.visibilitySqlClause "lead").map
      (·.admits ⟨.self, some "report"⟩) = some false := by
    decide +kernel
  have habove : leadAndReport.Above "lead" "report" := by decide +kernel
  rw [hc] at hblind
  have hfalse : c.admits ⟨.self, some "report"⟩ = false := Option.some.inj hblind
  rw [hiff.2 (.inr habove)] at hfalse
  exact nomatch hfalse

end Aeqi.Orchestrator
