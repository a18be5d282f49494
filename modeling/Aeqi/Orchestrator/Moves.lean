import Aeqi.Orchestrator.Lineage

/-!
# Moving an agent

`move_agent` refuses a new parent in the agent's subtree, disconnects the agent's roles and wires
them to the first role of the new parent, without a transaction and without a look at the
companies. `moveAgent_allOrNothing_iff` says where it is all or nothing.

The checks and the writes are one step, although `get_subtree` takes the lock by itself.
-/

namespace Aeqi.Orchestrator

open Aeqi.Lib Relation Handler List Option

/-! ## The method -/

namespace RoleStore

variable (s : RoleStore)

/-- `ORDER BY created_at ASC LIMIT 1`; of two roles created at one time SQLite may return either. -/
def primaryRole (agentId : String) : Option String :=
  (s.agentRoles agentId).argmin fun id => ((s.roles.lookup id).map (·.createdAt)).getD 0

/-- `DELETE FROM role_edges WHERE child_role_id IN (..)`. -/
def disconnect (roleIds : List String) : RoleStore :=
  { s with roleEdges := s.roleEdges.filter fun e => e.2 ∉ roleIds }

/-- `ON CONFLICT(parent_role_id, child_role_id) DO NOTHING`. -/
def insertEdge (parentRole childRole : String) : Except Refusal RoleStore :=
  if parentRole = childRole then .error (.sqlite .check)
  else if (s.roles.lookup parentRole).isNone ∨ (s.roles.lookup childRole).isNone then
    .error (.sqlite .foreignKey)
  else .ok { s with roleEdges := [(parentRole, childRole)] ∪ s.roleEdges }

/-- The agents of `get_subtree`. -/
def subtree (agents : Accounts String Nat) (agentId : String) : List String :=
  (s.getSubtree agents agentId ((s.agentRoles agentId).length + s.roleEdges.length)).getD []

end RoleStore

def connect (parentRole : String) : List String → RoleHandler Unit
  | [] => pure ()
  | childRole :: rest => do
    call (·.insertEdge parentRole childRole)
    connect parentRole rest

def refuseSubtree (agents : Accounts String Nat) (agentId : String) :
    Option String → RoleHandler Unit
  | none => pure ()
  | some pid => do
    let subtree ← ask (·.subtree agents agentId)
    Handler.pass (require (pid ∉ subtree)
      (.message "cannot move agent under its own subtree (would create cycle)"))

def connectTo (agentRoleIds : List String) : Option String → RoleHandler Unit
  | none => pure ()
  | some pid => do
    let parentRole ← ask (·.primaryRole pid)
    let parentRole ← Handler.pass (okOr parentRole
      (.message ("new parent '" ++ pid ++ "' has no role")))
    connect parentRole agentRoleIds

def moveAgent (agents : Accounts String Nat) (agentId : String)
    (newParentAgentId : Option String) : RoleHandler Unit := do
  refuseSubtree agents agentId newParentAgentId
  let agentRoleIds ← ask (·.agentRoles agentId)
  Handler.pass (require (agentRoleIds ≠ [])
    (.message ("agent '" ++ agentId ++ "' has no role to reparent")))
  call fun s => .ok (s.disconnect agentRoleIds)
  connectTo agentRoleIds newParentAgentId

/-! ## What it is to do -/

namespace RoleStore

variable (s : RoleStore)

/-- The edges into the agent's roles are those from the new parent's first role, between roles of
one company and on no cycle. -/
structure Reparented (agentId : String) (newParentAgentId : Option String) (s' : RoleStore) :
    Prop where
  roles : s'.roles = s.roles
  incoming : ∀ e : String × String, e.2 ∈ s.agentRoles agentId →
    (e ∈ s'.roleEdges ↔ ∃ pid, newParentAgentId = some pid ∧ s.primaryRole pid = some e.1)
  others : ∀ e : String × String, e.2 ∉ s.agentRoles agentId →
    (e ∈ s'.roleEdges ↔ e ∈ s.roleEdges)
  within : ∀ e ∈ s'.roleEdges, e.2 ∈ s.agentRoles agentId →
    (s.roles.lookup e.1).map (·.trustId) = (s.roles.lookup e.2).map (·.trustId)
  acyclic : ∀ e ∈ s'.roleEdges, e.2 ∈ s.agentRoles agentId →
    ¬ ReflTransGen (Linked s'.roleEdges) e.2 e.1

def SameEdges (s' : RoleStore) : Prop := ∀ e, e ∈ s'.roleEdges ↔ e ∈ s.roleEdges

/-- The edges that are written before the call is refused for its first edge to itself. -/
def partialEdges (agentId pid : String) : List (String × String) :=
  match s.primaryRole pid with
  | none => []
  | some r => ((s.agentRoles agentId).takeWhile (· ≠ r)).map (r, ·)

/-- The new parent has a first role, of the company of all of the agent's roles and below none. -/
def Adoptable (agentId pid : String) : Prop :=
  ∃ r, s.primaryRole pid = some r ∧ ∀ c ∈ s.agentRoles agentId,
    (s.roles.lookup r).map (·.trustId) = (s.roles.lookup c).map (·.trustId) ∧
      ¬ ReflTransGen (Linked s.roleEdges) c r

/-- The call is refused after it has written, and what it has written was there before. -/
def RefusedInVain (agentId pid : String) : Prop :=
  (∀ r, s.primaryRole pid = some r → r ∈ s.agentRoles agentId) ∧
  ∀ e : String × String, e.2 ∈ s.agentRoles agentId →
    (e ∈ s.roleEdges ↔ e ∈ s.partialEdges agentId pid)

/-- Where the method is all or nothing. -/
def Movable (agents : Accounts String Nat) (agentId : String) (newParentAgentId : Option String) :
    Prop :=
  ∀ pid, newParentAgentId = some pid →
    s.agentRoles agentId = [] ∨ s.Reaches agentId pid ∧ pid ∈ agents ∨
      s.Adoptable agentId pid ∨ s.RefusedInVain agentId pid

end RoleStore

/-! ## The writes -/

namespace RoleStore

section Writes

variable {s s' : RoleStore} {a pid r : String} {cs : List String}

theorem mem_disconnect {e : String × String} :
    e ∈ (s.disconnect cs).roleEdges ↔ e ∈ s.roleEdges ∧ e.2 ∉ cs := by
  unfold disconnect
  rw [mem_filter, decide_eq_true_eq]

theorem mem_subtree {agents : Accounts String Nat} :
    pid ∈ s.subtree agents a ↔ s.Reaches a pid ∧ pid ∈ agents := by
  obtain ⟨ids, hids⟩ := @getSubtree_ends s a agents
  unfold subtree
  rw [hids, getD_some, mem_getSubtree hids]

theorem occupantAgent_of_primaryRole (h : s.primaryRole pid = some r) :
    s.occupantAgent r = some pid :=
  mem_agentRoles.1 (argmin_mem h)

theorem isSome_of_occupantAgent (h : s.occupantAgent r = some a) :
    (s.roles.lookup r).isSome = true := by
  obtain ⟨role, hrole, -⟩ := bind_eq_some_iff.1 h
  rw [hrole]
  rfl

theorem connect_spec (hr : (s.roles.lookup r).isSome = true)
    (hcs : ∀ c ∈ cs, (s.roles.lookup c).isSome = true) : ∃ s' : RoleStore, s'.roles = s.roles ∧
      (∀ e, e ∈ s'.roleEdges ↔ e ∈ s.roleEdges ∨ e.1 = r ∧ e.2 ∈ cs.takeWhile (· ≠ r)) ∧
      ∀ q refused, Ends (connect r cs) s q refused ↔ if r ∈ cs then refused s' else q ⟨⟩ s' := by
  induction cs generalizing s with
  | nil => exact ⟨s, rfl, fun e => by simp, fun q refused => Iff.rfl⟩
  | cons c rest ih =>
    by_cases hc : r = c
    · subst hc
      have hinsert : s.insertEdge r r = .error (.sqlite .check) := if_pos rfl
      refine ⟨s, rfl, fun e => by simp, fun q refused => ?_⟩
      rw [connect, ends_bind, ends_call, hinsert]
      simp
    · have hinsert : s.insertEdge r c = .ok { s with roleEdges := [(r, c)] ∪ s.roleEdges } := by
        have hrow := hcs c mem_cons_self
        unfold insertEdge
        rw [if_neg hc, if_neg]
        rw [not_or, Bool.not_eq_true, Bool.not_eq_true, isNone_eq_false_iff, isNone_eq_false_iff]
        exact ⟨hr, hrow⟩
      obtain ⟨s', hroles, hedges, hends⟩ := @ih { s with roleEdges := [(r, c)] ∪ s.roleEdges } hr
        fun c hc => hcs c (mem_cons_of_mem _ hc)
      refine ⟨s', hroles, fun e => ?_, fun q refused => ?_⟩
      · have htake : (c :: rest).takeWhile (· ≠ r) = c :: rest.takeWhile (· ≠ r) := by
          simp [Ne.symm hc]
        rw [hedges, htake, mem_cons, mem_union_iff, mem_singleton, Prod.ext_iff]
        tauto
      · rw [connect, ends_bind, ends_call, hinsert]
        have hmem : r ∈ c :: rest ↔ r ∈ rest := by
          rw [mem_cons]
          exact or_iff_right hc
        simp only [hmem, Except.ok.injEq, forall_eq', reduceCtorEq, false_implies, implies_true,
          and_true]
        exact hends q refused

theorem last_entry {α : Type} {e e' : α → α → Prop} {S : α → Prop} {x y : α}
    (he : ∀ x y, ¬ S y → e x y → e' x y) (hx : S x) (hpath : ReflTransGen e x y) :
    ∃ z, S z ∧ ReflTransGen e' z y := by
  classical
  induction hpath with
  | refl => exact ⟨x, hx, .refl⟩
  | @tail y w _ hedge ih =>
    by_cases hw : S w
    · exact ⟨w, hw, .refl⟩
    · obtain ⟨z, hz, hpath⟩ := ih
      exact ⟨z, hz, hpath.tail (he y w hw hedge)⟩

theorem sameEdges_iff {written : List (String × String)} (hwritten : ∀ e ∈ written, e.2 ∈ cs)
    (hedges : ∀ e, e ∈ s'.roleEdges ↔ e ∈ s.roleEdges ∧ e.2 ∉ cs ∨ e ∈ written) :
    s.SameEdges s' ↔ ∀ e : String × String, e.2 ∈ cs → (e ∈ s.roleEdges ↔ e ∈ written) := by
  constructor
  · intro hsame e he
    rw [← hsame e, hedges]
    tauto
  · intro hsame e
    rw [hedges]
    by_cases he : e.2 ∈ cs
    · rw [hsame e he]
      tauto
    · tauto

theorem reparented_iff (hroles : s'.roles = s.roles) (hr : s.primaryRole pid = some r)
    (hedges : ∀ e, e ∈ s'.roleEdges ↔ e ∈ s.roleEdges ∧ e.2 ∉ s.agentRoles a ∨
      e.1 = r ∧ e.2 ∈ s.agentRoles a) :
    s.Reparented a (some pid) s' ↔ s.Adoptable a pid := by
  have hnew : ∀ c ∈ s.agentRoles a, (r, c) ∈ s'.roleEdges := fun c hc =>
    (hedges (r, c)).2 (.inr ⟨rfl, hc⟩)
  have hfrom : ∀ e ∈ s'.roleEdges, e.2 ∈ s.agentRoles a → e.1 = r := by
    intro e he hin
    rcases (hedges e).1 he with ⟨-, hout⟩ | ⟨hr, -⟩
    · exact absurd hin hout
    · exact hr
  constructor
  · intro h
    refine ⟨r, hr, fun c hc => ⟨h.within _ (hnew c hc) hc, fun hpath => ?_⟩⟩
    -- the path in the old graph has an end that the new one has too
    obtain ⟨c', hc', hpath'⟩ := @last_entry _ _ (Linked s'.roleEdges) (· ∈ s.agentRoles a) _ _
      (fun x y hy hxy => (hedges (x, y)).2 (.inl ⟨hxy, hy⟩)) hc hpath
    exact h.acyclic _ (hnew c' hc') hc' hpath'
  · rintro ⟨r', hr', hall⟩
    cases hr.symm.trans hr'
    refine ⟨hroles, fun e he => ?_, fun e he => ?_, fun e he hin => ?_, fun e he hin hpath => ?_⟩
    · rw [hedges]
      simp only [Option.some.injEq, exists_eq_left', hr]
      tauto
    · rw [hedges]
      tauto
    · rw [hfrom e he hin]
      exact (hall e.2 hin).1
    · rw [hfrom e he hin] at hpath
      obtain ⟨c, hc, hpath'⟩ := @last_entry _ _ (Linked s.roleEdges) (· ∈ s.agentRoles a) _ _
        (fun x y hy hxy => by
          rcases (hedges (x, y)).1 hxy with ⟨hold, -⟩ | ⟨-, hin⟩
          · exact hold
          · exact absurd hin hy) hin hpath
      exact (hall c hc).2 hpath'

end Writes

/-! ## The whole method -/

section Method

variable {s : RoleStore} {agents : Accounts String Nat} {a pid : String}
  {q : Unit → RoleStore → Prop} {refused : RoleStore → Prop}

theorem ends_refuseSubtree {newParent : Option String} :
    Ends (refuseSubtree agents a newParent) s q refused ↔
      if ∃ pid, newParent = some pid ∧ pid ∈ s.subtree agents a then refused s else q ⟨⟩ s := by
  cases newParent with
  | none => simp [refuseSubtree, ends_pure]
  | some pid =>
    simp only [refuseSubtree, ends_bind, ends_ask, ends_pass, require_eq_ok, require_eq_error]
    by_cases hsub : pid ∈ s.subtree agents a
    · simp [hsub]
    · simp only [hsub, not_false_eq_true, forall_const, not_true_eq_false, false_and, false_implies,
        implies_true, and_true, Option.some.injEq, exists_eq_left']
      exact ⟨fun h => h ⟨⟩, fun h _ => h⟩

theorem ends_moveAgent {newParent : Option String} :
    Ends (moveAgent agents a newParent) s q refused ↔
      if (∃ pid, newParent = some pid ∧ pid ∈ s.subtree agents a) ∨ s.agentRoles a = [] then
        refused s
      else
        Ends (connectTo (s.agentRoles a) newParent) (s.disconnect (s.agentRoles a)) q refused := by
  unfold moveAgent
  rw [ends_bind, ends_refuseSubtree]
  by_cases hsub : ∃ pid, newParent = some pid ∧ pid ∈ s.subtree agents a
  · rw [if_pos hsub, if_pos (.inl hsub)]
  · simp only [ends_bind, ends_ask, ends_pass, ends_call]
    by_cases hnil : s.agentRoles a = []
    · simp [hnil]
    · simp [hnil]

theorem allOrNothing_none :
    Ends (connectTo (s.agentRoles a) none) (s.disconnect (s.agentRoles a))
      (fun _ => s.Reparented a none) s.SameEdges := by
  have hedges : ∀ e : String × String, e ∈ (s.disconnect (s.agentRoles a)).roleEdges →
      e.2 ∉ s.agentRoles a := fun e he => (mem_disconnect.1 he).2
  refine ⟨rfl, fun e he => ?_, fun e he => ?_, fun e he hin => ?_, fun e he hin => ?_⟩
  · rw [mem_disconnect]
    simp [he]
  · rw [mem_disconnect]
    simp [he]
  · exact absurd hin (hedges e he)
  · exact absurd hin (hedges e he)

theorem allOrNothing_some :
    Ends (connectTo (s.agentRoles a) (some pid)) (s.disconnect (s.agentRoles a))
      (fun _ => s.Reparented a (some pid)) s.SameEdges ↔ s.Adoptable a pid ∨ s.RefusedInVain a pid := by
  have hsame : (s.disconnect (s.agentRoles a)).primaryRole pid = s.primaryRole pid := rfl
  rw [connectTo, ends_bind, ends_ask, ends_bind, ends_pass]
  simp only [okOr_eq_ok, okOr_eq_error, hsame]
  cases hr : s.primaryRole pid with
  | none =>
    have hadopt : ¬ s.Adoptable a pid := by
      rintro ⟨r, hr', -⟩
      cases hr.symm.trans hr'
    have hvain : s.SameEdges (s.disconnect (s.agentRoles a)) ↔ s.RefusedInVain a pid := by
      rw [@sameEdges_iff s _ (s.agentRoles a) [] (fun e he => absurd he not_mem_nil)
        (fun e => by rw [mem_disconnect]; simp)]
      unfold RefusedInVain partialEdges
      simp [hr]
    simp [hadopt, hvain]
  | some r =>
    have hrows : ∀ c ∈ s.agentRoles a, (s.roles.lookup c).isSome = true :=
      fun c hc => isSome_of_occupantAgent (mem_agentRoles.1 hc)
    obtain ⟨s', hroles, hedges, hends⟩ := @connect_spec (s.disconnect (s.agentRoles a)) r
      (s.agentRoles a) (isSome_of_occupantAgent (occupantAgent_of_primaryRole hr)) hrows
    simp only [Option.some.injEq, forall_eq', reduceCtorEq, false_and, false_implies, implies_true,
      and_true, hends]
    by_cases hin : r ∈ s.agentRoles a
    · have hadopt : ¬ s.Adoptable a pid := by
        rintro ⟨r', hr', hall⟩
        cases hr.symm.trans hr'
        exact (hall r hin).2 .refl
      have hvain : s.SameEdges s' ↔ s.RefusedInVain a pid := by
        rw [@sameEdges_iff s s' (s.agentRoles a) (s.partialEdges a pid)]
        · unfold RefusedInVain
          simp [hr, hin]
        · intro e he
          unfold partialEdges at he
          rw [hr] at he
          obtain ⟨c, hc, rfl⟩ := List.mem_map.1 he
          exact (takeWhile_sublist _).subset hc
        · intro e
          rw [hedges, mem_disconnect]
          unfold partialEdges
          simp only [hr, List.mem_map]
          constructor
          · rintro (hold | ⟨hfirst, hmem⟩)
            · exact .inl hold
            · exact .inr ⟨e.2, hmem, Prod.ext hfirst.symm rfl⟩
          · rintro (hold | ⟨c, hc, rfl⟩)
            · exact .inl hold
            · exact .inr ⟨rfl, hc⟩
      rw [if_pos hin, hvain, or_iff_right hadopt]
    · have hvain : ¬ s.RefusedInVain a pid := fun h => hin (h.1 r hr)
      rw [if_neg hin, or_iff_left hvain]
      have hall : (s.agentRoles a).takeWhile (· ≠ r) = s.agentRoles a := by
        apply takeWhile_eq_self_iff.2
        intro c hc
        exact decide_eq_true fun heq => hin (heq ▸ hc)
      apply @reparented_iff s s' a pid r hroles hr
      intro e
      rw [hedges, mem_disconnect, hall]

/-- The call is all or nothing exactly where the new parent is refused before anything is written,
or has a role to be moved under. -/
theorem moveAgent_allOrNothing_iff (s : RoleStore) (agents : Accounts String Nat) (a : String)
    (newParent : Option String) :
    Ends (moveAgent agents a newParent) s (fun _ => s.Reparented a newParent) s.SameEdges ↔
      s.Movable agents a newParent := by
  have hsame : s.SameEdges s := fun _ => Iff.rfl
  rw [ends_moveAgent]
  cases newParent with
  | none =>
    have hmovable : s.Movable agents a none := nofun
    refine iff_of_true ?_ hmovable
    split
    · exact hsame
    · exact allOrNothing_none
  | some pid =>
    have hcond : s.Movable agents a (some pid) ↔ s.agentRoles a = [] ∨ pid ∈ s.subtree agents a ∨
          s.Adoptable a pid ∨ s.RefusedInVain a pid := by
      simp [Movable, mem_subtree]
    rw [hcond]
    by_cases hearly : (∃ p, some pid = some p ∧ p ∈ s.subtree agents a) ∨ s.agentRoles a = []
    · rw [if_pos hearly]
      refine iff_of_true hsame ?_
      rcases hearly with ⟨p, hp, hsub⟩ | hnil
      · cases hp
        exact .inr (.inl hsub)
      · exact .inl hnil
    · rw [if_neg hearly]
      obtain ⟨hsub, hne⟩ := not_or.1 hearly
      have hout : pid ∉ s.subtree agents a := fun h => hsub ⟨pid, rfl, h⟩
      rw [allOrNothing_some, or_iff_right hne, or_iff_right hout]

/-- An agent below another, and one of another company. -/
def neighbours : RoleStore :=
  { roles := (((∅ : Accounts String Role).insert "dev"
      { trustId := "acme", occupantKind := .agent, occupantId := some "bo" }).insert "lead"
      { trustId := "acme", occupantKind := .agent, occupantId := some "ada" }).insert "chair"
      { trustId := "zeta", occupantKind := .agent, occupantId := some "cy" }
    roleEdges := [("lead", "dev")] }

/-- A new parent without a role costs the agent its old one, and one of another company takes it
over. -/
theorem not_allOrNothing :
    ¬ Ends (moveAgent ∅ "bo" (some "dee")) neighbours
      (fun _ => neighbours.Reparented "bo" (some "dee")) neighbours.SameEdges ∧
    ¬ Ends (moveAgent ∅ "bo" (some "cy")) neighbours
      (fun _ => neighbours.Reparented "bo" (some "cy")) neighbours.SameEdges := by
  constructor
  · intro h
    exact nomatch ((h ("lead", "dev")).2 mem_cons_self)
  · intro h
    have hwithin := h.within ("chair", "dev") mem_cons_self (by decide)
    exact nomatch hwithin

end Method

end RoleStore
end Aeqi.Orchestrator
