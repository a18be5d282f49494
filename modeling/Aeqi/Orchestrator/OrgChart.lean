import Aeqi.Orchestrator.BudgetCalls

/-!
# The org chart of a company

Edges are written by `create_role`, by the two halves of `update_role_edges` and by a budget's
`hire`. The halves of `update_role_edges` look for cycles and at the entities of both ends; the
other two do neither. A new role is below nothing else, so `create_role` closes a cycle exactly
when it adopts a role that the new parent is below, and `hire` leaves the company exactly when
the parent role is not of the budget's company.
-/

namespace Aeqi.Orchestrator

open Aeqi.Lib Handler

/-! ## Requests -/

/-- A request of `ipc/roles.rs` that edits roles. -/
inductive RoleRequest
  | create (req : CreateRole) (allowed : Option (List String)) (newId : String) (now : Nat)
  | update (req : UpdateRole)
  | edges (req : UpdateRoleEdges)
  | occupant (req : ChangeOccupant)

def RoleRequest.exec (callerId : String) (s : RoleStore) : RoleRequest → RoleStore
  | .create req allowed newId now => (handleCreateRole req allowed callerId newId now s).2
  | .update req => (handleUpdateRole req callerId s).2
  | .edges req => (handleUpdateRoleEdges req callerId s).2
  | .occupant req => (handleChangeOccupant req callerId s).2

/-- A writer of edges: a request of a user, or the `hire` of a budget. -/
inductive ChartRequest
  | role (callerId : String) (req : RoleRequest)
  | hire (parentBudgetId parentRoleId : String) (newRole : NewRoleSpec) (bundle : AllowanceBundle)
      (callerRole : String) (callerAgentId idempotencyKey : Option String) (draw : Draw)

def ChartRequest.exec (db : Db) : ChartRequest → Except Unit Db
  | .role callerId req => .ok { db with toRoleStore := req.exec callerId db.toRoleStore }
  | .hire parentBudgetId parentRoleId newRole bundle callerRole callerAgentId idempotencyKey
      draw =>
    .ok (((BudgetRequest.hire parentBudgetId parentRoleId newRole bundle callerRole callerAgentId
      idempotencyKey).call draw) db).2

/-! ## When a request keeps the chart -/

/-- The caller may not hang `existing` below `parentId`, or `parentId` is not below it. -/
def HungDown (s : RoleStore) (trustId callerId parentId existing : String) : Prop :=
  s.userCanManageRole trustId callerId parentId = true →
    s.userCanManageRole trustId callerId existing = true →
      parentId ∉ descendants s.roleEdges existing

instance (s : RoleStore) (trustId callerId parentId existing : String) :
    Decidable (HungDown s trustId callerId parentId existing) :=
  inferInstanceAs (Decidable (_ → _))

/-- A `create_role` that adopts the role of its occupant does not hang it below a role that is
below it. -/
def Downward (s : RoleStore) (callerId : String) (req : CreateRole) : Prop :=
  match requestField req.trustId, requestField req.parentRoleId,
      occupantOf req.occupantKind req.occupantId with
  | some trustId, some parentId, .ok (_, some occId) =>
    match s.getByOccupant trustId occId with
    | some existing => HungDown s trustId callerId parentId existing
    | none => True
  | _, _, _ => True

instance (s : RoleStore) (callerId : String) (req : CreateRole) :
    Decidable (Downward s callerId req) := by
  unfold Downward
  split
  · split <;> infer_instance
  · infer_instance

/-- The parent role of a `hire` is one of the budget's company. -/
def InCompany (db : Db) (parentBudgetId parentRoleId : String) : Prop :=
  match db.budgets.lookup parentBudgetId, db.roles.lookup parentRoleId with
  | some budget, some role => role.trustId = budget.trustId
  | _, _ => True

instance (db : Db) (parentBudgetId parentRoleId : String) :
    Decidable (InCompany db parentBudgetId parentRoleId) :=
  decidable_of_iff (∀ budget ∈ db.budgets.lookup parentBudgetId,
      ∀ role ∈ db.roles.lookup parentRoleId, role.trustId = budget.trustId) <| by
    unfold InCompany
    cases db.budgets.lookup parentBudgetId <;> cases db.roles.lookup parentRoleId <;> simp

def ChartRequest.Keeps (db : Db) : ChartRequest → Prop
  | .role callerId (.create req ..) => Downward db.toRoleStore callerId req
  | .role .. => True
  | .hire parentBudgetId parentRoleId .. => InCompany db parentBudgetId parentRoleId

instance ChartRequest.Keeps.decidable (db : Db) (req : ChartRequest) : Decidable (req.Keeps db) := by
  unfold ChartRequest.Keeps
  split <;> infer_instance

/-! ## One request -/

namespace RoleStore

variable {s : RoleStore} {trustId userId id : String}

theorem roleInEntity_iff :
    s.roleInEntity trustId id = true ↔ ∃ r, s.roles.lookup id = some r ∧ r.trustId = trustId := by
  unfold roleInEntity
  cases s.roles.lookup id <;> simp

theorem inEntity_of_manage (h : s.userCanManageRole trustId userId id = true) :
    ∃ r, s.roles.lookup id = some r ∧ r.trustId = trustId := by
  unfold userCanManageRole at h
  rw [Bool.and_eq_true] at h
  exact roleInEntity_iff.1 h.1

end RoleStore

section Step

open RoleStore

variable {s s' : RoleStore} {callerId : String}

variable {id : String}

theorem RoleStore.Edited.dag {f : Role → Role} (h : Edited s id f s') (hs : s.Dag) : s'.Dag :=
  hs.of_rows h.keepsEntities h.roleEdges

theorem dag_setDescriptionIdea {idea : Option String} (hs : s.Dag) :
    (s.setDescriptionIdea id idea).Dag :=
  (setDescriptionIdea_edited idea).dag hs

/-- The role of a `create_role` before it is placed: the chart, and what it is not above. -/
theorem WorksOn.dag {req : CreateRole} {trustId newId : String} {now : Nat}
    {kind : OccupantKind} {occupantId : Option String} {roleType : RoleType}
    (h : WorksOn s req trustId callerId newId now kind occupantId roleType id s') (hs : s.Dag) :
    s'.Dag ∧ KeepsEntities s s' ∧ ∃ r, s'.roles.lookup id = some r ∧ r.trustId = trustId := by
  cases h with
  | create _ hok =>
    have hcreated := createWithType_ok hok
    refine ⟨hs.of_rows hcreated.keepsEntities hcreated.roleEdges, hcreated.keepsEntities, ?_⟩
    exact ⟨_, by rw [hcreated.lookup, if_pos rfl], rfl⟩
  | adopt hocc hby hcan hok =>
    have hedited := (updateRole_ok hok).1
    refine ⟨hedited.dag hs, hedited.keepsEntities, ?_⟩
    obtain ⟨r, hr, htrust⟩ := inEntity_of_manage hcan
    obtain ⟨r', hr', hsame⟩ := hedited.keepsEntities _ r hr
    exact ⟨r', hr', hsame.trans htrust⟩

theorem handleCreateRole_dag {req : CreateRole} {allowed : Option (List String)} {newId : String}
    {now : Nat} (hs : s.Dag) (hdown : Downward s callerId req) :
    (handleCreateRole req allowed callerId newId now s).2.Dag := by
  refine Ends.final (p := Dag) (ends_handleCreateRole hs ?_)
  intro trustId kind occupantId roleType id s' hplacing
  obtain ⟨hs', hkeeps, child, hchild, hchildTrust⟩ := hplacing.works.dag hs
  refine ⟨hs', fun s'' hplaced => ?_⟩
  have hdag : s''.Dag := by
    cases hparent : requestField req.parentRoleId with
    | none =>
      rw [hparent] at hplaced
      exact hplaced ▸ hs'
    | some parentId =>
      have hmay := hplacing.may
      rw [hparent] at hplaced hmay
      obtain ⟨parent, hrow, htrust⟩ := inEntity_of_manage hmay
      obtain ⟨parent', hrow', hsame⟩ := hkeeps _ parent hrow
      refine hs'.addEdge hrow' hchild (by rw [hsame, htrust, hchildTrust]) ?_ hplaced
      cases hplacing.works with
      | create _ hok =>
        -- a new role has no children
        have hcreated := createWithType_ok hok
        rw [hcreated.roleEdges]
        intro hpath
        obtain ⟨x, hedge, -⟩ := Relation.TransGen.head'_iff.1 hpath
        exact (hs.no_edge_of_fresh hcreated.fresh x).1 hedge
      | adopt hocc hby hcan hok =>
        subst hocc
        rw [(updateRole_ok hok).1.roleEdges, ← mem_descendants]
        unfold Downward at hdown
        rw [hplacing.entity, hparent, hplacing.occupant] at hdown
        dsimp only at hdown
        rw [hby] at hdown
        exact hdown hmay hcan
  exact ⟨hdag, fun idea => dag_setDescriptionIdea hdag⟩

theorem handleUpdateRole_dag {req : UpdateRole} (hs : s.Dag) :
    (handleUpdateRole req callerId s).2.Dag := by
  refine Ends.final (p := Dag) (ends_handleUpdateRole hs ?_)
  intro trustId id roleType s' _ hok _
  have hs' := (updateRole_ok hok).1.dag hs
  exact ⟨hs', fun idea => dag_setDescriptionIdea hs'⟩

theorem handleChangeOccupant_dag {req : ChangeOccupant} (hs : s.Dag) :
    (handleChangeOccupant req callerId s).2.Dag :=
  Ends.final (p := Dag) (ends_handleChangeOccupant hs fun _ _ _ _ _ _ _ hok =>
    (updateOccupant_ok hok).1.dag hs)

theorem Replaced.dag {trustId : String}
    {set : String → List String → RoleStore → Except Refusal RoleStore}
    {ids : Option (List String)} (hset : ∀ ids s', set id ids s = .ok s' → s'.Dag) (hs : s.Dag)
    (h : Replaced s trustId callerId (set id) ids s') : s'.Dag := by
  cases ids with
  | none => exact h ▸ hs
  | some ids => exact hset ids s' h.2

theorem handleUpdateRoleEdges_dag {req : UpdateRoleEdges} (hs : s.Dag) :
    (handleUpdateRoleEdges req callerId s).2.Dag := by
  refine Ends.final (p := Dag) (ends_handleUpdateRoleEdges hs ?_)
  intro trustId id s' _ hparents
  have hs' : s'.Dag := hparents.dag (fun _ _ => hs.setParentEdges) hs
  exact ⟨hs', fun s'' hchildren => hchildren.dag (fun _ _ => hs'.setChildEdges) hs'⟩

/-- The edge of a `hire` goes to a new role. -/
theorem Hire.Founded.dag {h : Hire} {db db' : Db} (hfounded : h.Founded db db')
    (hs : db.toRoleStore.Dag)
    (hin : ∀ r, db.roles.lookup h.parentRoleId = some r → r.trustId = h.trustId) :
    db'.toRoleStore.Dag := by
  obtain ⟨role, s, htrust, hcreated, hedge⟩ := hfounded.role
  have hs' : s.Dag := hs.of_rows hcreated.keepsEntities hcreated.roleEdges
  rcases hedge with ⟨-, hsame⟩ | ⟨hne, hparent, hedges⟩
  · exact hsame ▸ hs'
  · obtain ⟨r, hr⟩ := Option.isSome_iff_exists.1 hparent
    have hrow : s.roles.lookup h.roleId = some role := by rw [hcreated.lookup, if_pos rfl]
    have hadd : s.addEdge h.parentRoleId h.roleId = .ok db'.toRoleStore := by
      rw [RoleStore.addEdge, if_neg hne, if_neg (by simp [hr, hrow]), hedges]
    have hold : r.trustId = h.trustId := by
      rw [hcreated.lookup, if_neg hne] at hr
      exact hin r hr
    refine hs'.addEdge hr hrow (hold.trans htrust.symm) ?_ hadd
    rw [hcreated.roleEdges]
    intro hpath
    obtain ⟨x, hout, -⟩ := Relation.TransGen.head'_iff.1 hpath
    exact (hs.no_edge_of_fresh hcreated.fresh x).1 hout

end Step

theorem Hire.Hired.store {h : Hire} {db db' : Db} (hired : h.Hired db db') :
    ∃ db₁, h.Founded db db₁ ∧ SameTree db₁ db' := by
  obtain ⟨db₁, hfounded, -, e₁, e₂, e₃, -, -, -, rfl⟩ := hired
  refine ⟨db₁, hfounded, ?_⟩
  have hopened : SameTree db₁ (h.opened db₁) :=
    Db.sameTree_insertCaps.trans Db.sameTree_insertCaps
  exact ((((hopened.update _ _).update _ _).record e₁).record e₂).record e₃

theorem chart_step {db db' : Db} {req : ChartRequest} (hreq : req.Keeps db)
    (hs : db.toRoleStore.Dag) (hstep : req.exec db = .ok db') : db'.toRoleStore.Dag := by
  cases req with
  | role callerId req =>
    cases hstep
    cases req with
    | create req allowed newId now => exact handleCreateRole_dag hs hreq
    | update req => exact handleUpdateRole_dag hs
    | edges req => exact handleUpdateRoleEdges_dag hs
    | occupant req => exact handleChangeOccupant_dag hs
  | hire p parentRoleId newRole bundle callerRole callerAgentId key draw =>
    cases hstep
    refine Ends.final (p := fun db : Db => db.toRoleStore.Dag) ?_
    refine ends_alone_bind.2 (ends_hire (fun _ => hs) (fun _ _ _ _ => ends_pureRoutine.2 hs) ?_)
    intro parent db' hmay _ hired
    refine ends_pureRoutine.2 ?_
    obtain ⟨db₁, hfounded, hsame⟩ := hired.store
    rw [hsame.store]
    refine hfounded.dag hs fun r hr => ?_
    unfold ChartRequest.Keeps InCompany at hreq
    dsimp only at hreq
    rw [hmay.row, hr] at hreq
    exact hreq

/-! ## Runs -/

/-- **The role graph stays a DAG inside one company** in every run whose requests hang no
adopted role below one of its own descendants and hire below roles of the budget's company. -/
theorem chart_stays_dag {db db' : Db} {hist : List (Db × ChartRequest)}
    (run : Run (Guarded (fun db req => req.Keeps db) (okStep ChartRequest.exec)) db hist db')
    (hs : db.toRoleStore.Dag) : db'.toRoleStore.Dag := by
  refine run.invariant (P := fun db => db.toRoleStore.Dag) hs ?_
  rintro t req t' ht ⟨hreq, hstep⟩
  exact chart_step hreq ht hstep

theorem RoleStore.dag_of_no_edges {s : RoleStore} (h : s.roleEdges = []) : s.Dag where
  acyclic := by
    intro a hcycle
    obtain ⟨b, hedge, -⟩ := Relation.TransGen.head'_iff.1 hcycle
    rw [h] at hedge
    cases hedge
  within := by
    intro p c hedge
    rw [h] at hedge
    cases hedge

/-- A company with one director and one budget. -/
def acmeDb : Db where
  entities := (∅ : Accounts String Int).insert "acme" 0
  roles := (∅ : Accounts String Role).insert "board"
    { trustId := "acme", occupantKind := .human, occupantId := some "ada", roleType := .director }
  roleGrants := [("board", GRANT_ROLES_MANAGE)]
  budgets := (∅ : Accounts String Budget).insert "ops"
    ⟨"acme", none, "board", "Operations", .operating, false, none⟩
  policies := (∅ : Accounts String BudgetPolicy).insert "ops"
    ⟨{ suballocCap := 100, hireCap := 2 }, 604800, .burn, none⟩

def adaCreates (parentRoleId occupantId newId : String) : ChartRequest :=
  let req : CreateRole := {
    trustId := some "acme", parentRoleId := some parentRoleId, occupantKind := some "human"
    occupantId := some occupantId }
  .role "ada" (.create req none newId 1)

/-- A lead, an adoption that keeps its place, a second lead below both and a hire. -/
def acmeRequests : List ChartRequest :=
  [adaCreates "board" "bob" "lead", adaCreates "board" "bob" "unused",
    adaCreates "lead" "eve" "clerk",
    .role "ada" (.edges { roleId := some "clerk", parentRoleIds := some ["board", "lead"] }),
    .hire "ops" "clerk" { title := "Aide" } { suballocCap := 10 } "board" none (some "k")
      { roleId := "aide", budgetId := "aides" }]

theorem acme_stays_dag : ∃ db', execAll ChartRequest.exec acmeDb acmeRequests = .ok db' ∧
    db'.toRoleStore.Dag ∧
    db'.roleEdges = [("clerk", "aide"), ("board", "clerk"), ("lead", "clerk"), ("board", "lead")] := by
  have hgood : AllGood (fun db req => req.Keeps db) ChartRequest.exec acmeDb acmeRequests := by
    decide +kernel
  obtain ⟨hist, db', hdb', run⟩ := Run.of_allGood .nil hgood
  have hedges : (execAll ChartRequest.exec acmeDb acmeRequests).toOption.map (·.roleEdges) =
      some [("clerk", "aide"), ("board", "clerk"), ("lead", "clerk"), ("board", "lead")] := by
    decide +kernel
  simp only [toOption_map_eq_some, hdb', Except.ok.injEq] at hedges
  obtain ⟨_, rfl, hedges⟩ := hedges
  exact ⟨_, hdb', chart_stays_dag run (RoleStore.dag_of_no_edges rfl), hedges⟩

/-- Bob leads below the board; then the board is adopted, as Ada's role, below Bob's. -/
theorem not_chart_stays_dag : ¬ ∀ db hist db', Run (okStep ChartRequest.exec) db hist db' →
    db.toRoleStore.Dag → db'.toRoleStore.Dag := by
  intro hall
  have hedges : (execAll ChartRequest.exec acmeDb [adaCreates "board" "bob" "lead",
      adaCreates "lead" "ada" "unused"]).toOption.map (·.roleEdges) =
      some [("lead", "board"), ("board", "lead")] := by
    decide +kernel
  simp only [toOption_map_eq_some] at hedges
  obtain ⟨db', hdb', hedges⟩ := hedges
  obtain ⟨hist, run⟩ := Run.execAll hdb'
  have hdag := hall _ hist db' run (RoleStore.dag_of_no_edges rfl)
  refine hdag.acyclic "board" (.tail (.single ?_) (b := "lead") ?_) <;>
    rw [hedges] <;> decide

end Aeqi.Orchestrator
