import Aeqi.Orchestrator.BudgetRegistry

/-!
# BudgetTree

The methods of the registry that edit the budgets themselves: `create_budget`, `set_policy`,
`hire` and `dissolve`. `hire` and `dissolve` write inside a transaction; the statements of the
other two commit one by one, the event of the call last. `Request` is a call of any of the
registry's methods as its caller makes it; the ids and the clock readings that the call draws
itself are its `Draw`.
-/

namespace Aeqi.Orchestrator

open Aeqi.Lib

/-! ## Statements -/

/-- `BudgetPolicy::zero`, as set by a role. -/
def BudgetPolicy.zero (setByRoleId : Option String) : BudgetPolicy where
  defaults := {}
  epochPeriodSecs := 604800
  rolloverMode := .burn
  setByRoleId

/-- Every rail is spent to its cap. -/
def AllowanceRow.balanced (row : AllowanceRow) : Bool :=
  row.caps.inferenceCredits = row.spentInference ∧ row.caps.treasuryCap = row.spentTreasury ∧
    row.caps.suballocCap = row.spentSuballoc ∧ row.caps.hireCap = row.usedHire

def epochAt (anchor period now : Int) : Int := max ((now - anchor).tdiv (max period 1)) 0

namespace Db

variable (db : Db)

def missingRole (id : String) : Bool := (db.roles.lookup id).isNone

def missingBudget (id : String) : Bool := (db.budgets.lookup id).isNone

/-- `INSERT INTO roles` and `INSERT INTO role_grants`; an empty list of grants stays empty. -/
def insertRole (id : String) (role : Role) (grants : List String) : Except SqliteError Db :=
  if (db.roles.lookup id).isSome then .error (.constraint .primaryKey)
  else if (db.entities.lookup role.trustId).isNone then .error (.constraint .foreignKey)
  else if RoleStore.occupied role.occupantKind role.occupantId = false then
    .error (.constraint .check)
  else
    .ok { db with
      toRoleStore := RoleStore.addGrants id grants
        { db.toRoleStore with roles := db.roles.insert id role } }

/-- `INSERT INTO role_edges .. ON CONFLICT DO NOTHING`. -/
def insertEdge (parentRoleId childRoleId : String) : Except SqliteError Db :=
  if db.missingRole parentRoleId ∨ db.missingRole childRoleId then
    .error (.constraint .foreignKey)
  else .ok { db with roleEdges := [(parentRoleId, childRoleId)] ∪ db.roleEdges }

def hasPrimary (ownerRoleId : String) : Bool :=
  db.budgets.keys.any fun id => (db.budgets.lookup id).any fun b =>
    b.ownerRoleId = ownerRoleId ∧ b.isPrimary = true

def insertBudget (id : String) (b : Budget) : Except SqliteError Db :=
  if (db.budgets.lookup id).isSome then .error (.constraint .primaryKey)
  else if b.isPrimary ∧ db.hasPrimary b.ownerRoleId then .error .constraintUnique
  else if b.parentBudgetId.any db.missingBudget ∨ db.missingRole b.ownerRoleId ∨
      b.createdByRoleId.any db.missingRole then
    .error (.constraint .foreignKey)
  else .ok { db with budgets := db.budgets.insert id b }

def insertPolicy (budgetId : String) (policy : BudgetPolicy) : Except SqliteError Db :=
  if (db.policies.lookup budgetId).isSome then .error (.constraint .primaryKey)
  else .ok { db with policies := db.policies.insert budgetId policy }

/-- `INSERT INTO budget_policies .. ON CONFLICT(budget_id) DO UPDATE`. -/
def upsertPolicy (budgetId : String) (policy : BudgetPolicy) : Except SqliteError Db :=
  if db.missingBudget budgetId ∨ policy.setByRoleId.any db.missingRole then
    .error (.constraint .foreignKey)
  else .ok { db with policies := db.policies.insert budgetId policy }

/-- `INSERT INTO budget_allowances .. ON CONFLICT(budget_id, epoch) DO NOTHING`. -/
def insertCaps (k : AllowanceKey) (caps : AllowanceBundle) : Db :=
  match db.allowances.lookup k with
  | some _ => db
  | none => { db with allowances := db.allowances.insert k { caps } }

/-- `ensure_allowance_row`: the caps are those of the policy. -/
def ensureAllowanceRow (k : AllowanceKey) : Db :=
  db.insertCaps k ((db.policies.lookup k.budgetId).elim {} (·.defaults))

/-- `DELETE FROM budgets`, which cascades to the policy and the allowances. -/
def deleteBudget (id : String) : Db :=
  { db with
    budgets := db.budgets.erase id
    policies := db.policies.erase id
    allowances := (db.epochs id).foldl (fun rows epoch => rows.erase ⟨id, epoch⟩) db.allowances }

/-- `COUNT(*)` of the budgets below. -/
def hasDescendants (id : String) : Bool :=
  db.budgets.keys.any fun c => (db.budgets.lookup c).any (·.parentBudgetId = some id)

def hasBalance (id : String) : Bool :=
  (db.epochs id).any fun epoch => (db.allowances.lookup ⟨id, epoch⟩).any (!AllowanceRow.balanced ·)

end Db

/-! ## Statements under one lock -/

abbrev Statement := Db → Except SqliteError Db

/-- Every statement commits as it succeeds, so those before a failing one stay. -/
def autocommit : List Statement → Db → Except SqliteError Unit × Db
  | [], db => (.ok (), db)
  | w :: ws, db =>
    match w db with
    | .ok db' => autocommit ws db'
    | .error e => (.error e, db)

def transaction {ε : Type} (body : Db → Except ε Db) (db : Db) : Except ε Unit × Db :=
  match body db with
  | .ok db' => (.ok (), db')
  | .error e => (.error e, db)

/-- Spec for the new role of a `hire`. -/
structure NewRoleSpec where
  title : String
  roleType : Option String := none
  grants : Option (List String) := none
  occupantKind : Option String := none
  occupantId : Option String := none

/-- What the transaction of a `hire` is given. -/
structure Hire where
  parentBudgetId : String
  trustId : String
  parentRoleId : String
  newRole : NewRoleSpec
  bundle : AllowanceBundle
  callerRole : String
  callerAgentId : Option String
  idempotencyKey : Option String
  roleId : String
  budgetId : String
  createdAt : Nat
  now : Int

namespace Hire

variable (h : Hire)

/-- The row of the new role; the table checks the two enumerations. -/
def role : Except SqliteError Role := do
  let occupantKind ← (OccupantKind.fromStr (h.newRole.occupantKind.getD "vacant")).mapError
    fun _ => .constraint .check
  let roleType ← (RoleType.fromStr (h.newRole.roleType.getD "operational")).mapError
    fun _ => .constraint .check
  pure {
    trustId := h.trustId
    title := h.newRole.title
    occupantKind
    occupantId := if occupantKind = .vacant then none else h.newRole.occupantId
    roleType
    createdAt := h.createdAt }

def budget : Budget where
  trustId := h.trustId
  parentBudgetId := some h.parentBudgetId
  ownerRoleId := h.roleId
  name := "Primary — " ++ h.newRole.title
  kind := .primary
  isPrimary := true
  createdByRoleId := some h.callerRole

def event (eventType : EventType) (epoch : Int) (amount : Option Int) (key : Option String) :
    TreasuryEvent where
  eventType
  budgetId := h.parentBudgetId
  actingRoleId := h.callerRole
  actorAgentId := h.callerAgentId
  counterBudgetId := some h.budgetId
  epoch
  amount
  requestHash := none
  idempotencyKey := key

/-- The edge from the parent role to the new one. -/
def place (db : Db) : Except SqliteError Db :=
  if h.parentRoleId = h.roleId then pure db else db.insertEdge h.parentRoleId h.roleId

/-- The rows of the new role and of its budget. -/
def found (db : Db) : Except SqliteError Db := do
  let role ← h.role
  let grants := h.newRole.grants.getD (defaultGrantsForType role.roleType)
  let db ← db.insertRole h.roleId role grants
  let db ← h.place db
  let db ← db.insertBudget h.budgetId h.budget
  db.insertPolicy h.budgetId (.zero (some h.callerRole))

def parentKey (db : Db) : AllowanceKey where
  budgetId := h.parentBudgetId
  epoch := epochAt (db.trustAnchorUnix h.trustId)
    ((db.policies.lookup h.parentBudgetId).elim 604800 (·.epochPeriodSecs)) h.now

def childKey (db : Db) : AllowanceKey where
  budgetId := h.budgetId
  epoch := epochAt (db.trustAnchorUnix h.trustId) 604800 h.now

/-- The allowance of the parent covers the bundle and one more hire. -/
def checkCaps (db : Db) (k : AllowanceKey) : Except Error Unit := do
  let row ← (okOr (db.allowances.lookup k) .queryReturnedNoRows).mapError .sqlite
  let row ← (rowToAllowance k row).mapError .sqlite
  let need := h.bundle.needTotal
  require (need ≤ row.remainingSuballoc)
    (.budget (.insufficientSuballoc need row.remainingSuballoc))
  require (1 ≤ row.remainingHire)
    (.budget (.hireCapExceeded row.caps.hireCap (wrapI64 (row.usedHire + 1))))

/-- The transaction of `hire`. -/
def write (db : Db) : Except Error Db := do
  let db ← (h.found db).mapError .sqlite
  let parent := h.parentKey db
  let child := h.childKey db
  let db := (db.ensureAllowanceRow parent).insertCaps child {}
  h.checkCaps db parent
  let db := (db.updateAllowance parent fun row =>
    (row.debit .suballoc h.bundle.needTotal).hired 1).updateAllowance child (·.funded h.bundle)
  let db ← (db.insertEvent (h.event .budgetCreated parent.epoch none none)).mapError .sqlite
  let db ← (db.insertEvent (h.event .allocated parent.epoch (some h.bundle.needTotal)
    none)).mapError .sqlite
  (db.insertEvent (h.event .hired parent.epoch none h.idempotencyKey)).mapError .sqlite

end Hire

namespace Db

variable (db : Db)

/-- The transaction of `dissolve`. -/
def erase (budgetId : String) (event : TreasuryEvent) : Except SqliteError Db := do
  let db := { db with events := db.events.filter fun e =>
    ¬ (e.budgetId = budgetId ∨ e.counterBudgetId = some budgetId) }
  let db ← db.insertEvent event
  let db := { db with events := db.events.filter fun e => e.budgetId ≠ budgetId }
  pure (db.deleteBudget budgetId)

/-- The last section of `dissolve`. -/
def dissolve (budgetId : String) (event : TreasuryEvent) : Except Error Unit × Db :=
  if db.hasDescendants budgetId then (.error (.budget (.budgetHasDescendants budgetId)), db)
  else if db.hasBalance budgetId then (.error (.budget (.budgetNonZeroBalance budgetId)), db)
  else transaction (fun db => (db.erase budgetId event).mapError .sqlite) db

end Db

/-! ## Lock sections -/

inductive Action
  | base (s : Section)
  | roleTrust (roleId : String)
  | createBudget (id : String) (budget : Budget) (policy : BudgetPolicy) (event : TreasuryEvent)
  | setPolicy (budgetId : String) (policy : BudgetPolicy) (event : TreasuryEvent)
  | hire (h : Hire)
  | dissolve (budgetId : String) (event : TreasuryEvent)

namespace Action

@[reducible] def Reply : Action → Type
  | .base s => s.Reply
  | .roleTrust _ => Option String
  | .createBudget .. => Except SqliteError Unit
  | .setPolicy .. => Except SqliteError Unit
  | .hire _ => Except Error Unit
  | .dissolve .. => Except Error Unit

def statements : Action → List Statement
  | .base (.spend rail k amount event) =>
    [fun db => .ok (db.updateAllowance k (·.debit rail amount)), (·.insertEvent event)]
  | .base (.allocate parent child needTotal bundle event) =>
    [fun db => .ok (db.updateAllowance parent fun row =>
        (row.debit .suballoc needTotal).hired bundle.hireCap),
      fun db => .ok (db.updateAllowance child (·.funded bundle)), (·.insertEvent event)]
  | .createBudget id budget policy event =>
    [(·.insertBudget id budget), (·.insertPolicy id policy), (·.insertEvent event)]
  | .setPolicy budgetId policy event => [(·.upsertPolicy budgetId policy), (·.insertEvent event)]
  | _ => []

def run : (a : Action) → Db → a.Reply × Db
  | .base s, db => s.run db
  | .roleTrust roleId, db => ((db.roles.lookup roleId).map (·.trustId), db)
  | .createBudget id budget policy event, db =>
    autocommit (statements (.createBudget id budget policy event)) db
  | .setPolicy budgetId policy event, db =>
    autocommit (statements (.setPolicy budgetId policy event)) db
  | .hire h, db => transaction h.write db
  | .dissolve budgetId event, db => db.dissolve budgetId event

end Action

/-! ## Methods -/

/-- A method over all sections. -/
abbrev Routine (α : Type) := ExceptT Error (Prog Action Action.Reply) α

def base {α : Type} (x : Method α) : Routine α :=
  ExceptT.mk (Prog.lift (S := Action.Reply) Action.base x.run)

def act (a : Action) : Routine a.Reply := ExceptT.lift (Prog.perform a)

def give {α : Type} (x : Except Error α) : Routine α := ExceptT.mk (pure x)

def assertOwnerRoleInTrust (roleId trustId : String) : Routine Unit := do
  let roleTrustId ← act (.roleTrust roleId)
  give (require (roleTrustId = some trustId) (.budget (.ownerRoleNotInTrust roleId trustId)))

def ownsParent (trustId callerRole parent : String) : Method Unit := do
  let parentB ← getBudget parent
  let parentB ← okOrElse parentB (.notFound parent)
  check (parentB.trustId = trustId) (.parentBudgetNotInTrust parent trustId)
  check (parentB.ownerRoleId = callerRole) .notOwner

/-- `dedup_existing` when the caller gave a key. -/
def dedupIn (budgetId : Option String) : Option String → Method (Option TreasuryEvent)
  | some key => locked (.dedupExisting budgetId key)
  | none => pure none

/-- `id` is the new UUID. -/
def createBudget (trustId : String) (parentBudgetId : Option String) (ownerRoleId name : String)
    (kind : BudgetKind) (callerRole : String) (callerAgentId idempotencyKey : Option String)
    (id : String) : Routine String := do
  base (assertNotPaused trustId)
  assertOwnerRoleInTrust ownerRoleId trustId
  base (parentBudgetId.elim (pure ()) (ownsParent trustId callerRole))
  let existing ← base (dedupIn parentBudgetId idempotencyKey)
  match existing with
  | some e => give (okOr e.counterBudgetId (.message "dedup row has no counter_budget_id"))
  | none => do
    let created ← act (.createBudget id {
        trustId
        parentBudgetId
        ownerRoleId
        name
        kind
        isPrimary := false
        createdByRoleId := some callerRole } (.zero (some callerRole)) {
      eventType := .budgetCreated
      budgetId := parentBudgetId.getD id
      actingRoleId := callerRole
      actorAgentId := callerAgentId
      counterBudgetId := some id
      epoch := 0
      amount := none
      requestHash := none
      idempotencyKey })
    give (created.mapError .sqlite)
    pure id

/-- The guards of `set_policy` and of `hire`: the budget, once the caller owns it. -/
def ownedBudget (budgetId callerRole : String) : Method Budget := do
  let budget ← getBudget budgetId
  let budget ← okOrElse budget (.notFound budgetId)
  assertNotPaused budget.trustId
  check (budget.ownerRoleId = callerRole) .notOwner
  pure budget

def setPolicy (budgetId : String) (defaults : AllowanceBundle) (epochPeriodSecs : Int)
    (rolloverMode : RolloverMode) (callerRole : String)
    (callerAgentId idempotencyKey : Option String) : Routine Unit := do
  let _ ← base (ownedBudget budgetId callerRole)
  let existing ← base (dedupIn (some budgetId) idempotencyKey)
  if existing.isSome then
    pure ()
  else do
    let set ← act (.setPolicy budgetId
      { defaults, epochPeriodSecs, rolloverMode, setByRoleId := some callerRole } {
        eventType := .policySet
        budgetId
        actingRoleId := callerRole
        actorAgentId := callerAgentId
        counterBudgetId := none
        epoch := 0
        amount := none
        requestHash := none
        idempotencyKey })
    give (set.mapError .sqlite)

structure HireResult where
  roleId : String
  primaryBudgetId : String
  deriving DecidableEq

/-- `roleId` and `budgetId` are new UUIDs; the two clock readings are the time of the rows and
the one that the epochs are computed from. -/
def hire (parentBudgetId parentRoleId : String) (newRole : NewRoleSpec)
    (bundle : AllowanceBundle) (callerRole : String)
    (callerAgentId idempotencyKey : Option String) (roleId budgetId : String) (createdAt : Nat)
    (now : Int) : Routine HireResult := do
  let parent ← base (ownedBudget parentBudgetId callerRole)
  let existing ← base (dedupIn (some parentBudgetId) idempotencyKey)
  match existing with
  | some e => pure { roleId := "", primaryBudgetId := e.counterBudgetId.getD "" }
  | none => do
    let hired ← act (.hire {
      parentBudgetId, trustId := parent.trustId, parentRoleId, newRole, bundle, callerRole,
      callerAgentId, idempotencyKey, roleId, budgetId, createdAt, now })
    give hired
    pure { roleId, primaryBudgetId := budgetId }

def ownsOrParent (budget : Budget) (callerRole : String) : Method Unit :=
  if budget.ownerRoleId = callerRole then pure ()
  else
    match budget.parentBudgetId with
    | none => pass (.error (.budget .notOwner))
    | some parentId => do
      let parent ← getBudget parentId
      let parent ← okOrElse parent (.notFound parentId)
      check (parent.ownerRoleId = callerRole) .notOwner

def dissolve (budgetId callerRole : String) (callerAgentId idempotencyKey : Option String) :
    Routine Unit := do
  let budget ← base (getBudget budgetId)
  let budget ← base (okOrElse budget (.notFound budgetId))
  base (assertNotPaused budget.trustId)
  base (ownsOrParent budget callerRole)
  base (check (budget.isPrimary = false) .primaryBudgetCannotDissolve)
  let existing ← base (dedupIn (some budgetId) idempotencyKey)
  if existing.isSome then
    pure ()
  else do
    let dissolved ← act (.dissolve budgetId {
      eventType := .budgetDissolved
      budgetId
      actingRoleId := callerRole
      actorAgentId := callerAgentId
      counterBudgetId := none
      epoch := 0
      amount := none
      requestHash := none
      idempotencyKey })
    give dissolved

/-! ## Requests -/

/-- What a call draws itself: two UUIDs and its clock readings, the second of which is made
after the first. -/
structure Draw where
  roleId : String := ""
  budgetId : String := ""
  createdAt : Nat := 0
  now : Int := 0
  later : Int := 0

/-- A call as its caller makes it. -/
inductive BudgetRequest
  | createBudget (trustId : String) (parentBudgetId : Option String) (ownerRoleId name : String)
      (kind : BudgetKind) (callerRole : String) (callerAgentId idempotencyKey : Option String)
  | setPolicy (budgetId : String) (defaults : AllowanceBundle) (epochPeriodSecs : Int)
      (rolloverMode : RolloverMode) (callerRole : String)
      (callerAgentId idempotencyKey : Option String)
  | allocate (parentBudgetId childBudgetId : String) (bundle : AllowanceBundle)
      (callerRole : String) (callerAgentId idempotencyKey : Option String)
  | spendInference (budgetId : String) (amount : Int) (requestHash actorAgentId : String)
      (gatewayAgentId : String)
  | spendTreasury (budgetId : String) (amount : Int) (callerRole : String)
      (callerAgentId idempotencyKey : Option String)
  | hire (parentBudgetId parentRoleId : String) (newRole : NewRoleSpec)
      (bundle : AllowanceBundle) (callerRole : String)
      (callerAgentId idempotencyKey : Option String)
  | refreshAt (budgetId : String)
  | dissolve (budgetId callerRole : String) (callerAgentId idempotencyKey : Option String)

inductive Returned
  | unit
  | budget (id : String)
  | hired (result : HireResult)
  | allowance (row : Option BudgetAllowance)
  deriving DecidableEq

namespace BudgetRequest

def routine (draw : Draw) : BudgetRequest → Routine Returned
  | .createBudget trustId parentBudgetId ownerRoleId name kind callerRole callerAgentId
      idempotencyKey => do
    let id ← Orchestrator.createBudget trustId parentBudgetId ownerRoleId name kind callerRole
      callerAgentId idempotencyKey draw.budgetId
    pure (.budget id)
  | .setPolicy budgetId defaults epochPeriodSecs rolloverMode callerRole callerAgentId
      idempotencyKey => do
    Orchestrator.setPolicy budgetId defaults epochPeriodSecs rolloverMode callerRole
      callerAgentId idempotencyKey
    pure .unit
  | .allocate parentBudgetId childBudgetId bundle callerRole callerAgentId idempotencyKey => do
    base (Orchestrator.allocate parentBudgetId childBudgetId bundle callerRole callerAgentId
      idempotencyKey draw.now draw.later)
    pure .unit
  | .spendInference budgetId amount requestHash actorAgentId gatewayAgentId => do
    base (Orchestrator.spendInference budgetId amount requestHash actorAgentId gatewayAgentId
      draw.now)
    pure .unit
  | .spendTreasury budgetId amount callerRole callerAgentId idempotencyKey => do
    base (Orchestrator.spendTreasury budgetId amount callerRole callerAgentId idempotencyKey
      draw.now)
    pure .unit
  | .hire parentBudgetId parentRoleId newRole bundle callerRole callerAgentId
      idempotencyKey => do
    let result ← Orchestrator.hire parentBudgetId parentRoleId newRole bundle callerRole
      callerAgentId idempotencyKey draw.roleId draw.budgetId draw.createdAt draw.now
    pure (.hired result)
  | .refreshAt budgetId => do
    let row ← base (Orchestrator.refreshAt budgetId draw.now)
    pure (.allowance row)
  | .dissolve budgetId callerRole callerAgentId idempotencyKey => do
    Orchestrator.dissolve budgetId callerRole callerAgentId idempotencyKey
    pure .unit

def call (draw : Draw) (req : BudgetRequest) : Handler Error Db Returned :=
  Handler.alone Action.run (req.routine draw)

end BudgetRequest

/-- The store that a call leaves, whether it returns or fails. -/
def Db.next (db : Db) (x : BudgetRequest × Draw) : Except Unit Db := .ok (x.1.call x.2 db).2

end Aeqi.Orchestrator
