import Aeqi.Orchestrator.RoleRegistry

/-!
# BudgetRegistry

The off-chain budgets of a company and what their owners spend from them. A method takes the
connection lock several times; what it does under one lock is a `Section`, and between two of
them other calls run. Statements outside a transaction commit one by one. The methods that edit
the budget tree are in `BudgetTree`.

The times of rows and events are left out, as nothing reads them. SQLite turns a sum that
leaves the 64 bits of an integer into a float, which no read accepts: here it is kept, and
refused by `rowToAllowance`.
-/

namespace Aeqi.Orchestrator

open Aeqi.Lib

/-! ## Domain types -/

inductive BudgetKind
  | primary
  | operating
  | hiring
  | project
  | discretionary
  deriving DecidableEq

/-- What `refresh` does at the epoch boundary. -/
inductive RolloverMode
  | burn
  | rollover
  deriving DecidableEq

structure AllowanceBundle where
  inferenceCredits : Int := 0
  treasuryCap : Int := 0
  suballocCap : Int := 0
  hireCap : Int := 0
  deriving DecidableEq

structure Budget where
  trustId : String
  parentBudgetId : Option String
  ownerRoleId : String
  name : String
  kind : BudgetKind
  isPrimary : Bool
  createdByRoleId : Option String
  deriving DecidableEq

/-- The columns of `budget_allowances` beside its key. -/
structure AllowanceRow where
  caps : AllowanceBundle
  spentInference : Int := 0
  spentTreasury : Int := 0
  spentSuballoc : Int := 0
  usedHire : Int := 0
  deriving DecidableEq

/-- `PRIMARY KEY (budget_id, epoch)`. -/
structure AllowanceKey where
  budgetId : String
  epoch : Int
  deriving DecidableEq

structure BudgetAllowance extends AllowanceRow where
  budgetId : String
  epoch : Int
  deriving DecidableEq

structure BudgetPolicy where
  defaults : AllowanceBundle
  epochPeriodSecs : Int
  rolloverMode : RolloverMode
  setByRoleId : Option String

structure TreasuryConfig where
  inferenceGateway : String
  paused : Bool
  adminRoleId : String

inductive EventType
  | budgetCreated
  | allowanceCreated
  | allocated
  | inferenceSpent
  | treasurySpent
  | hired
  | epochRefreshed
  | policySet
  | budgetDissolved
  | treasuryPaused
  deriving DecidableEq

structure TreasuryEvent where
  eventType : EventType
  budgetId : String
  actingRoleId : String
  actorAgentId : Option String
  counterBudgetId : Option String
  epoch : Int
  amount : Option Int
  requestHash : Option String
  idempotencyKey : Option String
  deriving DecidableEq

/-- The errors that the modelled methods raise. -/
inductive BudgetError
  | notOwner
  | insufficientInference (need remaining : Int)
  | insufficientTreasury (need remaining : Int)
  | insufficientSuballoc (need remaining : Int)
  | hireCapExceeded (cap used : Int)
  | paused
  | vacantOwnerCannotSpend
  | gatewayMismatch (caller : String)
  | policyMissing (budget : String)
  | parentBudgetNotInTrust (parent trust : String)
  | notFound (budget : String)
  | ownerRoleNotInTrust (role trust : String)
  | budgetHasDescendants (budget : String)
  | budgetNonZeroBalance (budget : String)
  | primaryBudgetCannotDissolve
  deriving DecidableEq

inductive SqliteError
  | queryReturnedNoRows
  | invalidColumnType
  | constraintUnique
  | constraint (violated : Constraint)
  deriving DecidableEq

/-- An `anyhow::Error` is one of ours, one of SQLite's or a text. -/
inductive Error
  | budget (e : BudgetError)
  | sqlite (e : SqliteError)
  | message (text : String)
  deriving DecidableEq

namespace BudgetAllowance

variable (a : BudgetAllowance)

def remainingInference : Int := max (wrapI64 (a.caps.inferenceCredits - a.spentInference)) 0

def remainingTreasury : Int := max (wrapI64 (a.caps.treasuryCap - a.spentTreasury)) 0

def remainingSuballoc : Int := max (wrapI64 (a.caps.suballocCap - a.spentSuballoc)) 0

def remainingHire : Int := max (wrapI64 (a.caps.hireCap - a.usedHire)) 0

end BudgetAllowance

/-! ## The store -/

/-- The tables of the roles and of the budgets; the events are newest first. -/
structure Db extends RoleStore where
  budgets : Accounts String Budget := ∅
  policies : Accounts String BudgetPolicy := ∅
  treasuryConfig : Accounts String TreasuryConfig := ∅
  allowances : Accounts AllowanceKey AllowanceRow := ∅
  events : List TreasuryEvent := []

/-- The rails that a budget is spent on. -/
inductive Rail
  | inference
  | treasury
  | suballoc
  deriving DecidableEq

namespace AllowanceRow

/-- `spent_.. = spent_.. + n`. -/
def debit (row : AllowanceRow) : Rail → Int → AllowanceRow
  | .inference, n => { row with spentInference := row.spentInference + n }
  | .treasury, n => { row with spentTreasury := row.spentTreasury + n }
  | .suballoc, n => { row with spentSuballoc := row.spentSuballoc + n }

/-- `used_hire = used_hire + n`. -/
def hired (row : AllowanceRow) (n : Int) : AllowanceRow := { row with usedHire := row.usedHire + n }

def funded (row : AllowanceRow) (bundle : AllowanceBundle) : AllowanceRow :=
  { row with caps := {
      inferenceCredits := row.caps.inferenceCredits + bundle.inferenceCredits
      treasuryCap := row.caps.treasuryCap + bundle.treasuryCap
      suballocCap := row.caps.suballocCap + bundle.suballocCap
      hireCap := row.caps.hireCap + bundle.hireCap } }

end AllowanceRow

/-- An integer column is read into an `i64`. -/
def readI64 (n : Int) : Except SqliteError Int :=
  if -2 ^ 63 ≤ n ∧ n < 2 ^ 63 then .ok n else .error .invalidColumnType

def rowToAllowance (k : AllowanceKey) (row : AllowanceRow) : Except SqliteError BudgetAllowance := do
  let inferenceCredits ← readI64 row.caps.inferenceCredits
  let treasuryCap ← readI64 row.caps.treasuryCap
  let suballocCap ← readI64 row.caps.suballocCap
  let hireCap ← readI64 row.caps.hireCap
  let spentInference ← readI64 row.spentInference
  let spentTreasury ← readI64 row.spentTreasury
  let spentSuballoc ← readI64 row.spentSuballoc
  let usedHire ← readI64 row.usedHire
  pure {
    budgetId := k.budgetId
    epoch := k.epoch
    caps := { inferenceCredits, treasuryCap, suballocCap, hireCap }
    spentInference
    spentTreasury
    spentSuballoc
    usedHire }

def BudgetPolicy.newCaps (policy : BudgetPolicy) : Option BudgetAllowance → AllowanceBundle
  | some l =>
    match policy.rolloverMode with
    | .rollover => {
        inferenceCredits := wrapI64 (policy.defaults.inferenceCredits + l.remainingInference)
        treasuryCap := wrapI64 (policy.defaults.treasuryCap + l.remainingTreasury)
        suballocCap := wrapI64 (policy.defaults.suballocCap + l.remainingSuballoc)
        hireCap := policy.defaults.hireCap }
    | .burn => policy.defaults
  | none => policy.defaults

namespace Db

variable (db : Db)

/-- `UPDATE budget_allowances SET .. WHERE budget_id = .. AND epoch = ..`. -/
def updateAllowance (k : AllowanceKey) (f : AllowanceRow → AllowanceRow) : Db :=
  match db.allowances.lookup k with
  | some row => { db with allowances := db.allowances.insert k (f row) }
  | none => db

/-- `INSERT INTO budget_allowances .. ON CONFLICT(budget_id, epoch) DO UPDATE SET` the caps. -/
def upsertCaps (k : AllowanceKey) (caps : AllowanceBundle) : Db :=
  let row : AllowanceRow :=
    match db.allowances.lookup k with
    | some row => { row with caps }
    | none => { caps }
  { db with allowances := db.allowances.insert k row }

/-- The unique indexes of `treasury_events` that an event would violate. -/
def Conflicts (e : TreasuryEvent) : Prop :=
  (∃ h ∈ e.requestHash, ∃ e' ∈ db.events, e'.requestHash = some h) ∨
    ∃ k ∈ e.idempotencyKey, ∃ e' ∈ db.events, e'.budgetId = e.budgetId ∧ e'.idempotencyKey = some k

instance (e : TreasuryEvent) : Decidable (db.Conflicts e) := by
  unfold Conflicts
  infer_instance

/-- The roles and budgets of an event exist: the methods of this module delete none. -/
def insertEvent (e : TreasuryEvent) : Except SqliteError Db :=
  if db.Conflicts e then .error .constraintUnique else .ok { db with events := e :: db.events }

def insertEventAfter (e : TreasuryEvent) : Except SqliteError Unit × Db :=
  match db.insertEvent e with
  | .ok db => (.ok (), db)
  | .error err => (.error err, db)

def trustAnchorUnix (trustId : String) : Int := (db.entities.lookup trustId).getD 0

def epochs (budgetId : String) : List Int :=
  (db.allowances.keys.filter (·.budgetId = budgetId)).map (·.epoch)

/-- `ORDER BY epoch DESC LIMIT 1`. -/
def latestAllowance (budgetId : String) : Except SqliteError (Option BudgetAllowance) :=
  match (db.epochs budgetId).max? with
  | none => pure none
  | some epoch =>
    match db.allowances.lookup ⟨budgetId, epoch⟩ with
    | none => pure none
    | some row => do
      let a ← rowToAllowance ⟨budgetId, epoch⟩ row
      pure (some a)

/-! ## Sections of several statements -/

def currentEpoch (budget : Budget) (policy : BudgetPolicy) (now : Int) : Int :=
  let anchor := db.trustAnchorUnix budget.trustId
  let period := max policy.epochPeriodSecs 1
  max ((now - anchor).tdiv period) 0

def needNew (latest : Option BudgetAllowance) (currentEpoch : Int) : Bool :=
  match latest with
  | none => true
  | some l => l.epoch < currentEpoch

/-- The last section of `refresh_at`; the insertion and its event are one transaction. -/
def refresh (budgetId : String) (budget : Budget) (policy : BudgetPolicy) (now : Int) :
    Except SqliteError (Option BudgetAllowance) × Db :=
  let currentEpoch := db.currentEpoch budget policy now
  match db.latestAllowance budgetId with
  | .error e => (.error e, db)
  | .ok latest =>
    if needNew latest currentEpoch then
      let k : AllowanceKey := ⟨budgetId, currentEpoch⟩
      let event : TreasuryEvent := {
        eventType := if latest.isNone then .allowanceCreated else .epochRefreshed
        budgetId
        actingRoleId := budget.ownerRoleId
        actorAgentId := none
        counterBudgetId := none
        epoch := currentEpoch
        amount := none
        requestHash := none
        idempotencyKey := none }
      match (db.upsertCaps k (policy.newCaps latest)).insertEvent event with
      | .error e => (.error e, db)
      | .ok db' =>
        match db'.allowances.lookup k with
        | none => (.error .queryReturnedNoRows, db')
        | some row => ((rowToAllowance k row).map some, db')
    else (.ok none, db)

/-- The last section of `spend_inference` and of `spend_treasury`. -/
def spend (rail : Rail) (k : AllowanceKey) (amount : Int) (event : TreasuryEvent) :
    Except SqliteError Unit × Db :=
  (db.updateAllowance k (·.debit rail amount)).insertEventAfter event

/-- The last section of `allocate`. -/
def allocate (parent child : AllowanceKey) (needTotal : Int) (bundle : AllowanceBundle)
    (event : TreasuryEvent) : Except SqliteError Unit × Db :=
  ((db.updateAllowance parent fun row => (row.debit .suballoc needTotal).hired bundle.hireCap)
    |>.updateAllowance child (·.funded bundle)).insertEventAfter event

def dedupExisting (budgetId : Option String) (key : String) : Option TreasuryEvent :=
  match budgetId with
  | some b => db.events.find? fun e => e.budgetId = b ∧ e.idempotencyKey = some key
  | none => db.events.find? fun e => e.idempotencyKey = some key

def dedupRequestHash (hash : String) : Option TreasuryEvent :=
  db.events.find? fun e => e.requestHash = some hash

end Db

/-! ## Lock sections -/

/-- What is done under one acquisition of the connection lock. -/
inductive Section
  | getBudget (id : String)
  | getTreasuryConfig (trustId : String)
  | getPolicy (budgetId : String)
  | occupantKind (roleId : String)
  | dedupExisting (budgetId : Option String) (key : String)
  | dedupRequestHash (hash : String)
  | latestAllowance (budgetId : String)
  | refresh (budgetId : String) (budget : Budget) (policy : BudgetPolicy) (now : Int)
  | spend (rail : Rail) (k : AllowanceKey) (amount : Int) (event : TreasuryEvent)
  | allocate (parent child : AllowanceKey) (needTotal : Int) (bundle : AllowanceBundle)
      (event : TreasuryEvent)

namespace Section

@[reducible] def Reply : Section → Type
  | .getBudget _ => Option Budget
  | .getTreasuryConfig _ => Option TreasuryConfig
  | .getPolicy _ => Option BudgetPolicy
  | .occupantKind _ => Option OccupantKind
  | .dedupExisting .. => Option TreasuryEvent
  | .dedupRequestHash _ => Option TreasuryEvent
  | .latestAllowance _ => Except SqliteError (Option BudgetAllowance)
  | .refresh .. => Except SqliteError (Option BudgetAllowance)
  | .spend .. => Except SqliteError Unit
  | .allocate .. => Except SqliteError Unit

def run : (s : Section) → Db → s.Reply × Db
  | .getBudget id, db => (db.budgets.lookup id, db)
  | .getTreasuryConfig trustId, db => (db.treasuryConfig.lookup trustId, db)
  | .getPolicy budgetId, db => (db.policies.lookup budgetId, db)
  | .occupantKind roleId, db => ((db.roles.lookup roleId).map (·.occupantKind), db)
  | .dedupExisting budgetId key, db => (db.dedupExisting budgetId key, db)
  | .dedupRequestHash hash, db => (db.dedupRequestHash hash, db)
  | .latestAllowance budgetId, db => (db.latestAllowance budgetId, db)
  | .refresh budgetId budget policy now, db => db.refresh budgetId budget policy now
  | .spend rail k amount event, db => db.spend rail k amount event
  | .allocate parent child needTotal bundle event, db =>
    db.allocate parent child needTotal bundle event

end Section

/-! ## Methods -/

/-- An `async fn` of the registry. -/
abbrev Method (α : Type) := ExceptT Error (Prog Section Section.Reply) α

def locked (s : Section) : Method s.Reply := ExceptT.lift (Prog.perform s)

def pass {α : Type} (x : Except Error α) : Method α := ExceptT.mk (pure x)

def check (c : Prop) [Decidable c] (e : BudgetError) : Method Unit := pass (require c (.budget e))

def okOrElse {α : Type} (o : Option α) (e : BudgetError) : Method α := pass (okOr o (.budget e))

/-- The `?` after a statement. -/
def sqlite {α : Type} (x : Except SqliteError α) : Method α := pass (x.mapError .sqlite)

def getBudget (id : String) : Method (Option Budget) := locked (.getBudget id)

def getTreasuryConfig (trustId : String) : Method (Option TreasuryConfig) :=
  locked (.getTreasuryConfig trustId)

def getPolicy (budgetId : String) : Method (Option BudgetPolicy) := locked (.getPolicy budgetId)

def latestAllowance (budgetId : String) : Method (Option BudgetAllowance) := do
  let latest ← locked (.latestAllowance budgetId)
  sqlite latest

def assertNotPaused (trustId : String) : Method Unit := do
  let cfg ← getTreasuryConfig trustId
  check (¬ cfg.any (·.paused)) .paused

/-- `now` is the reading of the clock. -/
def refreshAt (budgetId : String) (now : Int) : Method (Option BudgetAllowance) := do
  let budget ← getBudget budgetId
  let budget ← okOrElse budget (.notFound budgetId)
  let policy ← getPolicy budgetId
  let policy ← okOrElse policy (.policyMissing budgetId)
  let row ← locked (.refresh budgetId budget policy now)
  sqlite row

/-- `refresh` and then `latest_allowance`, as every debit begins. -/
def allowanceAt (budgetId : String) (now : Int) : Method BudgetAllowance := do
  let _ ← refreshAt budgetId now
  let alw ← latestAllowance budgetId
  okOrElse alw (.policyMissing budgetId)

def spendInference (budgetId : String) (amount : Int) (requestHash actorAgentId : String)
    (gatewayAgentId : String) (now : Int) : Method Unit := do
  let budget ← getBudget budgetId
  let budget ← okOrElse budget (.notFound budgetId)
  let cfg ← getTreasuryConfig budget.trustId
  let cfg ← okOrElse cfg (.gatewayMismatch gatewayAgentId)
  check (cfg.paused = false) .paused
  check (cfg.inferenceGateway = gatewayAgentId) (.gatewayMismatch gatewayAgentId)
  let existing ← locked (.dedupRequestHash requestHash)
  if existing.isSome then
    pure ()
  else do
    let alw ← allowanceAt budgetId now
    let remaining := alw.remainingInference
    check (amount ≤ remaining) (.insufficientInference amount remaining)
    let spent ← locked (.spend .inference ⟨budgetId, alw.epoch⟩ amount {
      eventType := .inferenceSpent
      budgetId
      actingRoleId := budget.ownerRoleId
      actorAgentId := some actorAgentId
      counterBudgetId := none
      epoch := alw.epoch
      amount := some amount
      requestHash := some requestHash
      idempotencyKey := none })
    sqlite spent

/-- `dedup_existing` when the caller gave a key. -/
def dedup (budgetId : String) : Option String → Method (Option TreasuryEvent)
  | some key => locked (.dedupExisting (some budgetId) key)
  | none => pure none

def spendTreasury (budgetId : String) (amount : Int) (callerRole : String)
    (callerAgentId idempotencyKey : Option String) (now : Int) : Method Unit := do
  let budget ← getBudget budgetId
  let budget ← okOrElse budget (.notFound budgetId)
  assertNotPaused budget.trustId
  check (budget.ownerRoleId = callerRole) .notOwner
  let ownerKind ← locked (.occupantKind budget.ownerRoleId)
  let ownerKind ← sqlite (okOr ownerKind .queryReturnedNoRows)
  check (ownerKind ≠ .vacant) .vacantOwnerCannotSpend
  let existing ← dedup budgetId idempotencyKey
  if existing.isSome then
    pure ()
  else do
    let alw ← allowanceAt budgetId now
    let remaining := alw.remainingTreasury
    check (amount ≤ remaining) (.insufficientTreasury amount remaining)
    let spent ← locked (.spend .treasury ⟨budgetId, alw.epoch⟩ amount {
      eventType := .treasurySpent
      budgetId
      actingRoleId := callerRole
      actorAgentId := callerAgentId
      counterBudgetId := none
      epoch := alw.epoch
      amount := some amount
      requestHash := none
      idempotencyKey })
    sqlite spent

/-- What a bundle takes of the parent's suballoc rail. -/
def AllowanceBundle.needTotal (bundle : AllowanceBundle) : Int :=
  wrapI64 (wrapI64 (bundle.inferenceCredits + bundle.treasuryCap) + bundle.suballocCap)

/-- The clock is read once for each of the two refreshes. -/
def allocate (parentBudgetId childBudgetId : String) (bundle : AllowanceBundle)
    (callerRole : String) (callerAgentId idempotencyKey : Option String)
    (nowParent nowChild : Int) : Method Unit := do
  let parent ← getBudget parentBudgetId
  let parent ← okOrElse parent (.notFound parentBudgetId)
  let child ← getBudget childBudgetId
  let child ← okOrElse child (.notFound childBudgetId)
  assertNotPaused parent.trustId
  check (parent.ownerRoleId = callerRole) .notOwner
  check (parent.trustId = child.trustId) (.parentBudgetNotInTrust parentBudgetId child.trustId)
  let existing ← dedup parentBudgetId idempotencyKey
  if existing.isSome then
    pure ()
  else do
    let _ ← refreshAt parentBudgetId nowParent
    let _ ← refreshAt childBudgetId nowChild
    let parentAlw ← latestAllowance parentBudgetId
    let parentAlw ← okOrElse parentAlw (.policyMissing parentBudgetId)
    let childAlw ← latestAllowance childBudgetId
    let childAlw ← okOrElse childAlw (.policyMissing childBudgetId)
    let needTotal := bundle.needTotal
    let remainingSub := parentAlw.remainingSuballoc
    check (needTotal ≤ remainingSub) (.insufficientSuballoc needTotal remainingSub)
    check (bundle.hireCap ≤ parentAlw.remainingHire)
      (.hireCapExceeded parentAlw.caps.hireCap (wrapI64 (parentAlw.usedHire + bundle.hireCap)))
    let allocated ← locked (.allocate ⟨parentBudgetId, parentAlw.epoch⟩
      ⟨childBudgetId, childAlw.epoch⟩ needTotal bundle {
        eventType := .allocated
        budgetId := parentBudgetId
        actingRoleId := callerRole
        actorAgentId := callerAgentId
        counterBudgetId := some childBudgetId
        epoch := parentAlw.epoch
        amount := some needTotal
        requestHash := none
        idempotencyKey })
    sqlite allocated

end Aeqi.Orchestrator
