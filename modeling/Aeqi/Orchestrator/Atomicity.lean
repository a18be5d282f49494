import Aeqi.Lib.Faults
import Aeqi.Orchestrator.Allocations

/-!
# What a failing call leaves behind

Any statement of a call may fail, in whatever state other calls have left the store: the call
then returns the error. A transaction is rolled back, and so is what `hire`, `dissolve` and the
insertion of a refresh do. The other sections that write commit their statements one by one and
come last. So a call that fails leaves nothing behind but refreshed allowances with their
events, unless one of these statements fails after an earlier one has changed a row.
-/

namespace Aeqi.Orchestrator

open Aeqi.Lib List

/-! ## Failing statements -/

/-- What a failing statement leaves: those before it have been executed. -/
def interrupted : List Statement → Db → List Db
  | [], _ => []
  | w :: ws, db =>
    db :: match w db with
      | .ok db' => interrupted ws db'
      | .error _ => []

variable {ws : List Statement} {db db' : Db}

theorem mem_interrupted (h : db' ∈ interrupted ws db) :
    ∃ n < ws.length, autocommit (ws.take n) db = (.ok (), db') := by
  induction ws generalizing db with
  | nil => exact absurd h not_mem_nil
  | cons w ws ih =>
    rcases mem_cons.1 h with rfl | hrest
    · exact ⟨0, Nat.zero_lt_succ _, rfl⟩
    · split at hrest
      next db₁ hw =>
        obtain ⟨n, hn, hcommits⟩ := ih hrest
        refine ⟨n + 1, Nat.succ_lt_succ hn, ?_⟩
        rw [take_succ_cons, autocommit, hw]
        exact hcommits
      next => exact absurd hrest not_mem_nil

theorem autocommit_error {e : SqliteError} (h : autocommit ws db = (.error e, db')) :
    db' ∈ interrupted ws db := by
  induction ws generalizing db with
  | nil => cases h
  | cons w ws ih =>
    cases hw : w db with
    | ok db₁ =>
      simp only [autocommit, hw] at h
      simp only [interrupted, hw]
      exact mem_cons_of_mem _ (ih h)
    | error e' =>
      simp only [autocommit, hw] at h
      cases h
      exact mem_cons_self

namespace Action

/-- The stores that a failing statement of a section may leave. A refresh reads the new row
once its transaction has been committed. -/
def failures : Action → Db → List Db
  | .base (.refresh budgetId budget policy now), db =>
    [db, (db.refresh budgetId budget policy now).2]
  | a, db => db :: interrupted a.statements db

theorem insertEventAfter_eq {db : Db} {e : TreasuryEvent} :
    db.insertEventAfter e = autocommit [(·.insertEvent e)] db := by
  cases h : db.insertEvent e with
  | ok db' | error err => simp [Db.insertEventAfter, autocommit, h]

theorem run_spend {rail : Rail} {k : AllowanceKey} {amount : Int} {event : TreasuryEvent}
    {db : Db} : run (.base (.spend rail k amount event)) db =
      autocommit (statements (.base (.spend rail k amount event))) db :=
  insertEventAfter_eq

theorem run_allocate {parent child : AllowanceKey} {needTotal : Int} {bundle : AllowanceBundle}
    {event : TreasuryEvent} {db : Db} :
    run (.base (.allocate parent child needTotal bundle event)) db =
      autocommit (statements (.base (.allocate parent child needTotal bundle event))) db :=
  insertEventAfter_eq

end Action

/-! ## What a section may leave -/

/-- The allowance of the current epoch has been materialised, and its event recorded. -/
def Db.Materialised (db : Db) (budgetId : String) (budget : Budget) (policy : BudgetPolicy)
    (now : Int) (db' : Db) : Prop :=
  ∃ latest e, db.latestAllowance budgetId = .ok latest ∧
    db.allowances.lookup ⟨budgetId, db.currentEpoch budget policy now⟩ = none ∧
    Records e (if latest.isNone then .allowanceCreated else .epochRefreshed) budgetId none none
      none ∧
    db' = { db with
      allowances := db.allowances.insert ⟨budgetId, db.currentEpoch budget policy now⟩
        { caps := policy.newCaps latest } }.record e

theorem Db.refresh_materialises (db : Db) (budgetId : String) (budget : Budget)
    (policy : BudgetPolicy) (now : Int) :
    (db.refresh budgetId budget policy now).2 = db ∨
      db.Materialised budgetId budget policy now (db.refresh budgetId budget policy now).2 := by
  cases hlatest : db.latestAllowance budgetId with
  | error e => exact .inl (by rw [refresh_error hlatest])
  | ok latest =>
    unfold refresh
    rw [hlatest]
    dsimp only
    split
    next hnew =>
      have hnone := lookup_of_needNew hlatest hnew
      rw [insertEvent_of_fresh (by simp [Conflicts])]
      simp only [upsertCaps, hnone]
      refine .inr ⟨latest, ?event, hlatest, hnone, ?records, ?store⟩
      case store => split <;> rfl
      case records => exact ⟨rfl, rfl, rfl, rfl, rfl⟩
    next => exact .inl rfl

/-- The section has left the store as it was, or has refreshed an allowance. -/
def Keeps (t : Performed Action Db) : Prop :=
  t.left = t.found ∨ ∃ budgetId budget policy now,
    t.action = .base (.refresh budgetId budget policy now) ∧
      t.found.Materialised budgetId budget policy now t.left

/-- A section that commits its statements one by one has been left after some of them, and
these have changed the store. -/
def Halfway (t : Performed Action Db) : Prop :=
  t.left ≠ t.found ∧ ∃ n < t.action.statements.length,
    autocommit (t.action.statements.take n) t.found = (.ok (), t.left)

variable {a : Action}

theorem keeps_of_interrupted (h : db' ∈ interrupted a.statements db)
    (hwhole : ¬ Halfway ⟨a, db, db'⟩) : Keeps ⟨a, db, db'⟩ := by
  by_contra hkeeps
  exact hwhole ⟨fun heq => hkeeps (.inl heq), mem_interrupted h⟩

/-! ## Methods -/

abbrev QuietMethod {α : Type} (x : Method α) : Prop :=
  Quiet (fun s => Action.run (.base s)) (fun s => Action.failures (.base s))
    (fun t => Keeps ⟨.base t.action, t.found, t.left⟩) x

abbrev QuietRoutine {α : Type} (x : Routine α) : Prop :=
  Quiet Action.run Action.failures Keeps x

/-- When the call fails and no section is left halfway, its sections keep. -/
abbrev Atomic {α : Type} (x : Routine α) : Prop :=
  QuietOnError Action.run Action.failures Keeps (fun t => ¬ Halfway t) x

abbrev AtomicMethod {α : Type} (x : Method α) : Prop :=
  QuietOnError (fun s => Action.run (.base s)) (fun s => Action.failures (.base s))
    (fun t => Keeps ⟨.base t.action, t.found, t.left⟩)
    (fun t => ¬ Halfway ⟨.base t.action, t.found, t.left⟩) x

variable {α : Type}

theorem quiet_pass (x : Except Error α) : QuietMethod (pass x) := .result x

theorem quiet_pure (x : α) : QuietMethod (pure x) := .result (.ok x)

theorem quiet_locked {s : Section} (hrun : ∀ db, (s.run db).2 = db)
    (hfail : ∀ db, Action.failures (.base s) db = [db]) : QuietMethod (locked s) := by
  refine .perform (fun db => .inl (hrun db)) fun db db' hdb' => .inl ?_
  rw [hfail] at hdb'
  exact mem_singleton.1 hdb'

theorem quiet_getBudget (id : String) : QuietMethod (getBudget id) :=
  quiet_locked (fun _ => rfl) fun _ => rfl

theorem quiet_getTreasuryConfig (trustId : String) : QuietMethod (getTreasuryConfig trustId) :=
  quiet_locked (fun _ => rfl) fun _ => rfl

theorem quiet_assertNotPaused (trustId : String) : QuietMethod (assertNotPaused trustId) :=
  (quiet_getTreasuryConfig trustId).bind fun _ => quiet_pass _

theorem quiet_dedupIn (budgetId key : Option String) : QuietMethod (dedupIn budgetId key) := by
  cases key with
  | none => exact quiet_pure _
  | some key => exact quiet_locked (fun _ => rfl) fun _ => rfl

theorem quiet_dedup (budgetId : String) (key : Option String) :
    QuietMethod (dedup budgetId key) := by
  exact quiet_dedupIn _ _

theorem quiet_latestAllowance (budgetId : String) : QuietMethod (latestAllowance budgetId) :=
  (quiet_locked (fun _ => rfl) fun _ => rfl).bind fun _ => quiet_pass _

theorem quiet_refresh (budgetId : String) (budget : Budget) (policy : BudgetPolicy) (now : Int) :
    QuietMethod (locked (.refresh budgetId budget policy now)) := by
  have hkeeps : ∀ db : Db, Keeps ⟨.base (.refresh budgetId budget policy now), db,
      (db.refresh budgetId budget policy now).2⟩ := by
    intro db
    rcases db.refresh_materialises budgetId budget policy now with hsame | hnew
    · exact .inl hsame
    · exact .inr ⟨budgetId, budget, policy, now, rfl, hnew⟩
  refine .perform hkeeps fun db db' hdb' => ?_
  rcases mem_cons.1 hdb' with rfl | hdb'
  · exact .inl rfl
  · cases mem_singleton.1 hdb'
    exact hkeeps db

theorem quiet_refreshAt (budgetId : String) (now : Int) : QuietMethod (refreshAt budgetId now) := by
  refine (quiet_getBudget budgetId).bind fun _ => (quiet_pass _).bind fun _ => ?_
  refine Quiet.bind (quiet_locked (fun _ => rfl) fun _ => rfl) fun _ => (quiet_pass _).bind fun _ => ?_
  exact (quiet_refresh _ _ _ _).bind fun _ => quiet_pass _

theorem quiet_allowanceAt (budgetId : String) (now : Int) :
    QuietMethod (allowanceAt budgetId now) :=
  (quiet_refreshAt budgetId now).bind fun _ =>
    (quiet_latestAllowance budgetId).bind fun _ => quiet_pass _

theorem keeps_of_failures (hfail : a.failures db = db :: interrupted a.statements db)
    (h : db' ∈ a.failures db) (hwhole : ¬ Halfway ⟨a, db, db'⟩) : Keeps ⟨a, db, db'⟩ := by
  rw [hfail] at h
  rcases mem_cons.1 h with rfl | h
  · exact .inl rfl
  · exact keeps_of_interrupted h hwhole

theorem interrupted_of_error {r : Except SqliteError Unit} {e : Error}
    (hrun : autocommit ws db = (r, db')) {f : Unit → α}
    (he : (r.mapError Error.sqlite).map f = .error e) : db' ∈ interrupted ws db := by
  cases r with
  | error e' => exact autocommit_error hrun
  | ok => cases he

theorem atomic_spend (rail : Rail) (k : AllowanceKey) (amount : Int) (event : TreasuryEvent) :
    AtomicMethod (locked (.spend rail k amount event) >>= sqlite) := by
  refine .last (g := fun r => r.mapError Error.sqlite |>.map id) (fun r => ?_) (fun db e he hwhole => ?_)
    fun db db' hdb' hwhole => keeps_of_failures rfl hdb' hwhole
  · cases r <;> rfl
  · exact keeps_of_interrupted (interrupted_of_error Action.run_spend.symm he) hwhole

theorem atomic_allocate (parent child : AllowanceKey) (needTotal : Int) (bundle : AllowanceBundle)
    (event : TreasuryEvent) :
    AtomicMethod (locked (.allocate parent child needTotal bundle event) >>= sqlite) := by
  refine .last (g := fun r => r.mapError Error.sqlite |>.map id) (fun r => ?_) (fun db e he hwhole => ?_)
    fun db db' hdb' hwhole => keeps_of_failures rfl hdb' hwhole
  · cases r <;> rfl
  · exact keeps_of_interrupted (interrupted_of_error Action.run_allocate.symm he) hwhole

theorem atomic_spendInference (budgetId : String) (amount : Int)
    (requestHash actorAgentId gatewayAgentId : String) (now : Int) :
    AtomicMethod (spendInference budgetId amount requestHash actorAgentId gatewayAgentId now) := by
  refine .bind (quiet_getBudget budgetId) fun _ => .bind (quiet_pass _) fun _ => ?_
  refine .bind (quiet_getTreasuryConfig _) fun _ => .bind (quiet_pass _) fun _ => ?_
  refine .bind (quiet_pass _) fun _ => .bind (quiet_pass _) fun _ => ?_
  refine .bind (quiet_locked (fun _ => rfl) fun _ => rfl) fun _ => ?_
  refine .ite (quiet_pure _).onError ?_
  refine .bind (quiet_allowanceAt _ _) fun _ => .bind (quiet_pass _) fun _ => ?_
  exact atomic_spend _ _ _ _

theorem atomic_spendTreasury (budgetId : String) (amount : Int) (callerRole : String)
    (callerAgentId idempotencyKey : Option String) (now : Int) :
    AtomicMethod (spendTreasury budgetId amount callerRole callerAgentId idempotencyKey now) := by
  refine .bind (quiet_getBudget budgetId) fun _ => .bind (quiet_pass _) fun _ => ?_
  refine .bind (quiet_assertNotPaused _) fun _ => .bind (quiet_pass _) fun _ => ?_
  refine .bind (quiet_locked (fun _ => rfl) fun _ => rfl) fun _ => .bind (quiet_pass _) fun _ => ?_
  refine .bind (quiet_pass _) fun _ => .bind (quiet_dedup _ _) fun _ => ?_
  refine .ite (quiet_pure _).onError ?_
  refine .bind (quiet_allowanceAt _ _) fun _ => .bind (quiet_pass _) fun _ => ?_
  exact atomic_spend _ _ _ _

theorem atomic_allocation (parentBudgetId childBudgetId : String) (bundle : AllowanceBundle)
    (callerRole : String) (callerAgentId idempotencyKey : Option String)
    (nowParent nowChild : Int) :
    AtomicMethod (allocate parentBudgetId childBudgetId bundle callerRole callerAgentId
      idempotencyKey nowParent nowChild) := by
  refine .bind (quiet_getBudget _) fun _ => .bind (quiet_pass _) fun _ => ?_
  refine .bind (quiet_getBudget _) fun _ => .bind (quiet_pass _) fun _ => ?_
  refine .bind (quiet_assertNotPaused _) fun _ => .bind (quiet_pass _) fun _ => ?_
  refine .bind (quiet_pass _) fun _ => .bind (quiet_dedup _ _) fun _ => ?_
  refine .ite (quiet_pure _).onError ?_
  refine .bind (quiet_refreshAt _ _) fun _ => .bind (quiet_refreshAt _ _) fun _ => ?_
  refine .bind (quiet_latestAllowance _) fun _ => .bind (quiet_pass _) fun _ => ?_
  refine .bind (quiet_latestAllowance _) fun _ => .bind (quiet_pass _) fun _ => ?_
  refine .bind (quiet_pass _) fun _ => .bind (quiet_pass _) fun _ => ?_
  exact atomic_allocate _ _ _ _ _

/-! ## Routines -/

theorem quiet_base {x : Method α} (h : QuietMethod x) : QuietRoutine (base x) := h.lift

theorem atomic_base {x : Method α} (h : AtomicMethod x) : Atomic (base x) := h.lift

theorem quiet_give (x : Except Error α) : QuietRoutine (give x) := .result x

theorem quiet_pureRoutine (x : α) : QuietRoutine (pure x) := .result (.ok x)

theorem atomic_statements {k : a.Reply → Routine α} {g : a.Reply → Except Error α}
    (hk : ∀ r, (k r).run = .done (g r))
    (herror : ∀ db e, g (a.run db).1 = .error e → (a.run db).2 ∈ interrupted a.statements db)
    (hfail : ∀ db, a.failures db = db :: interrupted a.statements db) :
    Atomic (act a >>= k) :=
  .last hk (fun db e he => keeps_of_interrupted (herror db e he)) fun db _ hdb' hwhole =>
    keeps_of_failures (hfail db) hdb' hwhole

theorem transaction_error {ε : Type} {body : Db → Except ε Db} {e : ε}
    (h : (transaction body db).1 = .error e) : (transaction body db).2 = db := by
  unfold transaction at h ⊢
  cases hbody : body db with
  | error e' => rfl
  | ok db' =>
    rw [hbody] at h
    cases h

theorem dissolve_error {budgetId : String} {event : TreasuryEvent} {e : Error}
    (h : (db.dissolve budgetId event).1 = .error e) : (db.dissolve budgetId event).2 = db := by
  unfold Db.dissolve at h ⊢
  split
  next => rfl
  next hleaf =>
    rw [if_neg hleaf] at h
    split
    next => rfl
    next hzero =>
      rw [if_neg hzero] at h
      exact transaction_error h

theorem atomic_transaction {k : a.Reply → Routine α} {g : a.Reply → Except Error α}
    (hk : ∀ r, (k r).run = .done (g r))
    (herror : ∀ db e, g (a.run db).1 = .error e → (a.run db).2 = db)
    (hfail : ∀ db, a.failures db = [db]) : Atomic (act a >>= k) := by
  refine .last hk (fun db e he _ => .inl (herror db e he)) fun db db' hdb' _ => .inl ?_
  rw [hfail] at hdb'
  exact mem_singleton.1 hdb'

theorem quiet_assertOwnerRoleInTrust (roleId trustId : String) :
    QuietRoutine (assertOwnerRoleInTrust roleId trustId) := by
  refine Quiet.bind (.perform (fun db => .inl rfl) fun db db' hdb' => .inl ?_) fun _ =>
    quiet_give _
  exact mem_singleton.1 hdb'

theorem quiet_ownsParent (trustId callerRole : String) (parentBudgetId : Option String) :
    QuietMethod (parentBudgetId.elim (pure ()) (ownsParent trustId callerRole)) := by
  cases parentBudgetId with
  | none => exact quiet_pure _
  | some p =>
    exact (quiet_getBudget p).bind fun _ => (quiet_pass _).bind fun _ => (quiet_pass _).bind fun _ =>
      quiet_pass _

theorem quiet_ownedBudget (budgetId callerRole : String) :
    QuietMethod (ownedBudget budgetId callerRole) :=
  (quiet_getBudget _).bind fun _ => (quiet_pass _).bind fun _ =>
    (quiet_assertNotPaused _).bind fun _ => (quiet_pass _).bind fun _ => quiet_pure _

theorem quiet_ownsOrParent (budget : Budget) (callerRole : String) :
    QuietMethod (ownsOrParent budget callerRole) := by
  unfold ownsOrParent
  split
  · exact quiet_pure _
  · split
    · exact quiet_pass _
    · exact (quiet_getBudget _).bind fun _ => (quiet_pass _).bind fun _ => quiet_pass _

theorem atomic_createBudget (trustId : String) (parentBudgetId : Option String)
    (ownerRoleId name : String) (kind : BudgetKind) (callerRole : String)
    (callerAgentId idempotencyKey : Option String) (id : String) :
    Atomic (createBudget trustId parentBudgetId ownerRoleId name kind callerRole callerAgentId
      idempotencyKey id) := by
  refine .bind (quiet_base (quiet_assertNotPaused _)) fun _ => ?_
  refine .bind (quiet_assertOwnerRoleInTrust _ _) fun _ => ?_
  refine .bind (quiet_base (quiet_ownsParent _ _ _)) fun _ => ?_
  refine .bind (quiet_base (quiet_dedupIn _ _)) fun existing => ?_
  cases existing with
  | some e => exact (quiet_give _).onError
  | none =>
    refine atomic_statements (g := fun r => (r.mapError Error.sqlite).map fun _ => id) (fun r => ?_)
      (fun db e he => interrupted_of_error rfl he) fun _ => rfl
    cases r <;> rfl

theorem atomic_setPolicy (budgetId : String) (defaults : AllowanceBundle) (epochPeriodSecs : Int)
    (rolloverMode : RolloverMode) (callerRole : String)
    (callerAgentId idempotencyKey : Option String) :
    Atomic (setPolicy budgetId defaults epochPeriodSecs rolloverMode callerRole callerAgentId
      idempotencyKey) := by
  refine .bind (quiet_base (quiet_ownedBudget _ _)) fun _ => ?_
  refine .bind (quiet_base (quiet_dedupIn _ _)) fun _ => .ite (quiet_pureRoutine _).onError ?_
  refine atomic_statements (g := fun r => (r.mapError Error.sqlite).map id) (fun r => ?_)
    (fun db e he => interrupted_of_error rfl he) fun _ => rfl
  cases r <;> rfl

theorem atomic_hire (parentBudgetId parentRoleId : String) (newRole : NewRoleSpec)
    (bundle : AllowanceBundle) (callerRole : String)
    (callerAgentId idempotencyKey : Option String) (roleId budgetId : String) (createdAt : Nat)
    (now : Int) :
    Atomic (hire parentBudgetId parentRoleId newRole bundle callerRole callerAgentId
      idempotencyKey roleId budgetId createdAt now) := by
  refine .bind (quiet_base (quiet_ownedBudget _ _)) fun _ => ?_
  refine .bind (quiet_base (quiet_dedupIn _ _)) fun existing => ?_
  cases existing with
  | some e => exact (quiet_pureRoutine _).onError
  | none =>
    refine atomic_transaction (g := fun r => r.map fun _ => ⟨roleId, budgetId⟩) (fun r => ?_)
      (fun db e he => ?_) fun _ => rfl
    · cases r <;> rfl
    · change Except.map _ (transaction _ db).1 = _ at he
      cases hrun : (transaction _ db).1 with
      | error e' => exact transaction_error hrun
      | ok =>
        rw [hrun] at he
        cases he

theorem atomic_dissolve (budgetId callerRole : String)
    (callerAgentId idempotencyKey : Option String) :
    Atomic (dissolve budgetId callerRole callerAgentId idempotencyKey) := by
  refine .bind (quiet_base (quiet_getBudget _)) fun _ => .bind (quiet_base (quiet_pass _)) fun _ => ?_
  refine .bind (quiet_base (quiet_assertNotPaused _)) fun _ => ?_
  refine .bind (quiet_base (quiet_ownsOrParent _ _)) fun _ => ?_
  refine .bind (quiet_base (quiet_pass _)) fun _ => ?_
  refine .bind (quiet_base (quiet_dedupIn _ _)) fun _ => .ite (quiet_pureRoutine _).onError ?_
  refine atomic_transaction (g := id) (fun r => rfl) (fun db e he => ?_) fun _ => rfl
  exact dissolve_error he

/-- **Calls are atomic when they fail**, wherever they fail, unless a section that commits its
statements one by one is left halfway. -/
theorem calls_atomic {req : BudgetRequest} {draw : Draw} {steps : List (Performed Action Db)}
    {e : Error} (h : Exec Action.run Action.failures (req.routine draw).run steps (.error e))
    (hwhole : ∀ t ∈ steps, ¬ Halfway t) : ∀ t ∈ steps, Keeps t := by
  have hatomic : Atomic (req.routine draw) := by
    cases req with
    | createBudget => exact .andReturn (atomic_createBudget _ _ _ _ _ _ _ _ _)
    | setPolicy => exact .andReturn (atomic_setPolicy _ _ _ _ _ _ _)
    | allocate => exact .andReturn (atomic_base (atomic_allocation _ _ _ _ _ _ _ _))
    | spendInference => exact .andReturn (atomic_base (atomic_spendInference _ _ _ _ _ _))
    | spendTreasury => exact .andReturn (atomic_base (atomic_spendTreasury _ _ _ _ _ _))
    | hire => exact .andReturn (atomic_hire _ _ _ _ _ _ _ _ _ _ _)
    | refreshAt => exact .andReturn (Quiet.onError (quiet_base (quiet_refreshAt _ _)))
    | dissolve => exact .andReturn (atomic_dissolve _ _ _ _)
  exact hatomic steps e h hwhole

/-- More than there is. -/
def overspend : BudgetRequest := .spendTreasury "ops" 1000 "board" none none

def overspent : Except Error Returned × Db := overspend.call {} twoBudgets

theorem overspend_fails :
    overspend.call {} twoBudgets = (.error (.budget (.insufficientTreasury 1000 0)), overspent.2) :=
  Prod.ext (by decide +kernel) rfl

/-- The refresh of the budget stays when the spend is refused. -/
theorem overspend_atomic :
    ∃ steps, Exec Action.run Action.failures (overspend.routine {}).run steps
        (.error (.budget (.insufficientTreasury 1000 0))) ∧
      steps.length = 7 ∧ ∀ t ∈ steps, Keeps t := by
  have hexec : Exec Action.run Action.failures (overspend.routine {}).run
      ((overspend.routine {}).run.trace Action.run twoBudgets) _ := Exec.alone overspend_fails
  have hreads : ∀ t ∈ (overspend.routine {}).run.trace Action.run twoBudgets,
      t.action.statements.length = 0 := by
    have hall : ((overspend.routine {}).run.trace Action.run twoBudgets).all
        (fun t => t.action.statements.length = 0) = true := by decide +kernel
    exact fun t ht => of_decide_eq_true (all_eq_true.1 hall t ht)
  refine ⟨_, hexec, by decide +kernel, calls_atomic hexec fun t ht hhalf => ?_⟩
  obtain ⟨-, n, hn, -⟩ := hhalf
  rw [hreads t ht] at hn
  exact absurd hn (by omega)

/-- A refused spend has opened the allowance of its budget, and has recorded that it did. -/
theorem not_calls_atomic : ¬ ∀ hist (db db' : Db) (x : BudgetRequest × Draw) (e : Error),
    Run (okStep Db.next) newCompany hist db → x.1.call x.2 db = (.error e, db') →
      SameTree db db' ∧ db'.events = db.events := by
  intro hall
  obtain ⟨hist, run⟩ := twoBudgets_reached
  have h := (hall hist twoBudgets _ (overspend, {}) _ run overspend_fails).2
  exact absurd h (by decide +kernel)

end Aeqi.Orchestrator
