import Aeqi.Orchestrator.BudgetTree
import Aeqi.Orchestrator.RoleGraph
import Aeqi.Orchestrator.Sections

/-!
# What each call does

A call that no other call interleaves with: it checks its guards, looks its key up, and then
works on the store. Each method has two lemmas, one for a call whose key is found and one for
every end of a call, from which all that is proved about sequences of calls follows.
-/

namespace Aeqi.Orchestrator

open Aeqi.Lib Handler List Option
open Section (run)

variable {db : Db} {α : Type} {r : Db → Prop}

/-! ## Rules -/

variable {q : α → Db → Prop}

theorem ends_base {x : Method α} :
    Ends (alone Action.run (base x)) db q r ↔ Ends (alone run x) db q r := by
  have hrun : alone Action.run (base x) db = alone run x db := Prog.solo_lift
  unfold Ends
  rw [hrun]

theorem ends_locked {s : Section} {q : s.Reply → Db → Prop} :
    Ends (alone run (locked s)) db q r ↔ q (s.run db).1 (s.run db).2 := Iff.rfl

theorem ends_act {a : Action} {q : a.Reply → Db → Prop} :
    Ends (alone Action.run (act a)) db q r ↔ q (a.run db).1 (a.run db).2 := Iff.rfl

theorem ends_pureMethod {a : α} :
    Ends (alone run (pure a : Method α)) db q r ↔ q a db := Iff.rfl

theorem ends_pureRoutine {a : α} :
    Ends (alone Action.run (pure a : Routine α)) db q r ↔ q a db := Iff.rfl

theorem ends_passed {x : Except Error α} :
    Ends (alone run (pass x)) db q r ↔ (∀ a, x = .ok a → q a db) ∧ (∀ e, x = .error e → r db) := ends_alone_result

theorem ends_give {x : Except Error α} :
    Ends (alone Action.run (give x)) db q r ↔
      (∀ a, x = .ok a → q a db) ∧ (∀ e, x = .error e → r db) := ends_alone_result

theorem ends_okOrElse {o : Option α} {e : BudgetError} :
    Ends (alone run (okOrElse o e)) db q r ↔ (∀ a, o = some a → q a db) ∧ (o = none → r db) := by
  refine ends_passed.trans (and_congr ?_ ?_)
  · exact forall_congr' fun a => imp_congr_left okOr_eq_ok
  · simp

theorem ends_check {c : Prop} [Decidable c] {e : BudgetError} {q : Unit → Db → Prop} :
    Ends (alone run (check c e)) db q r ↔ (c → q () db) ∧ (¬ c → r db) := by
  refine ends_passed.trans (and_congr ?_ ?_)
  · simp only [require_eq_ok]
    exact ⟨fun h => h (), fun h _ => h⟩
  · simp

theorem ends_base_bind {β : Type} {x : Method β} {f : β → Routine α} :
    Ends (alone Action.run (base x >>= f)) db q r ↔
      Ends (alone run x) db (fun b db' => Ends (alone Action.run (f b)) db' q r) r :=
  ends_alone_bind.trans ends_base

theorem ends_check_bind {c : Prop} [Decidable c] {e : BudgetError} {f : Unit → Method α} :
    Ends (alone run (check c e >>= f)) db q r ↔ (c → Ends (alone run (f ())) db q r) ∧ (¬ c → r db) :=
  ends_alone_bind.trans ends_check

/-- A row is read, and has to be there. -/
theorem ends_find {β : Type} {s : Section} {o : s.Reply → Option β} {e : BudgetError}
    {f : s.Reply → β → Method α} :
    Ends (alone run (locked s >>= fun a => okOrElse (o a) e >>= f a)) db q r ↔
      (∀ b, o (s.run db).1 = some b → Ends (alone run (f (s.run db).1 b)) (s.run db).2 q r) ∧
      (o (s.run db).1 = none → r (s.run db).2) :=
  ends_alone_bind.trans (ends_locked.trans (ends_alone_bind.trans ends_okOrElse))

theorem ends_sqlite {x : Except SqliteError α} :
    Ends (alone run (sqlite x)) db q r ↔ (∀ a, x = .ok a → q a db) ∧ (∀ e, x = .error e → r db) := by
  refine ends_passed.trans (and_congr ?_ ?_)
  · exact forall_congr' fun a => imp_congr_left mapError_eq_ok
  · simp [mapError_eq_error]

/-! ## Guards -/

def Db.paused (db : Db) (trustId : String) : Bool :=
  (db.treasuryConfig.lookup trustId).any (·.paused)

variable {trustId : String}

theorem ends_assertNotPaused {q : Unit → Db → Prop} :
    Ends (alone run (assertNotPaused trustId)) db q r ↔
      (db.paused trustId = false → q () db) ∧ (db.paused trustId = true → r db) := by
  refine ends_alone_bind.trans (ends_locked.trans (ends_check.trans ?_))
  simp [run, Db.paused]

structure Owned (db : Db) (budgetId callerRole : String) (budget : Budget) : Prop where
  row : db.budgets.lookup budgetId = some budget
  running : db.paused budget.trustId = false
  owner : budget.ownerRoleId = callerRole

variable {budgetId : String}

theorem ends_ownedBudget {callerRole : String} {q : Budget → Db → Prop}
    (hq : ∀ budget, Owned db budgetId callerRole budget → q budget db)
    (hr : (∀ budget, ¬ Owned db budgetId callerRole budget) → r db) :
    Ends (alone run (ownedBudget budgetId callerRole)) db q r := by
  refine ends_alone_bind.2 (ends_locked.2 ?_)
  refine ends_alone_bind.2 (ends_okOrElse.2 ⟨fun budget hbudget => ?_, fun hnone => hr ?_⟩)
  · refine ends_alone_bind.2 (ends_assertNotPaused.2 ⟨fun hrunning => ?_, fun hpaused => hr ?_⟩)
    · refine ends_check_bind.2 ⟨fun howner => ?_, fun hother => hr ?_⟩
      · exact ends_pureMethod.2 (hq budget ⟨hbudget, hrunning, howner⟩)
      · rintro budget' ⟨hbudget', -, howner⟩
        cases hbudget.symm.trans hbudget'
        exact hother howner
    · rintro budget' ⟨hbudget', hrunning, -⟩
      cases hbudget.symm.trans hbudget'
      exact Bool.noConfusion (hrunning.symm.trans hpaused)
  · rintro budget' ⟨hbudget', -, -⟩
    cases hnone.symm.trans hbudget'

def Db.foundBy (db : Db) (budgetId key : Option String) : Option TreasuryEvent :=
  key.bind (db.dedupExisting budgetId)

theorem ends_dedupIn {budgetId key : Option String} {q : Option TreasuryEvent → Db → Prop} :
    Ends (alone run (dedupIn budgetId key)) db q r ↔ q (db.foundBy budgetId key) db := by
  cases key <;> exact Iff.rfl

theorem ends_dedup {key : Option String} {q : Option TreasuryEvent → Db → Prop} :
    Ends (alone run (dedup budgetId key)) db q r ↔ q (db.foundBy (some budgetId) key) db := by
  exact ends_dedupIn

theorem ends_unlessFound {M : Type} {run : M → Handler Error Db α} {o : Option TreasuryEvent}
    {x y : M} (hfound : ∀ e, o = some e → Ends (run x) db q r)
    (hfresh : o = none → Ends (run y) db q r) : Ends (run (if o.isSome then x else y)) db q r := by
  cases o with
  | some e => exact hfound e rfl
  | none => exact hfresh rfl

/-! ## Refresh -/

/-- What a refresh leaves, whether it returns a row or an error. -/
def Db.refreshed (db : Db) (budgetId : String) (now : Int) : Db :=
  match db.budgets.lookup budgetId, db.policies.lookup budgetId with
  | some budget, some policy => (db.refresh budgetId budget policy now).2
  | _, _ => db

variable {now : Int}

theorem Db.refreshed_of_some {budget : Budget} {policy : BudgetPolicy}
    (hbudget : db.budgets.lookup budgetId = some budget)
    (hpolicy : db.policies.lookup budgetId = some policy) :
    db.refreshed budgetId now = (db.refresh budgetId budget policy now).2 := by
  simp [Db.refreshed, hbudget, hpolicy]

theorem Db.refreshed_of_budget_none (h : db.budgets.lookup budgetId = none) :
    db.refreshed budgetId now = db := by
  simp [Db.refreshed, h]

theorem Db.refreshed_of_policy_none (h : db.policies.lookup budgetId = none) :
    db.refreshed budgetId now = db := by
  simp only [Db.refreshed]
  split <;> simp_all

theorem Db.refresh_error {budget : Budget} {policy : BudgetPolicy} {e : SqliteError}
    (h : db.latestAllowance budgetId = .error e) :
    db.refresh budgetId budget policy now = (.error e, db) := by
  rw [Db.refresh, h]

theorem ends_refreshAt {q : Option BudgetAllowance → Db → Prop}
    (hq : ∀ row latest, (db.budgets.lookup budgetId).isSome →
      (db.policies.lookup budgetId).isSome → db.latestAllowance budgetId = .ok latest →
      q row (db.refreshed budgetId now)) (hr : r (db.refreshed budgetId now)) :
    Ends (alone run (refreshAt budgetId now)) db q r := by
  refine ends_alone_bind.2 (ends_locked.2 ?_)
  refine ends_alone_bind.2 (ends_okOrElse.2 ⟨fun budget hbudget => ?_, fun hnone => ?_⟩)
  · refine ends_alone_bind.2 (ends_locked.2 ?_)
    refine ends_alone_bind.2 (ends_okOrElse.2 ⟨fun policy hpolicy => ?_, fun hnone => ?_⟩)
    · refine ends_alone_bind.2 (ends_locked.2 ?_)
      simp only [run] at hbudget hpolicy ⊢
      rw [Db.refreshed_of_some hbudget hpolicy] at hq hr
      refine ends_sqlite.2 ⟨fun row hrow => ?_, fun _ _ => hr⟩
      cases hlatest : db.latestAllowance budgetId with
      | error e =>
        rw [Db.refresh_error hlatest] at hrow
        cases hrow
      | ok latest =>
        refine hq row latest ?_ ?_ hlatest
        · rw [hbudget]; rfl
        · rw [hpolicy]; rfl
    · have hsame : db.refreshed budgetId now = db := Db.refreshed_of_policy_none hnone
      exact hsame ▸ hr
  · have hsame : db.refreshed budgetId now = db := Db.refreshed_of_budget_none hnone
    exact hsame ▸ hr

theorem ends_latestAllowance {q : Option BudgetAllowance → Db → Prop}
    (hq : ∀ alw, db.latestAllowance budgetId = .ok alw → q alw db) (hr : r db) :
    Ends (alone run (latestAllowance budgetId)) db q r := by
  refine ends_alone_bind.2 (ends_locked.2 ?_)
  exact ends_sqlite.2 ⟨hq, fun _ _ => hr⟩

theorem ends_allowanceAt {q : BudgetAllowance → Db → Prop}
    (hq : ∀ alw, (db.budgets.lookup budgetId).isSome → (db.policies.lookup budgetId).isSome →
      (db.refreshed budgetId now).latestAllowance budgetId = .ok (some alw) →
      q alw (db.refreshed budgetId now)) (hr : r (db.refreshed budgetId now)) :
    Ends (alone run (allowanceAt budgetId now)) db q r := by
  refine ends_alone_bind.2 (ends_refreshAt (fun _ _ hbudget hpolicy _ => ?_) hr)
  refine ends_alone_bind.2 (ends_latestAllowance (fun alw halw => ?_) hr)
  refine ends_okOrElse.2 ⟨fun a ha => hq a hbudget hpolicy ?_, fun _ => hr⟩
  rw [halw, ha]

/-! ## What a call leaves as it was -/

/-- Only allowances and events differ. -/
structure SameTree (db db' : Db) : Prop where
  store : db'.toRoleStore = db.toRoleStore
  budgets : db'.budgets = db.budgets
  policies : db'.policies = db.policies
  treasuryConfig : db'.treasuryConfig = db.treasuryConfig

namespace SameTree

variable {db' db'' : Db}

theorem refl : SameTree db db := ⟨rfl, rfl, rfl, rfl⟩

theorem trans (h : SameTree db db') (h' : SameTree db' db'') : SameTree db db'' :=
  ⟨h'.store.trans h.store, h'.budgets.trans h.budgets, h'.policies.trans h.policies,
    h'.treasuryConfig.trans h.treasuryConfig⟩

end SameTree

namespace Db

def record (db : Db) (e : TreasuryEvent) : Db := { db with events := e :: db.events }

@[simp] theorem record_allowances (db : Db) (e : TreasuryEvent) :
    (db.record e).allowances = db.allowances := rfl

variable {k : AllowanceKey}

theorem sameTree_updateAllowance {f : AllowanceRow → AllowanceRow} :
    SameTree db (db.updateAllowance k f) := by
  unfold updateAllowance
  split <;> exact ⟨rfl, rfl, rfl, rfl⟩

theorem sameTree_insertCaps {caps : AllowanceBundle} :
    SameTree db (db.insertCaps k caps) := by
  unfold insertCaps
  split <;> exact ⟨rfl, rfl, rfl, rfl⟩

theorem updateAllowance_events {f : AllowanceRow → AllowanceRow} :
    (db.updateAllowance k f).events = db.events := by
  unfold updateAllowance
  split <;> rfl

end Db

namespace SameTree

variable {db' : Db}

theorem record (h : SameTree db db') (e : TreasuryEvent) : SameTree db (db'.record e) :=
  h.trans ⟨rfl, rfl, rfl, rfl⟩

theorem update (h : SameTree db db') (k : AllowanceKey) (f : AllowanceRow → AllowanceRow) :
    SameTree db (db'.updateAllowance k f) := h.trans Db.sameTree_updateAllowance

end SameTree

namespace Db

variable {e : TreasuryEvent}

theorem insertEvent_of_fresh (h : ¬ db.Conflicts e) :
    db.insertEvent e = .ok (db.record e) := if_neg h

theorem insertEvent_ok {db' : Db} (h : db.insertEvent e = .ok db') :
    ¬ db.Conflicts e ∧ db' = db.record e := by
  unfold insertEvent at h
  split at h
  next => cases h
  next hfresh => exact ⟨hfresh, (Except.ok.inj h).symm⟩

theorem insertEventAfter_of_fresh (h : ¬ db.Conflicts e) :
    db.insertEventAfter e = (.ok (), db.record e) := by
  unfold insertEventAfter
  rw [insertEvent_of_fresh h]

theorem refresh_events (db : Db) (budgetId : String) (budget : Budget) (policy : BudgetPolicy)
    (now : Int) :
    (db.refresh budgetId budget policy now).2.events = db.events ∨
      ∃ e : TreasuryEvent, e.requestHash = none ∧ e.idempotencyKey = none ∧
        (db.refresh budgetId budget policy now).2.events = e :: db.events := by
  unfold refresh
  cases db.latestAllowance budgetId with
  | error e => exact .inl rfl
  | ok latest =>
    dsimp only
    split
    next =>
      rw [insertEvent_of_fresh (by simp [Conflicts])]
      dsimp only
      split <;> exact .inr ⟨_, rfl, rfl, rfl⟩
    next => exact .inl rfl

theorem sameTree_refresh (db : Db) (budgetId : String) (budget : Budget) (policy : BudgetPolicy)
    (now : Int) : SameTree db (db.refresh budgetId budget policy now).2 := by
  unfold refresh
  cases db.latestAllowance budgetId with
  | error e => exact .refl
  | ok latest =>
    dsimp only
    split
    next =>
      rw [insertEvent_of_fresh (by simp [Conflicts])]
      dsimp only
      split <;> exact ⟨rfl, rfl, rfl, rfl⟩
    next => exact .refl

theorem refreshed_cases (db : Db) (budgetId : String) (now : Int) :
    db.refreshed budgetId now = db ∨ ∃ budget policy,
      db.budgets.lookup budgetId = some budget ∧ db.policies.lookup budgetId = some policy ∧
        db.refreshed budgetId now = (db.refresh budgetId budget policy now).2 := by
  unfold refreshed
  split
  next budget policy hbudget hpolicy => exact .inr ⟨budget, policy, hbudget, hpolicy, rfl⟩
  next => exact .inl rfl

theorem sameTree_refreshed (db : Db) (budgetId : String) (now : Int) :
    SameTree db (db.refreshed budgetId now) := by
  rcases db.refreshed_cases budgetId now with hsame | ⟨budget, policy, -, -, hrefresh⟩
  · rw [hsame]
    exact .refl
  · rw [hrefresh]
    exact db.sameTree_refresh budgetId budget policy now

theorem refreshed_events (db : Db) (budgetId : String) (now : Int) :
    (db.refreshed budgetId now).events = db.events ∨
      ∃ e : TreasuryEvent, e.requestHash = none ∧ e.idempotencyKey = none ∧
        (db.refreshed budgetId now).events = e :: db.events := by
  rcases db.refreshed_cases budgetId now with hsame | ⟨budget, policy, -, -, hrefresh⟩
  · exact .inl (by rw [hsame])
  · rw [hrefresh]
    exact db.refresh_events budgetId budget policy now

end Db

/-! ## Keys -/

namespace Db

variable {e e' : TreasuryEvent} {db' : Db}

theorem foundBy_cons (he : e.idempotencyKey = none) (hevents : db'.events = e :: db.events)
    (budgetId key : Option String) : db'.foundBy budgetId key = db.foundBy budgetId key := by
  cases key with
  | none => rfl
  | some key => cases budgetId <;> simp [foundBy, dedupExisting, hevents, he]

theorem foundBy_congr (hevents : db'.events = db.events) (budgetId key : Option String) :
    db'.foundBy budgetId key = db.foundBy budgetId key := by
  cases key with
  | none => rfl
  | some key => cases budgetId <;> simp [foundBy, dedupExisting, hevents]

theorem foundBy_refreshed (db : Db) (b : String) (now : Int) (budgetId key : Option String) :
    (db.refreshed b now).foundBy budgetId key = db.foundBy budgetId key := by
  rcases db.refreshed_events b now with hsame | ⟨e, -, he, hcons⟩
  · exact foundBy_congr hsame budgetId key
  · exact foundBy_cons he hcons budgetId key

theorem dedupRequestHash_congr (hevents : db'.events = db.events) (hash : String) :
    db'.dedupRequestHash hash = db.dedupRequestHash hash := by
  rw [dedupRequestHash, dedupRequestHash, hevents]

theorem dedupRequestHash_refreshed (db : Db) (b : String) (now : Int) (hash : String) :
    (db.refreshed b now).dedupRequestHash hash = db.dedupRequestHash hash := by
  rcases db.refreshed_events b now with hsame | ⟨e, he, -, hcons⟩
  · exact dedupRequestHash_congr hsame hash
  · simp [dedupRequestHash, hcons, he]

theorem not_conflicts_of_key (hhash : e.requestHash = none)
    (hnone : db.foundBy (some e.budgetId) e.idempotencyKey = none) : ¬ db.Conflicts e := by
  rintro (⟨h, hh, -⟩ | ⟨key, hkey, e', he', hbudget, hkey'⟩)
  · rw [hhash] at hh
    cases hh
  · rw [hkey] at hnone
    simp only [foundBy, bind_some, dedupExisting, find?_eq_none] at hnone
    exact hnone e' he' (decide_eq_true ⟨hbudget, hkey'⟩)

theorem not_conflicts_of_anywhere (hhash : e.requestHash = none)
    (hnone : db.foundBy none e.idempotencyKey = none) : ¬ db.Conflicts e := by
  rintro (⟨h, hh, -⟩ | ⟨key, hkey, e', he', -, hkey'⟩)
  · rw [hhash] at hh
    cases hh
  · rw [hkey] at hnone
    simp only [foundBy, bind_some, dedupExisting, find?_eq_none] at hnone
    exact hnone e' he' (decide_eq_true hkey')

theorem not_conflicts_of_hash {hash : String} (hkey : e.idempotencyKey = none)
    (hhash : e.requestHash = some hash) (hnone : db.dedupRequestHash hash = none) :
    ¬ db.Conflicts e := by
  rintro (⟨h, hh, e', he', hhash'⟩ | ⟨key, hk, -⟩)
  · rw [hhash] at hh
    cases hh
    simp only [dedupRequestHash, find?_eq_none] at hnone
    exact hnone e' he' (decide_eq_true hhash')
  · rw [hkey] at hk
    cases hk

end Db

namespace BudgetRequest

def found (db : Db) : BudgetRequest → Option TreasuryEvent
  | .createBudget _ parentBudgetId _ _ _ _ _ key => db.foundBy parentBudgetId key
  | .setPolicy budgetId _ _ _ _ _ key => db.foundBy (some budgetId) key
  | .allocate parentBudgetId _ _ _ _ key => db.foundBy (some parentBudgetId) key
  | .spendInference _ _ requestHash _ _ => db.dedupRequestHash requestHash
  | .spendTreasury budgetId _ _ _ key => db.foundBy (some budgetId) key
  | .hire parentBudgetId _ _ _ _ _ key => db.foundBy (some parentBudgetId) key
  | .refreshAt _ => none
  | .dissolve budgetId _ _ key => db.foundBy (some budgetId) key

end BudgetRequest

/-! ## Spends -/

structure Records (e : TreasuryEvent) (eventType : EventType) (budgetId : String)
    (counterBudgetId requestHash idempotencyKey : Option String) : Prop where
  eventType : e.eventType = eventType
  budgetId : e.budgetId = budgetId
  counterBudgetId : e.counterBudgetId = counterBudgetId
  requestHash : e.requestHash = requestHash
  idempotencyKey : e.idempotencyKey = idempotencyKey

/-- The guards of `spend_inference`. -/
structure MaySpendInference (db : Db) (budgetId gatewayAgentId : String) (budget : Budget) :
    Prop where
  row : db.budgets.lookup budgetId = some budget
  gateway : ∃ cfg, db.treasuryConfig.lookup budget.trustId = some cfg ∧ cfg.paused = false ∧
    cfg.inferenceGateway = gatewayAgentId

/-- The guards of `spend_treasury`. -/
structure MaySpendTreasury (db : Db) (budgetId callerRole : String) (budget : Budget) : Prop
    extends Owned db budgetId callerRole budget where
  occupied : ∃ role, db.roles.lookup budget.ownerRoleId = some role ∧ role.occupantKind ≠ .vacant

section Spends

variable {budgetId : String} {amount : Int} {budget : Budget} {now : Int}

theorem ends_spendInference {requestHash actorAgentId gatewayAgentId : String}
    {q : Unit → Db → Prop}
    (hr : (∀ budget, ¬ MaySpendInference db budgetId gatewayAgentId budget) → r db)
    (hrefreshed : db.dedupRequestHash requestHash = none → r (db.refreshed budgetId now))
    (hfound : ∀ budget e, MaySpendInference db budgetId gatewayAgentId budget →
      db.dedupRequestHash requestHash = some e → q () db)
    (hfresh : ∀ budget alw e, MaySpendInference db budgetId gatewayAgentId budget →
      db.dedupRequestHash requestHash = none → (db.policies.lookup budgetId).isSome →
      (db.refreshed budgetId now).latestAllowance budgetId = .ok (some alw) →
      amount ≤ alw.remainingInference →
      Records e .inferenceSpent budgetId none (some requestHash) none →
      q () (((db.refreshed budgetId now).updateAllowance ⟨budgetId, alw.epoch⟩
        (·.debit .inference amount)).record e)) :
    Ends (alone run (spendInference budgetId amount requestHash actorAgentId
      gatewayAgentId now)) db q r := by
  refine ends_find.2 ⟨fun budget hbudget => ?_,
    fun hnone => hr fun _ h => by cases hnone.symm.trans h.row⟩
  replace hr (hno : ¬ MaySpendInference db budgetId gatewayAgentId budget) : r db :=
    hr fun _ h => hno (some.inj (hbudget.symm.trans h.row) ▸ h)
  refine ends_find.2 ⟨fun cfg hcfg => ?_, fun hnone => hr fun ⟨_, _, hcfg, _⟩ => by
    cases hnone.symm.trans hcfg⟩
  have hmay : MaySpendInference db budgetId gatewayAgentId budget ↔
      cfg.paused = false ∧ cfg.inferenceGateway = gatewayAgentId := by
    refine ⟨fun ⟨_, cfg', hcfg', h⟩ => ?_, fun h => ⟨hbudget, cfg, hcfg, h⟩⟩
    cases hcfg.symm.trans hcfg'
    exact h
  refine ends_check_bind.2 ⟨fun hrunning => ?_, fun hne => hr fun h => hne (hmay.1 h).1⟩
  refine ends_check_bind.2 ⟨fun hgateway => ?_, fun hne => hr fun h => hne (hmay.1 h).2⟩
  replace hmay := hmay.2 ⟨hrunning, hgateway⟩
  refine ends_alone_bind.2 (ends_locked.2 (ends_unlessFound (fun e hkey => ?_) fun hkey => ?_))
  · exact ends_pureMethod.2 (hfound budget e hmay hkey)
  · refine ends_alone_bind.2 (ends_allowanceAt (fun alw _ hpolicy halw => ?_) (hrefreshed hkey))
    refine ends_check_bind.2 ⟨fun henough => ?_, fun _ => hrefreshed hkey⟩
    refine ends_alone_bind.2 (ends_locked.2 ?_)
    dsimp only [run, Db.spend]
    rw [Db.insertEventAfter_of_fresh]
    · refine ends_sqlite.2 ⟨fun _ _ => ?_, nofun⟩
      exact hfresh budget alw _ hmay hkey hpolicy halw henough ⟨rfl, rfl, rfl, rfl, rfl⟩
    · refine Db.not_conflicts_of_hash rfl rfl ?_
      rw [Db.dedupRequestHash_congr Db.updateAllowance_events, Db.dedupRequestHash_refreshed]
      exact hkey

theorem ends_spendTreasury {callerRole : String} {callerAgentId idempotencyKey : Option String}
    {q : Unit → Db → Prop} (hr : (∀ budget, ¬ MaySpendTreasury db budgetId callerRole budget) → r db)
    (hrefreshed : db.foundBy (some budgetId) idempotencyKey = none → r (db.refreshed budgetId now))
    (hfound : ∀ budget e, MaySpendTreasury db budgetId callerRole budget →
      db.foundBy (some budgetId) idempotencyKey = some e → q () db)
    (hfresh : ∀ budget alw e, MaySpendTreasury db budgetId callerRole budget →
      db.foundBy (some budgetId) idempotencyKey = none → (db.policies.lookup budgetId).isSome →
      (db.refreshed budgetId now).latestAllowance budgetId = .ok (some alw) →
      amount ≤ alw.remainingTreasury →
      Records e .treasurySpent budgetId none none idempotencyKey →
      q () (((db.refreshed budgetId now).updateAllowance ⟨budgetId, alw.epoch⟩
        (·.debit .treasury amount)).record e)) :
    Ends (alone run (spendTreasury budgetId amount callerRole callerAgentId
      idempotencyKey now)) db q r := by
  refine ends_find.2 ⟨fun budget hbudget => ?_,
    fun hnone => hr fun _ h => by cases hnone.symm.trans h.row⟩
  replace hr (hno : ¬ MaySpendTreasury db budgetId callerRole budget) : r db :=
    hr fun _ h => hno (some.inj (hbudget.symm.trans h.row) ▸ h)
  refine ends_alone_bind.2 (ends_assertNotPaused.2 ⟨fun hrunning => ?_, fun hpaused => hr fun h => ?_⟩)
  swap
  · cases hpaused.symm.trans h.running
  refine ends_check_bind.2 ⟨fun howner => ?_, fun hne => hr fun h => hne h.owner⟩
  refine ends_alone_bind.2 (ends_locked.2 (ends_alone_bind.2 (ends_sqlite.2
    ⟨fun kind hkind => ?_, fun e he => hr fun ⟨_, role, hrole, _⟩ => ?_⟩)))
  swap
  · simp [run, hrole] at he
  obtain ⟨role, hrole, rfl⟩ := map_eq_some_iff.1 (okOr_eq_ok.1 hkind)
  refine ends_check_bind.2 ⟨fun hoccupied => ?_, fun hne => hr fun ⟨_, role', hrole', h⟩ => hne ?_⟩
  swap
  · cases hrole.symm.trans hrole'
    exact h
  have hmay : MaySpendTreasury db budgetId callerRole budget :=
    ⟨⟨hbudget, hrunning, howner⟩, role, hrole, hoccupied⟩
  refine ends_alone_bind.2 (ends_dedup.2 (ends_unlessFound (fun e hkey => ?_) fun hkey => ?_))
  · exact ends_pureMethod.2 (hfound budget e hmay hkey)
  · refine ends_alone_bind.2 (ends_allowanceAt (fun alw _ hpolicy halw => ?_) (hrefreshed hkey))
    refine ends_check_bind.2 ⟨fun henough => ?_, fun _ => hrefreshed hkey⟩
    refine ends_alone_bind.2 (ends_locked.2 ?_)
    dsimp only [run, Db.spend]
    rw [Db.insertEventAfter_of_fresh]
    · refine ends_sqlite.2 ⟨fun _ _ => ?_, fun _ he => by cases he⟩
      exact hfresh budget alw _ hmay hkey hpolicy halw henough ⟨rfl, rfl, rfl, rfl, rfl⟩
    · refine Db.not_conflicts_of_key rfl ?_
      rw [Db.foundBy_congr Db.updateAllowance_events, Db.foundBy_refreshed]
      exact hkey

end Spends

/-! ## Allocations -/

/-- The guards of `allocate`. -/
structure MayAllocate (db : Db) (parentBudgetId childBudgetId callerRole : String)
    (parent child : Budget) : Prop extends Owned db parentBudgetId callerRole parent where
  childRow : db.budgets.lookup childBudgetId = some child
  trust : parent.trustId = child.trustId

section Allocate

variable {p c callerRole : String} {bundle : AllowanceBundle}
  {callerAgentId idempotencyKey : Option String} {nowParent nowChild : Int} {q : Unit → Db → Prop}

def Db.bothRefreshed (db : Db) (p c : String) (nowParent nowChild : Int) : Db :=
  (db.refreshed p nowParent).refreshed c nowChild

theorem Db.sameTree_bothRefreshed (db : Db) (p c : String) (nowParent nowChild : Int) :
    SameTree db (db.bothRefreshed p c nowParent nowChild) :=
  (db.sameTree_refreshed p nowParent).trans (sameTree_refreshed _ c nowChild)

theorem ends_allocate
    (hr : (∀ parent child, ¬ MayAllocate db p c callerRole parent child) → r db)
    (hparent : db.foundBy (some p) idempotencyKey = none → r (db.refreshed p nowParent))
    (hboth : db.foundBy (some p) idempotencyKey = none →
      (∃ latest, db.latestAllowance p = .ok latest) → r (db.bothRefreshed p c nowParent nowChild))
    (hfound : ∀ parent child e, MayAllocate db p c callerRole parent child →
      db.foundBy (some p) idempotencyKey = some e → q () db)
    (hfresh : ∀ parent child parentAlw childAlw e, MayAllocate db p c callerRole parent child →
      db.foundBy (some p) idempotencyKey = none →
      (db.policies.lookup p).isSome → (db.policies.lookup c).isSome →
      (db.bothRefreshed p c nowParent nowChild).latestAllowance p = .ok (some parentAlw) →
      (db.bothRefreshed p c nowParent nowChild).latestAllowance c = .ok (some childAlw) →
      bundle.needTotal ≤ parentAlw.remainingSuballoc → bundle.hireCap ≤ parentAlw.remainingHire →
      Records e .allocated p (some c) none idempotencyKey →
      q () ((((db.bothRefreshed p c nowParent nowChild).updateAllowance ⟨p, parentAlw.epoch⟩
        fun row => (row.debit .suballoc bundle.needTotal).hired bundle.hireCap).updateAllowance
          ⟨c, childAlw.epoch⟩ (·.funded bundle)).record e)) :
    Ends (alone run (allocate p c bundle callerRole callerAgentId idempotencyKey nowParent
      nowChild)) db q r := by
  refine ends_find.2 ⟨fun parent hparentRow => ?_,
    fun hnone => hr fun _ _ h => by cases hnone.symm.trans h.row⟩
  refine ends_find.2 ⟨fun child hchildRow => ?_,
    fun hnone => hr fun _ _ h => by cases hnone.symm.trans h.childRow⟩
  replace hr (hno : ¬ MayAllocate db p c callerRole parent child) : r db := hr fun _ _ h => by
    cases hparentRow.symm.trans h.row
    cases hchildRow.symm.trans h.childRow
    exact hno h
  refine ends_alone_bind.2 (ends_assertNotPaused.2 ⟨fun hrunning => ?_, fun hpaused => hr fun h => ?_⟩)
  swap
  · cases hpaused.symm.trans h.running
  refine ends_check_bind.2 ⟨fun howner => ?_, fun hne => hr fun h => hne h.owner⟩
  refine ends_check_bind.2 ⟨fun htrust => ?_, fun hne => hr fun h => hne h.trust⟩
  have hmay : MayAllocate db p c callerRole parent child :=
    ⟨⟨hparentRow, hrunning, howner⟩, hchildRow, htrust⟩
  refine ends_alone_bind.2 (ends_dedup.2 (ends_unlessFound (fun e hkey => ?_) fun hkey => ?_))
  · exact ends_pureMethod.2 (hfound parent child e hmay hkey)
  refine ends_alone_bind.2 (ends_refreshAt (fun _ latest _ hpolicy hlatest => ?_) (hparent hkey))
  replace hboth := hboth hkey ⟨latest, hlatest⟩
  refine ends_alone_bind.2 (ends_refreshAt (fun _ _ _ hchildPolicy _ => ?_) hboth)
  have hpolicy' : (db.policies.lookup c).isSome :=
    (db.sameTree_refreshed p nowParent).policies ▸ hchildPolicy
  refine ends_alone_bind.2 (ends_latestAllowance (fun parentAlw hparentAlw => ?_) hboth)
  refine ends_alone_bind.2 (ends_okOrElse.2 ⟨?_, fun _ => hboth⟩)
  rintro parentAlw rfl
  refine ends_alone_bind.2 (ends_latestAllowance (fun childAlw hchildAlw => ?_) hboth)
  refine ends_alone_bind.2 (ends_okOrElse.2 ⟨?_, fun _ => hboth⟩)
  rintro childAlw rfl
  refine ends_check_bind.2 ⟨fun henough => ?_, fun _ => hboth⟩
  refine ends_check_bind.2 ⟨fun hhire => ?_, fun _ => hboth⟩
  refine ends_alone_bind.2 (ends_locked.2 ?_)
  dsimp only [run, Db.allocate]
  rw [Db.insertEventAfter_of_fresh]
  · refine ends_sqlite.2 ⟨fun _ _ => ?_, nofun⟩
    exact hfresh parent child parentAlw childAlw _ hmay hkey hpolicy hpolicy' hparentAlw hchildAlw
      henough hhire ⟨rfl, rfl, rfl, rfl, rfl⟩
  · refine Db.not_conflicts_of_key rfl ?_
    rw [Db.foundBy_congr Db.updateAllowance_events, Db.foundBy_congr Db.updateAllowance_events,
      Db.foundBy_refreshed, Db.foundBy_refreshed]
    exact hkey

end Allocate

/-! ## Statements that commit one by one -/

/-- The statements succeed and leave `p`, or one fails and leaves `r`. -/
def Commits (ws : List Statement) (db : Db) (p r : Db → Prop) : Prop :=
  match autocommit ws db with
  | (.ok _, db') => p db'
  | (.error _, db') => r db'

theorem commits_nil {p : Db → Prop} : Commits [] db p r ↔ p db := Iff.rfl

theorem commits_cons {w : Statement} {ws : List Statement} {p : Db → Prop} :
    Commits (w :: ws) db p r ↔
      (∀ db', w db = .ok db' → Commits ws db' p r) ∧ (∀ e, w db = .error e → r db) := by
  unfold Commits
  rw [autocommit]
  cases w db <;> simp

theorem ends_committed {ws : List Statement} {q : Unit → Db → Prop} (h : Commits ws db (q ()) r) :
    Ends (alone Action.run (give ((autocommit ws db).1.mapError .sqlite))) (autocommit ws db).2
      q r := by
  unfold Commits at h
  refine ends_give.2 ⟨fun _ hok => ?_, fun e herror => ?_⟩
  · split at h
    next hrun =>
      rw [hrun]
      exact h
    next e _ hrun =>
      rw [hrun] at hok
      cases hok
  · split at h
    next hrun =>
      rw [hrun] at herror
      cases herror
    next hrun =>
      rw [hrun]
      exact h

/-! ## New budgets and policies -/

namespace Db

/-- A new row of `budgets`. -/
def withBudget (db : Db) (id : String) (b : Budget) : Db :=
  { db with budgets := db.budgets.insert id b }

def withPolicy (db : Db) (id : String) (policy : BudgetPolicy) : Db :=
  { db with policies := db.policies.insert id policy }

variable {id : String} {db' : Db}

theorem insertBudget_ok {b : Budget} (h : db.insertBudget id b = .ok db') :
    db.budgets.lookup id = none ∧ (∀ p, b.parentBudgetId = some p → (db.budgets.lookup p).isSome) ∧
      db' = db.withBudget id b := by
  unfold insertBudget at h
  split at h
  next => cases h
  next hfresh =>
    split at h
    next => cases h
    next =>
      split at h
      next => cases h
      next hkeys =>
        refine ⟨by simpa using hfresh, fun p hp => ?_, (Except.ok.inj h).symm⟩
        rw [hp] at hkeys
        simp only [any_some, missingBudget, not_or] at hkeys
        simpa [isSome_iff_ne_none] using hkeys.1

theorem insertPolicy_ok {policy : BudgetPolicy} (h : db.insertPolicy id policy = .ok db') :
    db.policies.lookup id = none ∧ db' = db.withPolicy id policy := by
  unfold insertPolicy at h
  split at h
  next => cases h
  next hfresh => exact ⟨by simpa using hfresh, (Except.ok.inj h).symm⟩

theorem upsertPolicy_ok {policy : BudgetPolicy} (h : db.upsertPolicy id policy = .ok db') :
    db' = db.withPolicy id policy := by
  unfold upsertPolicy at h
  split at h
  next => cases h
  next => exact (Except.ok.inj h).symm

end Db

/-- The guards of `create_budget`. -/
structure MayCreateBudget (db : Db) (trustId : String) (parentBudgetId : Option String)
    (ownerRoleId callerRole : String) : Prop where
  running : db.paused trustId = false
  owner : ∃ role, db.roles.lookup ownerRoleId = some role ∧ role.trustId = trustId
  parent : ∀ p, parentBudgetId = some p → ∃ b, db.budgets.lookup p = some b ∧
    b.trustId = trustId ∧ b.ownerRoleId = callerRole

theorem ends_assertOwnerRoleInTrust {roleId : String} {q : Unit → Db → Prop} :
    Ends (alone Action.run (assertOwnerRoleInTrust roleId trustId)) db q r ↔
      ((∃ role, db.roles.lookup roleId = some role ∧ role.trustId = trustId) → q () db) ∧
        ((¬ ∃ role, db.roles.lookup roleId = some role ∧ role.trustId = trustId) → r db) := by
  refine ends_alone_bind.trans (ends_act.trans (ends_give.trans ?_))
  simp only [Action.run, require_eq_ok, map_eq_some_iff]
  refine and_congr ⟨fun h => h (), fun h _ => h⟩ ?_
  simp

theorem ends_ownsParent {callerRole : String} {parentBudgetId : Option String}
    {q : Unit → Db → Prop}
    (hq : (∀ p, parentBudgetId = some p → ∃ b, db.budgets.lookup p = some b ∧
      b.trustId = trustId ∧ b.ownerRoleId = callerRole) → q () db)
    (hr : (¬ ∀ p, parentBudgetId = some p → ∃ b, db.budgets.lookup p = some b ∧
      b.trustId = trustId ∧ b.ownerRoleId = callerRole) → r db) :
    Ends (alone run (parentBudgetId.elim (pure ()) (ownsParent trustId callerRole)))
      db q r := by
  cases parentBudgetId with
  | none => exact ends_pureMethod.2 (hq nofun)
  | some p =>
    refine ends_find.2 ⟨?_, ?_⟩
    · intro b hb
      have hrefuse : ¬ (b.trustId = trustId ∧ b.ownerRoleId = callerRole) → r db := by
        refine fun hne => hr fun hall => ?_
        obtain ⟨b', hb', hmatch⟩ := hall p rfl
        cases hb.symm.trans hb'
        exact hne hmatch
      refine ends_check_bind.2 ⟨fun htrust => ?_, fun hne => ?_⟩
      · refine ends_check.2 ⟨fun howner => hq ?_, fun hne => ?_⟩
        · rintro _ ⟨⟩
          exact ⟨b, hb, htrust, howner⟩
        · exact hrefuse fun h => hne h.2
      · exact hrefuse fun h => hne h.1
    · refine fun hnone => hr fun hall => ?_
      obtain ⟨b, hb, -⟩ := hall p rfl
      cases hb.symm.trans hnone

section Create

variable {trustId ownerRoleId name callerRole id : String} {parentBudgetId : Option String}
  {kind : BudgetKind} {callerAgentId idempotencyKey : Option String} {q : String → Db → Prop}

/-- The row that `create_budget` inserts. -/
def newBudget (trustId : String) (parentBudgetId : Option String) (ownerRoleId name : String)
    (kind : BudgetKind) (callerRole : String) : Budget where
  trustId
  parentBudgetId
  ownerRoleId
  name
  kind
  isPrimary := false
  createdByRoleId := some callerRole

theorem ends_createBudget
    (hr : (∀ e c, MayCreateBudget db trustId parentBudgetId ownerRoleId callerRole →
      db.foundBy parentBudgetId idempotencyKey = some e → e.counterBudgetId ≠ some c) → r db)
    (hhalf : db.foundBy parentBudgetId idempotencyKey = none → db.budgets.lookup id = none →
      r (db.withBudget id (newBudget trustId parentBudgetId ownerRoleId name kind callerRole)))
    (hfound : ∀ e c, MayCreateBudget db trustId parentBudgetId ownerRoleId callerRole →
      db.foundBy parentBudgetId idempotencyKey = some e → e.counterBudgetId = some c → q c db)
    (hfresh : ∀ e, MayCreateBudget db trustId parentBudgetId ownerRoleId callerRole →
      db.foundBy parentBudgetId idempotencyKey = none →
      db.budgets.lookup id = none → db.policies.lookup id = none →
      Records e .budgetCreated (parentBudgetId.getD id) (some id) none idempotencyKey →
      q id (((db.withBudget id (newBudget trustId parentBudgetId ownerRoleId name kind
        callerRole)).withPolicy id (.zero (some callerRole))).record e)) :
    Ends (alone Action.run (createBudget trustId parentBudgetId ownerRoleId name kind callerRole
      callerAgentId idempotencyKey id)) db q r := by
  refine ends_base_bind.2 (ends_assertNotPaused.2 ⟨fun hrunning => ?_,
    fun hpaused => hr fun _ _ h => by cases hpaused.symm.trans h.running⟩)
  refine ends_alone_bind.2 (ends_assertOwnerRoleInTrust.2
    ⟨fun howner => ?_, fun hne => hr fun _ _ h => absurd h.owner hne⟩)
  refine ends_base_bind.2 (ends_ownsParent (fun hparent => ?_)
    fun hne => hr fun _ _ h => absurd h.parent hne)
  have hmay : MayCreateBudget db trustId parentBudgetId ownerRoleId callerRole :=
    ⟨hrunning, howner, hparent⟩
  refine ends_base_bind.2 (ends_dedupIn.2 ?_)
  cases hkey : db.foundBy parentBudgetId idempotencyKey with
  | some e =>
    refine ends_give.2 ⟨fun c hc => ?_, fun _ he => hr fun e' _ _ he' => ?_⟩
    swap
    · cases hkey.symm.trans he'
      rw [(okOr_eq_error.1 he).1]
      exact some_ne_none _ ∘ Eq.symm
    exact hfound e c hmay hkey (okOr_eq_ok.1 hc)
  | none =>
    refine ends_alone_bind.2 (ends_act.2 (ends_alone_bind.2 (ends_committed ?_)))
    refine commits_cons.2 ⟨fun db₁ h₁ => ?_, fun _ _ => hr fun _ _ _ he => by cases hkey.symm.trans he⟩
    obtain ⟨hnew, -, rfl⟩ := Db.insertBudget_ok h₁
    refine commits_cons.2 ⟨fun db₂ h₂ => ?_, fun _ _ => hhalf hkey hnew⟩
    obtain ⟨hnewPolicy, rfl⟩ := Db.insertPolicy_ok h₂
    refine commits_cons.2 ⟨fun db₃ h₃ => ?_, fun _ h₃ => ?_⟩
    · obtain ⟨-, rfl⟩ := Db.insertEvent_ok h₃
      refine commits_nil.2 (ends_pureRoutine.2 ?_)
      exact hfresh _ hmay hkey hnew hnewPolicy ⟨rfl, rfl, rfl, rfl, rfl⟩
    · rw [Db.insertEvent_of_fresh] at h₃
      · cases h₃
      · intro hconflict
        cases parentBudgetId with
        | none => exact Db.not_conflicts_of_anywhere rfl hkey hconflict
        | some p => exact Db.not_conflicts_of_key rfl hkey hconflict

end Create

section SetPolicy

variable {budgetId callerRole : String} {defaults : AllowanceBundle} {period : Int}
  {mode : RolloverMode} {callerAgentId idempotencyKey : Option String} {q : Unit → Db → Prop}

theorem ends_setPolicy
    (hr : (∀ budget, Owned db budgetId callerRole budget →
      db.foundBy (some budgetId) idempotencyKey = none) → r db)
    (hfound : ∀ budget e, Owned db budgetId callerRole budget →
      db.foundBy (some budgetId) idempotencyKey = some e → q () db)
    (hfresh : ∀ budget e, Owned db budgetId callerRole budget →
      db.foundBy (some budgetId) idempotencyKey = none →
      Records e .policySet budgetId none none idempotencyKey →
      q () ((db.withPolicy budgetId ⟨defaults, period, mode, some callerRole⟩).record e)) :
    Ends (alone Action.run (setPolicy budgetId defaults period mode callerRole callerAgentId
      idempotencyKey)) db q r := by
  refine ends_base_bind.2 (ends_ownedBudget (fun budget hmay => ?_)
    fun hne => hr fun budget h => absurd h (hne budget))
  refine ends_base_bind.2 (ends_dedupIn.2 (ends_unlessFound
    (fun e hkey => ends_pureRoutine.2 (hfound budget e hmay hkey)) fun hkey => ?_))
  refine ends_alone_bind.2 (ends_act.2 (ends_committed ?_))
  refine commits_cons.2 ⟨fun db₁ h₁ => ?_, fun _ _ => hr fun _ _ => hkey⟩
  obtain rfl := Db.upsertPolicy_ok h₁
  refine commits_cons.2 ⟨fun db₂ h₂ => ?_, fun _ h₂ => ?_⟩
  · obtain ⟨-, rfl⟩ := Db.insertEvent_ok h₂
    exact commits_nil.2 (hfresh budget _ hmay hkey ⟨rfl, rfl, rfl, rfl, rfl⟩)
  · rw [Db.insertEvent_of_fresh] at h₂
    · cases h₂
    · intro hconflict
      exact Db.not_conflicts_of_key rfl hkey hconflict

end SetPolicy

/-! ## Hires -/

namespace Hire

variable {h : Hire} {db' : Db}

/-- The rows of the new role and of its budget have been inserted. -/
structure Founded (h : Hire) (db db' : Db) : Prop where
  role : ∃ role s, role.trustId = h.trustId ∧
    RoleStore.Created db.toRoleStore h.roleId role
      (h.newRole.grants.getD (defaultGrantsForType role.roleType)) s ∧
    (h.parentRoleId = h.roleId ∧ db'.toRoleStore = s ∨
      h.parentRoleId ≠ h.roleId ∧ (s.roles.lookup h.parentRoleId).isSome ∧
        db'.toRoleStore = { s with roleEdges := [(h.parentRoleId, h.roleId)] ∪ s.roleEdges })
  entities : db'.entities = db.entities
  budgetFresh : db.budgets.lookup h.budgetId = none
  parentBudget : (db.budgets.lookup h.parentBudgetId).isSome
  policyFresh : db.policies.lookup h.budgetId = none
  budgets : db'.budgets = db.budgets.insert h.budgetId h.budget
  policies : db'.policies = db.policies.insert h.budgetId (.zero (some h.callerRole))
  allowances : db'.allowances = db.allowances
  events : db'.events = db.events
  treasuryConfig : db'.treasuryConfig = db.treasuryConfig

theorem role_trustId {role : Role} (hrole : h.role = .ok role) : role.trustId = h.trustId := by
  simp only [Hire.role, bind_eq_ok, pure_eq_ok] at hrole
  obtain ⟨_, -, _, -, rfl⟩ := hrole
  rfl

theorem insertRole_ok {id : String} {role : Role} {grants : List String}
    (hok : db.insertRole id role grants = .ok db') :
    ∃ s, RoleStore.Created db.toRoleStore id role grants s ∧ s.entities = db.entities ∧
      db' = { db with toRoleStore := s } := by
  unfold Db.insertRole at hok
  split at hok
  next => cases hok
  next hfresh =>
    split at hok
    next => cases hok
    next =>
      split at hok
      next => cases hok
      next =>
        cases hok
        exact ⟨RoleStore.addGrants id grants { db.toRoleStore with roles := db.roles.insert id role },
          ⟨by simpa using hfresh, rfl, fun _ => RoleStore.mem_addGrants, rfl⟩, rfl, rfl⟩

theorem insertEdge_ok {p c : String} (hok : db.insertEdge p c = .ok db') :
    (db.roles.lookup p).isSome ∧ db' = { db with roleEdges := [(p, c)] ∪ db.roleEdges } := by
  unfold Db.insertEdge at hok
  split at hok
  next => cases hok
  next hroles =>
    refine ⟨?_, (Except.ok.inj hok).symm⟩
    simp only [Db.missingRole, not_or] at hroles
    simpa [isSome_iff_ne_none] using hroles.1

theorem found_ok (hok : h.found db = .ok db') : h.Founded db db' := by
  simp only [found, bind_eq_ok] at hok
  obtain ⟨role, hrole, db₁, h₁, db₂, h₂, db₃, h₃, h₄⟩ := hok
  obtain ⟨s, hcreated, hentities, rfl⟩ := insertRole_ok h₁
  obtain ⟨hbudgetFresh, hparent, rfl⟩ := Db.insertBudget_ok h₃
  obtain ⟨hpolicyFresh, rfl⟩ := Db.insertPolicy_ok h₄
  have htrust := role_trustId hrole
  unfold place at h₂
  split at h₂
  next hself =>
    cases h₂
    exact ⟨⟨role, s, htrust, hcreated, .inl ⟨hself, rfl⟩⟩, hentities, hbudgetFresh,
      hparent _ rfl, hpolicyFresh, rfl, rfl, rfl, rfl, rfl⟩
  next hne =>
    obtain ⟨hrow, rfl⟩ := insertEdge_ok h₂
    exact ⟨⟨role, s, htrust, hcreated, .inr ⟨hne, hrow, rfl⟩⟩, hentities, hbudgetFresh,
      hparent _ rfl, hpolicyFresh, rfl, rfl, rfl, rfl, rfl⟩

/-- The allowances as the transaction debits them. -/
def opened (h : Hire) (db : Db) : Db :=
  (db.ensureAllowanceRow (h.parentKey db)).insertCaps (h.childKey db) {}

/-- A committed `hire`. -/
structure Hired (h : Hire) (db db' : Db) : Prop where
  found : ∃ db₁, h.Founded db db₁ ∧ (∃ row alw,
      (h.opened db₁).allowances.lookup (h.parentKey db₁) = some row ∧
      rowToAllowance (h.parentKey db₁) row = .ok alw ∧
      h.bundle.needTotal ≤ alw.remainingSuballoc ∧ 1 ≤ alw.remainingHire) ∧
    ∃ e₁ e₂ e₃ : TreasuryEvent,
      Records e₁ .budgetCreated h.parentBudgetId (some h.budgetId) none none ∧
      Records e₂ .allocated h.parentBudgetId (some h.budgetId) none none ∧
      Records e₃ .hired h.parentBudgetId (some h.budgetId) none h.idempotencyKey ∧
      db' = (((((h.opened db₁).updateAllowance (h.parentKey db₁) fun row =>
        (row.debit .suballoc h.bundle.needTotal).hired 1).updateAllowance (h.childKey db₁)
          (·.funded h.bundle)).record e₁).record e₂).record e₃

theorem write_ok (hok : h.write db = .ok db') : h.Hired db db' := by
  simp only [write, bind_eq_ok, mapError_eq_ok] at hok
  obtain ⟨db₁, h₁, _, hcaps, db₂, h₂, db₃, h₃, h₄⟩ := hok
  simp only [checkCaps, bind_eq_ok, mapError_eq_ok, okOr_eq_ok, require_eq_ok, exists_punit]
    at hcaps
  obtain ⟨row, hrow, alw, halw, hneed, hhire⟩ := hcaps
  obtain ⟨-, rfl⟩ := Db.insertEvent_ok h₂
  obtain ⟨-, rfl⟩ := Db.insertEvent_ok h₃
  obtain ⟨-, rfl⟩ := Db.insertEvent_ok h₄
  exact ⟨db₁, found_ok h₁, ⟨row, alw, hrow, halw, hneed, hhire⟩, _, _, _,
    ⟨rfl, rfl, rfl, rfl, rfl⟩, ⟨rfl, rfl, rfl, rfl, rfl⟩, ⟨rfl, rfl, rfl, rfl, rfl⟩, rfl⟩

end Hire

section HireCall

variable {p parentRoleId callerRole roleId budgetId : String} {newRole : NewRoleSpec}
  {bundle : AllowanceBundle} {callerAgentId idempotencyKey : Option String} {createdAt : Nat}
  {now : Int} {q : HireResult → Db → Prop}

theorem ends_hire
    (hr : (∀ parent, Owned db p callerRole parent →
      db.foundBy (some p) idempotencyKey = none) → r db)
    (hfound : ∀ parent e, Owned db p callerRole parent →
      db.foundBy (some p) idempotencyKey = some e → q ⟨"", e.counterBudgetId.getD ""⟩ db)
    (hfresh : ∀ parent db', Owned db p callerRole parent →
      db.foundBy (some p) idempotencyKey = none →
      Hire.Hired ⟨p, parent.trustId, parentRoleId, newRole, bundle, callerRole, callerAgentId,
        idempotencyKey, roleId, budgetId, createdAt, now⟩ db db' → q ⟨roleId, budgetId⟩ db') :
    Ends (alone Action.run (hire p parentRoleId newRole bundle callerRole callerAgentId
      idempotencyKey roleId budgetId createdAt now)) db q r := by
  refine ends_base_bind.2 (ends_ownedBudget (fun parent hmay => ?_)
    fun hne => hr fun parent h => absurd h (hne parent))
  refine ends_base_bind.2 (ends_dedupIn.2 ?_)
  cases hkey : db.foundBy (some p) idempotencyKey with
  | some e => exact ends_pureRoutine.2 (hfound parent e hmay hkey)
  | none =>
    refine ends_alone_bind.2 (ends_act.2 ?_)
    dsimp only [Action.run, transaction]
    split
    next db' hwrite =>
      refine ends_alone_bind.2 (ends_give.2 ⟨fun _ _ => ?_, nofun⟩)
      exact ends_pureRoutine.2 (hfresh parent db' hmay hkey (Hire.write_ok hwrite))
    next => exact ends_alone_bind.2 (ends_give.2 ⟨(nofun), fun _ _ => hr fun _ _ => hkey⟩)

end HireCall

/-! ## Dissolutions -/

namespace Db

def without (db : Db) (budgetId : String) : Db :=
  { db with events := db.events.filter fun e =>
      ¬ (e.budgetId = budgetId ∨ e.counterBudgetId = some budgetId) }.deleteBudget budgetId

theorem erase_ok {db' : Db} {budgetId : String} {e : TreasuryEvent} (he : e.budgetId = budgetId)
    (h : db.erase budgetId e = .ok db') : db' = db.without budgetId := by
  simp only [erase, bind_eq_ok, pure_eq_ok] at h
  obtain ⟨db₁, h₁, rfl⟩ := h
  obtain ⟨-, rfl⟩ := insertEvent_ok h₁
  have hkept : ∀ e' ∈ db.events.filter (fun e =>
      ¬ (e.budgetId = budgetId ∨ e.counterBudgetId = some budgetId)), e'.budgetId ≠ budgetId := by
    intro e' he'
    have hnot := of_decide_eq_true (mem_filter.1 he').2
    exact fun heq => hnot (.inl heq)
  have hevents : (e :: db.events.filter (fun e =>
      ¬ (e.budgetId = budgetId ∨ e.counterBudgetId = some budgetId))).filter
        (fun e => e.budgetId ≠ budgetId) =
      db.events.filter (fun e => ¬ (e.budgetId = budgetId ∨ e.counterBudgetId = some budgetId)) := by
    rw [filter_cons_of_neg (by simp [he])]
    exact filter_eq_self.2 fun e' he' => decide_eq_true (hkept e' he')
  unfold without record deleteBudget
  dsimp only
  rw [hevents]

end Db

/-- The guards of `dissolve`. -/
structure MayDissolve (db : Db) (budgetId callerRole : String) (budget : Budget) : Prop where
  row : db.budgets.lookup budgetId = some budget
  running : db.paused budget.trustId = false
  owner : budget.ownerRoleId = callerRole ∨ ∃ p parent, budget.parentBudgetId = some p ∧
    db.budgets.lookup p = some parent ∧ parent.ownerRoleId = callerRole
  notPrimary : budget.isPrimary = false

section Dissolve

variable {budgetId callerRole : String} {callerAgentId idempotencyKey : Option String}
  {q : Unit → Db → Prop}

variable {budget : Budget}

theorem ends_ownsOrParent
    (hq : (budget.ownerRoleId = callerRole ∨ ∃ p parent, budget.parentBudgetId = some p ∧
      db.budgets.lookup p = some parent ∧ parent.ownerRoleId = callerRole) → q () db)
    (hr : (¬ (budget.ownerRoleId = callerRole ∨ ∃ p parent, budget.parentBudgetId = some p ∧
      db.budgets.lookup p = some parent ∧ parent.ownerRoleId = callerRole)) → r db) :
    Ends (alone run (ownsOrParent budget callerRole)) db q r := by
  unfold ownsOrParent
  split
  next howner => exact ends_pureMethod.2 (hq (.inl howner))
  next hother =>
    split
    next hnone =>
      refine ends_passed.2 ⟨(nofun), fun _ _ => hr ?_⟩
      rintro (howner | ⟨p, _, hp, -⟩)
      · exact hother howner
      · cases hnone.symm.trans hp
    next p hp =>
      refine ends_find.2 ⟨?_, ?_⟩
      · intro parent hparent
        refine ends_check.2 ⟨fun howner => hq (.inr ⟨p, parent, hp, hparent, howner⟩), ?_⟩
        refine fun hne => hr ?_
        rintro (howner | ⟨p', parent', hp', hparent', howner⟩)
        · exact hother howner
        · cases hp.symm.trans hp'
          cases hparent.symm.trans hparent'
          exact hne howner
      · refine fun hmissing => hr ?_
        rintro (howner | ⟨p', parent', hp', hparent', -⟩)
        · exact hother howner
        · cases hp.symm.trans hp'
          cases hmissing.symm.trans hparent'

theorem ends_dissolve_guards
    (hr : (∀ budget, ¬ MayDissolve db budgetId callerRole budget) → r db)
    (hfound : ∀ budget e, MayDissolve db budgetId callerRole budget →
      db.foundBy (some budgetId) idempotencyKey = some e → q () db)
    (hfresh : ∀ budget (event : TreasuryEvent), MayDissolve db budgetId callerRole budget →
      event.budgetId = budgetId → event.requestHash = none →
      db.foundBy (some budgetId) idempotencyKey = none →
        Ends (alone Action.run (act (.dissolve budgetId event) >>= give)) db q r) :
    Ends (alone Action.run (dissolve budgetId callerRole callerAgentId idempotencyKey)) db q r := by
  refine ends_base_bind.2 (ends_locked.2 ?_)
  refine ends_base_bind.2 (ends_okOrElse.2 ⟨fun budget hbudget => ?_,
    fun hnone => hr fun _ h => by cases hnone.symm.trans h.row⟩)
  replace hr (hno : ¬ MayDissolve db budgetId callerRole budget) : r db :=
    hr fun _ h => hno (some.inj (hbudget.symm.trans h.row) ▸ h)
  refine ends_base_bind.2 (ends_assertNotPaused.2 ⟨fun hrunning => ?_,
    fun hpaused => hr fun h => by cases hpaused.symm.trans h.running⟩)
  refine ends_base_bind.2 (ends_ownsOrParent (fun howner => ?_) fun hne => hr fun h => hne h.owner)
  refine ends_base_bind.2 (ends_check.2 ⟨fun hprimary => ?_, fun hne => hr fun h => hne h.notPrimary⟩)
  have hmay : MayDissolve db budgetId callerRole budget := ⟨hbudget, hrunning, howner, hprimary⟩
  refine ends_base_bind.2 (ends_dedupIn.2 (ends_unlessFound
    (fun e hkey => ends_pureRoutine.2 (hfound budget e hmay hkey)) fun hkey => ?_))
  exact hfresh budget _ hmay rfl rfl hkey

theorem ends_dissolve (hr : r db)
    (hfound : ∀ budget e, MayDissolve db budgetId callerRole budget →
      db.foundBy (some budgetId) idempotencyKey = some e → q () db)
    (hfresh : ∀ budget, MayDissolve db budgetId callerRole budget →
      db.foundBy (some budgetId) idempotencyKey = none → db.hasDescendants budgetId = false →
      db.hasBalance budgetId = false → q () (db.without budgetId)) :
    Ends (alone Action.run (dissolve budgetId callerRole callerAgentId idempotencyKey)) db q r := by
  refine ends_dissolve_guards (fun _ => hr) hfound fun budget event hmay hbudget _ hkey => ?_
  refine ends_alone_bind.2 (ends_act.2 ?_)
  dsimp only [Action.run, Db.dissolve]
  split
  next => exact ends_give.2 ⟨(nofun), fun _ _ => hr⟩
  next hleaf =>
    split
    next => exact ends_give.2 ⟨(nofun), fun _ _ => hr⟩
    next hzero =>
      unfold transaction
      split
      next db' herase =>
        refine ends_give.2 ⟨fun _ _ => ?_, nofun⟩
        rw [Db.erase_ok hbudget (mapError_eq_ok.1 herase)]
        exact hfresh budget hmay hkey (Bool.eq_false_iff.2 hleaf) (Bool.eq_false_iff.2 hzero)
      next => exact ends_give.2 ⟨(nofun), fun _ _ => hr⟩

end Dissolve

end Aeqi.Orchestrator
