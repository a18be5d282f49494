import Aeqi.Orchestrator.Allocations
import Aeqi.Orchestrator.BudgetFrames

/-!
# The allowance of the current epoch

What the calls are to do to the allowances is said by two operations: `Db.opened` materialises
the allowance of the current epoch of a budget unless there is one, and `Db.charge` changes the
latest. A call opens the allowances of its budgets one after the other and then charges them.
`refresh_at`, `allocate` and the spends do so as long as no rollover leaves 64 bits. `hire`
computes the epoch from the clock alone and writes the plain defaults of the policy, so it does
so only when no later epoch has an allowance and nothing is to be carried over.
-/

namespace Aeqi.Orchestrator

open Aeqi.Lib Handler List Option

/-! ## Opening and charging -/

/-- What is left on the three rails that are carried over. -/
def AllowanceRow.unspent (row : AllowanceRow) : AllowanceBundle where
  inferenceCredits := max (row.caps.inferenceCredits - row.spentInference) 0
  treasuryCap := max (row.caps.treasuryCap - row.spentTreasury) 0
  suballocCap := max (row.caps.suballocCap - row.spentSuballoc) 0

namespace Db

variable (db : Db)

def latestRow (b : String) : Option AllowanceRow :=
  (db.latestEpoch b).bind fun e => db.allowances.lookup ⟨b, e⟩

/-- The epoch of a clock reading, unless a later one has an allowance. -/
def epochIn (b : String) (budget : Budget) (policy : BudgetPolicy) (now : Int) : Int :=
  (db.latestEpoch b).elim (db.currentEpoch budget policy now)
    (max · (db.currentEpoch budget policy now))

def openingCaps (b : String) (policy : BudgetPolicy) : AllowanceBundle :=
  match policy.rolloverMode, db.latestRow b with
  | .rollover, some row => policy.defaults + row.unspent
  | _, _ => policy.defaults

/-- The allowance of the current epoch exists. -/
def opened (b : String) (now : Int) : Db :=
  match db.budgets.lookup b, db.policies.lookup b with
  | some budget, some policy =>
    db.insertCaps ⟨b, db.epochIn b budget policy now⟩ (db.openingCaps b policy)
  | _, _ => db

def charge (b : String) (f : AllowanceRow → AllowanceRow) : Db :=
  match db.latestEpoch b with
  | some e => db.updateAllowance ⟨b, e⟩ f
  | none => db

def openedAll : Db → List (String × Int) → Db
  | db, [] => db
  | db, (b, now) :: readings => openedAll (db.opened b now) readings

def chargeAll : Db → List (String × (AllowanceRow → AllowanceRow)) → Db
  | db, [] => db
  | db, (b, f) :: charges => chargeAll (db.charge b f) charges

end Db

namespace BudgetRequest

def readings (draw : Draw) : BudgetRequest → List (String × Int)
  | .allocate p c _ _ _ _ => [(p, draw.now), (c, draw.later)]
  | .spendInference b _ _ _ _ => [(b, draw.now)]
  | .spendTreasury b _ _ _ _ => [(b, draw.now)]
  | .hire p _ _ _ _ _ _ => [(p, draw.now), (draw.budgetId, draw.now)]
  | .refreshAt b => [(b, draw.now)]
  | _ => []

def charges (draw : Draw) : BudgetRequest → List (String × (AllowanceRow → AllowanceRow))
  | .allocate p c bundle _ _ _ =>
    [(p, fun row => (row.debit .suballoc bundle.needTotal).hired bundle.hireCap),
      (c, (·.funded bundle))]
  | .spendInference b amount _ _ _ => [(b, (·.debit .inference amount))]
  | .spendTreasury b amount _ _ _ => [(b, (·.debit .treasury amount))]
  | .hire p _ _ bundle _ _ _ =>
    [(p, fun row => (row.debit .suballoc bundle.needTotal).hired 1),
      (draw.budgetId, (·.funded bundle))]
  | _ => []

def Covered (db : Db) : BudgetRequest → Prop
  | .allocate p _ bundle _ _ _ => bundle.needTotal ≤ (db.remaining p).suballocCap ∧
      bundle.hireCap ≤ (db.remaining p).hireCap
  | .spendInference b amount _ _ _ => amount ≤ (db.remaining b).inferenceCredits
  | .spendTreasury b amount _ _ _ => amount ≤ (db.remaining b).treasuryCap
  | .hire p _ _ bundle _ _ _ => bundle.needTotal ≤ (db.remaining p).suballocCap ∧
      1 ≤ (db.remaining p).hireCap
  | _ => True

/-- A `hire` first inserts the new budget, with a policy that gives it nothing. -/
def founded (draw : Draw) (db : Db) : BudgetRequest → Db
  | .hire p _ newRole _ callerRole _ _ =>
    match db.budgets.lookup p with
    | none => db
    | some parent => (db.withBudget draw.budgetId {
        trustId := parent.trustId
        parentBudgetId := some p
        ownerRoleId := draw.roleId
        name := "Primary — " ++ newRole.title
        kind := .primary
        isPrimary := true
        createdByRoleId := some callerRole }).withPolicy draw.budgetId (.zero (some callerRole))
  | _ => db

/-- The store with the allowances that a call uses. -/
def opened (draw : Draw) (db : Db) (req : BudgetRequest) : Db :=
  (req.founded draw db).openedAll (req.readings draw)

end BudgetRequest

open BudgetRequest (founded opened)

/-- A call that returns charges the current allowances, which cover it, unless it found its key;
one that fails has at most opened some of them. -/
def Agrees (db : Db) (x : BudgetRequest × Draw) : Prop :=
  Ends (x.1.call x.2) db
    (fun _ db' => (x.1.found db).isSome ∧ db'.allowances = db.allowances ∨
      x.1.found db = none ∧ x.1.Covered (x.1.opened x.2 db) ∧
        db'.allowances = ((x.1.opened x.2 db).chargeAll (x.1.charges x.2)).allowances)
    fun db' => ∃ n, db'.allowances = (db.openedAll ((x.1.readings x.2).take n)).allowances

def UsesEpoch (db : Db) (x : BudgetRequest × Draw) (b : String) (e : Int) : Prop :=
  (x.1.call x.2 db).1.isOk ∧ x.1.found db = none ∧ b ∈ (x.1.readings x.2).map Prod.fst ∧
    (x.1.opened x.2 db).latestEpoch b = some e

/-! ## When the calls agree -/

namespace Db

variable (db : Db)

/-- The allowance that is to be opened carries over what 64 bits hold. -/
def RollsOver (b : String) (now : Int) : Prop :=
  match db.budgets.lookup b, db.policies.lookup b, db.latestRow b with
  | some budget, some policy, some row =>
    policy.rolloverMode = .rollover →
      db.allowances.lookup ⟨b, db.epochIn b budget policy now⟩ = none →
        row.RailsFit ∧ InI64 (policy.defaults + row.unspent).inferenceCredits ∧
          InI64 (policy.defaults + row.unspent).treasuryCap ∧
          InI64 (policy.defaults + row.unspent).suballocCap
  | _, _, _ => True

instance RollsOver.decidable (b : String) (now : Int) : Decidable (db.RollsOver b now) := by
  unfold RollsOver
  split <;> infer_instance

def AllRollOver : Db → List (String × Int) → Prop
  | _, [] => True
  | db, (b, now) :: readings => db.RollsOver b now ∧ AllRollOver (db.opened b now) readings

instance AllRollOver.decidable : ∀ (db : Db) readings, Decidable (db.AllRollOver readings)
  | _, [] => isTrue trivial
  | db, (b, now) :: readings =>
    have := AllRollOver.decidable (db.opened b now) readings
    inferInstanceAs (Decidable (_ ∧ _))

/-- No later epoch has an allowance, and the one of this epoch exists or carries nothing over. -/
def OnTime (b : String) (budget : Budget) (now : Int) : Prop :=
  match db.policies.lookup b with
  | none => True
  | some policy =>
    db.epochIn b budget policy now = db.currentEpoch budget policy now ∧
      ((db.allowances.lookup ⟨b, db.currentEpoch budget policy now⟩).isSome ∨
        db.openingCaps b policy = policy.defaults)

instance OnTime.decidable (b : String) (budget : Budget) (now : Int) :
    Decidable (db.OnTime b budget now) := by
  unfold OnTime
  split <;> infer_instance

end Db

/-- A `hire` that is not refused, nor finds its key, comes on time. -/
def MeetsEpoch (db : Db) (x : BudgetRequest × Draw) : Prop :=
  match x.1 with
  | .hire p _ _ _ callerRole _ key =>
    match db.budgets.lookup p with
    | none => True
    | some budget => db.paused budget.trustId = false → budget.ownerRoleId = callerRole →
        db.foundBy (some p) key = none → db.OnTime p budget x.2.now
  | req => db.AllRollOver (req.readings x.2)

instance MeetsEpoch.decidable (db : Db) (x : BudgetRequest × Draw) :
    Decidable (MeetsEpoch db x) := by
  unfold MeetsEpoch
  split
  · split <;> infer_instance
  · infer_instance

/-! ## What opening does -/

namespace Db

variable {db : Db} {b b' : String} {now : Int} {k k' : AllowanceKey} {caps : AllowanceBundle}
  {f : AllowanceRow → AllowanceRow}

theorem insertCaps_of_some (h : (db.allowances.lookup k).isSome) : db.insertCaps k caps = db := by
  obtain ⟨row, hrow⟩ := isSome_iff_exists.1 h
  rw [insertCaps, hrow]

theorem insertCaps_of_none (h : db.allowances.lookup k = none) :
    db.insertCaps k caps = { db with allowances := db.allowances.insert k { caps } } := by
  rw [insertCaps, h]

theorem lookup_insertCaps :
    (db.insertCaps k caps).allowances.lookup k' =
      if k' = k then some ((db.allowances.lookup k).getD { caps })
      else db.allowances.lookup k' := by
  cases hk : db.allowances.lookup k with
  | some row =>
    rw [insertCaps_of_some (by rw [hk]; rfl)]
    split
    next heq => rw [heq, hk, getD_some]
    next => rfl
  | none =>
    rw [insertCaps_of_none hk]
    split
    next heq => rw [heq, AList.lookup_insert, getD_none]
    next hne => exact AList.lookup_insert_ne hne

theorem isSome_lookup_insertCaps :
    ((db.insertCaps k caps).allowances.lookup k').isSome =
      (decide (k' = k) || (db.allowances.lookup k').isSome) := by
  rw [lookup_insertCaps]
  split
  next heq => simp [heq]
  next hne => simp [hne]

theorem latestEpoch_opened {budget : Budget} {policy : BudgetPolicy}
    (hbudget : db.budgets.lookup b = some budget) (hpolicy : db.policies.lookup b = some policy) :
    (db.opened b now).latestEpoch b = some (db.epochIn b budget policy now) := by
  simp only [opened, hbudget, hpolicy]
  refine latestEpoch_eq_some.2 ⟨by simp [isSome_lookup_insertCaps], fun e he => ?_⟩
  rw [isSome_lookup_insertCaps, Bool.or_eq_true, decide_eq_true_eq] at he
  rcases he with heq | hold
  · cases heq
    omega
  · obtain ⟨l, hl, hle⟩ := le_latestEpoch hold
    unfold epochIn
    rw [hl, elim_some]
    omega

theorem lookup_opened_ne (hne : k.budgetId ≠ b) :
    (db.opened b now).allowances.lookup k = db.allowances.lookup k := by
  unfold opened
  split
  next =>
    rw [lookup_insertCaps, if_neg]
    rintro rfl
    exact hne rfl
  next => rfl

theorem latestEpoch_opened_ne (hne : b' ≠ b) :
    (db.opened b now).latestEpoch b' = db.latestEpoch b' :=
  latestEpoch_congr fun _ => by rw [lookup_opened_ne hne]

theorem isSome_lookup_opened (h : (db.allowances.lookup k).isSome) :
    ((db.opened b now).allowances.lookup k).isSome := by
  unfold opened
  split
  next => rw [isSome_lookup_insertCaps, h, Bool.or_true]
  next => exact h

theorem sameTree_opened : SameTree db (db.opened b now) := by
  unfold opened
  split
  next => exact sameTree_insertCaps
  next => exact .refl

theorem isSome_lookup_charge :
    ((db.charge b f).allowances.lookup k).isSome = (db.allowances.lookup k).isSome := by
  unfold charge
  split
  next => exact isSome_lookup_updateAllowance
  next => rfl

theorem charge_of_latest {e : Int} (h : db.latestEpoch b = some e) :
    db.charge b f = db.updateAllowance ⟨b, e⟩ f := by
  rw [charge, h]

end Db

/-! ## Refreshing is opening -/

variable {db : Db}

theorem Db.currentEpoch_congr {db' : Db} (h : db'.entities = db.entities) (budget : Budget)
    (policy : BudgetPolicy) (now : Int) :
    db'.currentEpoch budget policy now = db.currentEpoch budget policy now := by
  unfold currentEpoch trustAnchorUnix
  rw [h]

/-- The same budgets with the same policies and allowances. -/
structure Alike (db db' : Db) : Prop where
  entities : db'.entities = db.entities
  budgets : db'.budgets = db.budgets
  policies : db'.policies = db.policies
  allowances : db'.allowances = db.allowances

namespace Alike

variable {db db' : Db} {b : String} {now : Int}

theorem trans {db'' : Db} (h : Alike db db') (h' : Alike db' db'') : Alike db db'' :=
  ⟨h'.entities.trans h.entities, h'.budgets.trans h.budgets, h'.policies.trans h.policies,
    h'.allowances.trans h.allowances⟩

theorem ofSameTree (h : SameTree db db') {db'' : Db} (h' : SameTree db db'')
    (hrows : db''.allowances = db'.allowances) : Alike db' db'' where
  entities := by rw [h.store, h'.store]
  budgets := h'.budgets.trans h.budgets.symm
  policies := h'.policies.trans h.policies.symm
  allowances := hrows

theorem latestEpoch (h : Alike db db') (b : String) : db'.latestEpoch b = db.latestEpoch b :=
  Db.latestEpoch_congr fun e => by rw [h.allowances]

theorem latestAllowance (h : Alike db db') (b : String) :
    db'.latestAllowance b = db.latestAllowance b :=
  Db.latestAllowance_congr fun e => by rw [h.allowances]

theorem latestRow (h : Alike db db') (b : String) : db'.latestRow b = db.latestRow b := by
  unfold Db.latestRow
  rw [h.latestEpoch, h.allowances]

theorem epochIn (h : Alike db db') (b : String) : db'.epochIn b = db.epochIn b := by
  funext budget policy now
  unfold Db.epochIn
  rw [h.latestEpoch, Db.currentEpoch_congr h.entities]

theorem openingCaps (h : Alike db db') (b : String) (policy : BudgetPolicy) :
    db'.openingCaps b policy = db.openingCaps b policy := by
  unfold Db.openingCaps
  rw [h.latestRow]

theorem insertCaps (h : Alike db db') (k : AllowanceKey) (caps : AllowanceBundle) :
    Alike (db.insertCaps k caps) (db'.insertCaps k caps) := by
  unfold Db.insertCaps
  rw [h.allowances]
  split
  next => exact h
  next => exact ⟨h.entities, h.budgets, h.policies, rfl⟩

theorem updateAllowance (h : Alike db db') (k : AllowanceKey) (f : AllowanceRow → AllowanceRow) :
    Alike (db.updateAllowance k f) (db'.updateAllowance k f) := by
  unfold Db.updateAllowance
  rw [h.allowances]
  split
  next => exact ⟨h.entities, h.budgets, h.policies, rfl⟩
  next => exact h

theorem opened (h : Alike db db') (b : String) (now : Int) :
    Alike (db.opened b now) (db'.opened b now) := by
  unfold Db.opened
  rw [h.budgets, h.policies]
  split
  next =>
    rw [h.epochIn, h.openingCaps]
    exact h.insertCaps _ _
  next => exact h

theorem rollsOver (h : Alike db db') (hroll : db.RollsOver b now) : db'.RollsOver b now := by
  unfold Db.RollsOver at ⊢
  rw [h.budgets, h.policies, h.latestRow, h.epochIn, h.allowances]
  exact hroll

end Alike

namespace Db

variable {db : Db} {b : String} {budget : Budget} {policy : BudgetPolicy} {now : Int}
  {latest : Option BudgetAllowance}

theorem refresh_old (h : db.latestAllowance b = .ok latest)
    (hold : ¬ needNew latest (db.currentEpoch budget policy now) = true) :
    (db.refresh b budget policy now).2 = db := by
  unfold refresh
  rw [h]
  dsimp only
  rw [if_neg hold]

theorem refresh_new (h : db.latestAllowance b = .ok latest)
    (hnew : needNew latest (db.currentEpoch budget policy now) = true) :
    (db.refresh b budget policy now).2.allowances =
      (db.insertCaps ⟨b, db.currentEpoch budget policy now⟩
        (policy.newCaps latest)).allowances := by
  have hnone := lookup_of_needNew h hnew
  unfold refresh
  rw [h]
  dsimp only
  rw [if_pos hnew, insertEvent_of_fresh (by simp [Conflicts]), insertCaps_of_none hnone]
  simp only [upsertCaps, hnone]
  split <;> rfl

end Db

variable {k : AllowanceKey}

theorem newCaps_rollover {policy : BudgetPolicy} {row : AllowanceRow}
    (hmode : policy.rolloverMode = .rollover) (hfits : row.RailsFit)
    (hinference : InI64 (policy.defaults + row.unspent).inferenceCredits)
    (htreasury : InI64 (policy.defaults + row.unspent).treasuryCap)
    (hsuballoc : InI64 (policy.defaults + row.unspent).suballocCap) :
    policy.newCaps (some (row.seen k)) = policy.defaults + row.unspent := by
  simp only [BudgetPolicy.newCaps, hmode]
  have hrow : (row.seen k).RailsFit := hfits
  unfold BudgetAllowance.remainingInference BudgetAllowance.remainingTreasury
    BudgetAllowance.remainingSuballoc
  rw [wrapI64_of_inI64 hrow.inference, wrapI64_of_inI64 hrow.treasury,
    wrapI64_of_inI64 hrow.suballoc]
  apply AllowanceBundle.ext
  · exact wrapI64_of_inI64 hinference
  · exact wrapI64_of_inI64 htreasury
  · exact wrapI64_of_inI64 hsuballoc
  · exact (Int.add_zero _).symm

namespace Db

variable {db : Db} {b : String} {now : Int} {latest : Option BudgetAllowance}

theorem refreshed_allowances (h : db.latestAllowance b = .ok latest) (hroll : db.RollsOver b now) :
    (db.refreshed b now).allowances = (db.opened b now).allowances := by
  cases hbudget : db.budgets.lookup b with
  | none => simp [refreshed_of_budget_none hbudget, opened, hbudget]
  | some budget =>
    cases hpolicy : db.policies.lookup b with
    | none => simp [refreshed_of_policy_none hpolicy, opened, hpolicy]
    | some policy =>
      rw [refreshed_of_some hbudget hpolicy]
      simp only [opened, hbudget, hpolicy]
      cases latest with
      | none =>
        have hl : db.latestEpoch b = none := latestAllowance_eq_none.1 h
        have hepoch : db.epochIn b budget policy now = db.currentEpoch budget policy now := by
          rw [epochIn, hl, elim_none]
        have hcaps : db.openingCaps b policy = policy.defaults := by
          unfold openingCaps latestRow
          rw [hl]
          cases policy.rolloverMode <;> rfl
        rw [refresh_new h rfl, hepoch, hcaps]
        rfl
      | some a =>
        obtain ⟨e, row, hl, hrow, -, rfl⟩ := latestAllowance_eq_some.1 h
        have hlatest : db.latestRow b = some row := by
          rw [latestRow, hl, bind_some, hrow]
        have hepoch : db.epochIn b budget policy now =
            max e (db.currentEpoch budget policy now) := by
          rw [epochIn, hl, elim_some]
        by_cases hnew : e < db.currentEpoch budget policy now
        · have hnew' : needNew (some (row.seen ⟨b, e⟩)) (db.currentEpoch budget policy now) =
              true := decide_eq_true hnew
          rw [Int.max_eq_right (by omega)] at hepoch
          rw [refresh_new h hnew', hepoch]
          have hnone := lookup_of_needNew h hnew'
          unfold RollsOver at hroll
          simp only [hbudget, hpolicy, hlatest] at hroll
          unfold openingCaps
          rw [hlatest]
          cases hmode : policy.rolloverMode with
          | burn => simp [BudgetPolicy.newCaps, hmode]
          | rollover =>
            obtain ⟨hfits, hinference, htreasury, hsuballoc⟩ := hroll hmode (hepoch ▸ hnone)
            rw [newCaps_rollover hmode hfits hinference htreasury hsuballoc]
        · have hold : ¬ needNew (some (row.seen ⟨b, e⟩))
              (db.currentEpoch budget policy now) = true := by
            simp only [needNew, decide_eq_true_eq]
            exact hnew
          rw [Int.max_eq_left (by omega)] at hepoch
          rw [refresh_old h hold, hepoch, insertCaps_of_some (by rw [hrow]; rfl)]

end Db

theorem alike_refreshed {b : String} {now : Int} {latest : Option BudgetAllowance}
    (h : db.latestAllowance b = .ok latest) (hroll : db.RollsOver b now) :
    Alike (db.opened b now) (db.refreshed b now) :=
  .ofSameTree Db.sameTree_opened (db.sameTree_refreshed b now) (Db.refreshed_allowances h hroll)

/-! ## Calls -/

namespace Db

variable {db : Db} {b b' : String} {now : Int}

theorem latestAllowance_refreshed_ne (hne : b' ≠ b) :
    (db.refreshed b' now).latestAllowance b = db.latestAllowance b := by
  refine latestAllowance_congr fun e => ?_
  rcases db.refreshed_cases b' now with hsame | ⟨budget, policy, -, -, hrefresh⟩
  · rw [hsame]
  · rw [hrefresh]
    cases hlatest : db.latestAllowance b' with
    | error err => rw [refresh_error hlatest]
    | ok latest =>
      by_cases hnew : needNew latest (db.currentEpoch budget policy now) = true
      · rw [refresh_new hlatest hnew, lookup_insertCaps, if_neg]
        rintro heq
        exact hne (congrArg AllowanceKey.budgetId heq).symm
      · rw [refresh_old hlatest hnew]

theorem refreshed_of_error {e : SqliteError} (h : db.latestAllowance b = .error e) :
    db.refreshed b now = db := by
  rcases db.refreshed_cases b now with hsame | ⟨budget, policy, -, -, hrefresh⟩
  · exact hsame
  · rw [hrefresh, refresh_error h]

theorem latestAllowance_of_refreshed {latest : Option BudgetAllowance}
    (h : (db.refreshed b' now).latestAllowance b = .ok latest) :
    ∃ latest', db.latestAllowance b = .ok latest' := by
  cases hb : db.latestAllowance b with
  | ok latest' => exact ⟨latest', rfl⟩
  | error e =>
    by_cases heq : b' = b
    · subst heq
      rw [refreshed_of_error hb, hb] at h
      cases h
    · rw [latestAllowance_refreshed_ne heq, hb] at h
      cases h

theorem refreshed_opens (hroll : db.RollsOver b now) :
    (db.refreshed b now).allowances = db.allowances ∨
      (db.refreshed b now).allowances = (db.opened b now).allowances := by
  cases hlatest : db.latestAllowance b with
  | error e => exact .inl (by rw [refreshed_of_error hlatest])
  | ok latest => exact .inr (refreshed_allowances hlatest hroll)

end Db

section Charges

variable {db : Db} {b p c : String} {now later : Int} {f g : AllowanceRow → AllowanceRow}
  {a a' : BudgetAllowance}

theorem charge_charge (ha : db.latestAllowance p = .ok (some a))
    (ha' : db.latestAllowance c = .ok (some a')) :
    (db.charge p f).charge c g =
      (db.updateAllowance ⟨p, a.epoch⟩ f).updateAllowance ⟨c, a'.epoch⟩ g := by
  rw [Db.charge_of_latest (Db.latestEpoch_of_latest ha)]
  exact Db.charge_of_latest
    (Db.latestEpoch_updateAllowance.trans (Db.latestEpoch_of_latest ha'))

theorem spend_charges (hroll : db.RollsOver b now)
    (ha : (db.refreshed b now).latestAllowance b = .ok (some a)) (e : TreasuryEvent) :
    (db.opened b now).remaining b = a.remaining ∧
      (((db.refreshed b now).updateAllowance ⟨b, a.epoch⟩ f).record e).allowances =
        ((db.opened b now).charge b f).allowances := by
  obtain ⟨latest, hlatest⟩ := Db.latestAllowance_of_refreshed ha
  have halike := alike_refreshed hlatest hroll
  have hopened : (db.opened b now).latestAllowance b = .ok (some a) :=
    (halike.latestAllowance b).symm.trans ha
  rw [Db.charge_of_latest (Db.latestEpoch_of_latest hopened)]
  exact ⟨Db.remaining_of_latest hopened, (halike.updateAllowance _ _).allowances⟩

theorem alike_bothRefreshed {latest latest' : Option BudgetAllowance}
    (hroll : db.AllRollOver [(p, now), (c, later)]) (h : db.latestAllowance p = .ok latest)
    (h' : (db.refreshed p now).latestAllowance c = .ok latest') :
    Alike ((db.opened p now).opened c later) (db.bothRefreshed p c now later) := by
  obtain ⟨hp, hc, -⟩ := hroll
  have halike := alike_refreshed h hp
  exact (halike.opened c later).trans (alike_refreshed h' (halike.rollsOver hc))

theorem allocate_charges (hroll : db.AllRollOver [(p, now), (c, later)])
    (ha : (db.bothRefreshed p c now later).latestAllowance p = .ok (some a))
    (ha' : (db.bothRefreshed p c now later).latestAllowance c = .ok (some a'))
    (e : TreasuryEvent) :
    ((db.opened p now).opened c later).remaining p = a.remaining ∧
      ((((db.bothRefreshed p c now later).updateAllowance ⟨p, a.epoch⟩ f).updateAllowance
        ⟨c, a'.epoch⟩ g).record e).allowances =
          ((((db.opened p now).opened c later).charge p f).charge c g).allowances := by
  obtain ⟨latest₁, hlatest₁⟩ := Db.latestAllowance_of_refreshed ha
  obtain ⟨latest, hlatest⟩ := Db.latestAllowance_of_refreshed hlatest₁
  obtain ⟨latest', hlatest'⟩ := Db.latestAllowance_of_refreshed ha'
  have halike := alike_bothRefreshed hroll hlatest hlatest'
  have hp := (halike.latestAllowance p).symm.trans ha
  have hc := (halike.latestAllowance c).symm.trans ha'
  rw [charge_charge hp hc]
  exact ⟨Db.remaining_of_latest hp, ((halike.updateAllowance _ _).updateAllowance _ _).allowances⟩

theorem bothRefreshed_opens {latest : Option BudgetAllowance}
    (hroll : db.AllRollOver [(p, now), (c, later)]) (h : db.latestAllowance p = .ok latest) :
    (db.bothRefreshed p c now later).allowances = (db.opened p now).allowances ∨
      (db.bothRefreshed p c now later).allowances = ((db.opened p now).opened c later).allowances := by
  have halike := alike_refreshed h hroll.1
  cases hlatest : (db.refreshed p now).latestAllowance c with
  | error e =>
    refine .inl ?_
    rw [Db.bothRefreshed, Db.refreshed_of_error hlatest]
    exact halike.allowances
  | ok latest' => exact .inr (alike_bothRefreshed hroll h hlatest).allowances

end Charges

/-- Every allowance is of a budget that has a policy. -/
def Db.Rowed (db : Db) : Prop :=
  ∀ k, (db.allowances.lookup k).isSome → (db.policies.lookup k.budgetId).isSome

namespace Hire

variable {h : Hire} {db db' db₁ : Db} {parent : Budget}

/-- The budget of the new role. -/
def base (h : Hire) (db : Db) : Db :=
  (db.withBudget h.budgetId h.budget).withPolicy h.budgetId (.zero (some h.callerRole))

theorem Founded.alike (hfounded : h.Founded db db₁) : Alike (h.base db) db₁ :=
  ⟨hfounded.entities, hfounded.budgets, hfounded.policies, hfounded.allowances⟩

theorem Founded.ne (hfounded : h.Founded db db₁)
    (hparent : db.budgets.lookup h.parentBudgetId = some parent) :
    h.parentBudgetId ≠ h.budgetId := by
  intro heq
  rw [heq, hfounded.budgetFresh] at hparent
  cases hparent

theorem policy_of_covered {row : AllowanceRow} {alw : BudgetAllowance}
    (hfounded : h.Founded db db₁) (hrows : db.Rowed)
    (hparent : db.budgets.lookup h.parentBudgetId = some parent)
    (hrow : (h.opened db₁).allowances.lookup (h.parentKey db₁) = some row)
    (hread : rowToAllowance (h.parentKey db₁) row = .ok alw) (hone : 1 ≤ alw.remainingHire) :
    ∃ policy, db.policies.lookup h.parentBudgetId = some policy := by
  cases hpolicy : db.policies.lookup h.parentBudgetId with
  | some policy => exact ⟨policy, rfl⟩
  | none =>
    have hne := hfounded.ne hparent
    have hnone : db₁.allowances.lookup (h.parentKey db₁) = none := by
      rw [hfounded.allowances, ← not_isSome_iff_eq_none]
      intro hsome
      have hpolicy' := hrows _ hsome
      rw [show (h.parentKey db₁).budgetId = h.parentBudgetId from rfl, hpolicy] at hpolicy'
      cases hpolicy'
    have hcaps : (db₁.policies.lookup h.parentBudgetId).elim ({} : AllowanceBundle)
        (·.defaults) = {} := by
      rw [hfounded.policies, AList.lookup_insert_ne hne, hpolicy]
      rfl
    have hkeys : h.parentKey db₁ ≠ h.childKey db₁ := fun heq =>
      hne (congrArg AllowanceKey.budgetId heq)
    have hopened : (h.opened db₁).allowances.lookup (h.parentKey db₁) = some { caps := {} } := by
      unfold opened Db.ensureAllowanceRow
      rw [Db.lookup_insertCaps, if_neg hkeys, Db.lookup_insertCaps, if_pos rfl, hnone]
      exact congrArg (fun caps => some ({ caps } : AllowanceRow)) hcaps
    cases hopened.symm.trans hrow
    obtain ⟨-, rfl⟩ := rowToAllowance_eq_ok.1 hread
    have hnothing : ¬ (1 : Int) ≤ max (wrapI64 (0 - 0)) 0 := by decide
    exact absurd hone hnothing

theorem alike_opened {policy : BudgetPolicy} (hfounded : h.Founded db db₁) (hrows : db.Rowed)
    (hparent : db.budgets.lookup h.parentBudgetId = some parent) (htrust : h.trustId = parent.trustId)
    (hpolicy : db.policies.lookup h.parentBudgetId = some policy)
    (hontime : db.OnTime h.parentBudgetId parent h.now) :
    Alike (((h.base db).opened h.parentBudgetId h.now).opened h.budgetId h.now) (h.opened db₁) ∧
      (((h.base db).opened h.parentBudgetId h.now).opened h.budgetId h.now).latestEpoch
        h.parentBudgetId = some (h.parentKey db₁).epoch ∧
      (((h.base db).opened h.parentBudgetId h.now).opened h.budgetId h.now).latestEpoch
        h.budgetId = some (h.childKey db₁).epoch := by
  have hne := hfounded.ne hparent
  have halike := hfounded.alike
  have hbaseParent : (h.base db).budgets.lookup h.parentBudgetId = some parent :=
    (AList.lookup_insert_ne hne).trans hparent
  have hbasePolicy : (h.base db).policies.lookup h.parentBudgetId = some policy :=
    (AList.lookup_insert_ne hne).trans hpolicy
  have hparentKey : h.parentKey db₁ =
      ⟨h.parentBudgetId, (h.base db).currentEpoch parent policy h.now⟩ := by
    unfold parentKey
    rw [halike.policies, hbasePolicy, htrust]
    unfold Db.trustAnchorUnix
    rw [halike.entities]
    rfl
  have hchildKey : h.childKey db₁ =
      ⟨h.budgetId, (h.base db).currentEpoch h.budget (.zero (some h.callerRole)) h.now⟩ := by
    unfold childKey Db.trustAnchorUnix
    rw [halike.entities]
    rfl
  simp only [Db.OnTime, hpolicy] at hontime
  obtain ⟨hepoch, hcaps⟩ := hontime
  replace hepoch : (h.base db).epochIn h.parentBudgetId parent policy h.now =
    (h.base db).currentEpoch parent policy h.now := hepoch
  have hmid : (h.base db).opened h.parentBudgetId h.now =
      (h.base db).insertCaps (h.parentKey db₁) policy.defaults := by
    simp only [Db.opened, hbaseParent, hbasePolicy, hepoch]
    rw [hparentKey]
    rcases hcaps with hstored | hplain
    · have hbase : ((h.base db).allowances.lookup
          ⟨h.parentBudgetId, (h.base db).currentEpoch parent policy h.now⟩).isSome := hstored
      rw [Db.insertCaps_of_some hbase, Db.insertCaps_of_some hbase]
    · exact congrArg ((h.base db).insertCaps _) hplain
  have hensured : Alike ((h.base db).opened h.parentBudgetId h.now)
      (db₁.ensureAllowanceRow (h.parentKey db₁)) := by
    rw [hmid, Db.ensureAllowanceRow, halike.policies, show (h.parentKey db₁).budgetId =
      h.parentBudgetId from rfl, hbasePolicy]
    exact halike.insertCaps _ _
  set mid := (h.base db).opened h.parentBudgetId h.now with hmidDef
  have hsame : SameTree (h.base db) mid := Db.sameTree_opened
  have hchild : mid.budgets.lookup h.budgetId = some h.budget := by
    rw [hsame.budgets]
    exact AList.lookup_insert _
  have hchildPolicy : mid.policies.lookup h.budgetId = some (.zero (some h.callerRole)) := by
    rw [hsame.policies]
    exact AList.lookup_insert _
  -- The new budget has no allowance yet, so that its first epoch is that of the clock.
  have hnone : mid.latestEpoch h.budgetId = none := by
    refine Db.latestEpoch_eq_none.2 fun e => ?_
    rw [Db.lookup_opened_ne hne.symm, ← not_isSome_iff_eq_none]
    intro hsome
    have hpolicy' := hrows _ hsome
    rw [hfounded.policyFresh] at hpolicy'
    cases hpolicy'
  have hchildEpoch : mid.epochIn h.budgetId h.budget (.zero (some h.callerRole)) h.now =
      (h.childKey db₁).epoch := by
    rw [Db.epochIn, hnone, hchildKey]
    exact Db.currentEpoch_congr (by rw [hsame.store]) _ _ _
  have hopened : mid.opened h.budgetId h.now = mid.insertCaps (h.childKey db₁) {} := by
    simp only [Db.opened, hchild, hchildPolicy, hchildEpoch]
    rfl
  refine ⟨?_, ?_, ?_⟩
  · rw [hopened]
    exact hensured.insertCaps _ _
  · rw [Db.latestEpoch_opened_ne hne, Db.latestEpoch_opened hbaseParent hbasePolicy, hepoch, hparentKey]
  · rw [Db.latestEpoch_opened hchild hchildPolicy, hchildEpoch]

theorem Hired.charges (hired : h.Hired db db') (hrows : db.Rowed)
    (hparent : db.budgets.lookup h.parentBudgetId = some parent) (htrust : h.trustId = parent.trustId)
    (hontime : db.OnTime h.parentBudgetId parent h.now) {opened : Db}
    (hopened : opened = ((h.base db).opened h.parentBudgetId h.now).opened h.budgetId h.now) :
    (h.bundle.needTotal ≤ (opened.remaining h.parentBudgetId).suballocCap ∧
      1 ≤ (opened.remaining h.parentBudgetId).hireCap) ∧
      db'.allowances = ((opened.charge h.parentBudgetId fun row =>
        (row.debit .suballoc h.bundle.needTotal).hired 1).charge h.budgetId
          (·.funded h.bundle)).allowances := by
  subst hopened
  obtain ⟨db₁, hfounded, ⟨row, alw, hrow, hread, hneed, hone⟩, -, -, -, -, -, -, rfl⟩ :=
    hired.found
  obtain ⟨policy, hpolicy⟩ := policy_of_covered hfounded hrows hparent hrow hread hone
  obtain ⟨halike, hparentEpoch, hchildEpoch⟩ :=
    alike_opened hfounded hrows hparent htrust hpolicy hontime
  set opened := ((h.base db).opened h.parentBudgetId h.now).opened h.budgetId h.now
  obtain ⟨hreadable, hseen⟩ := rowToAllowance_eq_ok.1 hread
  have hlatest : opened.latestAllowance h.parentBudgetId = .ok (some alw) := by
    refine Db.latestAllowance_eq_some.2 ⟨_, row, hparentEpoch, ?_, hreadable, hseen⟩
    rw [← halike.allowances]
    exact hrow
  refine ⟨?_, ?_⟩
  · rw [Db.remaining_of_latest hlatest]
    exact ⟨hneed, hone⟩
  · rw [Db.charge_of_latest hparentEpoch,
      Db.charge_of_latest (Db.latestEpoch_updateAllowance.trans hchildEpoch)]
    simp only [Db.record_allowances]
    exact ((halike.updateAllowance _ _).updateAllowance _ _).allowances

end Hire

/-! ## The step -/

variable {req : BudgetRequest}

theorem refreshed_openedAll {draw : Draw} {b : String} {now : Int} {rest : List (String × Int)}
    (hreadings : req.readings draw = (b, now) :: rest) (hroll : db.RollsOver b now) :
    ∃ n, (db.refreshed b now).allowances = (db.openedAll ((req.readings draw).take n)).allowances := by
  rcases Db.refreshed_opens hroll with hsame | hopens
  · exact ⟨0, hsame⟩
  · refine ⟨1, ?_⟩
    rw [hreadings]
    exact hopens

variable {x : BudgetRequest × Draw}

/-- **Every call works on the current allowances**, and on no other. -/
theorem call_agrees (hrows : db.Rowed) (hmeets : MeetsEpoch db x) (hkeeps : x.1.erases = none) :
    Agrees db x := by
  obtain ⟨req, draw⟩ := x
  have hnone : ∃ n, db.allowances = (db.openedAll ((req.readings draw).take n)).allowances :=
    ⟨0, rfl⟩
  cases req with
  | createBudget =>
    refine ends_alone_bind.2 (ends_createBudget (fun _ => hnone) (fun _ _ => ⟨0, rfl⟩) ?_ ?_)
    · intro e _ _ hfound _
      exact ends_pureRoutine.2 (.inl ⟨isSome_iff_exists.2 ⟨e, hfound⟩, rfl⟩)
    · intro e _ hfresh _ _ _
      exact ends_pureRoutine.2 (.inr ⟨hfresh, trivial, rfl⟩)
  | setPolicy =>
    refine ends_alone_bind.2 (ends_setPolicy (fun _ => hnone) ?_ ?_)
    · intro _ e _ hfound
      exact ends_pureRoutine.2 (.inl ⟨isSome_iff_exists.2 ⟨e, hfound⟩, rfl⟩)
    · intro _ e _ hfresh _
      exact ends_pureRoutine.2 (.inr ⟨hfresh, trivial, rfl⟩)
  | allocate p c =>
    refine ends_base_bind.2 (ends_allocate (fun _ => hnone) ?_ ?_ ?_ ?_)
    · exact fun _ => refreshed_openedAll rfl hmeets.1
    · rintro - ⟨latest, hlatest⟩
      rcases bothRefreshed_opens hmeets hlatest with hfirst | hboth
      · exact ⟨1, hfirst⟩
      · exact ⟨2, hboth⟩
    · intro _ _ e _ hfound
      exact ends_pureRoutine.2 (.inl ⟨isSome_iff_exists.2 ⟨e, hfound⟩, rfl⟩)
    · intro _ _ a a' e _ hfresh _ _ ha ha' henough hhires _
      obtain ⟨hremaining, hcharges⟩ := allocate_charges hmeets ha ha' e
      refine ends_pureRoutine.2 (.inr ⟨hfresh, ?_, hcharges⟩)
      simp only [BudgetRequest.Covered, opened, founded,
        BudgetRequest.readings, Db.openedAll, hremaining]
      exact ⟨henough, hhires⟩
  | spendInference b =>
    refine ends_base_bind.2 (ends_spendInference (fun _ => hnone) ?_ ?_ ?_)
    · exact fun _ => refreshed_openedAll rfl hmeets.1
    · intro _ e _ hfound
      exact ends_pureRoutine.2 (.inl ⟨isSome_iff_exists.2 ⟨e, hfound⟩, rfl⟩)
    · intro _ a e _ hfresh _ ha henough _
      obtain ⟨hremaining, hcharges⟩ := spend_charges hmeets.1 ha e
      refine ends_pureRoutine.2 (.inr ⟨hfresh, ?_, hcharges⟩)
      simp only [BudgetRequest.Covered, opened, founded,
        BudgetRequest.readings, Db.openedAll, hremaining]
      exact henough
  | spendTreasury b =>
    refine ends_base_bind.2 (ends_spendTreasury (fun _ => hnone) ?_ ?_ ?_)
    · exact fun _ => refreshed_openedAll rfl hmeets.1
    · intro _ e _ hfound
      exact ends_pureRoutine.2 (.inl ⟨isSome_iff_exists.2 ⟨e, hfound⟩, rfl⟩)
    · intro _ a e _ hfresh _ ha henough _
      obtain ⟨hremaining, hcharges⟩ := spend_charges hmeets.1 ha e
      refine ends_pureRoutine.2 (.inr ⟨hfresh, ?_, hcharges⟩)
      simp only [BudgetRequest.Covered, opened, founded,
        BudgetRequest.readings, Db.openedAll, hremaining]
      exact henough
  | hire p =>
    refine ends_alone_bind.2 (ends_hire (fun _ => hnone) ?_ ?_)
    · intro _ e _ hfound
      exact ends_pureRoutine.2 (.inl ⟨isSome_iff_exists.2 ⟨e, hfound⟩, rfl⟩)
    · intro parent db' hmay hfresh hired
      simp only [MeetsEpoch, hmay.row] at hmeets
      have hontime := hmeets hmay.running hmay.owner hfresh
      have hcharges := hired.charges hrows hmay.row rfl hontime rfl
      refine ends_pureRoutine.2 (.inr ⟨hfresh, ?_⟩)
      simp only [opened, founded, hmay.row]
      exact hcharges
  | refreshAt b =>
    refine ends_base_bind.2 (ends_refreshAt ?_ ?_)
    · intro _ latest _ _ hlatest
      exact ends_pureRoutine.2
        (.inr ⟨rfl, trivial, Db.refreshed_allowances hlatest hmeets.1⟩)
    · exact refreshed_openedAll rfl hmeets.1
  | dissolve b => cases hkeeps

/-! ## Rows and their policies -/

namespace Db.Rowed

variable {db db' : Db} {b : String} {now : Int}

theorem grow (hrows : db.Rowed)
    (hallowances : ∀ k, (db'.allowances.lookup k).isSome → (db.allowances.lookup k).isSome)
    (hpolicies : ∀ id, (db.policies.lookup id).isSome → (db'.policies.lookup id).isSome) :
    db'.Rowed := fun k hk => hpolicies _ (hrows k (hallowances k hk))

theorem update (hrows : db.Rowed) (k : AllowanceKey) (f : AllowanceRow → AllowanceRow) :
    (db.updateAllowance k f).Rowed := by
  refine hrows.grow (fun k' hk' => ?_) fun id hid => ?_
  · rwa [isSome_lookup_updateAllowance] at hk'
  · rwa [sameTree_updateAllowance.policies]

theorem insertCaps (hrows : db.Rowed) {k : AllowanceKey}
    (hk : (db.policies.lookup k.budgetId).isSome) (caps : AllowanceBundle) :
    (db.insertCaps k caps).Rowed := by
  intro k' hk'
  rw [sameTree_insertCaps.policies]
  rw [isSome_lookup_insertCaps, Bool.or_eq_true, decide_eq_true_eq] at hk'
  rcases hk' with rfl | hold
  · exact hk
  · exact hrows k' hold

theorem record (hrows : db.Rowed) (e : TreasuryEvent) : (db.record e).Rowed := hrows

theorem refreshed (hrows : db.Rowed) : (db.refreshed b now).Rowed := by
  rcases db.refreshed_cases b now with hsame | ⟨budget, policy, -, hpolicy, hrefresh⟩
  · rwa [hsame]
  · rw [hrefresh]
    cases hlatest : db.latestAllowance b with
    | error e => rwa [refresh_error hlatest]
    | ok latest =>
      by_cases hnew : needNew latest (db.currentEpoch budget policy now) = true
      · have hinserted := hrows.insertCaps (k := ⟨b, db.currentEpoch budget policy now⟩)
          (by rw [hpolicy]; rfl) (policy.newCaps latest)
        refine hinserted.grow (fun k hk => ?_) fun id hid => ?_
        · rwa [refresh_new hlatest hnew] at hk
        · rw [(db.sameTree_refresh b budget policy now).policies]
          rwa [sameTree_insertCaps.policies] at hid
      · rwa [refresh_old hlatest hnew]

theorem withPolicy (hrows : db.Rowed) (policy : BudgetPolicy) : (db.withPolicy b policy).Rowed :=
  hrows.grow (fun _ hk => hk) fun id hid =>
    ((Grows.refl : Grows none db db).withPolicy policy).policies id nofun hid

end Db.Rowed

theorem Hire.Hired.rowed {h : Hire} {db' : Db} {parent : Budget} (hired : h.Hired db db')
    (hrows : db.Rowed) (hparent : db.budgets.lookup h.parentBudgetId = some parent) :
    db'.Rowed := by
  obtain ⟨db₁, hfounded, ⟨row, alw, hrow, hread, -, hone⟩, e₁, e₂, e₃, -, -, -, rfl⟩ :=
    hired.found
  obtain ⟨policy, hpolicy⟩ := policy_of_covered hfounded hrows hparent hrow hread hone
  have hgrows : Grows none db db₁ := .founded hfounded
  have hrows₁ : db₁.Rowed := by
    refine hrows.grow (fun k hk => ?_) fun id hid => hgrows.policies id nofun hid
    rwa [hfounded.allowances] at hk
  have hparentPolicy : (db₁.policies.lookup (h.parentKey db₁).budgetId).isSome :=
    hgrows.policies _ nofun (isSome_of_mem hpolicy)
  have hopened : (h.opened db₁).Rowed := by
    refine (hrows₁.insertCaps hparentPolicy _).insertCaps ?_ _
    rw [Db.sameTree_insertCaps.policies, hfounded.policies]
    exact congrArg Option.isSome (AList.lookup_insert _)
  exact ((((hopened.update _ _).update _ _).record e₁).record e₂).record e₃

theorem call_rowed {draw : Draw} (hrows : db.Rowed) (hkeeps : req.erases = none) :
    Ends (req.call draw) db (fun _ => Db.Rowed) Db.Rowed := by
  cases req with
  | createBudget =>
    refine ends_alone_bind.2 (ends_createBudget (fun _ => hrows) (fun _ _ => hrows)
      (fun _ _ _ _ _ => ends_pureRoutine.2 hrows) fun _ _ _ _ _ _ => ends_pureRoutine.2 ?_)
    exact hrows.withPolicy _
  | setPolicy =>
    exact ends_alone_bind.2 (ends_setPolicy (fun _ => hrows) (fun _ _ _ _ => ends_pureRoutine.2 hrows)
      fun _ _ _ _ _ => ends_pureRoutine.2 (hrows.withPolicy _))
  | allocate =>
    refine ends_base_bind.2 (ends_allocate (fun _ => hrows) (fun _ => hrows.refreshed)
      (fun _ _ => hrows.refreshed.refreshed) (fun _ _ _ _ _ => ends_pureRoutine.2 hrows)
      fun _ _ _ _ _ _ _ _ _ _ _ _ _ _ => ends_pureRoutine.2 ?_)
    exact (hrows.refreshed.refreshed.update _ _).update _ _
  | spendInference =>
    exact ends_base_bind.2 (ends_spendInference (fun _ => hrows) (fun _ => hrows.refreshed)
      (fun _ _ _ _ => ends_pureRoutine.2 hrows)
      fun _ _ _ _ _ _ _ _ _ => ends_pureRoutine.2 (hrows.refreshed.update _ _))
  | spendTreasury =>
    exact ends_base_bind.2 (ends_spendTreasury (fun _ => hrows) (fun _ => hrows.refreshed)
      (fun _ _ _ _ => ends_pureRoutine.2 hrows)
      fun _ _ _ _ _ _ _ _ _ => ends_pureRoutine.2 (hrows.refreshed.update _ _))
  | hire =>
    exact ends_alone_bind.2 (ends_hire (fun _ => hrows) (fun _ _ _ _ => ends_pureRoutine.2 hrows)
      fun _ _ hmay _ hired => ends_pureRoutine.2 (hired.rowed hrows hmay.row))
  | refreshAt =>
    exact ends_base_bind.2 (ends_refreshAt
      (fun _ _ _ _ _ => ends_pureRoutine.2 hrows.refreshed) hrows.refreshed)
  | dissolve => cases hkeeps

/-! ## Runs -/

namespace Db

variable {db db' : Db} {b : String} {readings : List (String × Int)} {k : AllowanceKey}
  {charges : List (String × (AllowanceRow → AllowanceRow))}

theorem isSome_lookup_openedAll (h : (db.allowances.lookup k).isSome) :
    ((db.openedAll readings).allowances.lookup k).isSome := by
  induction readings generalizing db with
  | nil => exact h
  | cons reading readings ih => exact ih (isSome_lookup_opened h)

theorem isSome_lookup_chargeAll :
    ((db.chargeAll charges).allowances.lookup k).isSome = (db.allowances.lookup k).isSome := by
  induction charges generalizing db with
  | nil => rfl
  | cons charge charges ih => rw [chargeAll, ih, isSome_lookup_charge]

theorem latestEpoch_le {e : Int}
    (h : ∀ k, (db.allowances.lookup k).isSome → (db'.allowances.lookup k).isSome)
    (he : db.latestEpoch b = some e) : ∃ e', db'.latestEpoch b = some e' ∧ e ≤ e' :=
  le_latestEpoch (h _ (latestEpoch_eq_some.1 he).1)

end Db

theorem BudgetRequest.founded_allowances (req : BudgetRequest) (draw : Draw) (db : Db) :
    (req.founded draw db).allowances = db.allowances := by
  unfold founded
  split
  · split <;> rfl
  · rfl

theorem BudgetRequest.isSome_lookup_opened {draw : Draw} (h : (db.allowances.lookup k).isSome) :
    ((req.opened draw db).allowances.lookup k).isSome := by
  refine Db.isSome_lookup_openedAll ?_
  rwa [req.founded_allowances draw db]

theorem Agrees.keeps (h : Agrees db x) (hk : (db.allowances.lookup k).isSome) :
    (((x.1.call x.2 db).2).allowances.lookup k).isSome := by
  refine Ends.final (p := fun db' => (db'.allowances.lookup k).isSome) (h.mono ?_ ?_)
  · rintro _ db' (⟨-, hsame⟩ | ⟨-, -, hcharged⟩)
    · rwa [hsame]
    · rw [hcharged, Db.isSome_lookup_chargeAll]
      exact BudgetRequest.isSome_lookup_opened hk
  · rintro db' ⟨n, hopened⟩
    rw [hopened]
    exact Db.isSome_lookup_openedAll hk

theorem UsesEpoch.latest {b : String} {e : Int} (huses : UsesEpoch db x b e) (h : Agrees db x) :
    (x.1.call x.2 db).2.latestEpoch b = some e := by
  obtain ⟨hok, hfresh, -, hepoch⟩ := huses
  obtain ⟨r, hr⟩ := isOk_eq_true.1 hok
  rcases h.ok (Prod.ext hr rfl) with ⟨hfound, -⟩ | ⟨-, -, hcharged⟩
  · rw [hfresh] at hfound
    cases hfound
  · rw [← hepoch]
    refine Db.latestEpoch_congr fun e' => ?_
    rw [hcharged, Db.isSome_lookup_chargeAll]

/-- **All calls agree on the current epoch's allowance** in every run of calls that do not dissolve
budgets, each of which meets its condition. -/
theorem epochs_agree {db db' : Db} {hist : List (Db × (BudgetRequest × Draw))} (hrows : db.Rowed)
    (run : Run (Guarded (fun db x => x.1.erases = none ∧ MeetsEpoch db x) (okStep Db.next))
      db hist db') :
    (∀ x ∈ hist, Agrees x.1 x.2) ∧
      hist.Pairwise fun y x => ∀ b e e', UsesEpoch x.1 x.2 b e → UsesEpoch y.1 y.2 b e' → e ≤ e' := by
  suffices h : db'.Rowed ∧ (∀ x ∈ hist, Agrees x.1 x.2) ∧
      (∀ x ∈ hist, ∀ b e, UsesEpoch x.1 x.2 b e → ∃ l, db'.latestEpoch b = some l ∧ e ≤ l) ∧
      hist.Pairwise fun y x => ∀ b e e', UsesEpoch x.1 x.2 b e → UsesEpoch y.1 y.2 b e' →
        e ≤ e' from ⟨h.2.1, h.2.2.2⟩
  induction run with
  | nil =>
    exact ⟨hrows, fun _ h => absurd h not_mem_nil, fun _ h => absurd h not_mem_nil,
      List.Pairwise.nil⟩
  | @step hist t t' x _ hstep ih =>
    obtain ⟨⟨hkeeps, hmeets⟩, hnext⟩ := hstep
    obtain ⟨hrowed, hagrees, hused, hpairs⟩ := ih
    cases hnext
    have hx : Agrees t x := call_agrees hrowed hmeets hkeeps
    refine ⟨(call_rowed hrowed hkeeps).final, forall_mem_cons.2 ⟨hx, hagrees⟩, ?_,
      pairwise_cons.2 ⟨?_, hpairs⟩⟩
    · intro y hy b e he
      rcases mem_cons.1 hy with rfl | hy
      · exact ⟨e, he.latest hx, Int.le_refl e⟩
      · obtain ⟨l, hl, hle⟩ := hused y hy b e he
        obtain ⟨l', hl', hle'⟩ := Db.latestEpoch_le (fun _ hk => hx.keeps hk) hl
        exact ⟨l', hl', Int.le_trans hle hle'⟩
    · intro y hy b e e' he he'
      obtain ⟨l, hl, hle⟩ := hused y hy b e he
      have hmono : ∃ l', (x.1.opened x.2 t).latestEpoch b = some l' ∧ l ≤ l' :=
        Db.latestEpoch_le (fun _ hk => BudgetRequest.isSome_lookup_opened hk) hl
      obtain ⟨l', hl', hle'⟩ := hmono
      obtain ⟨-, -, -, hopened⟩ := he'
      cases hopened.symm.trans hl'
      omega

def weekTwo : Draw where
  roleId := "engineer"
  budgetId := "wages"
  now := 604800
  later := 604800

/-- The two budgets, of which the one of the board carries its remainder over. -/
def foundRollover : List (BudgetRequest × Draw) := foundBudgets ++ List.map (·, ({} : Draw)) [
  .setPolicy "ops" { suballocCap := 100, hireCap := 5 } 604800 .rollover "board" none none,
  .refreshAt "ops"]

def hireRequest : BudgetRequest :=
  .hire "ops" "board" { title := "Engineer" } { treasuryCap := 40 } "board" none none

/-- Fifty units are given away in the first week, and forty of a hundred and fifty go with a hire
in the second, which comes after a refresh. -/
def refreshedFirst : List (BudgetRequest × Draw) :=
  foundRollover ++ [(carveRequest, {}), (.refreshAt "ops", weekTwo), (hireRequest, weekTwo)]

theorem newCompany_rowed : newCompany.Rowed := nofun

theorem refreshedFirst_agrees :
    ∃ (hist : List (Db × (BudgetRequest × Draw))) (c : Db),
      execAll Db.next newCompany refreshedFirst = .ok c ∧
      (∀ x ∈ hist, Agrees x.1 x.2) ∧ c.allowances.lookup ⟨"ops", 1⟩ = some {
        caps := { suballocCap := 150, hireCap := 5 }
        spentSuballoc := 40
        usedHire := 1 } := by
  have hgood : AllGood (fun (db : Db) (x : BudgetRequest × Draw) =>
      x.1.erases = none ∧ MeetsEpoch db x) Db.next newCompany refreshedFirst := by
    decide +kernel
  obtain ⟨hist, c, hc, run⟩ := Run.of_allGood .nil hgood
  have hrow : (execAll Db.next newCompany refreshedFirst).toOption.map
      (fun c => c.allowances.lookup ⟨"ops", 1⟩) = some (some {
        caps := { suballocCap := 150, hireCap := 5 }
        spentSuballoc := 40
        usedHire := 1 }) := by
    decide +kernel
  rw [hc] at hrow
  exact ⟨hist, c, hc, (epochs_agree newCompany_rowed run).1, some.inj hrow⟩

def weekOne : Db := (execAll Db.next newCompany foundRollover).toOption.getD newCompany

/-- A hire is the first call of the second week: its epoch begins with a hundred units, where a
refresh would have made it two hundred. -/
theorem not_epochs_agree : ¬ ∀ hist db',
    Run (Guarded (fun _ x => x.1.erases = none) (okStep Db.next)) newCompany hist db' →
    (∀ x ∈ hist.map Prod.snd, x.2.now ≤ x.2.later) →
    (hist.map Prod.snd).Pairwise (fun y x => x.2.later ≤ y.2.now) → ∀ x ∈ hist, Agrees x.1 x.2 := by
  intro hall
  have hreach : execAll Db.next newCompany foundRollover = .ok weekOne := rfl
  have herases : ∀ x ∈ foundRollover, x.1.erases = none := by decide
  obtain ⟨hist, run, hcalls⟩ := Run.guarded (fun x hx (_ : Db) => herases x hx) .nil hreach
  have hagrees : Agrees weekOne (hireRequest, weekTwo) := by
    refine hall _ _ (.step (i := (hireRequest, weekTwo)) run ⟨rfl, rfl⟩) ?_ ?_
      (weekOne, (hireRequest, weekTwo)) mem_cons_self
    · rw [map_cons, hcalls]
      decide
    · rw [map_cons, hcalls]
      decide
  have hcall : hireRequest.call weekTwo weekOne =
      (.ok (.hired ⟨"engineer", "wages"⟩), (hireRequest.call weekTwo weekOne).2) :=
    Prod.ext (by decide +kernel) rfl
  rcases hagrees.ok hcall with ⟨hfound, -⟩ | ⟨-, -, hcharged⟩
  · exact nomatch hfound
  · have hrow := congrArg (fun rows => AList.lookup (⟨"ops", 1⟩ : AllowanceKey) rows) hcharged
    exact absurd hrow (by decide +kernel)

end Aeqi.Orchestrator
