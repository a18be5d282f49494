import Aeqi.Orchestrator.Epochs

/-!
# What `dissolve` looks at and what it erases

A budget is to go once nothing is left of its current allowance. `dissolve` asks every epoch
instead, so what expired unspent in an earlier one keeps the budget; and a key that an earlier
call on the budget used makes it return at once. Elsewhere it depends on the live balances, and
it erases the budget with all rows that name it (`Erased`).
-/

namespace Aeqi.Orchestrator

open Aeqi.Lib Handler List

namespace Db

variable (db : Db)

def epochNow (id : String) (budget : Budget) (now : Int) : Int :=
  epochAt (db.trustAnchorUnix budget.trustId)
    ((db.policies.lookup id).elim 604800 (·.epochPeriodSecs)) now

def leftIn (id : String) (epoch : Int) : Bool :=
  (db.allowances.lookup ⟨id, epoch⟩).any (!AllowanceRow.balanced ·)

def leftElsewhere (id : String) (epoch : Int) : Bool :=
  (db.epochs id).any fun e => decide (e ≠ epoch) && db.leftIn id e

variable {db} {id : String}

theorem leftIn_mem {e : Int} (h : db.leftIn id e = true) : e ∈ db.epochs id := by
  unfold leftIn at h
  cases hrow : db.allowances.lookup ⟨id, e⟩ with
  | none =>
    rw [hrow] at h
    cases h
  | some row => exact mem_epochs.2 (Option.isSome_iff_exists.2 ⟨row, hrow⟩)

/-- `dissolve` asks the current epoch and all others. -/
theorem hasBalance_eq (db : Db) (id : String) (epoch : Int) :
    db.hasBalance id = (db.leftIn id epoch || db.leftElsewhere id epoch) := by
  rw [Bool.eq_iff_iff, Bool.or_eq_true, hasBalance, leftElsewhere, any_eq_true, any_eq_true]
  constructor
  · rintro ⟨e, he, hleft⟩
    by_cases heq : e = epoch
    · exact .inl (heq ▸ hleft)
    · refine .inr ⟨e, he, ?_⟩
      rw [Bool.and_eq_true]
      exact ⟨decide_eq_true heq, hleft⟩
  · rintro (hleft | ⟨e, he, hleft⟩)
    · exact ⟨epoch, leftIn_mem hleft, hleft⟩
    · rw [Bool.and_eq_true] at hleft
      exact ⟨e, he, hleft.2⟩

end Db

/-! ## What is erased -/

def TreasuryEvent.names (e : TreasuryEvent) (id : String) : Prop :=
  e.budgetId = id ∨ e.counterBudgetId = some id

/-- Every row of a budget is gone, and no other row. -/
structure Erased (id : String) (db db' : Db) : Prop where
  budget : db'.budgets.lookup id = none
  policy : db'.policies.lookup id = none
  allowances : ∀ e, db'.allowances.lookup ⟨id, e⟩ = none
  events : ∀ e, e ∈ db'.events ↔ e ∈ db.events ∧ ¬ e.names id
  eventsKept : db'.events.Sublist db.events
  otherBudgets : ∀ id', id' ≠ id → db'.budgets.lookup id' = db.budgets.lookup id'
  otherPolicies : ∀ id', id' ≠ id → db'.policies.lookup id' = db.policies.lookup id'
  otherAllowances : ∀ k : AllowanceKey, k.budgetId ≠ id →
    db'.allowances.lookup k = db.allowances.lookup k
  roles : db'.toRoleStore = db.toRoleStore
  treasuryConfig : db'.treasuryConfig = db.treasuryConfig

section Erase

variable {db : Db} {id : String}

theorem lookup_foldl_erase {rows : Accounts AllowanceKey AllowanceRow} {epochs : List Int}
    {k : AllowanceKey} :
    (epochs.foldl (fun rows e => rows.erase ⟨id, e⟩) rows).lookup k =
      if k.budgetId = id ∧ k.epoch ∈ epochs then none else rows.lookup k := by
  induction epochs generalizing rows with
  | nil => simp
  | cons e epochs ih =>
    rw [foldl_cons, ih]
    by_cases hk : k = ⟨id, e⟩
    · subst hk
      simp
    · rw [AList.lookup_erase_ne hk]
      have hne : k.budgetId = id → k.epoch ≠ e := by
        rintro rfl rfl
        exact hk rfl
      congr 1
      simp only [eq_iff_iff, and_congr_right_iff]
      intro hid
      simp [hne hid]

theorem erased_without (db : Db) (id : String) : Erased id db (db.without id) where
  budget := AList.lookup_erase _ _
  policy := AList.lookup_erase _ _
  allowances e := by
    refine lookup_foldl_erase.trans ?_
    split
    · rfl
    · next hrow =>
      have hmissing : ¬ (db.allowances.lookup ⟨id, e⟩).isSome := fun hsome =>
        hrow ⟨rfl, Db.mem_epochs.2 hsome⟩
      exact Option.not_isSome_iff_eq_none.1 hmissing
  events e := by
    show e ∈ db.events.filter _ ↔ _
    rw [mem_filter, decide_eq_true_eq]
    rfl
  eventsKept := filter_sublist
  otherBudgets _ hne := AList.lookup_erase_ne hne
  otherPolicies _ hne := AList.lookup_erase_ne hne
  otherAllowances k hne := lookup_foldl_erase.trans (if_neg fun h => hne h.1)
  roles := rfl
  treasuryConfig := rfl

end Erase

/-! ## A dissolution -/

/-- The guards that a call passes before it looks at the budget's own state. -/
structure Admits (db : Db) (budgetId callerRole : String) (budget : Budget) : Prop where
  row : db.budgets.lookup budgetId = some budget
  running : db.paused budget.trustId = false
  owner : budget.ownerRoleId = callerRole ∨ ∃ p parent, budget.parentBudgetId = some p ∧
    db.budgets.lookup p = some parent ∧ parent.ownerRoleId = callerRole

/-- The dissolution depends on the live balances only: it succeeds on a leaf that is not primary
and has nothing left in the current epoch, and then erases what is of the budget. -/
structure LiveOnly (db : Db) (budgetId callerRole : String)
    (callerAgentId idempotencyKey : Option String) (draw : Draw) (budget : Budget) : Prop where
  succeeds : (∃ v db', (BudgetRequest.dissolve budgetId callerRole callerAgentId
      idempotencyKey).call draw db = (.ok v, db')) ↔
    budget.isPrimary = false ∧ db.hasDescendants budgetId = false ∧
      db.leftIn budgetId (db.epochNow budgetId budget draw.now) = false
  erases : ∀ v db', (BudgetRequest.dissolve budgetId callerRole callerAgentId
    idempotencyKey).call draw db = (.ok v, db') → Erased budgetId db db'

section Dissolve

variable {db db' : Db} {budgetId callerRole : String} {callerAgentId idempotencyKey : Option String}
  {draw : Draw} {budget : Budget} {q : Unit → Db → Prop} {r : Db → Prop}

variable {e : TreasuryEvent}

theorem erase_succeeds (he : e.budgetId = budgetId) (hhash : e.requestHash = none) :
    db.erase budgetId e = .ok (db.without budgetId) := by
  have hfresh : ¬ Db.Conflicts { db with events := db.events.filter fun e =>
      ¬ (e.budgetId = budgetId ∨ e.counterBudgetId = some budgetId) } e := by
    rintro (⟨h, hh, -⟩ | ⟨k, -, e', he', hbudget, -⟩)
    · rw [hhash] at hh
      cases hh
    · have hnot := of_decide_eq_true (mem_filter.1 he').2
      exact hnot (.inl (hbudget.trans he))
  cases herase : db.erase budgetId e with
  | ok db' => rw [Db.erase_ok he herase]
  | error err =>
    rw [Db.erase, Db.insertEvent, if_neg hfresh] at herase
    cases herase

theorem dissolve_ok (he : e.budgetId = budgetId) (hhash : e.requestHash = none)
    (hleaf : db.hasDescendants budgetId = false) (hzero : db.hasBalance budgetId = false) :
    db.dissolve budgetId e = (.ok (), db.without budgetId) := by
  rw [Db.dissolve, hleaf, hzero, transaction, erase_succeeds he hhash]
  rfl

theorem dissolve_fresh (h : MayDissolve db budgetId callerRole budget)
    (hkey : db.foundBy (some budgetId) idempotencyKey = none)
    (hleaf : db.hasDescendants budgetId = false) (hzero : db.hasBalance budgetId = false)
    (hq : q () (db.without budgetId)) :
    Ends (alone Action.run (dissolve budgetId callerRole callerAgentId idempotencyKey)) db q r := by
  refine ends_dissolve_guards (fun hno => absurd h (hno budget)) (fun _ e _ hfound => ?_)
    fun _ event _ hbudget hhash _ => ?_
  · cases hkey.symm.trans hfound
  · refine ends_alone_bind.2 (ends_act.2 ?_)
    show Ends (alone Action.run (give (db.dissolve budgetId event).1)) (db.dissolve budgetId event).2
      q r
    rw [dissolve_ok hbudget hhash hleaf hzero]
    exact ends_give.2 ⟨fun _ _ => hq, nofun⟩

theorem dissolve_returned {v : Returned} (h : Admits db budgetId callerRole budget)
    (hcall : (BudgetRequest.dissolve budgetId callerRole callerAgentId idempotencyKey).call draw
      db = (.ok v, db')) :
    budget.isPrimary = false ∧ ((db.foundBy (some budgetId) idempotencyKey).isSome ∧ db' = db ∨
      db.foundBy (some budgetId) idempotencyKey = none ∧ db.hasDescendants budgetId = false ∧
        db.hasBalance budgetId = false ∧ db' = db.without budgetId) := by
  have hends : Ends ((BudgetRequest.dissolve budgetId callerRole callerAgentId
      idempotencyKey).call draw) db (fun _ db' => budget.isPrimary = false ∧
        ((db.foundBy (some budgetId) idempotencyKey).isSome ∧ db' = db ∨
          db.foundBy (some budgetId) idempotencyKey = none ∧ db.hasDescendants budgetId = false ∧
            db.hasBalance budgetId = false ∧ db' = db.without budgetId)) fun _ => True := by
    refine ends_alone_bind.2 (ends_dissolve trivial ?_ ?_)
    · intro budget' e hmay hfound
      cases h.row.symm.trans hmay.row
      refine ends_pureRoutine.2 ⟨hmay.notPrimary, .inl ⟨?_, rfl⟩⟩
      rw [hfound]
      rfl
    · intro budget' hmay hkey hleaf hzero
      cases h.row.symm.trans hmay.row
      exact ends_pureRoutine.2 ⟨hmay.notPrimary, .inr ⟨hkey, hleaf, hzero, rfl⟩⟩
  exact hends.ok hcall

theorem returns_of_ends {req : BudgetRequest}
    (h : Ends (req.call draw) db (fun _ _ => True) fun _ => False) :
    ∃ v db', req.call draw db = (.ok v, db') := by
  unfold Ends at h
  split at h
  · next v db' hcall => exact ⟨v, db', hcall⟩
  · exact absurd h id

theorem dissolve_repeated (h : MayDissolve db budgetId callerRole budget)
    (hkey : db.foundBy (some budgetId) idempotencyKey = some e) :
    ∃ v, (BudgetRequest.dissolve budgetId callerRole callerAgentId idempotencyKey).call draw db =
      (.ok v, db) := by
  have hends : Ends ((BudgetRequest.dissolve budgetId callerRole callerAgentId
      idempotencyKey).call draw) db (fun _ db' => db' = db) fun _ => False :=
    ends_alone_bind.2 (ends_dissolve_guards (fun hno => absurd h (hno budget))
      (fun _ _ _ _ => ends_pureRoutine.2 rfl) fun _ _ _ _ _ hnone => by cases hkey.symm.trans hnone)
  obtain ⟨v, db', hcall⟩ := returns_of_ends (hends.mono (fun _ _ _ => trivial) fun _ => id)
  exact ⟨v, hends.ok hcall ▸ hcall⟩

end Dissolve

def devBudget : Budget where
  trustId := "acme"
  parentBudgetId := some "ops"
  ownerRoleId := "lead"
  name := "Development"
  kind := .operating
  isPrimary := false
  createdByRoleId := some "board"

/-- The lead gives the budget below five units a week and never spends them. -/
def unspent : List (BudgetRequest × Draw) := foundBudgets ++ List.map (·, ({} : Draw)) [
  .setPolicy "dev" { treasuryCap := 5 } 604800 .burn "lead" none none,
  .refreshAt "dev"]

def unspentWeek : Db := (execAll Db.next newCompany unspent).toOption.getD newCompany

end Aeqi.Orchestrator
