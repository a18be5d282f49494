import Aeqi.Orchestrator.BudgetFrames

/-!
# What a key is used for

A key or a request hash is used by a call for an operation on a budget, and the event that the call
records marks the use. A call ends in one of four ways: without an event of its own, with the event
that its key finds, with the event it records, or with a budget erased.
-/

namespace Aeqi.Orchestrator

open Aeqi.Lib Handler List Option

/-- What a key or a request hash is used for: the operation, the company of a new budget and the
budget that the call names. A new budget without a parent names none. -/
structure KeyUse where
  key : Option String
  requestHash : Option String
  eventType : EventType
  trustId : Option String
  budgetId : Option String

def TreasuryEvent.Keyed (e : TreasuryEvent) : Prop :=
  e.idempotencyKey ≠ none ∨ e.requestHash ≠ none

def Returned.newBudget : Returned → Option String
  | .budget id => some id
  | _ => none

def Returned.roleless : Returned → Returned
  | .hired result => .hired { result with roleId := "" }
  | x => x

namespace KeyUse

/-- The budget of the event: the one that the call names, or else the one that it makes. -/
def target (u : KeyUse) (x : Returned) : Option String := u.budgetId.or x.newBudget

structure Marks (u : KeyUse) (x : Returned) (e : TreasuryEvent) : Prop where
  key : e.idempotencyKey = u.key
  requestHash : e.requestHash = u.requestHash
  target : u.target x = some e.budgetId

def sees (u : KeyUse) (e : TreasuryEvent) : Bool :=
  if u.requestHash.isSome then e.requestHash = u.requestHash
  else u.budgetId.all (e.budgetId = ·) && e.idempotencyKey = u.key

end KeyUse

namespace BudgetRequest

def use : BudgetRequest → Option KeyUse
  | .createBudget trustId parentBudgetId _ _ _ _ _ key =>
    key.map fun k => ⟨some k, none, .budgetCreated, some trustId, parentBudgetId⟩
  | .setPolicy budgetId _ _ _ _ _ key =>
    key.map fun k => ⟨some k, none, .policySet, none, some budgetId⟩
  | .allocate parentBudgetId _ _ _ _ key =>
    key.map fun k => ⟨some k, none, .allocated, none, some parentBudgetId⟩
  | .spendInference budgetId _ requestHash _ _ =>
    some ⟨none, some requestHash, .inferenceSpent, none, some budgetId⟩
  | .spendTreasury budgetId _ _ _ key =>
    key.map fun k => ⟨some k, none, .treasurySpent, none, some budgetId⟩
  | .hire parentBudgetId _ _ _ _ _ key =>
    key.map fun k => ⟨some k, none, .hired, none, some parentBudgetId⟩
  | .refreshAt _ => none
  | .dissolve budgetId _ _ key =>
    key.map fun k => ⟨some k, none, .budgetDissolved, none, some budgetId⟩

/-- The guards before the lookup pass. -/
def Admitted (db : Db) : BudgetRequest → Prop
  | .createBudget trustId parentBudgetId ownerRoleId _ _ callerRole _ _ =>
    MayCreateBudget db trustId parentBudgetId ownerRoleId callerRole
  | .setPolicy budgetId _ _ _ callerRole _ _ => ∃ budget, Owned db budgetId callerRole budget
  | .allocate parentBudgetId childBudgetId _ callerRole _ _ =>
    ∃ parent child, MayAllocate db parentBudgetId childBudgetId callerRole parent child
  | .spendInference budgetId _ _ _ gatewayAgentId =>
    ∃ budget, MaySpendInference db budgetId gatewayAgentId budget
  | .spendTreasury budgetId _ callerRole _ _ =>
    ∃ budget, MaySpendTreasury db budgetId callerRole budget
  | .hire parentBudgetId _ _ _ callerRole _ _ =>
    ∃ parent, Owned db parentBudgetId callerRole parent
  | .refreshAt _ => True
  | .dissolve budgetId callerRole _ _ => ∃ budget, MayDissolve db budgetId callerRole budget

def Repeatable : BudgetRequest → Bool
  | .refreshAt _ | .dissolve .. => false
  | _ => true

def Replies : BudgetRequest → TreasuryEvent → Returned → Prop
  | .createBudget .., e, .budget id => e.counterBudgetId = some id
  | .hire .., e, .hired result => result.primaryBudgetId = e.counterBudgetId.getD ""
  | .setPolicy .., _, .unit | .allocate .., _, .unit | .spendInference .., _, .unit
  | .spendTreasury .., _, .unit => True
  | _, _, _ => False

def names : BudgetRequest → List String
  | .createBudget _ parentBudgetId _ _ _ _ _ _ => parentBudgetId.toList
  | .allocate parentBudgetId childBudgetId _ _ _ _ => [parentBudgetId, childBudgetId]
  | .setPolicy budgetId _ _ _ _ _ _ | .spendInference budgetId _ _ _ _
  | .spendTreasury budgetId _ _ _ _ | .hire budgetId _ _ _ _ _ _ | .refreshAt budgetId
  | .dissolve budgetId _ _ _ => [budgetId]

def sees (req : BudgetRequest) (e : TreasuryEvent) : Bool := req.use.any (·.sees e)

end BudgetRequest

/-! ## Lookups -/

section Lookups

variable {db : Db} {e : TreasuryEvent} {req : BudgetRequest} {u : KeyUse}

theorem Db.foundBy_eq {budgetId key : Option String} {use : String → KeyUse}
    (huse : ∀ k, (use k).key = some k ∧ (use k).requestHash = none ∧ (use k).budgetId = budgetId) :
    db.foundBy budgetId key = db.events.find? fun e => (key.map use).any (·.sees e) := by
  cases key with
  | none => exact (find?_eq_none.2 fun _ _ => Bool.false_ne_true).symm
  | some k =>
    obtain ⟨hkey, hhash, hbudget⟩ := huse k
    have hsees : ∀ e, (use k).sees e =
        (budgetId.all (e.budgetId = ·) && decide (e.idempotencyKey = some k)) := by
      intro e
      simp [KeyUse.sees, hkey, hhash, hbudget]
    simp only [map_some, any_some, hsees]
    cases budgetId with
    | none | some b => simp [Db.foundBy, Db.dedupExisting]

theorem BudgetRequest.found_eq (db : Db) (req : BudgetRequest) :
    req.found db = db.events.find? req.sees := by
  cases req with
  | refreshAt => exact (find?_eq_none.2 fun _ _ => Bool.false_ne_true).symm
  | spendInference => rfl
  | createBudget | setPolicy | allocate | spendTreasury | hire | dissolve =>
    exact Db.foundBy_eq fun _ => ⟨rfl, rfl, rfl⟩

theorem BudgetRequest.use_keyed (h : req.use = some u) :
    (∃ k, u.key = some k) ∧ u.requestHash = none ∨ u.key = none ∧ ∃ hash, u.requestHash = some hash := by
  have hmap : ∀ {key : Option String} {use : String → KeyUse}, key.map use = some u →
      (∀ k, (use k).key = some k ∧ (use k).requestHash = none) →
      (∃ k, u.key = some k) ∧ u.requestHash = none := by
    intro key use hu huse
    obtain ⟨k, -, rfl⟩ := map_eq_some_iff.1 hu
    exact ⟨⟨k, (huse k).1⟩, (huse k).2⟩
  cases req with
  | refreshAt => cases h
  | spendInference =>
    cases h
    exact .inr ⟨rfl, _, rfl⟩
  | createBudget | setPolicy | allocate | spendTreasury | hire | dissolve =>
    exact .inl (hmap h fun _ => ⟨rfl, rfl⟩)

theorem KeyUse.Marks.budgetId_of_some {x : Returned} {b : String} (h : u.Marks x e)
    (hb : u.budgetId = some b) : e.budgetId = b := by
  have htarget := h.target
  rw [KeyUse.target, hb] at htarget
  exact (some.inj htarget).symm

theorem KeyUse.Marks.sees {x : Returned} (h : u.Marks x e) : u.sees e = true := by
  unfold KeyUse.sees
  split
  · exact decide_eq_true h.requestHash
  · refine Bool.and_eq_true_iff.2 ⟨?_, decide_eq_true h.key⟩
    cases hbudget : u.budgetId with
    | none => rfl
    | some b => exact decide_eq_true (h.budgetId_of_some hbudget)

theorem BudgetRequest.sees_eq (h : req.use = some u) (e : TreasuryEvent) :
    req.sees e = u.sees e := by
  rw [BudgetRequest.sees, h, any_some]

theorem BudgetRequest.keyed_of_sees (h : req.sees e = true) : e.Keyed := by
  obtain ⟨u, hu, hsees⟩ := (Option.any_eq_true _ _).1 h
  unfold KeyUse.sees at hsees
  rcases BudgetRequest.use_keyed hu with ⟨⟨k, hk⟩, hhash⟩ | ⟨-, hash, hhash⟩
  · rw [hhash] at hsees
    have hkey : e.idempotencyKey = u.key := of_decide_eq_true (Bool.and_eq_true_iff.1 hsees).2
    exact .inl (by rw [hkey, hk]; exact some_ne_none k)
  · rw [hhash] at hsees
    have hsame : e.requestHash = some hash := of_decide_eq_true hsees
    exact .inr (by rw [hsame]; exact some_ne_none hash)

theorem BudgetRequest.found_mem (h : req.found db = some e) :
    e ∈ db.events ∧ req.sees e = true := by
  rw [BudgetRequest.found_eq] at h
  exact ⟨mem_of_find?_eq_some h, find?_some h⟩

theorem BudgetRequest.not_sees (h : req.found db = none) (he : e ∈ db.events) :
    req.sees e = false := by
  rw [BudgetRequest.found_eq] at h
  exact Bool.eq_false_iff.2 (find?_eq_none.1 h e he)

end Lookups

/-! ## How a call ends -/

/-- The events that are added carry no key. -/
def Quietly (db db' : Db) : Prop :=
  ∃ es, db'.events = es ++ db.events ∧ ∀ e ∈ es, ¬ e.Keyed

namespace Quietly

variable {db db' db'' : Db}

theorem refl : Quietly db db := ⟨[], rfl, fun _ h => nomatch h⟩

theorem of_events (h : db'.events = db.events) : Quietly db db' :=
  ⟨[], h, fun _ h => nomatch h⟩

theorem trans (h : Quietly db db') (h' : Quietly db' db'') : Quietly db db'' := by
  obtain ⟨es, hes, hquiet⟩ := h
  obtain ⟨es', hes', hquiet'⟩ := h'
  refine ⟨es' ++ es, by rw [hes', hes, append_assoc], fun e he => ?_⟩
  rcases mem_append.1 he with he | he
  · exact hquiet' e he
  · exact hquiet e he

theorem not_keyed {e : TreasuryEvent} (hhash : e.requestHash = none)
    (hkey : e.idempotencyKey = none) : ¬ e.Keyed := by
  rintro (h | h)
  · exact h hkey
  · exact h hhash

theorem record (h : Quietly db db') {e : TreasuryEvent} (he : ¬ e.Keyed) :
    Quietly db (db'.record e) := by
  refine h.trans ⟨[e], rfl, fun e' he' => ?_⟩
  exact mem_singleton.1 he' ▸ he

theorem refreshed (db : Db) (budgetId : String) (now : Int) :
    Quietly db (db.refreshed budgetId now) := by
  rcases db.refreshed_events budgetId now with hsame | ⟨e, hhash, hkey, hcons⟩
  · exact of_events hsame
  · refine ⟨[e], hcons, fun e' he' => ?_⟩
    exact mem_singleton.1 he' ▸ not_keyed hhash hkey

end Quietly

/-- How a call ends: with what it returns, or none if it fails. -/
inductive Outcome (req : BudgetRequest) (db : Db) : Option Returned → Db → Prop
  | quiet {x : Option Returned} {db' : Db} (hx : x = none ∨ req.use = none)
      (grows : Grows none db db') (quietly : Quietly db db') : Outcome req db x db'
  | repeated {x : Returned} {e : TreasuryEvent} (admitted : req.Admitted db)
      (found : req.found db = some e) (replies : req.Repeatable → req.Replies e x) :
      Outcome req db (some x) db
  | recorded {x : Returned} {e : TreasuryEvent} {db₁ db' : Db} (admitted : req.Admitted db)
      (fresh : req.found db = none) (grows : Grows none db db') (quietly : Quietly db db₁)
      (events : db'.events = e :: db₁.events) (used : ∀ u, req.use = some u → u.Marks x e)
      (unused : req.use = none → ¬ e.Keyed) (replies : req.Repeatable → req.Replies e x) :
      Outcome req db (some x) db'
  | erased {budgetId : String} {x : Returned} (hreq : req.erases = some budgetId)
      (fresh : req.found db = none) : Outcome req db (some x) (db.without budgetId)

section Recorded

variable {req : BudgetRequest} {db db' : Db} {x : Returned} {e : TreasuryEvent} {t : EventType}
  {b : String} {counter key : Option String}

theorem Outcome.of_key (huse : req.use = key.map fun k => ⟨some k, none, t, none, some b⟩)
    (hrecords : Records e t b counter none key) (admitted : req.Admitted db)
    (fresh : req.found db = none) (grows : Grows none db db') (quietly : Quietly db db')
    (replies : req.Repeatable → req.Replies e x) : Outcome req db (some x) (db'.record e) := by
  refine .recorded admitted fresh (grows.record e) quietly rfl ?_ ?_ replies
  · intro u hu
    obtain ⟨k, rfl, rfl⟩ := map_eq_some_iff.1 (huse.symm.trans hu)
    exact ⟨hrecords.idempotencyKey, hrecords.requestHash, congrArg some hrecords.budgetId.symm⟩
  · intro hnone
    have hkey : key = none := map_eq_none_iff.1 (huse.symm.trans hnone)
    exact Quietly.not_keyed hrecords.requestHash (hrecords.idempotencyKey.trans hkey)

theorem Outcome.of_createBudget {trustId ownerRoleId name callerRole id : String}
    {parent callerAgentId : Option String} {kind : BudgetKind}
    (hmay : MayCreateBudget db trustId parent ownerRoleId callerRole)
    (fresh : db.foundBy parent key = none) (hnew : db.budgets.lookup id = none)
    (hrecords : Records e .budgetCreated (parent.getD id) (some id) none key) :
    Outcome (.createBudget trustId parent ownerRoleId name kind callerRole callerAgentId key) db
      (some (.budget id)) (((db.withBudget id (newBudget trustId parent ownerRoleId name kind
        callerRole)).withPolicy id (.zero (some callerRole))).record e) := by
  refine .recorded hmay fresh (((Grows.refl.withBudget hnew _).withPolicy _).record e)
    (.of_events rfl) rfl ?_ ?_ fun _ => hrecords.counterBudgetId
  · intro u hu
    obtain ⟨k, rfl, rfl⟩ := map_eq_some_iff.1 hu
    refine ⟨hrecords.idempotencyKey, hrecords.requestHash, ?_⟩
    rw [hrecords.budgetId]
    cases parent <;> rfl
  · intro hnone
    have hkey : key = none := map_eq_none_iff.1 hnone
    exact Quietly.not_keyed hrecords.requestHash (hrecords.idempotencyKey.trans hkey)

theorem Db.insertCaps_events {k : AllowanceKey} {caps : AllowanceBundle} :
    (db.insertCaps k caps).events = db.events := by
  unfold Db.insertCaps
  split <;> rfl

theorem Outcome.of_hire {p parentRoleId callerRole roleId : String} {callerAgentId : Option String}
    {newRole : NewRoleSpec} {bundle : AllowanceBundle} {parent : Budget} {h : Hire}
    (hmay : Owned db p callerRole parent) (fresh : db.foundBy (some p) key = none)
    (hparent : h.parentBudgetId = p) (hkey : h.idempotencyKey = key) (hhired : h.Hired db db') :
    Outcome (.hire p parentRoleId newRole bundle callerRole callerAgentId key) db
      (some (.hired ⟨roleId, h.budgetId⟩)) db' := by
  have hgrows : Grows none db db' := .hired hhired
  obtain ⟨db₁, hfounded, -, e₁, e₂, e₃, h₁, h₂, h₃, rfl⟩ := hhired.found
  subst hparent hkey
  have hevents : (((h.opened db₁).updateAllowance (h.parentKey db₁) fun row =>
      (row.debit .suballoc h.bundle.needTotal).hired 1).updateAllowance (h.childKey db₁)
        (·.funded h.bundle)).events = db.events := by
    rw [Db.updateAllowance_events, Db.updateAllowance_events, Hire.opened, Db.insertCaps_events,
      Db.ensureAllowanceRow, Db.insertCaps_events, hfounded.events]
  have hquiet := ((Quietly.of_events hevents).record (Quietly.not_keyed h₁.requestHash
    h₁.idempotencyKey)).record (Quietly.not_keyed h₂.requestHash h₂.idempotencyKey)
  refine .recorded ⟨parent, hmay⟩ fresh hgrows hquiet rfl ?_ ?_ fun _ => ?_
  · intro u hu
    obtain ⟨k, hk, rfl⟩ := map_eq_some_iff.1 hu
    exact ⟨h₃.idempotencyKey.trans hk, h₃.requestHash, congrArg some h₃.budgetId.symm⟩
  · intro hnone
    have hkey : h.idempotencyKey = none := map_eq_none_iff.1 hnone
    exact Quietly.not_keyed h₃.requestHash (h₃.idempotencyKey.trans hkey)
  · change h.budgetId = e₃.counterBudgetId.getD ""
    rw [h₃.counterBudgetId, getD_some]

end Recorded

/-- **Every call ends in one of these ways.** -/
theorem call_outcome (db : Db) (req : BudgetRequest) (draw : Draw) :
    Ends (req.call draw) db (fun x => Outcome req db (some x)) (Outcome req db none) := by
  have hrefused : ∀ {db'}, Grows none db db' → Quietly db db' → Outcome req db none db' :=
    fun grows quietly => .quiet (.inl rfl) grows quietly
  have hsame : Outcome req db none db := hrefused .refl .refl
  cases req with
  | createBudget trustId parent ownerRoleId name kind callerRole callerAgentId key =>
    refine ends_alone_bind.2 (ends_createBudget (fun _ => hsame)
      (fun _ hfresh => hrefused (Grows.refl.withBudget hfresh _) .refl) ?_ ?_)
    · exact fun e c hmay hfound hcounter =>
        ends_pureRoutine.2 (.repeated hmay hfound fun _ => hcounter)
    · intro e hmay hkey hnew _ hrecords
      exact ends_pureRoutine.2 (.of_createBudget hmay hkey hnew hrecords)
  | setPolicy b defaults period mode callerRole callerAgentId key =>
    refine ends_alone_bind.2 (ends_setPolicy (fun _ => hsame) ?_ ?_)
    · exact fun budget e hmay hfound =>
        ends_pureRoutine.2 (.repeated ⟨budget, hmay⟩ hfound fun _ => trivial)
    · intro budget e hmay hfresh hrecords
      exact ends_pureRoutine.2 (.of_key rfl hrecords ⟨budget, hmay⟩ hfresh
        (Grows.refl.withPolicy _) (.of_events rfl) fun _ => trivial)
  | allocate p c bundle callerRole callerAgentId key =>
    refine ends_base_bind.2 (ends_allocate (fun _ => hsame)
      (fun _ => hrefused (.ofSameTree (db.sameTree_refreshed p _)) (.refreshed db p _))
      (fun _ _ => hrefused (.ofSameTree (db.sameTree_bothRefreshed ..))
        ((Quietly.refreshed db p _).trans (.refreshed _ c _))) ?_ ?_)
    · exact fun parent child e hmay hfound =>
        ends_pureRoutine.2 (.repeated ⟨parent, child, hmay⟩ hfound fun _ => trivial)
    · intro parent child parentAlw childAlw e hmay hfresh _ _ _ _ _ _ hrecords
      have htree : SameTree db _ := ((db.sameTree_bothRefreshed p c draw.now draw.later).update
        ⟨p, parentAlw.epoch⟩ fun row =>
          (row.debit .suballoc bundle.needTotal).hired bundle.hireCap).update
            ⟨c, childAlw.epoch⟩ (·.funded bundle)
      have hquiet : Quietly db (db.bothRefreshed p c draw.now draw.later) :=
        (Quietly.refreshed db p _).trans (.refreshed _ c _)
      refine ends_pureRoutine.2 (.of_key rfl hrecords ⟨parent, child, hmay⟩ hfresh
        (.ofSameTree htree) (hquiet.trans (.of_events ?_)) fun _ => trivial)
      rw [Db.updateAllowance_events, Db.updateAllowance_events]
  | spendInference b amount hash actor gateway =>
    refine ends_base_bind.2 (ends_spendInference (fun _ => hsame)
      (fun _ => hrefused (.ofSameTree (db.sameTree_refreshed b _)) (.refreshed db b _)) ?_ ?_)
    · exact fun budget e hmay hfound =>
        ends_pureRoutine.2 (.repeated ⟨budget, hmay⟩ hfound fun _ => trivial)
    · intro budget alw e hmay hfresh _ _ _ hrecords
      have hgrows : Grows none db _ := .ofSameTree ((db.sameTree_refreshed b draw.now).update
        ⟨b, alw.epoch⟩ (·.debit .inference amount))
      refine ends_pureRoutine.2 (.recorded ⟨budget, hmay⟩ hfresh (hgrows.record e)
        ((Quietly.refreshed db b _).trans (.of_events Db.updateAllowance_events)) rfl ?_ ?_
        fun _ => trivial)
      · intro u hu
        cases hu
        exact ⟨hrecords.idempotencyKey, hrecords.requestHash, congrArg some hrecords.budgetId.symm⟩
      · intro hnone
        cases hnone
  | spendTreasury b amount callerRole callerAgentId key =>
    refine ends_base_bind.2 (ends_spendTreasury (fun _ => hsame)
      (fun _ => hrefused (.ofSameTree (db.sameTree_refreshed b _)) (.refreshed db b _)) ?_ ?_)
    · exact fun budget e hmay hfound =>
        ends_pureRoutine.2 (.repeated ⟨budget, hmay⟩ hfound fun _ => trivial)
    · intro budget alw e hmay hfresh _ _ _ hrecords
      have hgrows : Grows none db _ := .ofSameTree ((db.sameTree_refreshed b draw.now).update
        ⟨b, alw.epoch⟩ (·.debit .treasury amount))
      exact ends_pureRoutine.2 (.of_key rfl hrecords ⟨budget, hmay⟩ hfresh hgrows
        ((Quietly.refreshed db b _).trans (.of_events Db.updateAllowance_events)) fun _ => trivial)
  | hire p parentRoleId newRole bundle callerRole callerAgentId key =>
    refine ends_alone_bind.2 (ends_hire (fun _ => hsame) ?_ ?_)
    · exact fun parent e hmay hfound =>
        ends_pureRoutine.2 (.repeated ⟨parent, hmay⟩ hfound fun _ => rfl)
    · exact fun parent db' hmay hfresh hhired =>
        ends_pureRoutine.2 (.of_hire hmay hfresh rfl rfl hhired)
  | refreshAt b =>
    have hgrows : Grows none db (db.refreshed b draw.now) :=
      .ofSameTree (db.sameTree_refreshed b draw.now)
    exact ends_base_bind.2 (ends_refreshAt
      (fun _ _ _ _ _ => ends_pureRoutine.2 (.quiet (.inr rfl) hgrows (.refreshed db b _)))
      (hrefused hgrows (.refreshed db b _)))
  | dissolve b callerRole callerAgentId key =>
    refine ends_alone_bind.2 (ends_dissolve hsame ?_ ?_)
    · exact fun budget e hmay hfound =>
        ends_pureRoutine.2 (.repeated ⟨budget, hmay⟩ hfound fun h => Bool.noConfusion h)
    · exact fun budget hmay hfresh _ _ => ends_pureRoutine.2 (.erased rfl hfresh)

end Aeqi.Orchestrator
