import Aeqi.Orchestrator.BudgetCalls

/-!
# What a call leaves as it was

No call edits a row of a budget or of a role once it stands, or takes a policy away, but that a
`dissolve` erases its budget.
-/

namespace Aeqi.Orchestrator

open Aeqi.Lib

def BudgetRequest.erases : BudgetRequest → Option String
  | .dissolve budgetId _ _ _ => some budgetId
  | _ => none

/-- Rows are added, and none is edited or erased but those of one budget. -/
structure Grows (gone : Option String) (db db' : Db) : Prop where
  treasuryConfig : db'.treasuryConfig = db.treasuryConfig
  entities : db'.entities = db.entities
  roles : ∀ id role, db.roles.lookup id = some role → db'.roles.lookup id = some role
  budgets : ∀ id budget, gone ≠ some id → db.budgets.lookup id = some budget →
    db'.budgets.lookup id = some budget
  policies : ∀ id, gone ≠ some id → (db.policies.lookup id).isSome →
    (db'.policies.lookup id).isSome

namespace Grows

variable {gone : Option String} {db db' : Db} {id : String}

theorem refl : Grows gone db db :=
  ⟨rfl, rfl, fun _ _ h => h, fun _ _ _ h => h, fun _ _ h => h⟩

theorem ofSameTree (h : SameTree db db') : Grows gone db db' where
  treasuryConfig := h.treasuryConfig
  entities := by rw [h.store]
  roles _ _ hrole := by rw [h.store]; exact hrole
  budgets _ _ _ hbudget := by rw [h.budgets]; exact hbudget
  policies _ _ hpolicy := by rw [h.policies]; exact hpolicy

theorem record (h : Grows gone db db') (e : TreasuryEvent) : Grows gone db (db'.record e) :=
  ⟨h.treasuryConfig, h.entities, h.roles, h.budgets, h.policies⟩

theorem withBudget (h : Grows gone db db') (hfresh : db.budgets.lookup id = none) (b : Budget) :
    Grows gone db (db'.withBudget id b) where
  treasuryConfig := h.treasuryConfig
  entities := h.entities
  roles := h.roles
  budgets id' budget hgone hbudget := by
    have hne : id' ≠ id := by
      rintro rfl
      cases hfresh.symm.trans hbudget
    exact (AList.lookup_insert_ne hne).trans (h.budgets id' budget hgone hbudget)
  policies := h.policies

theorem withPolicy (h : Grows gone db db') (policy : BudgetPolicy) :
    Grows gone db (db'.withPolicy id policy) where
  treasuryConfig := h.treasuryConfig
  entities := h.entities
  roles := h.roles
  budgets := h.budgets
  policies id' hgone hpolicy := by
    change ((db'.policies.insert id policy).lookup id').isSome
    by_cases heq : id' = id
    · rw [heq, AList.lookup_insert]
      rfl
    · rw [AList.lookup_insert_ne heq]
      exact h.policies id' hgone hpolicy

theorem founded {h : Hire} (hfounded : h.Founded db db') : Grows gone db db' where
  treasuryConfig := hfounded.treasuryConfig
  entities := hfounded.entities
  roles id role hrole := by
    obtain ⟨new, s, -, hcreated, hstore⟩ := hfounded.role
    have hkept : s.roles.lookup id = some role := by
      rw [hcreated.roles, AList.lookup_insert_ne]
      · exact hrole
      · rintro rfl
        cases hcreated.fresh.symm.trans hrole
    rcases hstore with ⟨-, hstore⟩ | ⟨-, -, hstore⟩
    · rw [hstore]
      exact hkept
    · rw [hstore]
      exact hkept
  budgets id budget _ hbudget := by
    rw [hfounded.budgets, AList.lookup_insert_ne]
    · exact hbudget
    · rintro rfl
      cases hfounded.budgetFresh.symm.trans hbudget
  policies id _ hpolicy := by
    rw [hfounded.policies, AList.lookup_insert_ne]
    · exact hpolicy
    · rintro rfl
      rw [hfounded.policyFresh] at hpolicy
      cases hpolicy

theorem hired {h : Hire} (hhired : h.Hired db db') : Grows gone db db' := by
  obtain ⟨db₁, hfounded, -, e₁, e₂, e₃, -, -, -, rfl⟩ := hhired.found
  have hopened : SameTree db₁ (h.opened db₁) :=
    Db.sameTree_insertCaps.trans Db.sameTree_insertCaps
  have h₁ : Grows gone db db₁ := founded hfounded
  have h₂ : Grows gone db₁ _ := ofSameTree (((((hopened.update (h.parentKey db₁) fun row =>
    (row.debit .suballoc h.bundle.needTotal).hired 1).update (h.childKey db₁)
      (·.funded h.bundle)).record e₁).record e₂).record e₃)
  exact ⟨h₂.treasuryConfig.trans h₁.treasuryConfig, h₂.entities.trans h₁.entities,
    fun id role hrole => h₂.roles id role (h₁.roles id role hrole),
    fun id b hgone hb => h₂.budgets id b hgone (h₁.budgets id b hgone hb),
    fun id hgone hp => h₂.policies id hgone (h₁.policies id hgone hp)⟩

theorem without (db : Db) (id : String) : Grows (some id) db (db.without id) where
  treasuryConfig := rfl
  entities := rfl
  roles _ _ h := h
  budgets id' budget hgone hbudget := by
    refine (AList.lookup_erase_ne ?_).trans hbudget
    rintro rfl
    exact hgone rfl
  policies id' hgone hpolicy := by
    change ((db.policies.erase id).lookup id').isSome
    rw [AList.lookup_erase_ne]
    · exact hpolicy
    · rintro rfl
      exact hgone rfl

end Grows

end Aeqi.Orchestrator
