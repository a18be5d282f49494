import Aeqi.Orchestrator.BudgetRegistry

/-!
# What a lock section does to the allowances

A section writes at most one charge. Rows stay within their caps through every section that
finds room for its charge (`Section.Meets`), and what a rail has spent grows by the charges.
-/

namespace Aeqi.Orchestrator

open Aeqi.Lib Option

/-! ## Rows -/

namespace AllowanceBundle

def cap (b : AllowanceBundle) : Rail → Int
  | .inference => b.inferenceCredits
  | .treasury => b.treasuryCap
  | .suballoc => b.suballocCap

def NonNeg (b : AllowanceBundle) : Prop :=
  0 ≤ b.inferenceCredits ∧ 0 ≤ b.treasuryCap ∧ 0 ≤ b.suballocCap

instance (b : AllowanceBundle) : Decidable b.NonNeg := inferInstanceAs (Decidable (_ ∧ _))

theorem NonNeg.cap {b : AllowanceBundle} (h : b.NonNeg) (rail : Rail) : 0 ≤ b.cap rail := by
  obtain ⟨hinference, htreasury, hsuballoc⟩ := h
  cases rail with
  | inference => exact hinference
  | treasury => exact htreasury
  | suballoc => exact hsuballoc

end AllowanceBundle

namespace AllowanceRow

def spent (row : AllowanceRow) : Rail → Int
  | .inference => row.spentInference
  | .treasury => row.spentTreasury
  | .suballoc => row.spentSuballoc

def Within (row : AllowanceRow) : Prop := ∀ rail, row.spent rail ≤ row.caps.cap rail

variable {row : AllowanceRow}

theorem spent_debit (row : AllowanceRow) (rail rail' : Rail) (n : Int) :
    (row.debit rail n).spent rail' = row.spent rail' + if rail = rail' then n else 0 := by
  cases rail <;> cases rail' <;> simp [debit, spent]

theorem caps_debit (row : AllowanceRow) (rail : Rail) (n : Int) :
    (row.debit rail n).caps = row.caps := by
  cases rail <;> rfl

theorem Within.debit (h : row.Within) {rail : Rail} {n : Int}
    (hroom : row.spent rail + n ≤ row.caps.cap rail) : (row.debit rail n).Within := by
  intro rail'
  rw [spent_debit, caps_debit]
  split
  · next heq => exact heq ▸ hroom
  · rw [Int.add_zero]
    exact h rail'

theorem Within.hired (h : row.Within) (n : Int) : (row.hired n).Within := by
  intro rail
  cases rail with
  | inference => exact h .inference
  | treasury => exact h .treasury
  | suballoc => exact h .suballoc

theorem Within.funded (h : row.Within) {bundle : AllowanceBundle} (hbundle : bundle.NonNeg) :
    (row.funded bundle).Within := by
  intro rail
  have hrow := h rail
  have hcap := hbundle.cap rail
  cases rail <;>
    simp only [AllowanceRow.funded, spent, AllowanceBundle.cap] at hrow hcap ⊢ <;> omega

end AllowanceRow

/-- An amount that is written to a rail of an allowance. -/
structure Charge where
  key : AllowanceKey
  rail : Rail
  amount : Int

def chargedTo (k : AllowanceKey) (rail : Rail) : List Charge → Int
  | [] => 0
  | c :: cs => (if c.key = k ∧ c.rail = rail then c.amount else 0) + chargedTo k rail cs

namespace Db

variable (db : Db)

def WithinCaps : Prop := ∀ k row, db.allowances.lookup k = some row → row.Within

def spentOn (k : AllowanceKey) (rail : Rail) : Int :=
  (db.allowances.lookup k).elim 0 (·.spent rail)

def Room (c : Charge) : Prop :=
  ∃ row ∈ db.allowances.lookup c.key, row.spent c.rail + c.amount ≤ row.caps.cap c.rail

instance (c : Charge) : Decidable (db.Room c) := by
  unfold Room
  infer_instance

variable {db} {k k' : AllowanceKey} {f : AllowanceRow → AllowanceRow} {rail : Rail} {n : Int}

theorem updateAllowance_of_some {row : AllowanceRow} (h : db.allowances.lookup k = some row) :
    db.updateAllowance k f = { db with allowances := db.allowances.insert k (f row) } := by
  rw [updateAllowance, h]

theorem updateAllowance_of_none (h : db.allowances.lookup k = none) :
    db.updateAllowance k f = db := by
  rw [updateAllowance, h]

theorem lookup_updateAllowance :
    (db.updateAllowance k f).allowances.lookup k' =
      if k' = k then (db.allowances.lookup k).map f else db.allowances.lookup k' := by
  cases hk : db.allowances.lookup k with
  | none =>
    rw [updateAllowance_of_none hk]
    by_cases heq : k' = k
    · rw [if_pos heq, heq, hk, map_none]
    · rw [if_neg heq]
  | some row =>
    rw [updateAllowance_of_some hk]
    by_cases heq : k' = k
    · rw [if_pos heq, heq, AList.lookup_insert, map_some]
    · rw [if_neg heq, AList.lookup_insert_ne heq]

theorem WithinCaps.update (hdb : db.WithinCaps)
    (hf : ∀ row, db.allowances.lookup k = some row → row.Within → (f row).Within) :
    (db.updateAllowance k f).WithinCaps := by
  intro k' row hrow
  rw [lookup_updateAllowance] at hrow
  split at hrow
  · obtain ⟨row', hrow', rfl⟩ := map_eq_some_iff.1 hrow
    exact hf row' hrow' (hdb k row' hrow')
  · exact hdb k' row hrow

/-- An update that adds `n` to what a rail has spent. -/
theorem spentOn_updateAllowance (db : Db) (k k' : AllowanceKey) (rail : Rail)
    (hf : ∀ row, (f row).spent rail = row.spent rail + n)
    (hk : (db.allowances.lookup k).isSome ∨ n = 0) :
    (db.updateAllowance k f).spentOn k' rail = db.spentOn k' rail + if k = k' then n else 0 := by
  unfold spentOn
  rw [lookup_updateAllowance]
  by_cases heq : k' = k
  · subst heq
    rw [if_pos rfl, if_pos rfl]
    cases hrow : db.allowances.lookup k' with
    | none =>
      rcases hk with hsome | rfl
      · rw [hrow] at hsome
        cases hsome
      · rfl
    | some row => exact hf row
  · rw [if_neg heq, if_neg (Ne.symm heq), Int.add_zero]

theorem insertEventAfter_allowances (e : TreasuryEvent) :
    (db.insertEventAfter e).2.allowances = db.allowances := by
  unfold insertEventAfter insertEvent
  split
  · next h =>
    split at h
    · cases h
    · cases h
      rfl
  · rfl

theorem insertEventAfter_ok {e : TreasuryEvent} (h : ¬ db.Conflicts e) :
    (db.insertEventAfter e).1 = .ok () := by
  simp [insertEventAfter, insertEvent, h]

theorem conflicts_updateAllowance {e : TreasuryEvent} :
    (db.updateAllowance k f).Conflicts e ↔ db.Conflicts e := by
  unfold updateAllowance
  cases db.allowances.lookup k <;> exact Iff.rfl

/-! ## Refresh -/

variable {budgetId : String}

theorem mem_epochs {epoch : Int} :
    epoch ∈ db.epochs budgetId ↔ (db.allowances.lookup ⟨budgetId, epoch⟩).isSome := by
  simp only [epochs, List.mem_map, List.mem_filter, decide_eq_true_eq, AList.lookup_isSome]
  constructor
  · rintro ⟨k, ⟨hk, rfl⟩, rfl⟩
    exact hk
  · exact fun h => ⟨_, ⟨h, rfl⟩, rfl⟩

theorem rowToAllowance_epoch {row : AllowanceRow} {a : BudgetAllowance}
    (h : rowToAllowance k row = .ok a) : a.epoch = k.epoch := by
  simp only [rowToAllowance, bind_eq_ok, pure_eq_ok] at h
  obtain ⟨_, -, _, -, _, -, _, -, _, -, _, -, _, -, _, -, rfl⟩ := h
  rfl

theorem lookup_of_needNew {latest : Option BudgetAllowance} {epoch : Int}
    (h : db.latestAllowance budgetId = .ok latest) (hnew : needNew latest epoch = true) :
    db.allowances.lookup ⟨budgetId, epoch⟩ = none := by
  by_contra hsome
  have hmem : epoch ∈ db.epochs budgetId :=
    mem_epochs.2 (isSome_iff_ne_none.2 hsome)
  unfold latestAllowance at h
  cases hmax : (db.epochs budgetId).max? with
  | none =>
    rw [List.max?_eq_none_iff.1 hmax] at hmem
    exact nomatch hmem
  | some m =>
    obtain ⟨hm, hle⟩ := List.max?_eq_some_iff.1 hmax
    obtain ⟨row, hrow⟩ := isSome_iff_exists.1 (mem_epochs.1 hm)
    rw [hmax] at h
    simp only [hrow, bind_eq_ok, pure_eq_ok] at h
    obtain ⟨a, ha, rfl⟩ := h
    have hepoch : a.epoch = m := rowToAllowance_epoch ha
    simp only [needNew, decide_eq_true_eq, hepoch] at hnew
    exact absurd (hle epoch hmem) (by omega)

def RefreshMeets (db : Db) (budgetId : String) (budget : Budget) (policy : BudgetPolicy)
    (now : Int) : Prop :=
  match db.latestAllowance budgetId with
  | .error _ => True
  | .ok latest =>
    needNew latest (db.currentEpoch budget policy now) = true → (policy.newCaps latest).NonNeg

instance (budgetId : String) (budget : Budget) (policy : BudgetPolicy) (now : Int) :
    Decidable (db.RefreshMeets budgetId budget policy now) := by
  unfold RefreshMeets
  split <;> infer_instance

theorem refresh_cases (db : Db) (budgetId : String) (budget : Budget) (policy : BudgetPolicy)
    (now : Int) :
    (db.refresh budgetId budget policy now).2.allowances = db.allowances ∨
      ∃ k caps, db.allowances.lookup k = none ∧
        (db.RefreshMeets budgetId budget policy now → caps.NonNeg) ∧
        (db.refresh budgetId budget policy now).2.allowances = db.allowances.insert k { caps } := by
  unfold refresh RefreshMeets
  cases hlatest : db.latestAllowance budgetId with
  | error e => exact .inl rfl
  | ok latest =>
    simp only
    by_cases hnew : needNew latest (db.currentEpoch budget policy now) = true
    · have hnone := lookup_of_needNew hlatest hnew
      refine .inr ⟨_, policy.newCaps latest, hnone, fun h => h hnew, ?_⟩
      simp [hnew, insertEvent, Conflicts, upsertCaps, hnone]
    · exact .inl (by rw [if_neg hnew])

end Db

/-! ## Sections -/

namespace Section

def charge : Section → Option Charge
  | .spend rail k amount _ => some ⟨k, rail, amount⟩
  | .allocate parent _ needTotal _ _ => some ⟨parent, .suballoc, needTotal⟩
  | _ => none

/-- A section that writes finds room for what it charges, no event with its key, and no
negative cap. -/
def Meets : Section → Db → Prop
  | .spend rail k amount event, db => db.Room ⟨k, rail, amount⟩ ∧ ¬ db.Conflicts event
  | .allocate parent _ needTotal bundle event, db =>
    db.Room ⟨parent, .suballoc, needTotal⟩ ∧ bundle.NonNeg ∧ ¬ db.Conflicts event
  | .refresh budgetId budget policy now, db => db.RefreshMeets budgetId budget policy now
  | _, _ => True

instance Meets.decidable (s : Section) (db : Db) : Decidable (s.Meets db) := by
  unfold Meets
  split <;> infer_instance

variable {s : Section} {db : Db}

theorem withinCaps (h : s.Meets db) (hdb : db.WithinCaps) : (s.run db).2.WithinCaps := by
  cases s with
  | spend rail k amount event =>
    obtain ⟨⟨row, hrow, hroom⟩, -⟩ := h
    have hupdate : (db.updateAllowance k (·.debit rail amount)).WithinCaps := by
      refine hdb.update fun row' hrow' hwithin => hwithin.debit ?_
      obtain rfl : row = row' := some.inj (hrow.symm.trans hrow')
      exact hroom
    intro k' row' hrow'
    rw [Section.run, Db.spend, Db.insertEventAfter_allowances] at hrow'
    exact hupdate k' row' hrow'
  | allocate parent child needTotal bundle event =>
    obtain ⟨⟨row, hrow, hroom⟩, hbundle, -⟩ := h
    have hdebit : (db.updateAllowance parent fun row =>
        (row.debit .suballoc needTotal).hired bundle.hireCap).WithinCaps := by
      refine hdb.update fun row' hrow' hwithin => (hwithin.debit ?_).hired _
      obtain rfl : row = row' := some.inj (hrow.symm.trans hrow')
      exact hroom
    have hfund := hdebit.update (k := child) (f := (·.funded bundle)) fun _ _ hwithin =>
      hwithin.funded hbundle
    intro k' row' hrow'
    rw [Section.run, Db.allocate, Db.insertEventAfter_allowances] at hrow'
    exact hfund k' row' hrow'
  | refresh budgetId budget policy now =>
    intro k' row' hrow'
    rw [Section.run] at hrow'
    rcases db.refresh_cases budgetId budget policy now with hsame | ⟨k, caps, -, hcaps, hinsert⟩
    · rw [hsame] at hrow'
      exact hdb k' row' hrow'
    · rw [hinsert] at hrow'
      rcases Accounts.lookup_insert_some hrow' with ⟨-, rfl⟩ | ⟨-, hrow'⟩
      · intro rail
        have hcap := (hcaps h).cap rail
        cases rail <;> exact hcap
      · exact hdb k' row' hrow'
  | getBudget | getTreasuryConfig | getPolicy | occupantKind | dedupExisting | dedupRequestHash
  | latestAllowance => exact hdb

theorem spentOn_run (h : s.Meets db) (k : AllowanceKey) (rail : Rail) :
    (s.run db).2.spentOn k rail = db.spentOn k rail + chargedTo k rail s.charge.toList := by
  cases s with
  | spend rail' k' amount event =>
    obtain ⟨⟨row, hrow, -⟩, -⟩ := h
    have hsome : (db.allowances.lookup k').isSome := isSome_of_mem hrow
    have hspent := db.spentOn_updateAllowance k' k rail
      (fun row => AllowanceRow.spent_debit row rail' rail amount) (.inl hsome)
    rw [Section.run, Db.spend, Db.spentOn, Db.insertEventAfter_allowances]
    refine hspent.trans ?_
    simp [charge, chargedTo, ite_and]
  | allocate parent child needTotal bundle event =>
    obtain ⟨⟨row, hrow, -⟩, -⟩ := h
    have hsome : (db.allowances.lookup parent).isSome := isSome_of_mem hrow
    let debited : Db := db.updateAllowance parent fun row =>
      (row.debit .suballoc needTotal).hired bundle.hireCap
    have hdebit : debited.spentOn k rail = _ := db.spentOn_updateAllowance parent k rail
      (fun row => AllowanceRow.spent_debit row .suballoc rail needTotal) (.inl hsome)
    have hfund : (debited.updateAllowance child (·.funded bundle)).spentOn k rail =
        debited.spentOn k rail + if child = k then 0 else 0 :=
      debited.spentOn_updateAllowance child k rail (fun row => (Int.add_zero _).symm) (.inr rfl)
    rw [ite_self, Int.add_zero] at hfund
    rw [Section.run, Db.allocate, Db.spentOn, Db.insertEventAfter_allowances]
    refine (hfund.trans hdebit).trans ?_
    simp [charge, chargedTo, ite_and]
  | refresh budgetId budget policy now =>
    rw [Section.run, Db.spentOn, Db.spentOn]
    rcases db.refresh_cases budgetId budget policy now with hsame | ⟨k', caps, hnone, -, hinsert⟩
    · rw [hsame]
      exact (Int.add_zero _).symm
    · rw [hinsert]
      by_cases hk : k = k'
      · subst hk
        rw [AList.lookup_insert, hnone]
        cases rail <;> rfl
      · rw [AList.lookup_insert_ne hk]
        exact (Int.add_zero _).symm
  | getBudget | getTreasuryConfig | getPolicy | occupantKind | dedupExisting | dedupRequestHash
  | latestAllowance => exact (Int.add_zero _).symm

end Section

end Aeqi.Orchestrator
