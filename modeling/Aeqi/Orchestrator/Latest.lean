import Aeqi.Orchestrator.BudgetCalls

/-!
# The latest allowance of a budget

Every debit but that of a `hire` goes to the allowance of the latest epoch that has one. What
that allowance is depends on the rows of the budget alone, and a read of it succeeds exactly
when its columns are integers of 64 bits.
-/

namespace Aeqi.Orchestrator

open Aeqi.Lib Option

/-! ## Integers of 64 bits -/

def InI64 (n : Int) : Prop := -2 ^ 63 ≤ n ∧ n < 2 ^ 63

instance (n : Int) : Decidable (InI64 n) := inferInstanceAs (Decidable (_ ∧ _))

theorem wrapI64_of_inI64 {n : Int} (h : InI64 n) : wrapI64 n = n := by
  obtain ⟨hlow, hhigh⟩ := h
  apply Int.bmod_eq_of_le_mul_two <;> omega

theorem readI64_eq_ok {n m : Int} : readI64 n = .ok m ↔ InI64 n ∧ n = m := by
  unfold readI64 InI64
  split <;> simp_all

/-! ## Bundles -/

namespace AllowanceBundle

instance : Add AllowanceBundle where
  add x y := {
    inferenceCredits := x.inferenceCredits + y.inferenceCredits
    treasuryCap := x.treasuryCap + y.treasuryCap
    suballocCap := x.suballocCap + y.suballocCap
    hireCap := x.hireCap + y.hireCap }

instance : Sub AllowanceBundle where
  sub x y := {
    inferenceCredits := x.inferenceCredits - y.inferenceCredits
    treasuryCap := x.treasuryCap - y.treasuryCap
    suballocCap := x.suballocCap - y.suballocCap
    hireCap := x.hireCap - y.hireCap }

/-- At most as much on every rail. -/
instance : LE AllowanceBundle where
  le x y := x.inferenceCredits ≤ y.inferenceCredits ∧ x.treasuryCap ≤ y.treasuryCap ∧
    x.suballocCap ≤ y.suballocCap ∧ x.hireCap ≤ y.hireCap

instance (x y : AllowanceBundle) : Decidable (x ≤ y) := inferInstanceAs (Decidable (_ ∧ _))

attribute [ext] AllowanceBundle

section Components

variable (x y : AllowanceBundle)

@[simp] theorem inferenceCredits_add :
    (x + y).inferenceCredits = x.inferenceCredits + y.inferenceCredits := rfl

@[simp] theorem treasuryCap_add : (x + y).treasuryCap = x.treasuryCap + y.treasuryCap := rfl

@[simp] theorem suballocCap_add : (x + y).suballocCap = x.suballocCap + y.suballocCap := rfl

@[simp] theorem hireCap_add : (x + y).hireCap = x.hireCap + y.hireCap := rfl

@[simp] theorem inferenceCredits_sub :
    (x - y).inferenceCredits = x.inferenceCredits - y.inferenceCredits := rfl

@[simp] theorem treasuryCap_sub : (x - y).treasuryCap = x.treasuryCap - y.treasuryCap := rfl

@[simp] theorem suballocCap_sub : (x - y).suballocCap = x.suballocCap - y.suballocCap := rfl

@[simp] theorem hireCap_sub : (x - y).hireCap = x.hireCap - y.hireCap := rfl

end Components

end AllowanceBundle

/-! ## Rows that can be read -/

namespace AllowanceRow

/-- Every column is an integer of 64 bits. -/
@[mk_iff]
structure Readable (row : AllowanceRow) : Prop where
  inferenceCredits : InI64 row.caps.inferenceCredits
  treasuryCap : InI64 row.caps.treasuryCap
  suballocCap : InI64 row.caps.suballocCap
  hireCap : InI64 row.caps.hireCap
  spentInference : InI64 row.spentInference
  spentTreasury : InI64 row.spentTreasury
  spentSuballoc : InI64 row.spentSuballoc
  usedHire : InI64 row.usedHire

instance (row : AllowanceRow) : Decidable row.Readable := decidable_of_iff' _ (readable_iff row)

def seen (row : AllowanceRow) (k : AllowanceKey) : BudgetAllowance where
  toAllowanceRow := row
  budgetId := k.budgetId
  epoch := k.epoch

end AllowanceRow

theorem rowToAllowance_eq_ok {k : AllowanceKey} {row : AllowanceRow} {a : BudgetAllowance} :
    rowToAllowance k row = .ok a ↔ row.Readable ∧ row.seen k = a := by
  simp only [rowToAllowance, bind_eq_ok, pure_eq_ok, readI64_eq_ok]
  constructor
  · rintro ⟨_, ⟨h₁, rfl⟩, _, ⟨h₂, rfl⟩, _, ⟨h₃, rfl⟩, _, ⟨h₄, rfl⟩, _, ⟨h₅, rfl⟩, _, ⟨h₆, rfl⟩,
      _, ⟨h₇, rfl⟩, _, ⟨h₈, rfl⟩, rfl⟩
    exact ⟨⟨h₁, h₂, h₃, h₄, h₅, h₆, h₇, h₈⟩, rfl⟩
  · rintro ⟨⟨h₁, h₂, h₃, h₄, h₅, h₆, h₇, h₈⟩, rfl⟩
    exact ⟨_, ⟨h₁, rfl⟩, _, ⟨h₂, rfl⟩, _, ⟨h₃, rfl⟩, _, ⟨h₄, rfl⟩, _, ⟨h₅, rfl⟩, _, ⟨h₆, rfl⟩,
      _, ⟨h₇, rfl⟩, _, ⟨h₈, rfl⟩, rfl⟩

/-! ## The latest epoch -/

namespace Db

variable {db db' : Db} {b : String}

def latestEpoch (db : Db) (b : String) : Option Int := (db.epochs b).max?

theorem latestEpoch_eq_some {e : Int} :
    db.latestEpoch b = some e ↔ (db.allowances.lookup ⟨b, e⟩).isSome ∧
        ∀ e', (db.allowances.lookup ⟨b, e'⟩).isSome → e' ≤ e := by
  simp [latestEpoch, List.max?_eq_some_iff, mem_epochs]

theorem latestEpoch_eq_none :
    db.latestEpoch b = none ↔ ∀ e, db.allowances.lookup ⟨b, e⟩ = none := by
  rw [latestEpoch, List.max?_eq_none_iff, List.eq_nil_iff_forall_not_mem]
  simp [mem_epochs]

theorem latestEpoch_congr
    (h : ∀ e, (db'.allowances.lookup ⟨b, e⟩).isSome = (db.allowances.lookup ⟨b, e⟩).isSome) :
    db'.latestEpoch b = db.latestEpoch b := by
  refine Option.ext fun e => ?_
  simp [latestEpoch_eq_some, h]

theorem le_latestEpoch {e : Int} (h : (db.allowances.lookup ⟨b, e⟩).isSome) :
    ∃ l, db.latestEpoch b = some l ∧ e ≤ l := by
  cases hl : db.latestEpoch b with
  | none =>
    rw [latestEpoch_eq_none.1 hl e] at h
    cases h
  | some l => exact ⟨l, rfl, (latestEpoch_eq_some.1 hl).2 e h⟩

theorem latestAllowance_of_none (h : db.latestEpoch b = none) : db.latestAllowance b = .ok none := by
  have hmax : (db.epochs b).max? = none := h
  rw [latestAllowance, hmax]
  rfl

theorem latestAllowance_of_some {e : Int} {row : AllowanceRow} (h : db.latestEpoch b = some e)
    (hrow : db.allowances.lookup ⟨b, e⟩ = some row) :
    db.latestAllowance b = rowToAllowance ⟨b, e⟩ row >>= fun a => pure (some a) := by
  have hmax : (db.epochs b).max? = some e := h
  rw [latestAllowance, hmax]
  simp [hrow]

variable {a : BudgetAllowance}

theorem latestAllowance_eq_some :
    db.latestAllowance b = .ok (some a) ↔ ∃ e row, db.latestEpoch b = some e ∧
      db.allowances.lookup ⟨b, e⟩ = some row ∧ row.Readable ∧ row.seen ⟨b, e⟩ = a := by
  cases hl : db.latestEpoch b with
  | none => simp [latestAllowance_of_none hl]
  | some e =>
    obtain ⟨hrow, -⟩ := latestEpoch_eq_some.1 hl
    obtain ⟨row, hrow⟩ := isSome_iff_exists.1 hrow
    simp only [latestAllowance_of_some hl hrow, bind_eq_ok, pure_eq_ok, Option.some.injEq,
      rowToAllowance_eq_ok]
    constructor
    · rintro ⟨_, ⟨hread, rfl⟩, rfl⟩
      exact ⟨e, row, rfl, hrow, hread, rfl⟩
    · rintro ⟨_, row', rfl, hrow', hread, rfl⟩
      cases hrow.symm.trans hrow'
      exact ⟨_, ⟨hread, rfl⟩, rfl⟩

theorem latestEpoch_of_latest (h : db.latestAllowance b = .ok (some a)) :
    db.latestEpoch b = some a.epoch := by
  obtain ⟨e, -, hl, -, -, rfl⟩ := latestAllowance_eq_some.1 h
  exact hl

theorem latestAllowance_eq_none :
    db.latestAllowance b = .ok none ↔ db.latestEpoch b = none := by
  cases hl : db.latestEpoch b with
  | none => simp [latestAllowance_of_none hl]
  | some e =>
    obtain ⟨hrow, -⟩ := latestEpoch_eq_some.1 hl
    obtain ⟨row, hrow⟩ := isSome_iff_exists.1 hrow
    simp only [latestAllowance_of_some hl hrow, bind_eq_ok]
    simp

theorem latestAllowance_congr
    (h : ∀ e, db'.allowances.lookup ⟨b, e⟩ = db.allowances.lookup ⟨b, e⟩) :
    db'.latestAllowance b = db.latestAllowance b := by
  have hepoch : db'.latestEpoch b = db.latestEpoch b := latestEpoch_congr fun e => by rw [h e]
  cases hl : db.latestEpoch b with
  | none => rw [latestAllowance_of_none hl, latestAllowance_of_none (hepoch.trans hl)]
  | some e =>
    obtain ⟨hrow, -⟩ := latestEpoch_eq_some.1 hl
    obtain ⟨row, hrow⟩ := isSome_iff_exists.1 hrow
    rw [latestAllowance_of_some hl hrow,
      latestAllowance_of_some (hepoch.trans hl) ((h e).trans hrow)]

variable {f : AllowanceRow → AllowanceRow}

variable {k : AllowanceKey}

theorem lookup_updateAllowance_ne {k' : AllowanceKey} (hne : k' ≠ k) :
    (db.updateAllowance k f).allowances.lookup k' = db.allowances.lookup k' := by
  rw [lookup_updateAllowance, if_neg hne]

theorem isSome_lookup_updateAllowance {k' : AllowanceKey} :
    ((db.updateAllowance k f).allowances.lookup k').isSome = (db.allowances.lookup k').isSome := by
  rw [lookup_updateAllowance]
  split
  next heq => rw [heq, isSome_map]
  next => rfl

theorem latestEpoch_updateAllowance :
    (db.updateAllowance k f).latestEpoch b = db.latestEpoch b :=
  latestEpoch_congr fun _ => isSome_lookup_updateAllowance

theorem latestAllowance_update_ne (hne : k.budgetId ≠ b) :
    (db.updateAllowance k f).latestAllowance b = db.latestAllowance b := by
  refine latestAllowance_congr fun e => lookup_updateAllowance_ne ?_
  rintro rfl
  exact hne rfl

theorem latestAllowance_update (h : db.latestAllowance b = .ok (some a))
    (hf : (f a.toAllowanceRow).Readable) :
    (db.updateAllowance ⟨b, a.epoch⟩ f).latestAllowance b =
      .ok (some ((f a.toAllowanceRow).seen ⟨b, a.epoch⟩)) := by
  obtain ⟨e, row, hl, hrow, -, rfl⟩ := latestAllowance_eq_some.1 h
  refine latestAllowance_eq_some.2 ⟨e, f row, ?_, ?_, hf, rfl⟩
  · exact latestEpoch_updateAllowance.trans hl
  · change (db.updateAllowance ⟨b, e⟩ f).allowances.lookup ⟨b, e⟩ = some (f row)
    rw [lookup_updateAllowance, if_pos rfl, hrow, map_some]

end Db

/-! ## What remains of a budget -/

namespace AllowanceRow

variable {row : AllowanceRow}

/-- On no rail does the cap differ from what is spent by more than an `i64` holds. -/
@[mk_iff]
structure RailsFit (row : AllowanceRow) : Prop where
  inference : InI64 (row.caps.inferenceCredits - row.spentInference)
  treasury : InI64 (row.caps.treasuryCap - row.spentTreasury)
  suballoc : InI64 (row.caps.suballocCap - row.spentSuballoc)

/-- Nor does the number of hires. -/
@[mk_iff]
structure Fits (row : AllowanceRow) : Prop extends row.RailsFit where
  hire : InI64 (row.caps.hireCap - row.usedHire)

instance (row : AllowanceRow) : Decidable row.RailsFit := decidable_of_iff' _ (railsFit_iff row)

instance (row : AllowanceRow) : Decidable row.Fits := decidable_of_iff' _ (fits_iff row)

/-- No rail is spent, and no hire used, beyond its cap. -/
structure NotOverdrawn (row : AllowanceRow) : Prop where
  inference : row.spentInference ≤ row.caps.inferenceCredits
  treasury : row.spentTreasury ≤ row.caps.treasuryCap
  suballoc : row.spentSuballoc ≤ row.caps.suballocCap
  hire : row.usedHire ≤ row.caps.hireCap

end AllowanceRow

namespace BudgetAllowance

variable {a : BudgetAllowance}

def remaining (a : BudgetAllowance) : AllowanceBundle where
  inferenceCredits := a.remainingInference
  treasuryCap := a.remainingTreasury
  suballocCap := a.remainingSuballoc
  hireCap := a.remainingHire

theorem remaining_of_fits (h : a.Fits) : a.remaining = {
    inferenceCredits := max (a.caps.inferenceCredits - a.spentInference) 0
    treasuryCap := max (a.caps.treasuryCap - a.spentTreasury) 0
    suballocCap := max (a.caps.suballocCap - a.spentSuballoc) 0
    hireCap := max (a.caps.hireCap - a.usedHire) 0 } := by
  unfold remaining remainingInference remainingTreasury remainingSuballoc remainingHire
  rw [wrapI64_of_inI64 h.inference, wrapI64_of_inI64 h.treasury, wrapI64_of_inI64 h.suballoc,
    wrapI64_of_inI64 h.hire]

end BudgetAllowance

namespace Db

variable (db : Db)

def remaining (b : String) : AllowanceBundle :=
  match db.latestAllowance b with
  | .ok (some a) => a.remaining
  | _ => {}

variable {db} {b : String} {a : BudgetAllowance}

theorem remaining_of_latest (h : db.latestAllowance b = .ok (some a)) :
    db.remaining b = a.remaining := by
  rw [remaining, h]

theorem remaining_congr {db' : Db} (h : db'.latestAllowance b = db.latestAllowance b) :
    db'.remaining b = db.remaining b := by
  unfold remaining
  rw [h]

end Db

end Aeqi.Orchestrator
