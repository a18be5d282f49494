import Aeqi.Orchestrator.Sections
import Mathlib.Data.Fin.VecNotation

/-!
# What concurrent calls spend

A debit is compared with the allowance in one section and written in a later one, and the row
is written before the event that carries the key: other calls run in between. A run keeps
every row within its caps when each debit still finds its room and its key free in the section
that writes it; the rows were then charged exactly what the calls that returned `Ok` with a
fresh key have spent.
-/

namespace Aeqi.Orchestrator

open Aeqi.Lib

/-! ## Methods -/

/-- What a call has charged, and whether it found an event with its key. -/
structure Log where
  charges : List Charge := []
  found : Bool := false

namespace Section

def finds : (s : Section) → s.Reply → Bool
  | .dedupExisting .., e => e.isSome
  | .dedupRequestHash _, e => e.isSome
  | _, _ => false

def Committed : (s : Section) → s.Reply → Prop
  | .spend .., r => r = .ok ()
  | .allocate .., r => r = .ok ()
  | _, _ => True

theorem committed {s : Section} {db : Db} (h : s.Meets db) : s.Committed (s.run db).1 := by
  cases s with
  | spend rail k amount event =>
    exact Db.insertEventAfter_ok fun hc => h.2 (Db.conflicts_updateAllowance.1 hc)
  | allocate parent child needTotal bundle event =>
    refine Db.insertEventAfter_ok fun hc => h.2.2 ?_
    exact Db.conflicts_updateAllowance.1 (Db.conflicts_updateAllowance.1 hc)
  | _ => trivial

end Section

/-- A call charges nothing before its last section. -/
def observer : Observer Section Section.Reply Log where
  note g s r := ⟨s.charge.toList ++ g.charges, g.found || s.finds r⟩
  allows := Section.Committed
  before g := g.charges = []

variable {α β : Type} {g : Log} {Q : Log → Except Error α → Prop}

theorem holds_locked {s : Section} {Q : Log → Except Error s.Reply → Prop} :
    (locked s).run.Holds observer g Q ↔ g.charges = [] ∧ ∀ r, s.Committed r →
      Q ⟨s.charge.toList ++ g.charges, g.found || s.finds r⟩ (.ok r) := Iff.rfl

/-- A method that charges nothing and looks up no key leaves the log as it is. -/
def Reads (x : Method α) : Prop :=
  ∀ g (Q : Log → Except Error α → Prop), g.charges = [] → (∀ r, Q g r) → x.run.Holds observer g Q

namespace Reads

theorem pass (x : Except Error α) : Reads (pass x) := fun _ _ _ hQ => hQ x

theorem locked {s : Section} (hcharge : s.charge = none) (hfinds : ∀ r, s.finds r = false) :
    Reads (locked s) := by
  intro g Q hg hQ
  refine holds_locked.2 ⟨hg, fun r _ => ?_⟩
  rw [hcharge, hfinds, Bool.or_false]
  exact hQ _

theorem andThen {x : Method α} {f : α → Method β} {Q : Log → Except Error β → Prop}
    (hx : Reads x) (hg : g.charges = []) (herror : ∀ e, Q g (.error e))
    (hf : ∀ y, (f y).run.Holds observer g Q) : (x >>= f).run.Holds observer g Q := by
  refine Prog.holds_bindExcept.2 (hx g _ hg ?_)
  rintro (e | y)
  · exact herror e
  · exact hf y

theorem bind {x : Method α} {f : α → Method β} (hx : Reads x) (hf : ∀ y, Reads (f y)) :
    Reads (x >>= f) := fun _ _ hg hQ => hx.andThen hg (fun _ => hQ _) fun y => hf y _ _ hg hQ

end Reads

theorem reads_getBudget (id : String) : Reads (getBudget id) := .locked rfl fun _ => rfl

theorem reads_getTreasuryConfig (trustId : String) : Reads (getTreasuryConfig trustId) :=
  .locked rfl fun _ => rfl

theorem reads_latestAllowance (budgetId : String) : Reads (latestAllowance budgetId) :=
  .bind (.locked rfl fun _ => rfl) fun _ => .pass _

theorem reads_assertNotPaused (trustId : String) : Reads (assertNotPaused trustId) :=
  .bind (reads_getTreasuryConfig trustId) fun _ => .pass _

theorem reads_refreshAt (budgetId : String) (now : Int) : Reads (refreshAt budgetId now) := by
  refine .bind (reads_getBudget budgetId) fun _ => .bind (.pass _) fun _ => ?_
  refine .bind (.locked rfl fun _ => rfl) fun _ => .bind (.pass _) fun _ => ?_
  exact .bind (.locked rfl fun _ => rfl) fun _ => .pass _

theorem reads_allowanceAt (budgetId : String) (now : Int) : Reads (allowanceAt budgetId now) :=
  .bind (reads_refreshAt budgetId now) fun _ =>
    .bind (reads_latestAllowance budgetId) fun _ => .pass _

/-! ## Calls -/

/-- A call of one of the methods, with the clock readings it will make. -/
inductive Call
  | spendInference (budgetId : String) (amount : Int) (requestHash actorAgentId : String)
      (gatewayAgentId : String) (now : Int)
  | spendTreasury (budgetId : String) (amount : Int) (callerRole : String)
      (callerAgentId idempotencyKey : Option String) (now : Int)
  | allocate (parentBudgetId childBudgetId : String) (bundle : AllowanceBundle)
      (callerRole : String) (callerAgentId idempotencyKey : Option String)
      (nowParent nowChild : Int)
  | refreshAt (budgetId : String) (now : Int)

namespace Call

def method : Call → Method Unit
  | .spendInference budgetId amount requestHash actorAgentId gatewayAgentId now =>
    Orchestrator.spendInference budgetId amount requestHash actorAgentId gatewayAgentId now
  | .spendTreasury budgetId amount callerRole callerAgentId idempotencyKey now =>
    Orchestrator.spendTreasury budgetId amount callerRole callerAgentId idempotencyKey now
  | .allocate parentBudgetId childBudgetId bundle callerRole callerAgentId idempotencyKey
      nowParent nowChild =>
    Orchestrator.allocate parentBudgetId childBudgetId bundle callerRole callerAgentId
      idempotencyKey nowParent nowChild
  | .refreshAt budgetId now => do
    let _ ← Orchestrator.refreshAt budgetId now
    pure ()

def charge : Call → Int → Option Charge
  | .spendInference budgetId amount .., epoch => some ⟨⟨budgetId, epoch⟩, .inference, amount⟩
  | .spendTreasury budgetId amount .., epoch => some ⟨⟨budgetId, epoch⟩, .treasury, amount⟩
  | .allocate parentBudgetId _ bundle .., epoch =>
    some ⟨⟨parentBudgetId, epoch⟩, .suballoc, bundle.needTotal⟩
  | .refreshAt .., _ => none

def NonNeg : Call → Prop
  | .spendInference _ amount .. => 0 ≤ amount
  | .spendTreasury _ amount .. => 0 ≤ amount
  | .allocate _ _ bundle .. => bundle.NonNeg
  | .refreshAt .. => True

instance (call : Call) : Decidable call.NonNeg := by
  unfold NonNeg
  split <;> infer_instance

/-- A call that succeeded with a fresh key has charged once; any other has charged nothing. -/
def Settles (call : Call) (g : Log) : Except Error Unit → Prop
  | .ok _ => if g.found then g.charges = [] else ∃ epoch, g.charges = (call.charge epoch).toList
  | .error _ => g.charges = []

end Call

variable {call : Call}

theorem Reads.goesOn {x : Method α} {f : α → Method Unit} (hx : Reads x)
    (hf : ∀ y, (f y).run.Holds observer {} call.Settles) :
    (x >>= f).run.Holds observer {} call.Settles := hx.andThen rfl (fun _ => rfl) hf

/-- The last section of a call: the event is not refused, so the call returns `Ok`. -/
theorem settles_last {s : Section} (epoch : Int) {f : s.Reply → Method Unit}
    (hcharge : s.charge = call.charge epoch) (hfinds : ∀ r, s.finds r = false)
    (hf : ∀ r, s.Committed r → f r = pure ()) :
    (locked s >>= f).run.Holds observer {} call.Settles := by
  refine Prog.holds_bindExcept.2 (holds_locked.2 ⟨rfl, fun r hr => ?_⟩)
  rw [hfinds]
  simp only [Prog.orError, hf r hr]
  refine ⟨epoch, ?_⟩
  rw [hcharge, List.append_nil]

theorem settles_dedup {s : Section} (hcharge : s.charge = none) {f : s.Reply → Method Unit}
    (hf : ∀ r, if s.finds r then f r = pure () else (f r).run.Holds observer {} call.Settles) :
    (locked s >>= f).run.Holds observer {} call.Settles := by
  refine Prog.holds_bindExcept.2 (holds_locked.2 ⟨rfl, fun r _ => ?_⟩)
  have hr := hf r
  rw [hcharge]
  split at hr
  · next hfound =>
    have hsettles : call.Settles ⟨[], true⟩ (.ok ()) := by simp [Call.Settles]
    rw [hfound]
    simp only [Prog.orError, hr]
    exact hsettles
  · next hfound =>
    rw [Bool.not_eq_true] at hfound
    rw [hfound]
    exact hr

/-- `dedup_existing` under the key of the caller, if there is one. -/
theorem settles_dedupKey {budgetId : String} {key : Option String}
    {f : Option TreasuryEvent → Method Unit}
    (hfound : ∀ e, f (some e) = pure ())
    (hfresh : (f none).run.Holds observer {} call.Settles) :
    (dedup budgetId key >>= f).run.Holds observer {} call.Settles := by
  cases key with
  | none => exact hfresh
  | some key =>
    refine settles_dedup rfl fun e => ?_
    cases e with
    | none => exact hfresh
    | some e => exact hfound e

/-! ## What each method settles -/

theorem spendInference_settles (budgetId : String) (amount : Int)
    (requestHash actorAgentId gatewayAgentId : String) (now : Int) :
    let call : Call := .spendInference budgetId amount requestHash actorAgentId gatewayAgentId now
    call.method.run.Holds observer {} call.Settles := by
  intro call
  refine (reads_getBudget budgetId).goesOn fun _ => ?_
  refine (Reads.pass _).goesOn fun budget => ?_
  refine (reads_getTreasuryConfig _).goesOn fun _ => ?_
  refine (Reads.pass _).goesOn fun cfg => ?_
  refine (Reads.pass _).goesOn fun _ => ?_
  refine (Reads.pass _).goesOn fun _ => ?_
  refine settles_dedup rfl fun existing => ?_
  cases existing with
  | some e => rfl
  | none =>
    refine (reads_allowanceAt budgetId now).goesOn fun alw => ?_
    refine (Reads.pass _).goesOn fun _ => ?_
    refine settles_last alw.epoch rfl (fun _ => rfl) ?_
    rintro _ rfl
    rfl

theorem spendTreasury_settles (budgetId : String) (amount : Int) (callerRole : String)
    (callerAgentId idempotencyKey : Option String) (now : Int) :
    let call : Call :=
      .spendTreasury budgetId amount callerRole callerAgentId idempotencyKey now
    call.method.run.Holds observer {} call.Settles := by
  intro call
  refine (reads_getBudget budgetId).goesOn fun _ => ?_
  refine (Reads.pass _).goesOn fun budget => ?_
  refine (reads_assertNotPaused _).goesOn fun _ => ?_
  refine (Reads.pass _).goesOn fun _ => ?_
  refine (Reads.locked rfl fun _ => rfl).goesOn fun _ => ?_
  refine (Reads.pass _).goesOn fun ownerKind => ?_
  refine (Reads.pass _).goesOn fun _ => ?_
  refine settles_dedupKey (fun _ => rfl) ?_
  refine (reads_allowanceAt budgetId now).goesOn fun alw => ?_
  refine (Reads.pass _).goesOn fun _ => ?_
  refine settles_last alw.epoch rfl (fun _ => rfl) ?_
  rintro _ rfl
  rfl

theorem allocate_settles (parentBudgetId childBudgetId : String) (bundle : AllowanceBundle)
    (callerRole : String) (callerAgentId idempotencyKey : Option String)
    (nowParent nowChild : Int) :
    let call : Call := .allocate parentBudgetId childBudgetId bundle callerRole callerAgentId
      idempotencyKey nowParent nowChild
    call.method.run.Holds observer {} call.Settles := by
  intro call
  refine (reads_getBudget parentBudgetId).goesOn fun _ => ?_
  refine (Reads.pass _).goesOn fun parent => ?_
  refine (reads_getBudget childBudgetId).goesOn fun _ => ?_
  refine (Reads.pass _).goesOn fun child => ?_
  refine (reads_assertNotPaused _).goesOn fun _ => ?_
  refine (Reads.pass _).goesOn fun _ => ?_
  refine (Reads.pass _).goesOn fun _ => ?_
  refine settles_dedupKey (fun _ => rfl) ?_
  refine (reads_refreshAt _ _).goesOn fun _ => ?_
  refine (reads_refreshAt _ _).goesOn fun _ => ?_
  refine (reads_latestAllowance _).goesOn fun _ => ?_
  refine (Reads.pass _).goesOn fun parentAlw => ?_
  refine (reads_latestAllowance _).goesOn fun _ => ?_
  refine (Reads.pass _).goesOn fun childAlw => ?_
  refine (Reads.pass _).goesOn fun _ => ?_
  refine (Reads.pass _).goesOn fun _ => ?_
  refine settles_last parentAlw.epoch rfl (fun _ => rfl) ?_
  rintro _ rfl
  rfl

theorem refreshAt_settles (budgetId : String) (now : Int) :
    let call : Call := .refreshAt budgetId now
    call.method.run.Holds observer {} call.Settles := by
  intro call
  refine (reads_refreshAt budgetId now).goesOn fun _ => ?_
  exact ⟨0, rfl⟩

theorem Call.settles (call : Call) : call.method.run.Holds observer {} call.Settles := by
  cases call with
  | spendInference => exact spendInference_settles ..
  | spendTreasury => exact spendTreasury_settles ..
  | allocate => exact allocate_settles ..
  | refreshAt => exact refreshAt_settles ..

/-! ## Runs -/

section Run

variable {ι : Type} [DecidableEq ι]

abbrev Running (ι : Type) := Pool Db ι (Prog Section Section.Reply (Except Error Unit))

def start (calls : ι → Call) (db : Db) : Running ι := ⟨db, fun i => (calls i).method.run⟩

/-- One call takes the lock once. -/
abbrev Running.exec (c : Running ι) (i : ι) : Except Unit (Running ι) := Pool.step Section.run c i

abbrev Running.Step : Running ι → ι → Running ι → Prop := okStep Running.exec

abbrev SectionMeets : Running ι → ι → Prop := Pool.NextMeets Section.Meets

/-- What call `i` has done in a history. -/
def logOfCall (i : ι) (hist : List (Running ι × ι)) : Log := logOf observer Section.run {} i hist

/-- Call `i` returned `Ok` with a key that no event had. -/
def ReturnedFresh (hist : List (Running ι × ι)) (c : Running ι) (i : ι) : Prop :=
  c.threads i = .done (.ok ()) ∧ (logOfCall i hist).found = false

theorem chargedTo_append (k : AllowanceKey) (rail : Rail) (cs cs' : List Charge) :
    chargedTo k rail (cs ++ cs') = chargedTo k rail cs + chargedTo k rail cs' := by
  induction cs with
  | nil => exact (Int.zero_add _).symm
  | cons c cs ih =>
    rw [List.cons_append, chargedTo, ih, chargedTo, Int.add_assoc]

variable [Fintype ι] {calls : ι → Call} {db : Db} {hist : List (Running ι × ι)} {c : Running ι}

end Run

/-- Budget `ops` may spend a hundred units of the treasury in each epoch. -/
def opsDb : Db where
  roles := (∅ : Accounts String Role).insert "lead"
    { trustId := "acme", occupantKind := .human, occupantId := some "ada" }
  budgets := (∅ : Accounts String Budget).insert "ops"
    ⟨"acme", none, "lead", "Operations", .operating, false, none⟩
  policies := (∅ : Accounts String BudgetPolicy).insert "ops"
    ⟨{ treasuryCap := 100 }, 604800, .burn, none⟩
  allowances := (∅ : Accounts AllowanceKey AllowanceRow).insert ⟨"ops", 0⟩
    { caps := { treasuryCap := 100 } }

theorem opsDb_withinCaps : opsDb.WithinCaps := by
  intro k row hrow rail
  rcases Accounts.lookup_insert_some hrow with ⟨-, rfl⟩ | ⟨-, hrow⟩
  · cases rail <;> decide
  · cases hrow

def opsSpend (amount : Int) (key : String) : Call :=
  .spendTreasury "ops" amount "lead" none (some key) 0

end Aeqi.Orchestrator
