import Aeqi.Orchestrator.Latest

/-!
# Allocations conserve what remains

`allocate` carves a bundle out of the suballoc rail of the parent, whatever the rails of the
bundle: the child gains each component on its own rail, the parent pays their sum on one. Over
the three rails together nothing is gained or lost in the tree, nor on the rail of hires.
-/

namespace Aeqi.Orchestrator

open Aeqi.Lib Handler
open AllowanceRow (debit funded hired seen)
open BudgetAllowance (remaining_of_fits)

/-! ## The bundle of a request -/

/-- A JSON value, as far as the parser of a bundle looks into one. -/
inductive Value
  | integer (n : Int)
  | object (fields : List (String × Value))
  | other

namespace Value

def get : Value → String → Option Value
  | .object fields, name => fields.lookup name
  | _, _ => none

def asI64 : Value → Option Int
  | .integer n => if InI64 n then some n else none
  | _ => none

end Value

def parseBundle (v : Value) : AllowanceBundle where
  inferenceCredits := ((v.get "inference_credits").bind Value.asI64).getD 0
  treasuryCap := ((v.get "treasury_cap").bind Value.asI64).getD 0
  suballocCap := ((v.get "suballoc_cap").bind Value.asI64).getD 0
  hireCap := ((v.get "hire_cap").bind Value.asI64).getD 0

/-! ## Bundles -/

namespace AllowanceBundle

variable (bundle : AllowanceBundle)

/-- The three rails that are paid from the suballoc rail of the parent. -/
def total : Int := bundle.inferenceCredits + bundle.treasuryCap + bundle.suballocCap

/-- What the parent pays. -/
def carved : AllowanceBundle := { suballocCap := bundle.total, hireCap := bundle.hireCap }

variable {bundle}

theorem NonNeg.total (h : bundle.NonNeg) : 0 ≤ bundle.total := by
  obtain ⟨hinference, htreasury, hsuballoc⟩ := h
  unfold AllowanceBundle.total
  omega

theorem NonNeg.needTotal (h : bundle.NonNeg) (hsum : bundle.total < 2 ^ 63) :
    bundle.needTotal = bundle.total := by
  have htotal := h.total
  obtain ⟨hinference, htreasury, hsuballoc⟩ := h
  have hin : InI64 (bundle.inferenceCredits + bundle.treasuryCap) := by
    unfold AllowanceBundle.total at hsum
    exact ⟨by omega, by omega⟩
  have hout : InI64 bundle.total := ⟨by omega, hsum⟩
  rw [AllowanceBundle.needTotal, wrapI64_of_inI64 hin]
  exact wrapI64_of_inI64 hout

end AllowanceBundle

open AllowanceBundle (carved hireCap_add hireCap_sub inferenceCredits_add suballocCap_add
  suballocCap_sub total treasuryCap_add)

/-! ## Totals -/

namespace Db

variable (db : Db)

def totalRemaining : Int := ∑ b ∈ db.budgets.keys.toFinset, (db.remaining b).total

def totalHires : Int := ∑ b ∈ db.budgets.keys.toFinset, (db.remaining b).hireCap

end Db

/-! ## One transfer -/

section Transfer

variable {bundle : AllowanceBundle} {row : AllowanceRow} {k : AllowanceKey}

theorem debited_fits (hbundle : bundle.NonNeg) (hhires : 0 ≤ bundle.hireCap)
    (hfits : row.Fits) (htotal : bundle.total ≤ (row.seen k).remaining.suballocCap)
    (hhire : bundle.hireCap ≤ (row.seen k).remaining.hireCap) :
    ((row.debit .suballoc bundle.total).hired bundle.hireCap).Fits := by
  have hpositive := hbundle.total
  rw [remaining_of_fits hfits] at htotal hhire
  obtain ⟨⟨hinference, htreasury, hsuballoc⟩, hhired⟩ := hfits
  simp only [seen] at htotal hhire
  unfold InI64 at hsuballoc hhired
  refine ⟨⟨hinference, htreasury, ?_⟩, ?_⟩
  · simp only [debit, hired, InI64]
    omega
  · simp only [debit, hired, InI64]
    omega

theorem debited_readable (hbundle : bundle.NonNeg) (hhires : 0 ≤ bundle.hireCap)
    (hread : row.Readable) (hfits : row.Fits)
    (htotal : bundle.total ≤ (row.seen k).remaining.suballocCap)
    (hhire : bundle.hireCap ≤ (row.seen k).remaining.hireCap) :
    ((row.debit .suballoc bundle.total).hired bundle.hireCap).Readable := by
  have hpositive := hbundle.total
  rw [remaining_of_fits hfits] at htotal hhire
  obtain ⟨h₁, h₂, h₃, h₄, h₅, h₆, h₇, h₈⟩ := hread
  simp only [seen] at htotal hhire
  refine ⟨h₁, h₂, h₃, h₄, h₅, h₆, ?_, ?_⟩
  · simp only [debit, hired]
    unfold InI64 at h₃ h₇ ⊢
    omega
  · simp only [debit, hired]
    unfold InI64 at h₄ h₈ ⊢
    omega

theorem remaining_debited (hbundle : bundle.NonNeg) (hhires : 0 ≤ bundle.hireCap)
    (hfits : row.Fits) (htotal : bundle.total ≤ (row.seen k).remaining.suballocCap)
    (hhire : bundle.hireCap ≤ (row.seen k).remaining.hireCap) :
    (((row.debit .suballoc bundle.total).hired bundle.hireCap).seen k).remaining =
      (row.seen k).remaining - bundle.carved := by
  have hpositive := hbundle.total
  rw [remaining_of_fits (debited_fits hbundle hhires hfits htotal hhire)]
  rw [remaining_of_fits hfits] at htotal hhire ⊢
  simp only [seen] at htotal hhire
  apply AllowanceBundle.ext
  · simp [seen, debit, hired, carved]
  · simp [seen, debit, hired, carved]
  · simp only [seen, debit, hired, carved, suballocCap_sub]
    omega
  · simp only [seen, debit, hired, carved, hireCap_sub]
    omega

theorem remaining_funded (hfits : row.Fits) (hfunded : (row.funded bundle).Fits)
    (hin : row.NotOverdrawn) (hbundle : bundle.NonNeg) (hhires : 0 ≤ bundle.hireCap) :
    ((row.funded bundle).seen k).remaining = (row.seen k).remaining + bundle := by
  rw [remaining_of_fits hfunded, remaining_of_fits hfits]
  obtain ⟨hinference, htreasury, hsuballoc⟩ := hbundle
  obtain ⟨hspent, htspent, hsspent, hused⟩ := hin
  apply AllowanceBundle.ext
  · simp only [seen, funded, inferenceCredits_add]
    omega
  · simp only [seen, funded, treasuryCap_add]
    omega
  · simp only [seen, funded, suballocCap_add]
    omega
  · simp only [seen, funded, hireCap_add]
    omega

theorem remaining_le_funded (hfits : row.Fits) (hfunded : (row.funded bundle).Fits)
    (hbundle : bundle.NonNeg) (hhires : 0 ≤ bundle.hireCap) :
    (row.seen k).remaining ≤ ((row.funded bundle).seen k).remaining := by
  rw [remaining_of_fits (a := (row.funded bundle).seen k) hfunded,
    remaining_of_fits (a := row.seen k) hfits]
  obtain ⟨hinference, htreasury, hsuballoc⟩ := hbundle
  refine ⟨?_, ?_, ?_, ?_⟩
  all_goals
    simp only [seen, funded]
    omega

end Transfer

/-! ## The tree -/

theorem sum_transfer {ι : Type} [DecidableEq ι] {s : Finset ι} {f g : ι → Int} {p c : ι}
    (hp : p ∈ s) (hc : c ∈ s) (hne : p ≠ c) (hpair : g p + g c = f p + f c)
    (hrest : ∀ b ∈ s, b ≠ p → b ≠ c → g b = f b) : ∑ b ∈ s, g b = ∑ b ∈ s, f b := by
  have hc' : c ∈ s.erase p := Finset.mem_erase.2 ⟨hne.symm, hc⟩
  have hsame : ∑ b ∈ (s.erase p).erase c, g b = ∑ b ∈ (s.erase p).erase c, f b := by
    apply Finset.sum_congr rfl
    intro b hb
    obtain ⟨hbc, hb⟩ := Finset.mem_erase.1 hb
    obtain ⟨hbp, hb⟩ := Finset.mem_erase.1 hb
    exact hrest b hb hbp hbc
  calc ∑ b ∈ s, g b = g p + (g c + ∑ b ∈ (s.erase p).erase c, g b) := by
        rw [Finset.add_sum_erase _ g hc', Finset.add_sum_erase _ g hp]
    _ = f p + (f c + ∑ b ∈ (s.erase p).erase c, f b) := by
        omega
    _ = ∑ b ∈ s, f b := by
        rw [Finset.add_sum_erase _ f hc', Finset.add_sum_erase _ f hp]

/-- What an allocation does to the tree. -/
structure Carved (db db' : Db) (p c : String) (bundle : AllowanceBundle) : Prop where
  tree : SameTree db db'
  parent : db'.remaining p = db.remaining p - bundle.carved
  child : ∃ a, db.latestAllowance c = .ok (some a) ∧ db.remaining c ≤ db'.remaining c ∧
    (a.NotOverdrawn → db'.remaining c = db.remaining c + bundle ∧
      db'.totalRemaining = db.totalRemaining ∧ db'.totalHires = db.totalHires)
  others : ∀ b, b ≠ p → b ≠ c → db'.latestAllowance b = db.latestAllowance b

/-- No number of the two rows leaves the 64 bits of an integer. -/
structure Db.InRange (db : Db) (p c : String) (bundle : AllowanceBundle) : Prop where
  parent : ∀ a, db.latestAllowance p = .ok (some a) → a.Fits
  child : ∀ a, db.latestAllowance c = .ok (some a) →
    a.Fits ∧ (a.funded bundle).Readable ∧ (a.funded bundle).Fits

theorem totals_carved {db db' : Db} {p c : String} {bundle : AllowanceBundle}
    (hbudgets : db'.budgets = db.budgets) (hne : p ≠ c) (hp : (db.budgets.lookup p).isSome)
    (hc : (db.budgets.lookup c).isSome) (hpay : db'.remaining p = db.remaining p - bundle.carved)
    (hgain : db'.remaining c = db.remaining c + bundle)
    (hrest : ∀ b, b ≠ p → b ≠ c → db'.remaining b = db.remaining b) :
    db'.totalRemaining = db.totalRemaining ∧ db'.totalHires = db.totalHires := by
  have hkey : ∀ {b}, (db.budgets.lookup b).isSome → b ∈ db.budgets.keys.toFinset :=
    fun h => List.mem_toFinset.2 (AList.mem_keys.1 (AList.lookup_isSome.1 h))
  constructor
  · unfold Db.totalRemaining
    rw [hbudgets]
    refine sum_transfer (hkey hp) (hkey hc) hne ?_ fun b _ hbp hbc => ?_
    · rw [hpay, hgain]
      simp only [total, carved, inferenceCredits_add, AllowanceBundle.inferenceCredits_sub,
        treasuryCap_add, AllowanceBundle.treasuryCap_sub,
        suballocCap_add, suballocCap_sub]
      omega
    · rw [hrest b hbp hbc]
  · unfold Db.totalHires
    rw [hbudgets]
    refine sum_transfer (hkey hp) (hkey hc) hne ?_ fun b _ hbp hbc => ?_
    · rw [hpay, hgain, hireCap_add, hireCap_sub]
      simp only [carved]
      omega
    · rw [hrest b hbp hbc]

theorem carved_of_updates {db : Db} {p c : String} {bundle : AllowanceBundle}
    {a a' : BudgetAllowance} {e : TreasuryEvent} (hne : p ≠ c) (hbundle : bundle.NonNeg)
    (hhires : 0 ≤ bundle.hireCap) (hrange : db.InRange p c bundle)
    (hp : (db.budgets.lookup p).isSome) (hc : (db.budgets.lookup c).isSome)
    (ha : db.latestAllowance p = .ok (some a)) (ha' : db.latestAllowance c = .ok (some a'))
    (htotal : bundle.total ≤ a.remainingSuballoc) (hhire : bundle.hireCap ≤ a.remainingHire) :
    Carved db (((db.updateAllowance ⟨p, a.epoch⟩ fun row =>
      (row.debit .suballoc bundle.total).hired bundle.hireCap).updateAllowance ⟨c, a'.epoch⟩
        (·.funded bundle)).record e) p c bundle := by
  obtain ⟨ep, row, -, -, hread, rfl⟩ := Db.latestAllowance_eq_some.1 ha
  obtain ⟨ec, row', -, -, -, rfl⟩ := Db.latestAllowance_eq_some.1 ha'
  have hfits := hrange.parent _ ha
  obtain ⟨hfits', hfundedRead, hfundedFits⟩ := hrange.child _ ha'
  set pay : AllowanceRow → AllowanceRow := fun row =>
    (row.debit .suballoc bundle.total).hired bundle.hireCap with hpay
  set db₁ := db.updateAllowance ⟨p, ep⟩ pay with hdb₁
  set db₂ := db₁.updateAllowance ⟨c, ec⟩ (·.funded bundle) with hdb₂
  have hparentRead : (pay row).Readable :=
    debited_readable (k := ⟨p, ep⟩) hbundle hhires hread hfits htotal hhire
  have hparent : db₂.latestAllowance p = .ok (some ((pay row).seen ⟨p, ep⟩)) :=
    (Db.latestAllowance_update_ne hne.symm).trans (Db.latestAllowance_update ha hparentRead)
  have hchild₁ : db₁.latestAllowance c = .ok (some (row'.seen ⟨c, ec⟩)) :=
    (Db.latestAllowance_update_ne hne).trans ha'
  have hchild : db₂.latestAllowance c = .ok (some ((row'.funded bundle).seen ⟨c, ec⟩)) :=
    Db.latestAllowance_update hchild₁ hfundedRead
  have hothers : ∀ b, b ≠ p → b ≠ c → db₂.latestAllowance b = db.latestAllowance b :=
    fun b hbp hbc => (Db.latestAllowance_update_ne hbc.symm).trans
      (Db.latestAllowance_update_ne hbp.symm)
  have hp' : db₂.remaining p = db.remaining p - bundle.carved := by
    rw [Db.remaining_of_latest hparent, Db.remaining_of_latest ha]
    exact remaining_debited hbundle hhires hfits htotal hhire
  have htree : SameTree db db₂ := (SameTree.refl.update _ _).update _ _
  refine ⟨htree.record e, hp', ⟨_, ha', ?_, fun hin => ?_⟩, hothers⟩
  · change db.remaining c ≤ db₂.remaining c
    rw [Db.remaining_of_latest hchild, Db.remaining_of_latest ha']
    exact remaining_le_funded hfits' hfundedFits hbundle hhires
  have hc' : db₂.remaining c = db.remaining c + bundle := by
    rw [Db.remaining_of_latest hchild, Db.remaining_of_latest ha']
    exact remaining_funded hfits' hfundedFits hin hbundle hhires
  exact ⟨hc', totals_carved htree.budgets hne hp hc hp' hc' fun b hbp hbc =>
    Db.remaining_congr (hothers b hbp hbc)⟩

/-! ## Calls -/

/-- **Allocations conserve what remains**: the parent pays on its suballoc rail the sum of what the
child gains on all three. Stores are compared after the refresh. -/
theorem allocate_conserves {db db' : Db} {p c callerRole : String} {body : Value}
    {callerAgentId idempotencyKey : Option String} {draw : Draw} (hne : p ≠ c)
    (hbundle : (parseBundle body).NonNeg) (hhires : 0 ≤ (parseBundle body).hireCap)
    (hsum : (parseBundle body).total < 2 ^ 63)
    (hrange : (db.bothRefreshed p c draw.now draw.later).InRange p c (parseBundle body))
    (hcall : (BudgetRequest.allocate p c (parseBundle body) callerRole callerAgentId
      idempotencyKey).call draw db = (.ok .unit, db')) :
    (db.foundBy (some p) idempotencyKey).isSome ∧ db' = db ∨
      Carved (db.bothRefreshed p c draw.now draw.later) db' p c (parseBundle body) := by
  have hends : Ends ((BudgetRequest.allocate p c (parseBundle body) callerRole callerAgentId
      idempotencyKey).call draw) db (fun _ db' =>
        (db.foundBy (some p) idempotencyKey).isSome ∧ db' = db ∨
          Carved (db.bothRefreshed p c draw.now draw.later) db' p c (parseBundle body))
        fun _ => True := by
    refine ends_base_bind.2 (ends_allocate (fun _ => trivial) (fun _ => trivial)
      (fun _ _ => trivial) ?_ ?_)
    · intro parent child e _ hfound
      refine ends_pureRoutine.2 (.inl ⟨?_, rfl⟩)
      rw [hfound]
      rfl
    · intro parent child a a' e hmay _ _ _ ha ha' henough hhire _
      refine ends_pureRoutine.2 (.inr ?_)
      have hbudgets := (db.sameTree_bothRefreshed p c draw.now draw.later).budgets
      rw [hbundle.needTotal hsum] at henough ⊢
      refine carved_of_updates hne hbundle hhires hrange ?_ ?_ ha ha' henough hhire
      · rw [hbudgets, hmay.row]
        rfl
      · rw [hbudgets, hmay.childRow]
        rfl
  exact hends.ok hcall

def newCompany : Db where
  entities := (∅ : Accounts String Int).insert "acme" 0
  roles := ((∅ : Accounts String Role).insert "board"
      { trustId := "acme", occupantKind := .human, occupantId := some "ada" }).insert "lead"
    { trustId := "acme", occupantKind := .human, occupantId := some "eve" }

/-- The budget of the board, which may give away a hundred units, and one below it. -/
def foundBudgets : List (BudgetRequest × Draw) := [
  (.createBudget "acme" none "board" "Operations" .operating "board" none none,
    { budgetId := "ops" }),
  (.createBudget "acme" (some "ops") "lead" "Development" .operating "board" none none,
    { budgetId := "dev" }),
  (.setPolicy "ops" { suballocCap := 100, hireCap := 5 } 604800 .burn "board" none none, {})]

def twoBudgets : Db := (execAll Db.next newCompany foundBudgets).toOption.getD newCompany

theorem twoBudgets_reached : ∃ hist, Run (okStep Db.next) newCompany hist twoBudgets :=
  @Run.execAll _ _ _ _ _ foundBudgets _ rfl

/-- `{"inference_credits": 30, "treasury_cap": 20, "hire_cap": 1}`. -/
def thirtyAndTwenty : Value :=
  .object [("inference_credits", .integer 30), ("treasury_cap", .integer 20),
    ("hire_cap", .integer 1)]

def carveRequest : BudgetRequest :=
  .allocate "ops" "dev" (parseBundle thirtyAndTwenty) "board" none none

theorem carveRequest_returns :
    carveRequest.call {} twoBudgets = (.ok .unit, (carveRequest.call {} twoBudgets).2) :=
  Prod.ext (by decide +kernel) rfl

/-- The board allocates fifty units of its hundred. -/
theorem twoBudgets_conserves :
    Carved (twoBudgets.bothRefreshed "ops" "dev" 0 0) (carveRequest.call {} twoBudgets).2
      "ops" "dev" (parseBundle thirtyAndTwenty) := by
  have hops : (twoBudgets.bothRefreshed "ops" "dev" 0 0).latestAllowance "ops" =
      .ok (some (seen { caps := { suballocCap := 100, hireCap := 5 } }
        ⟨"ops", 0⟩)) := by
    decide +kernel
  have hdev : (twoBudgets.bothRefreshed "ops" "dev" 0 0).latestAllowance "dev" =
      .ok (some (seen { caps := {} } ⟨"dev", 0⟩)) := by
    decide +kernel
  have hrange : (twoBudgets.bothRefreshed "ops" "dev" 0 0).InRange "ops" "dev"
      (parseBundle thirtyAndTwenty) := by
    refine ⟨fun a ha => ?_, fun a ha => ?_⟩
    · cases hops.symm.trans ha
      decide
    · cases hdev.symm.trans ha
      decide
  have h := @allocate_conserves twoBudgets _ "ops" "dev" "board" thirtyAndTwenty none none {}
    (by decide) (by decide) (by decide) (by decide) hrange carveRequest_returns
  rcases h with ⟨hfound, -⟩ | hcarved
  · exact nomatch hfound
  · exact hcarved

/-- The board gives thirty units of inference credits, of which it has none itself. -/
theorem not_allocate_conserves : ¬ ∀ hist (db db' : Db) (p c callerRole : String) (body : Value)
    (callerAgentId idempotencyKey : Option String) (draw : Draw),
    Run (okStep Db.next) newCompany hist db →
    (BudgetRequest.allocate p c (parseBundle body) callerRole callerAgentId
      idempotencyKey).call draw db = (.ok .unit, db') →
    let db₀ := db.bothRefreshed p c draw.now draw.later
    db'.remaining c - db₀.remaining c = db₀.remaining p - db'.remaining p ∧
      db'.remaining p ≤ db₀.remaining p ∧ db₀.remaining c ≤ db'.remaining c := by
  intro hall
  obtain ⟨hist, run⟩ := twoBudgets_reached
  have h := (hall hist twoBudgets _ "ops" "dev" "board" thirtyAndTwenty none none {} run
    carveRequest_returns).1
  exact absurd h (by decide +kernel)

end Aeqi.Orchestrator
