import Aeqi.Funding.Program
import Aeqi.Market.Steps

/-!
# aeqi_budget and aeqi_funding: what a successful instruction did
-/

namespace Aeqi.Budgets

open Aeqi.Lib Aeqi.Solana
open Governance (Trust)
open Roles (RoleState)

namespace Budget

/-- A budget as `create_budget` writes it. -/
def opened (a : CreateBudget) (p : BudgetParams) : Budget :=
  ⟨a.trust, p.budgetId, a.grantor, p.targetRoleId, p.parentBudgetId.getD 0, p.amount, 0,
    p.expiry, false⟩

def charged (b : Budget) (n : Nat) : Budget := { b with spent := b.spent + n }

end Budget

section Handlers

variable {s s' : BudgetState} {clock : Clock}

theorem init_ok {trusts : Accounts Pubkey Trust} {k payer : Pubkey}
    (h : init s trusts k payer = .ok s') :
    s' = { s with modules := s.modules.insert k ⟨k, 0⟩ } := by
  simp only [init, bind_eq_ok, exists_punit, pure_eq_ok] at h
  obtain ⟨_, -, -, -, -, rfl⟩ := h
  rfl

theorem createBudget_ok {trusts : Accounts Pubkey Trust} {a : CreateBudget} {p : BudgetParams}
    (h : createBudget s trusts clock a p = .ok s') :
    s.budgets.lookup ⟨a.trust, p.budgetId⟩ = none ∧ ∃ m, s' = { s with
      budgets := s.budgets.insert ⟨a.trust, p.budgetId⟩ (.opened a p)
      modules := s.modules.insert a.trust m } := by
  simp only [createBudget, bind_eq_ok, requireFree_eq_ok, exists_punit, pure_eq_ok] at h
  obtain ⟨_, -, _, -, hfree, -, -, -, _, -, rfl⟩ := h
  exact ⟨hfree, _, rfl⟩

theorem recordSpend_ok {roles : RoleState} {a : RecordSpend} {n : Nat}
    (h : recordSpend s roles clock a n = .ok s') :
    ∃ b, s.budgets.lookup a.budget = some b ∧ a.budget = b.seeds ∧ b.spent + n ≤ b.amount ∧
      s' = { s with budgets := s.budgets.insert a.budget (b.charged n) } := by
  simp only [recordSpend, bind_eq_ok, loadPda_eq_ok, require_eq_ok, okOr_eq_ok,
    checkedAdd_eq_some, exists_punit, pure_eq_ok] at h
  obtain ⟨b, ⟨hb, hseeds⟩, _, -, -, -, -, -, -, -, -, _, ⟨-, rfl⟩, hle, rfl⟩ := h
  exact ⟨b, hb, hseeds, hle, rfl⟩

theorem setFrozen_ok {k : TrustPda} {grantor : Pubkey} {frozen : Bool}
    (h : setFrozen s k grantor frozen = .ok s') :
    ∃ b, s.budgets.lookup k = some b ∧
      s' = { s with budgets := s.budgets.insert k { b with frozen } } := by
  simp only [setFrozen, bind_eq_ok, loadPda_eq_ok, exists_punit, pure_eq_ok] at h
  obtain ⟨b, ⟨hb, -⟩, -, rfl⟩ := h
  exact ⟨b, hb, rfl⟩

end Handlers

end Aeqi.Budgets

namespace Aeqi.Funding

open Aeqi.Lib Aeqi.Solana
open Governance (Trust)
open Budgets (Budget BudgetState)
open Market (MarketState MarketIx)
open Token (Ledger)

/-- A request as `create_funding_request` writes it. -/
def FundingRequest.opened (clock : Clock) (a : CreateFundingRequest) (p : RequestParams) :
    FundingRequest :=
  ⟨a.trust, p.requestId, a.creator, p.kind, p.budgetId, p.assetAmount, p.targetQuote, .pending,
    clock.unixTimestamp, 0⟩

def FundingState.marketIx (s : FundingState) : FundingIx → Option MarketIx
  | .activateCommitmentSale a saleId overflowQuote durationSecs =>
    (s.requests.lookup a.request).map fun r => .createCommitmentSale ⟨a.trust, a.creator⟩
      ⟨saleId, r.assetAmount, r.targetQuote, overflowQuote, durationSecs⟩
  | .activateBondingCurve a assetMint quoteMint p =>
    some (.createCurve ⟨a.trust, assetMint, quoteMint, a.creator⟩ p)
  | .activateExit a assetMint p => some (.createExit ⟨a.trust, assetMint, a.creator⟩ p)
  | _ => none

/-- What an activation asks of its budget. -/
def FundingState.required (s : FundingState) : FundingIx → Nat
  | .activateCommitmentSale a _ _ _ => (s.requests.lookup a.request).elim 0 (·.assetAmount)
  | .activateBondingCurve _ _ _ p => p.maxSupply.toNat
  | .activateExit _ _ p => p.exitQuote
  | _ => 0

section Handlers

variable {s s' : FundingState} {budgets : BudgetState} {clock : Clock}
  {trusts : Accounts Pubkey Trust}

theorem cpi_eq_ok {α : Type} {x : Except Market.MarketError α} {y : α} :
    cpi x = .ok y ↔ x = .ok y := mapError_eq_ok

theorem requireBudgetCapacity_ok {budget : Budget} {trust : Pubkey} {budgetId : Bytes32} {n : Nat}
    {u : Unit} (h : requireBudgetCapacity clock budget trust budgetId n = .ok u) :
    budget.seeds = ⟨trust, budgetId⟩ ∧ (0 < n → budget.spent + n ≤ budget.amount) := by
  simp only [requireBudgetCapacity, bind_eq_ok, require_eq_ok, exists_punit] at h
  obtain ⟨rfl, rfl, -, -, hroom⟩ := h
  refine ⟨rfl, fun hn => ?_⟩
  simp only [if_pos hn, bind_eq_ok, okOr_eq_ok, checkedSub_eq_some, require_eq_ok] at hroom
  obtain ⟨_, ⟨-, rfl⟩, hroom⟩ := hroom
  omega

theorem init_ok {k payer : Pubkey} (h : init s trusts k payer = .ok s') :
    s' = { s with modules := s.modules.insert k ⟨k, 0⟩ } := by
  simp only [init, bind_eq_ok, exists_punit, pure_eq_ok] at h
  obtain ⟨_, -, -, -, -, rfl⟩ := h
  rfl

theorem createFundingRequest_ok {a : CreateFundingRequest} {p : RequestParams}
    (h : createFundingRequest s budgets clock a p = .ok s') :
    s.requests.lookup ⟨a.trust, p.requestId⟩ = none ∧ p.kind ≤ 2 ∧ ∃ m, s' = { s with
      requests := s.requests.insert ⟨a.trust, p.requestId⟩ (.opened clock a p)
      modules := s.modules.insert a.trust m } := by
  simp only [createFundingRequest, bind_eq_ok, requireFree_eq_ok, require_eq_ok,
    exists_punit, pure_eq_ok] at h
  obtain ⟨_, -, hfree, _, -, hkind, -, -, -, _, -, rfl⟩ := h
  exact ⟨hfree, hkind, _, rfl⟩

theorem checkActivation_ok {a : Activate} {kind : Nat} {required : FundingRequest → Nat}
    {r : FundingRequest} (h : checkActivation s budgets clock a kind required = .ok r) :
    s.requests.lookup a.request = some r ∧ a.request = r.seeds ∧ a.trust = r.trust ∧
      r.status = .pending ∧ r.kind = kind ∧ ∃ b, budgets.budgets.lookup a.budget = some b ∧
        b.seeds = ⟨r.trust, r.budgetId⟩ ∧ (0 < required r → b.spent + required r ≤ b.amount) := by
  simp only [checkActivation, bind_eq_ok, loadPda_eq_ok, load_eq_ok, require_eq_ok, exists_punit,
    pure_eq_ok] at h
  obtain ⟨_, ⟨hr, hseeds⟩, b, hb, -, htrust, hcapacity, hpending, hkind, rfl⟩ := h
  obtain ⟨hbudget, hroom⟩ := requireBudgetCapacity_ok hcapacity
  exact ⟨hr, hseeds, htrust, hpending, hkind, b, hb, hbudget, hroom⟩

theorem setStatus_ok {k : TrustPda} {creator : Pubkey} {before after : RequestStatus}
    {e : FundingError} (h : setStatus s k creator before after e = .ok s') :
    ∃ r, s.requests.lookup k = some r ∧ r.status = before ∧
      s' = { s with requests := s.requests.insert k { r with status := after } } := by
  simp only [setStatus, bind_eq_ok, loadPda_eq_ok, require_eq_ok, exists_punit, pure_eq_ok] at h
  obtain ⟨r, ⟨hr, -⟩, -, hstatus, rfl⟩ := h
  exact ⟨r, hr, hstatus, rfl⟩

end Handlers

/-- The activation of an instruction: its slots, the kind of request, and the id of the
primitive. -/
def FundingIx.activation : FundingIx → Option (Activate × Nat × Bytes32)
  | .activateCommitmentSale a saleId _ _ => some (a, 0, saleId)
  | .activateBondingCurve a _ _ p => some (a, 1, p.curveId)
  | .activateExit a _ p => some (a, 2, p.exitId)
  | _ => none

section Exec

variable {s s' : FundingState} {budgets : BudgetState} {market market' : MarketState}
  {tokens : Ledger Address} {clock : Clock} {trusts : Accounts Pubkey Trust} {ix : FundingIx}

theorem activation_ok {a : Activate} {kind : Nat} {id : Bytes32}
    (h : s.exec trusts budgets market tokens clock ix = .ok (s', market'))
    (ha : ix.activation = some (a, kind, id)) :
    ∃ r mix, s.requests.lookup a.request = some r ∧ a.request = r.seeds ∧ a.trust = r.trust ∧
      r.status = .pending ∧ r.kind = kind ∧ (∃ b, budgets.budgets.lookup a.budget = some b ∧
        b.seeds = ⟨r.trust, r.budgetId⟩ ∧
        (0 < s.required ix → b.spent + s.required ix ≤ b.amount)) ∧
      s.marketIx ix = some mix ∧
      market.exec trusts tokens clock mix = .ok (market', tokens) ∧
      s' = { s with requests := s.requests.insert a.request (r.activated id) } := by
  cases ix with
  | activateCommitmentSale a' saleId overflowQuote durationSecs =>
    obtain ⟨rfl, rfl, rfl⟩ : a' = a ∧ 0 = kind ∧ saleId = id := by
      simpa [FundingIx.activation] using ha
    simp only [FundingState.exec, activateCommitmentSale, bind_eq_ok, cpi_eq_ok] at h
    obtain ⟨r, hcheck, _, hcpi, rfl, rfl⟩ := h
    obtain ⟨hr, hseeds, htrust, hpending, hkind, hbudget⟩ := checkActivation_ok hcheck
    let mix : MarketIx := .createCommitmentSale ⟨a'.trust, a'.creator⟩
      ⟨saleId, r.assetAmount, r.targetQuote, overflowQuote, durationSecs⟩
    have hrequired : s.required (.activateCommitmentSale a' saleId overflowQuote durationSecs) =
        r.assetAmount := by
      rw [FundingState.required, hr]
      rfl
    have hmix : s.marketIx (.activateCommitmentSale a' saleId overflowQuote durationSecs) =
        some mix := by
      rw [FundingState.marketIx, hr]
      rfl
    refine ⟨r, mix, hr, hseeds, htrust, hpending, hkind, ?_, hmix, ?_, rfl⟩
    · rw [hrequired]
      exact hbudget
    · simp only [mix, MarketState.exec, hcpi, bind_eq_ok]
      exact ⟨_, rfl, rfl⟩
  | activateBondingCurve a' assetMint quoteMint p =>
    obtain ⟨rfl, rfl, rfl⟩ : a' = a ∧ 1 = kind ∧ p.curveId = id := by
      simpa [FundingIx.activation] using ha
    simp only [FundingState.exec, activateBondingCurve, bind_eq_ok, cpi_eq_ok] at h
    obtain ⟨_, -, _, -, r, hcheck, _, hcpi, rfl, rfl⟩ := h
    obtain ⟨hr, hseeds, htrust, hpending, hkind, hbudget⟩ := checkActivation_ok hcheck
    refine ⟨r, _, hr, hseeds, htrust, hpending, hkind, hbudget, rfl, ?_, rfl⟩
    simp only [MarketState.exec, hcpi, bind_eq_ok]
    exact ⟨_, rfl, rfl⟩
  | activateExit a' assetMint p =>
    obtain ⟨rfl, rfl, rfl⟩ : a' = a ∧ 2 = kind ∧ p.exitId = id := by
      simpa [FundingIx.activation] using ha
    simp only [FundingState.exec, activateExit, bind_eq_ok, cpi_eq_ok] at h
    obtain ⟨r, hcheck, _, hcpi, rfl, rfl⟩ := h
    obtain ⟨hr, hseeds, htrust, hpending, hkind, hbudget⟩ := checkActivation_ok hcheck
    refine ⟨r, _, hr, hseeds, htrust, hpending, hkind, hbudget, rfl, ?_, rfl⟩
    simp only [MarketState.exec, hcpi, bind_eq_ok]
    exact ⟨_, rfl, rfl⟩
  | init | createFundingRequest | finalizeFundingRequest | cancelFundingRequest => cases ha

theorem market_unchanged (h : s.exec trusts budgets market tokens clock ix = .ok (s', market'))
    (ha : ix.activation = none) : s.marketIx ix = none ∧ market' = market := by
  cases ix with
  | activateCommitmentSale | activateBondingCurve | activateExit => cases ha
  | init trust payer | createFundingRequest a p | finalizeFundingRequest request creator
  | cancelFundingRequest request creator =>
    obtain ⟨-, rfl⟩ := ok_of_fst h
    exact ⟨rfl, rfl⟩

end Exec

end Aeqi.Funding
