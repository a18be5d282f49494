import Aeqi.Budgets.Program
import Aeqi.Market.Program

/-!
# aeqi_funding

Requests to raise capital through one of the issuance primitives. Activating a request
checks the capacity of its budget and creates the primitive by a call into aeqi_unifutures.
-/

namespace Aeqi.Funding

open Aeqi.Lib Aeqi.Solana
open Governance (Trust)
open Budgets (Budget BudgetState)
open Market (MarketState UnifuturesError)
open Token (Ledger)

structure FundingModuleState where
  trust : Pubkey
  requestCount : Nat

inductive RequestStatus
  | pending
  | activated
  | finalized
  | cancelled
  deriving DecidableEq

structure FundingRequest where
  trust : Pubkey
  requestId : Bytes32
  creator : Pubkey
  kind : Nat
  budgetId : Bytes32
  assetAmount : Nat
  targetQuote : Nat
  status : RequestStatus
  createdAt : Int
  primitiveId : Bytes32

def FundingRequest.seeds (r : FundingRequest) : TrustPda := ⟨r.trust, r.requestId⟩

inductive FundingError
  | trustNotInCreationMode
  | unauthorized
  | invalidKind
  | zeroAmount
  | trustMismatch
  | cannotCancel
  | cannotActivate
  | cannotFinalize
  | wrongKind
  | budgetMismatch
  | budgetUnavailable
  | budgetCapacityExceeded
  | mathOverflow

abbrev FundingTxError := TxError (FundingError ⊕ UnifuturesError)

/-- All accounts owned by the funding program. -/
structure FundingState where
  modules : Accounts Pubkey FundingModuleState := ∅
  requests : Accounts TrustPda FundingRequest := ∅

def fail (e : FundingError) : FundingTxError := .custom (.inl e)

/-- A call into aeqi_unifutures. -/
def cpi {α : Type} (x : Except Market.MarketError α) : Except FundingTxError α :=
  x.mapError fun
    | .anchor e => .anchor e
    | .custom e => .custom (.inr e)

/-- Compares with the spends recorded so far, and reserves nothing. -/
def requireBudgetCapacity (clock : Clock) (budget : Budget) (trust : Pubkey)
    (budgetId : Bytes32) (requiredAmount : Nat) : Except FundingTxError Unit := do
  require (budget.trust = trust) (fail .budgetMismatch)
  require (budget.budgetId = budgetId) (fail .budgetMismatch)
  require (budget.frozen = false) (fail .budgetUnavailable)
  require (budget.expiry = 0 ∨ clock.unixTimestamp < budget.expiry) (fail .budgetUnavailable)
  if 0 < requiredAmount then do
    let remaining ← okOr (checkedSub budget.amount budget.spent) (fail .mathOverflow)
    require (requiredAmount ≤ remaining) (fail .budgetCapacityExceeded)
  else
    pure ()

/-! ## Handlers -/

def init (s : FundingState) (trusts : Accounts Pubkey Trust) (k payer : Pubkey) :
    Except FundingTxError FundingState := do
  let trust ← load trusts k
  requireFree s.modules k
  require (trust.creationMode = true) (fail .trustNotInCreationMode)
  require (payer = trust.authority) (fail .unauthorized)
  pure { s with modules := s.modules.insert k ⟨k, 0⟩ }

structure CreateFundingRequest where
  trust : Pubkey
  budget : TrustPda
  creator : Pubkey

structure RequestParams where
  requestId : Bytes32
  kind : Nat
  budgetId : Bytes32
  assetAmount : Nat
  targetQuote : Nat

def createFundingRequest (s : FundingState) (budgets : BudgetState) (clock : Clock)
    (a : CreateFundingRequest) (p : RequestParams) : Except FundingTxError FundingState := do
  let k : TrustPda := ⟨a.trust, p.requestId⟩
  let m ← load s.modules a.trust
  requireFree s.requests k
  let budget ← load budgets.budgets a.budget
  require (p.kind ≤ 2) (fail .invalidKind)
  require (p.kind = 0 → 0 < p.assetAmount) (fail .zeroAmount)
  require (p.kind = 0 → 0 < p.targetQuote) (fail .zeroAmount)
  requireBudgetCapacity clock budget a.trust p.budgetId (if p.kind = 0 then p.assetAmount else 0)
  let r : FundingRequest := {
    trust := a.trust
    requestId := p.requestId
    creator := a.creator
    kind := p.kind
    budgetId := p.budgetId
    assetAmount := p.assetAmount
    targetQuote := p.targetQuote
    status := .pending
    createdAt := clock.unixTimestamp
    primitiveId := 0 }
  let requestCount ← okOr (checkedAdd 64 m.requestCount 1) (fail .mathOverflow)
  pure { s with
    requests := s.requests.insert k r
    modules := s.modules.insert a.trust { m with requestCount } }

/-- The slots that the three activations share. The accounts of the primitive are fixed by
the seeds that the callee checks. -/
structure Activate where
  request : TrustPda
  budget : TrustPda
  trust : Pubkey
  creator : Pubkey

/-- The checks before the call into aeqi_unifutures. -/
def checkActivation (s : FundingState) (budgets : BudgetState) (clock : Clock) (a : Activate)
    (kind : Nat) (required : FundingRequest → Nat) : Except FundingTxError FundingRequest := do
  let r ← loadPda s.requests FundingRequest.seeds a.request
  let budget ← load budgets.budgets a.budget
  require (a.creator = r.creator) (fail .unauthorized)
  require (a.trust = r.trust) (fail .trustMismatch)
  requireBudgetCapacity clock budget r.trust r.budgetId (required r)
  require (r.status = .pending) (fail .cannotActivate)
  require (r.kind = kind) (fail .wrongKind)
  pure r

def FundingRequest.activated (r : FundingRequest) (primitiveId : Bytes32) : FundingRequest :=
  { r with status := .activated, primitiveId }

def activateCommitmentSale (s : FundingState) (budgets : BudgetState) (market : MarketState)
    (clock : Clock) (a : Activate) (saleId : Bytes32) (overflowQuote : Nat)
    (durationSecs : Int) : Except FundingTxError (FundingState × MarketState) := do
  let r ← checkActivation s budgets clock a 0 (·.assetAmount)
  let market ← cpi (Market.createCommitmentSale market clock ⟨a.trust, a.creator⟩
    { saleId, assetAmount := r.assetAmount, targetQuote := r.targetQuote, overflowQuote,
      durationSecs })
  pure ({ s with requests := s.requests.insert a.request (r.activated saleId) }, market)

def activateBondingCurve (s : FundingState) (budgets : BudgetState) (market : MarketState)
    (tokens : Ledger Address) (clock : Clock) (a : Activate) (assetMint quoteMint : Address)
    (p : Market.CurveParams) : Except FundingTxError (FundingState × MarketState) := do
  let _ ← loadMint tokens assetMint
  let _ ← loadMint tokens quoteMint
  let r ← checkActivation s budgets clock a 1 fun _ => p.maxSupply.toNat
  let market ← cpi (Market.createCurve market tokens ⟨a.trust, assetMint, quoteMint, a.creator⟩ p)
  pure ({ s with requests := s.requests.insert a.request (r.activated p.curveId) }, market)

def activateExit (s : FundingState) (budgets : BudgetState) (market : MarketState)
    (tokens : Ledger Address) (clock : Clock) (a : Activate) (assetMint : Address)
    (p : Market.ExitParams) : Except FundingTxError (FundingState × MarketState) := do
  let r ← checkActivation s budgets clock a 2 fun _ => p.exitQuote
  let market ← cpi (Market.createExit market tokens clock ⟨a.trust, assetMint, a.creator⟩ p)
  pure ({ s with requests := s.requests.insert a.request (r.activated p.exitId) }, market)

/-- `finalize_funding_request` and `cancel_funding_request`: the creator moves a request
from one status to another. -/
def setStatus (s : FundingState) (k : TrustPda) (creator : Pubkey) (before after : RequestStatus)
    (e : FundingError) : Except FundingTxError FundingState := do
  let r ← loadPda s.requests FundingRequest.seeds k
  require (creator = r.creator) (fail .unauthorized)
  require (r.status = before) (fail e)
  pure { s with requests := s.requests.insert k { r with status := after } }

def finalizeFundingRequest (s : FundingState) (k : TrustPda) (creator : Pubkey) :
    Except FundingTxError FundingState :=
  setStatus s k creator .activated .finalized .cannotFinalize

def cancelFundingRequest (s : FundingState) (k : TrustPda) (creator : Pubkey) :
    Except FundingTxError FundingState :=
  setStatus s k creator .pending .cancelled .cannotCancel

/-! ## The program as one transition function -/

inductive FundingIx
  | init (trust payer : Pubkey)
  | createFundingRequest (a : CreateFundingRequest) (p : RequestParams)
  | activateCommitmentSale (a : Activate) (saleId : Bytes32) (overflowQuote : Nat)
      (durationSecs : Int)
  | activateBondingCurve (a : Activate) (assetMint quoteMint : Address) (p : Market.CurveParams)
  | activateExit (a : Activate) (assetMint : Address) (p : Market.ExitParams)
  | finalizeFundingRequest (request : TrustPda) (creator : Pubkey)
  | cancelFundingRequest (request : TrustPda) (creator : Pubkey)

def FundingState.exec (s : FundingState) (trusts : Accounts Pubkey Trust) (budgets : BudgetState)
    (market : MarketState) (tokens : Ledger Address) (clock : Clock) :
    FundingIx → Except FundingTxError (FundingState × MarketState)
  | .init trust payer => do
    let s ← Funding.init s trusts trust payer
    pure (s, market)
  | .createFundingRequest a p => do
    let s ← Funding.createFundingRequest s budgets clock a p
    pure (s, market)
  | .activateCommitmentSale a saleId overflowQuote durationSecs =>
    Funding.activateCommitmentSale s budgets market clock a saleId overflowQuote durationSecs
  | .activateBondingCurve a assetMint quoteMint p =>
    Funding.activateBondingCurve s budgets market tokens clock a assetMint quoteMint p
  | .activateExit a assetMint p =>
    Funding.activateExit s budgets market tokens clock a assetMint p
  | .finalizeFundingRequest request creator => do
    let s ← Funding.finalizeFundingRequest s request creator
    pure (s, market)
  | .cancelFundingRequest request creator => do
    let s ← Funding.cancelFundingRequest s request creator
    pure (s, market)

end Aeqi.Funding
