import Aeqi.Governance.State
import Aeqi.Market.State

/-!
# aeqi_unifutures: instructions of curves, sales and exits

The handlers of `lib.rs` that are not about pools, with the constraints of their account
contexts. A vault is any token account of the right mint that the primitive's authority
owns; which of them, and for sales which mint, is the caller's choice.
-/

namespace Aeqi.Market

open Aeqi.Lib Aeqi.Solana
open Governance (Trust)
open Token (Ledger)

def init (s : MarketState) (trusts : Accounts Pubkey Trust) (k payer : Pubkey) :
    Except MarketError MarketState := do
  let trust ← load trusts k
  requireFree s.modules k
  require (trust.creationMode = true) (.custom .trustNotInCreationMode)
  require (payer = trust.authority) (.custom .unauthorized)
  pure { s with modules := s.modules.insert k ⟨k, 0, 0, 0, 0⟩ }

/-! ## Bonding curves -/

structure CreateCurve where
  trust : Pubkey
  assetMint : Address
  quoteMint : Address
  creator : Pubkey

structure CurveParams where
  curveId : Bytes32
  curveType : Nat
  startPrice : BitVec 128
  endPrice : BitVec 128
  maxSupply : BitVec 64
  reserveRatioPpm : Nat

def createCurve (s : MarketState) (tokens : Ledger Address) (a : CreateCurve) (p : CurveParams) :
    Except MarketError MarketState := do
  let k : TrustPda := ⟨a.trust, p.curveId⟩
  let m ← load s.modules a.trust
  requireFree s.curves k
  let _ ← loadMint tokens a.assetMint
  let _ ← loadMint tokens a.quoteMint
  require (0 < p.maxSupply.toNat) (.custom .zeroMaxSupply)
  require (p.reserveRatioPpm ≤ 1000000) (.custom .invalidReserveRatio)
  require (a.assetMint ≠ a.quoteMint) (.custom .identicalMints)
  let _ ← okOr (CurveType.fromU8 p.curveType) (.custom .invalidCurveType)
  let c : BondingCurve := {
    trust := a.trust
    curveId := p.curveId
    creator := a.creator
    assetMint := a.assetMint
    quoteMint := a.quoteMint
    curveType := p.curveType
    startPrice := p.startPrice.toNat
    endPrice := p.endPrice.toNat
    maxSupply := p.maxSupply.toNat
    currentSupply := 0
    reserveBalance := 0
    reserveRatioPpm := p.reserveRatioPpm
    proceedsCollected := 0 }
  let curveCount ← okOr (checkedAdd 64 m.curveCount 1) (.custom .mathOverflow)
  pure { s with
    curves := s.curves.insert k c
    modules := s.modules.insert a.trust { m with curveCount } }

/-- The slots that `BuyFromCurve` and `SellToCurve` share; the user is the buyer or seller
who signs. -/
structure CurveAccounts where
  curve : TrustPda
  assetMint : Address
  quoteMint : Address
  curveAssetVault : Address
  curveQuoteVault : Address
  userAssetTa : Address
  userQuoteTa : Address
  user : Pubkey

abbrev BuyFromCurve := CurveAccounts

abbrev SellToCurve := CurveAccounts

def checkCurveVaults (tokens : Ledger Address) (a : CurveAccounts) : Except MarketError Unit := do
  let _ ← loadMint tokens a.assetMint
  let _ ← loadMint tokens a.quoteMint
  checkOwned tokens a.curveAssetVault a.assetMint (.curveAuthority a.curve)
  checkOwned tokens a.curveQuoteVault a.quoteMint (.curveAuthority a.curve)

/-- `require_keys_eq!` on the asset and quote mints. -/
def checkCurveMints (c : BondingCurve) (a : CurveAccounts) : Except MarketError Unit := do
  require (a.assetMint = c.assetMint) (.custom .assetMintMismatch)
  require (a.quoteMint = c.quoteMint) (.custom .quoteMintMismatch)

def buyFromCurve (s : MarketState) (tokens : Ledger Address) (a : BuyFromCurve)
    (tokenAmount maxCost : Nat) : Except MarketError (MarketState × Ledger Address) := do
  let c ← loadPda s.curves BondingCurve.seeds a.curve
  checkCurveVaults tokens a
  let _ ← loadTokenAccount tokens a.userAssetTa a.assetMint
  checkOwned tokens a.userQuoteTa a.quoteMint (.wallet a.user)
  require (0 < tokenAmount) (.custom .zeroAmount)
  let ct ← okOr (CurveType.fromU8 c.curveType) (.custom .invalidCurveType)
  checkCurveMints c a
  let currentSupply ← okOr (checkedAdd 64 c.currentSupply tokenAmount) (.custom .mathOverflow)
  require (currentSupply ≤ c.maxSupply) (.custom .exceedsMaxSupply)
  let cost ← okOr
    (purchaseCost ct c.startPrice c.endPrice c.maxSupply c.currentSupply tokenAmount)
    (.custom .mathOverflow)
  let cost ← okOr (tryInto 64 cost) (.custom .mathOverflow)
  require (cost ≤ maxCost) (.custom .slippageExceeded)
  let tokens ← invoke
    (tokens.transfer a.userQuoteTa a.quoteMint a.curveQuoteVault (.wallet a.user) cost)
  let tokens ← invoke (tokens.transfer a.curveAssetVault a.assetMint a.userAssetTa
    (.curveAuthority a.curve) tokenAmount)
  let reserveBalance ← okOr (checkedAdd 128 c.reserveBalance cost) (.custom .mathOverflow)
  let proceedsCollected ← okOr (checkedAdd 128 c.proceedsCollected cost) (.custom .mathOverflow)
  let c := { c with currentSupply, reserveBalance, proceedsCollected }
  pure ({ s with curves := s.curves.insert a.curve c }, tokens)

def sellToCurve (s : MarketState) (tokens : Ledger Address) (a : SellToCurve)
    (tokenAmount minReturn : Nat) : Except MarketError (MarketState × Ledger Address) := do
  let c ← loadPda s.curves BondingCurve.seeds a.curve
  checkCurveVaults tokens a
  checkOwned tokens a.userAssetTa a.assetMint (.wallet a.user)
  let _ ← loadTokenAccount tokens a.userQuoteTa a.quoteMint
  require (0 < tokenAmount) (.custom .zeroAmount)
  let ct ← okOr (CurveType.fromU8 c.curveType) (.custom .invalidCurveType)
  checkCurveMints c a
  require (tokenAmount ≤ c.currentSupply) (.custom .exceedsSupply)
  let returned ← okOr
    (saleReturn ct c.startPrice c.endPrice c.maxSupply c.currentSupply tokenAmount
      c.reserveRatioPpm)
    (.custom .mathOverflow)
  let returnAmount ← okOr (tryInto 64 returned) (.custom .mathOverflow)
  require (minReturn ≤ returnAmount) (.custom .slippageExceeded)
  require (returnAmount ≤ c.reserveBalance) (.custom .insufficientReserve)
  let tokens ← invoke
    (tokens.transfer a.userAssetTa a.assetMint a.curveAssetVault (.wallet a.user) tokenAmount)
  let tokens ← invoke (tokens.transfer a.curveQuoteVault a.quoteMint a.userQuoteTa
    (.curveAuthority a.curve) returnAmount)
  let currentSupply ← okOr (checkedSub c.currentSupply tokenAmount) (.custom .mathOverflow)
  let reserveBalance ← okOr (checkedSub c.reserveBalance returnAmount) (.custom .mathOverflow)
  let c := { c with currentSupply, reserveBalance }
  pure ({ s with curves := s.curves.insert a.curve c }, tokens)

/-! ## Commitment sales -/

structure CreateCommitmentSale where
  trust : Pubkey
  creator : Pubkey

structure SaleParams where
  saleId : Bytes32
  assetAmount : Nat
  targetQuote : Nat
  overflowQuote : Nat
  durationSecs : Int

def createCommitmentSale (s : MarketState) (clock : Clock) (a : CreateCommitmentSale)
    (p : SaleParams) : Except MarketError MarketState := do
  let k : TrustPda := ⟨a.trust, p.saleId⟩
  let m ← load s.modules a.trust
  requireFree s.sales k
  require (0 < p.assetAmount) (.custom .zeroAmount)
  require (0 < p.targetQuote) (.custom .zeroAmount)
  require (p.targetQuote ≤ p.overflowQuote) (.custom .invalidOverflowTarget)
  require (0 < p.durationSecs) (.custom .invalidDuration)
  let endTime ← okOr (checkedAddI64 clock.unixTimestamp p.durationSecs) (.custom .mathOverflow)
  let sale : CommitmentSale := {
    trust := a.trust
    saleId := p.saleId
    creator := a.creator
    assetAmount := p.assetAmount
    targetQuote := p.targetQuote
    overflowQuote := p.overflowQuote
    proceedsCollected := 0
    commitmentsCollected := 0
    status := .active
    startTime := clock.unixTimestamp
    endTime }
  let saleCount ← okOr (checkedAdd 64 m.saleCount 1) (.custom .mathOverflow)
  pure { s with
    sales := s.sales.insert k sale
    modules := s.modules.insert a.trust { m with saleCount } }

structure CommitToSale where
  sale : TrustPda
  quoteMint : Address
  saleQuoteVault : Address
  buyerQuoteTa : Address
  buyer : Pubkey

def commitToSale (s : MarketState) (tokens : Ledger Address) (clock : Clock) (a : CommitToSale)
    (amount : Nat) : Except MarketError (MarketState × Ledger Address) := do
  let sale ← loadPda s.sales CommitmentSale.seeds a.sale
  let _ ← loadMint tokens a.quoteMint
  checkOwned tokens a.saleQuoteVault a.quoteMint (.saleAuthority a.sale)
  checkOwned tokens a.buyerQuoteTa a.quoteMint (.wallet a.buyer)
  let c := initIfNeeded s.commitments ⟨a.sale, a.buyer⟩ .zeroed
  require (0 < amount) (.custom .zeroAmount)
  require (sale.status = .active) (.custom .saleNotActive)
  require (clock.unixTimestamp < sale.endTime) (.custom .saleClosed)
  let proceeds ← okOr (checkedAdd 64 sale.proceedsCollected amount) (.custom .mathOverflow)
  require (proceeds ≤ sale.overflowQuote) (.custom .overflowExceeded)
  let tokens ← invoke
    (tokens.transfer a.buyerQuoteTa a.quoteMint a.saleQuoteVault (.wallet a.buyer) amount)
  let total ← okOr (checkedAdd 64 c.amount amount) (.custom .mathOverflow)
  let c : SaleCommitment :=
    { trust := sale.trust, saleId := sale.saleId, buyer := a.buyer, amount := total }
  let commitmentsCollected ←
    okOr (checkedAdd 64 sale.commitmentsCollected amount) (.custom .mathOverflow)
  let sale := { sale with proceedsCollected := proceeds, commitmentsCollected }
  let s := { s with
    sales := s.sales.insert a.sale sale
    commitments := s.commitments.insert ⟨a.sale, a.buyer⟩ c }
  pure (s, tokens)

def finalizeSale (s : MarketState) (clock : Clock) (k : TrustPda) (signer : Pubkey) :
    Except MarketError MarketState := do
  let sale ← loadPda s.sales CommitmentSale.seeds k
  require (sale.status = .active) (.custom .saleNotActive)
  let voluntary := signer = sale.creator ∧ sale.targetQuote ≤ sale.proceedsCollected
  let elapsed := sale.endTime ≤ clock.unixTimestamp
  require (voluntary ∨ elapsed) (.custom .cannotFinalizeYet)
  pure { s with sales := s.sales.insert k { sale with status := .completed } }

structure ClaimAllocation where
  sale : TrustPda
  assetMint : Address
  saleAssetVault : Address
  buyerAssetTa : Address
  buyer : Pubkey

/-- `commitment.amount * asset_amount / commitments_collected`, in 128 bits. -/
def allocationOf (sale : CommitmentSale) (amount : Nat) : Option Nat := do
  let product ← checkedMul 128 amount sale.assetAmount
  let allocation ← checkedDiv product sale.commitmentsCollected
  tryInto 64 allocation

def claimAllocation (s : MarketState) (tokens : Ledger Address) (a : ClaimAllocation) :
    Except MarketError (MarketState × Ledger Address) := do
  let sale ← loadPda s.sales CommitmentSale.seeds a.sale
  let _ ← loadMint tokens a.assetMint
  checkOwned tokens a.saleAssetVault a.assetMint (.saleAuthority a.sale)
  let c ← load s.commitments ⟨a.sale, a.buyer⟩
  let _ ← loadTokenAccount tokens a.buyerAssetTa a.assetMint
  require (sale.status = .completed) (.custom .saleNotCompleted)
  require (c.buyer = a.buyer) (.custom .unauthorized)
  require (0 < c.amount) (.custom .alreadyClaimed)
  let allocation ← okOr (allocationOf sale c.amount) (.custom .mathOverflow)
  require (0 < allocation) (.custom .shareTooSmall)
  let tokens ← invoke (tokens.transfer a.saleAssetVault a.assetMint a.buyerAssetTa
    (.saleAuthority a.sale) allocation)
  let c := { c with amount := 0 }
  pure ({ s with commitments := s.commitments.insert ⟨a.sale, a.buyer⟩ c }, tokens)

/-! ## Exits -/

structure CreateExit where
  trust : Pubkey
  assetMint : Address
  creator : Pubkey

structure ExitParams where
  exitId : Bytes32
  exitQuote : Nat
  totalSupplySnapshot : Nat
  durationSecs : Int

def createExit (s : MarketState) (tokens : Ledger Address) (clock : Clock) (a : CreateExit)
    (p : ExitParams) : Except MarketError MarketState := do
  let k : TrustPda := ⟨a.trust, p.exitId⟩
  let m ← load s.modules a.trust
  requireFree s.exits k
  let assetMint ← loadMint tokens a.assetMint
  require (0 < p.exitQuote) (.custom .zeroAmount)
  require (0 < p.totalSupplySnapshot) (.custom .zeroAmount)
  require (0 < p.durationSecs) (.custom .invalidDuration)
  require (p.totalSupplySnapshot = assetMint.supply) (.custom .supplySnapshotMismatch)
  let endTime ← okOr (checkedAddI64 clock.unixTimestamp p.durationSecs) (.custom .mathOverflow)
  let e : Exit := {
    trust := a.trust
    exitId := p.exitId
    creator := a.creator
    assetMint := a.assetMint
    exitQuote := p.exitQuote
    totalSupplySnapshot := p.totalSupplySnapshot
    proceedsCollected := 0
    remainingProceeds := p.exitQuote
    status := .active
    startTime := clock.unixTimestamp
    endTime }
  let exitCount ← okOr (checkedAdd 64 m.exitCount 1) (.custom .mathOverflow)
  pure { s with
    exits := s.exits.insert k e
    modules := s.modules.insert a.trust { m with exitCount } }

structure SettleExit where
  exit : TrustPda
  quoteMint : Address
  exitQuoteVault : Address
  creatorQuoteTa : Address
  creator : Pubkey

def settleExit (s : MarketState) (tokens : Ledger Address) (a : SettleExit) :
    Except MarketError (MarketState × Ledger Address) := do
  let e ← loadPda s.exits Exit.seeds a.exit
  let _ ← loadMint tokens a.quoteMint
  checkOwned tokens a.exitQuoteVault a.quoteMint (.exitAuthority a.exit)
  checkOwned tokens a.creatorQuoteTa a.quoteMint (.wallet a.creator)
  require (e.status = .active) (.custom .saleNotActive)
  require (a.creator = e.creator) (.custom .unauthorized)
  require (e.proceedsCollected = 0) (.custom .alreadySettled)
  let tokens ← invoke (tokens.transfer a.creatorQuoteTa a.quoteMint a.exitQuoteVault
    (.wallet a.creator) e.exitQuote)
  let e := { e with proceedsCollected := e.exitQuote }
  pure ({ s with exits := s.exits.insert a.exit e }, tokens)

structure ClaimProRata where
  exit : TrustPda
  assetMint : Address
  quoteMint : Address
  exitQuoteVault : Address
  holderAssetTa : Address
  holderQuoteTa : Address
  holder : Pubkey

/-- `burn_amount * exit_quote / total_supply_snapshot`, in 128 bits. -/
def shareOf (e : Exit) (burnAmount : Nat) : Option Nat := do
  let product ← checkedMul 128 burnAmount e.exitQuote
  let share ← checkedDiv product e.totalSupplySnapshot
  tryInto 64 share

def claimProRata (s : MarketState) (tokens : Ledger Address) (a : ClaimProRata)
    (burnAmount : Nat) : Except MarketError (MarketState × Ledger Address) := do
  let e ← loadPda s.exits Exit.seeds a.exit
  require (a.assetMint = e.assetMint) (.custom .assetMintMismatch)
  let _ ← loadMint tokens a.assetMint
  let _ ← loadMint tokens a.quoteMint
  checkOwned tokens a.exitQuoteVault a.quoteMint (.exitAuthority a.exit)
  checkOwned tokens a.holderAssetTa a.assetMint (.wallet a.holder)
  let _ ← loadTokenAccount tokens a.holderQuoteTa a.quoteMint
  require (0 < burnAmount) (.custom .zeroAmount)
  require (0 < e.proceedsCollected) (.custom .notSettled)
  require (e.status = .active) (.custom .saleNotActive)
  let share ← okOr (shareOf e burnAmount) (.custom .mathOverflow)
  require (0 < share) (.custom .shareTooSmall)
  require (share ≤ e.remainingProceeds) (.custom .insufficientReserve)
  let tokens ← invoke (tokens.burn a.holderAssetTa a.assetMint (.wallet a.holder) burnAmount)
  let tokens ← invoke (tokens.transfer a.exitQuoteVault a.quoteMint a.holderQuoteTa
    (.exitAuthority a.exit) share)
  let remainingProceeds ← okOr (checkedSub e.remainingProceeds share) (.custom .mathOverflow)
  let e := { e with remainingProceeds }
  pure ({ s with exits := s.exits.insert a.exit e }, tokens)

/-! ## The program as one transition function -/

inductive MarketIx
  | init (trust payer : Pubkey)
  | createCurve (a : CreateCurve) (p : CurveParams)
  | buyFromCurve (a : BuyFromCurve) (tokenAmount maxCost : Nat)
  | sellToCurve (a : SellToCurve) (tokenAmount minReturn : Nat)
  | createCommitmentSale (a : CreateCommitmentSale) (p : SaleParams)
  | commitToSale (a : CommitToSale) (amount : Nat)
  | finalizeSale (sale : TrustPda) (signer : Pubkey)
  | claimAllocation (a : ClaimAllocation)
  | createExit (a : CreateExit) (p : ExitParams)
  | settleExit (a : SettleExit)
  | claimProRata (a : ClaimProRata) (burnAmount : Nat)

def MarketState.exec (s : MarketState) (trusts : Accounts Pubkey Trust) (tokens : Ledger Address)
    (clock : Clock) : MarketIx → Except MarketError (MarketState × Ledger Address)
  | .init trust payer => do
    let s ← Market.init s trusts trust payer
    pure (s, tokens)
  | .createCurve a p => do
    let s ← Market.createCurve s tokens a p
    pure (s, tokens)
  | .buyFromCurve a tokenAmount maxCost => Market.buyFromCurve s tokens a tokenAmount maxCost
  | .sellToCurve a tokenAmount minReturn => Market.sellToCurve s tokens a tokenAmount minReturn
  | .createCommitmentSale a p => do
    let s ← Market.createCommitmentSale s clock a p
    pure (s, tokens)
  | .commitToSale a amount => Market.commitToSale s tokens clock a amount
  | .finalizeSale sale signer => do
    let s ← Market.finalizeSale s clock sale signer
    pure (s, tokens)
  | .claimAllocation a => Market.claimAllocation s tokens a
  | .createExit a p => do
    let s ← Market.createExit s tokens clock a p
    pure (s, tokens)
  | .settleExit a => Market.settleExit s tokens a
  | .claimProRata a burnAmount => Market.claimProRata s tokens a burnAmount

end Aeqi.Market
