import Aeqi.Solana.Tokens
import Aeqi.Unifutures.State
import Mathlib.Tactic.Ring

/-!
# aeqi_unifutures: curves, sales and exits

The accounts of the three issuance primitives. The liquidity pools of the same program are
`Aeqi.Unifutures`.
-/

/-!
## Bonding curve math (`curve.rs`)

Prices are quote per `1e18` tokens, in 128-bit integers. A price that does not fit
saturates; a cost or a return that does not fit is none.
-/

namespace Aeqi.Market

open Aeqi.Lib

/-- `PRECISION`. -/
def precision : Nat := 1000000000000000000

inductive CurveType
  | linear
  | exponential

def CurveType.fromU8 : Nat → Option CurveType
  | 0 => some .linear
  | 1 => some .exponential
  | _ => none

def u128Max : Nat := 2 ^ 128 - 1

def saturatingMul (a b : Nat) : Nat := min (a * b) u128Max

def saturatingAdd (a b : Nat) : Nat := min (a + b) u128Max

def saturatingSub (a b : Nat) : Nat := a - b

/-- `progress` in `[0, PRECISION]`, squared on an exponential curve. -/
def scaleAt (curveType : CurveType) (maxSupply currentSupply : Nat) : Nat :=
  let progress := min (saturatingMul currentSupply precision / maxSupply) precision
  match curveType with
  | .linear => progress
  | .exponential => saturatingMul progress progress / precision

def priceAt (curveType : CurveType) (startPrice endPrice maxSupply currentSupply : Nat) : Nat :=
  if maxSupply = 0 then
    startPrice
  else
    let scale := scaleAt curveType maxSupply currentSupply
    if startPrice ≤ endPrice then
      let delta := endPrice - startPrice
      saturatingAdd startPrice (saturatingMul delta scale / precision)
    else
      let delta := startPrice - endPrice
      saturatingSub startPrice (saturatingMul delta scale / precision)

/-- The trapezoidal rule from `currentSupply` up to `currentSupply + tokenAmount`. -/
def purchaseCost (curveType : CurveType)
    (startPrice endPrice maxSupply currentSupply tokenAmount : Nat) : Option Nat :=
  if tokenAmount = 0 then
    some 0
  else do
    let pStart := priceAt curveType startPrice endPrice maxSupply currentSupply
    let newSupply ← checkedAdd 128 currentSupply tokenAmount
    let pEnd := priceAt curveType startPrice endPrice maxSupply newSupply
    let sum ← checkedAdd 128 pStart pEnd
    let product ← checkedMul 128 tokenAmount (sum / 2)
    checkedDiv product precision

def saleReturn (curveType : CurveType)
    (startPrice endPrice maxSupply currentSupply tokenAmount reserveRatioPpm : Nat) :
    Option Nat :=
  if tokenAmount = 0 ∨ currentSupply < tokenAmount then
    none
  else do
    let newSupply ← checkedSub currentSupply tokenAmount
    let pEnd := priceAt curveType startPrice endPrice maxSupply newSupply
    let pStart := priceAt curveType startPrice endPrice maxSupply currentSupply
    let sum ← checkedAdd 128 pEnd pStart
    let product ← checkedMul 128 tokenAmount (sum / 2)
    let gross ← checkedDiv product precision
    let scaled ← checkedMul 128 gross reserveRatioPpm
    checkedDiv scaled 1000000

open Aeqi.Solana
open Unifutures (UnifuturesModuleState)

/-- The seeds of a commitment, `[b"sale_commitment", trust, sale_id, buyer]`. -/
structure CommitmentPda where
  sale : TrustPda
  buyer : Pubkey
  deriving DecidableEq

inductive SaleStatus
  | active
  | completed
  | cancelled
  deriving DecidableEq

structure CommitmentSale where
  trust : Pubkey
  saleId : Bytes32
  creator : Pubkey
  assetAmount : Nat
  targetQuote : Nat
  overflowQuote : Nat
  proceedsCollected : Nat
  commitmentsCollected : Nat
  status : SaleStatus
  startTime : Int
  endTime : Int

structure SaleCommitment where
  trust : Pubkey
  saleId : Bytes32
  buyer : Pubkey
  amount : Nat

structure Exit where
  trust : Pubkey
  exitId : Bytes32
  creator : Pubkey
  assetMint : Address
  exitQuote : Nat
  totalSupplySnapshot : Nat
  proceedsCollected : Nat
  remainingProceeds : Nat
  status : SaleStatus
  startTime : Int
  endTime : Int

structure BondingCurve where
  trust : Pubkey
  curveId : Bytes32
  creator : Pubkey
  assetMint : Address
  quoteMint : Address
  curveType : Nat
  startPrice : Nat
  endPrice : Nat
  maxSupply : Nat
  currentSupply : Nat
  reserveBalance : Nat
  reserveRatioPpm : Nat
  proceedsCollected : Nat

def SaleCommitment.zeroed : SaleCommitment := ⟨0, 0, 0, 0⟩

def CommitmentSale.seeds (s : CommitmentSale) : TrustPda := ⟨s.trust, s.saleId⟩

def Exit.seeds (e : Exit) : TrustPda := ⟨e.trust, e.exitId⟩

def BondingCurve.seeds (c : BondingCurve) : TrustPda := ⟨c.trust, c.curveId⟩

inductive UnifuturesError
  | trustNotInCreationMode
  | unauthorized
  | zeroMaxSupply
  | invalidReserveRatio
  | identicalMints
  | invalidCurveType
  | zeroAmount
  | assetMintMismatch
  | quoteMintMismatch
  | exceedsMaxSupply
  | exceedsSupply
  | slippageExceeded
  | insufficientReserve
  | saleNotActive
  | saleNotCompleted
  | saleClosed
  | overflowExceeded
  | cannotFinalizeYet
  | alreadyClaimed
  | shareTooSmall
  | alreadySettled
  | notSettled
  | supplySnapshotMismatch
  | invalidDuration
  | invalidOverflowTarget
  | mathOverflow
  deriving DecidableEq

abbrev MarketError := TxError UnifuturesError

/-- The accounts of the issuance primitives. -/
structure MarketState where
  modules : Accounts Pubkey UnifuturesModuleState := ∅
  curves : Accounts TrustPda BondingCurve := ∅
  sales : Accounts TrustPda CommitmentSale := ∅
  commitments : Accounts CommitmentPda SaleCommitment := ∅
  exits : Accounts TrustPda Exit := ∅

end Aeqi.Market
