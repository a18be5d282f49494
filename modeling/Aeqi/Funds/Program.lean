import Aeqi.Governance.State
import Aeqi.Solana.Tokens

/-!
# aeqi_fund

NAV-based fund accounting: what the LPs own together is `grossNav`, the manager's carry is
kept apart in `accruedCarry`, and both lie in vaults of the fund's authority.
-/

namespace Aeqi.Funds

open Aeqi.Lib Aeqi.Solana
open Governance (Trust)
open Token (Ledger)

/-- The seeds of a share record, `[b"lp_share", trust, fund_id, lp]`. -/
structure LpSharePda where
  fund : TrustPda
  lp : Pubkey
  deriving DecidableEq

structure FundModuleState where
  trust : Pubkey
  fundCount : Nat

structure Fund where
  trust : Pubkey
  fundId : Bytes32
  manager : Pubkey
  quoteMint : Address
  grossNav : Nat
  totalShares : Nat
  highWaterMark : Nat
  carryBps : Nat
  accruedCarry : Nat

structure LpShare where
  trust : Pubkey
  fundId : Bytes32
  lp : Pubkey
  shares : Nat

def Fund.seeds (f : Fund) : TrustPda := ⟨f.trust, f.fundId⟩

def LpShare.zeroed : LpShare := ⟨0, 0, 0, 0⟩

inductive FundError
  | trustNotInCreationMode
  | unauthorized
  | invalidBps
  | zeroAmount
  | quoteMintMismatch
  | shareTooSmall
  | notManager
  | noCarry
  | emptyFund
  | insufficientShares
  | mathOverflow

abbrev FundTxError := TxError FundError

/-- All accounts owned by the fund program. -/
structure FundState where
  modules : Accounts Pubkey FundModuleState := ∅
  funds : Accounts TrustPda Fund := ∅
  lpShares : Accounts LpSharePda LpShare := ∅

/-! ## Handlers -/

def init (s : FundState) (trusts : Accounts Pubkey Trust) (k payer : Pubkey) :
    Except FundTxError FundState := do
  let trust ← load trusts k
  requireFree s.modules k
  require (trust.creationMode = true) (.custom .trustNotInCreationMode)
  require (payer = trust.authority) (.custom .unauthorized)
  pure { s with modules := s.modules.insert k ⟨k, 0⟩ }

structure CreateFund where
  trust : Pubkey
  quoteMint : Address
  manager : Pubkey

def createFund (s : FundState) (tokens : Ledger Address) (a : CreateFund) (fundId : Bytes32)
    (carryBps : Nat) : Except FundTxError FundState := do
  let k : TrustPda := ⟨a.trust, fundId⟩
  let m ← load s.modules a.trust
  requireFree s.funds k
  let _ ← loadMint tokens a.quoteMint
  require (carryBps ≤ 10000) (.custom .invalidBps)
  let f : Fund := {
    trust := a.trust
    fundId
    manager := a.manager
    quoteMint := a.quoteMint
    grossNav := 0
    totalShares := 0
    highWaterMark := 0
    carryBps
    accruedCarry := 0 }
  let fundCount ← okOr (checkedAdd 64 m.fundCount 1) (.custom .mathOverflow)
  pure { s with
    funds := s.funds.insert k f
    modules := s.modules.insert a.trust { m with fundCount } }

/-- The slots that `FundDeposit` and `FundRedeem` share. -/
structure LpAccounts where
  fund : TrustPda
  quoteMint : Address
  fundQuoteVault : Address
  lpQuoteTa : Address
  lp : Pubkey

abbrev FundDeposit := LpAccounts

abbrev FundRedeem := LpAccounts

/-- One share a unit of quote at first, and then `amount * total_shares / gross_nav`. -/
def sharesToIssue (f : Fund) (amount : Nat) : Option Nat :=
  if f.grossNav = 0 ∨ f.totalShares = 0 then
    some amount
  else do
    let product ← checkedMul 128 amount f.totalShares
    checkedDiv product f.grossNav

def deposit (s : FundState) (tokens : Ledger Address) (a : FundDeposit) (amount : Nat) :
    Except FundTxError (FundState × Ledger Address) := do
  let f ← loadPda s.funds Fund.seeds a.fund
  let _ ← loadMint tokens a.quoteMint
  checkOwned tokens a.fundQuoteVault a.quoteMint (.fundAuthority a.fund)
  checkOwned tokens a.lpQuoteTa a.quoteMint (.wallet a.lp)
  let share := initIfNeeded s.lpShares ⟨a.fund, a.lp⟩ .zeroed
  require (0 < amount) (.custom .zeroAmount)
  require (a.quoteMint = f.quoteMint) (.custom .quoteMintMismatch)
  let tokens ← invoke
    (tokens.transfer a.lpQuoteTa a.quoteMint a.fundQuoteVault (.wallet a.lp) amount)
  let shares ← okOr (sharesToIssue f amount) (.custom .mathOverflow)
  let shares ← okOr (tryInto 64 shares) (.custom .mathOverflow)
  require (0 < shares) (.custom .shareTooSmall)
  let grossNav ← okOr (checkedAdd 64 f.grossNav amount) (.custom .mathOverflow)
  let totalShares ← okOr (checkedAdd 64 f.totalShares shares) (.custom .mathOverflow)
  let held ← okOr (checkedAdd 64 share.shares shares) (.custom .mathOverflow)
  let share : LpShare := { trust := f.trust, fundId := f.fundId, lp := a.lp, shares := held }
  let s := { s with
    funds := s.funds.insert a.fund { f with grossNav, totalShares }
    lpShares := s.lpShares.insert ⟨a.fund, a.lp⟩ share }
  pure (s, tokens)

def markNav (f : Fund) (lpNav : Nat) : Option Fund :=
  if f.highWaterMark < lpNav then do
    let increase := lpNav - f.highWaterMark
    let product ← checkedMul 128 increase f.carryBps
    let carry ← tryInto 64 (product / 10000)
    let accruedCarry ← checkedAdd 64 f.accruedCarry carry
    let grossNav ← checkedSub lpNav carry
    some { f with accruedCarry, grossNav, highWaterMark := grossNav }
  else
    some { f with grossNav := lpNav }

def updateNav (s : FundState) (k : TrustPda) (manager : Pubkey) (newGrossNav : Nat) :
    Except FundTxError FundState := do
  let f ← loadPda s.funds Fund.seeds k
  require (manager = f.manager) (.custom .notManager)
  let lpNav ← okOr (checkedSub newGrossNav f.accruedCarry) (.custom .mathOverflow)
  let f ← okOr (markNav f lpNav) (.custom .mathOverflow)
  pure { s with funds := s.funds.insert k f }

structure ClaimCarry where
  fund : TrustPda
  quoteMint : Address
  fundQuoteVault : Address
  managerQuoteTa : Address
  manager : Pubkey

def claimCarry (s : FundState) (tokens : Ledger Address) (a : ClaimCarry) :
    Except FundTxError (FundState × Ledger Address) := do
  let f ← loadPda s.funds Fund.seeds a.fund
  let _ ← loadMint tokens a.quoteMint
  checkOwned tokens a.fundQuoteVault a.quoteMint (.fundAuthority a.fund)
  let _ ← loadTokenAccount tokens a.managerQuoteTa a.quoteMint
  require (a.manager = f.manager) (.custom .notManager)
  require (a.quoteMint = f.quoteMint) (.custom .quoteMintMismatch)
  let carry := f.accruedCarry
  require (0 < carry) (.custom .noCarry)
  let tokens ← invoke (tokens.transfer a.fundQuoteVault a.quoteMint a.managerQuoteTa
    (.fundAuthority a.fund) carry)
  pure ({ s with funds := s.funds.insert a.fund { f with accruedCarry := 0 } }, tokens)

/-- `shares * gross_nav / total_shares`, in 128 bits. -/
def quoteOutOf (f : Fund) (shares : Nat) : Option Nat := do
  let product ← checkedMul 128 shares f.grossNav
  let quoteOut ← checkedDiv product f.totalShares
  tryInto 64 quoteOut

def redeem (s : FundState) (tokens : Ledger Address) (a : FundRedeem) (shares : Nat) :
    Except FundTxError (FundState × Ledger Address) := do
  let f ← loadPda s.funds Fund.seeds a.fund
  let _ ← loadMint tokens a.quoteMint
  checkOwned tokens a.fundQuoteVault a.quoteMint (.fundAuthority a.fund)
  let _ ← loadTokenAccount tokens a.lpQuoteTa a.quoteMint
  let share ← load s.lpShares ⟨a.fund, a.lp⟩
  require (0 < shares) (.custom .zeroAmount)
  require (a.quoteMint = f.quoteMint) (.custom .quoteMintMismatch)
  require (0 < f.totalShares) (.custom .emptyFund)
  require (a.lp = share.lp) (.custom .unauthorized)
  require (shares ≤ share.shares) (.custom .insufficientShares)
  let quoteOut ← okOr (quoteOutOf f shares) (.custom .mathOverflow)
  require (0 < quoteOut) (.custom .shareTooSmall)
  let tokens ← invoke (tokens.transfer a.fundQuoteVault a.quoteMint a.lpQuoteTa
    (.fundAuthority a.fund) quoteOut)
  let held ← okOr (checkedSub share.shares shares) (.custom .mathOverflow)
  let totalShares ← okOr (checkedSub f.totalShares shares) (.custom .mathOverflow)
  let grossNav ← okOr (checkedSub f.grossNav quoteOut) (.custom .mathOverflow)
  let s := { s with
    funds := s.funds.insert a.fund { f with totalShares, grossNav }
    lpShares := s.lpShares.insert ⟨a.fund, a.lp⟩ { share with shares := held } }
  pure (s, tokens)

/-! ## The program as one transition function -/

inductive FundIx
  | init (trust payer : Pubkey)
  | createFund (a : CreateFund) (fundId : Bytes32) (carryBps : Nat)
  | deposit (a : FundDeposit) (amount : Nat)
  | updateNav (fund : TrustPda) (manager : Pubkey) (newGrossNav : Nat)
  | claimCarry (a : ClaimCarry)
  | redeem (a : FundRedeem) (shares : Nat)

def FundState.exec (s : FundState) (trusts : Accounts Pubkey Trust) (tokens : Ledger Address) :
    FundIx → Except FundTxError (FundState × Ledger Address)
  | .init trust payer => do
    let s ← Funds.init s trusts trust payer
    pure (s, tokens)
  | .createFund a fundId carryBps => do
    let s ← Funds.createFund s tokens a fundId carryBps
    pure (s, tokens)
  | .deposit a amount => Funds.deposit s tokens a amount
  | .updateNav fund manager newGrossNav => do
    let s ← Funds.updateNav s fund manager newGrossNav
    pure (s, tokens)
  | .claimCarry a => Funds.claimCarry s tokens a
  | .redeem a shares => Funds.redeem s tokens a shares

end Aeqi.Funds
