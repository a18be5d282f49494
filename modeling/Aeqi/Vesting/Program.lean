import Aeqi.Governance.State
import Aeqi.Solana.Tokens

/-!
# aeqi_vesting

Linear vesting with a cliff. All grants of a trust are paid from vaults of one authority,
`[b"vesting_vault_authority", trust]`; the mint and the vault are chosen when a grant is
claimed.
-/

namespace Aeqi.Vesting

open Aeqi.Lib Aeqi.Solana
open Governance (Trust)
open Token (Ledger)

structure VestingModuleState where
  trust : Pubkey
  positionCount : Nat

structure VestingPosition where
  trust : Pubkey
  positionId : Bytes32
  recipient : Address
  mint : Address
  grantor : Pubkey
  totalAmount : Nat
  claimedAmount : Nat
  startTime : Int
  cliffTime : Int
  endTime : Int
  fdvMilestoneUnlocked : Bool
  contributionRequired : Nat
  contributionPaid : Bool
  contributionMint : Address

def VestingPosition.seeds (p : VestingPosition) : TrustPda := ⟨p.trust, p.positionId⟩

inductive VestingError
  | trustNotInCreationMode
  | unauthorized
  | invalidSchedule
  | zeroAmount
  | nothingToClaim
  | alreadyUnlocked
  | contributionUnpaid
  | noContributionRequired
  | contributionAlreadyPaid
  | contributionMintMismatch
  | mathOverflow

abbrev VestingTxError := TxError VestingError

/-- All accounts owned by the vesting program. -/
structure VestingState where
  modules : Accounts Pubkey VestingModuleState := ∅
  positions : Accounts TrustPda VestingPosition := ∅

/-! ## Handlers -/

def init (s : VestingState) (trusts : Accounts Pubkey Trust) (k payer : Pubkey) :
    Except VestingTxError VestingState := do
  let trust ← load trusts k
  requireFree s.modules k
  require (trust.creationMode = true) (.custom .trustNotInCreationMode)
  require (payer = trust.authority) (.custom .unauthorized)
  pure { s with modules := s.modules.insert k ⟨k, 0⟩ }

structure CreatePosition where
  trust : Pubkey
  mint : Address
  grantor : Pubkey

structure PositionParams where
  positionId : Bytes32
  recipient : Address
  totalAmount : Nat
  startTime : Int
  cliffTime : Int
  endTime : Int
  contributionRequired : Nat
  contributionMint : Address

def createPosition (s : VestingState) (tokens : Ledger Address) (a : CreatePosition)
    (p : PositionParams) : Except VestingTxError VestingState := do
  let k : TrustPda := ⟨a.trust, p.positionId⟩
  let m ← load s.modules a.trust
  requireFree s.positions k
  let _ ← loadMint tokens a.mint
  require (p.startTime < p.endTime) (.custom .invalidSchedule)
  require (p.startTime ≤ p.cliffTime) (.custom .invalidSchedule)
  require (p.cliffTime ≤ p.endTime) (.custom .invalidSchedule)
  require (0 < p.totalAmount) (.custom .zeroAmount)
  let position : VestingPosition := {
    trust := a.trust
    positionId := p.positionId
    recipient := p.recipient
    mint := a.mint
    grantor := a.grantor
    totalAmount := p.totalAmount
    claimedAmount := 0
    startTime := p.startTime
    cliffTime := p.cliffTime
    endTime := p.endTime
    fdvMilestoneUnlocked := false
    contributionRequired := p.contributionRequired
    contributionPaid := false
    contributionMint := p.contributionMint }
  let positionCount ← okOr (checkedAdd 64 m.positionCount 1) (.custom .mathOverflow)
  pure { s with
    positions := s.positions.insert k position
    modules := s.modules.insert a.trust { m with positionCount } }

structure PayContribution where
  position : TrustPda
  contributionMint : Address
  recipientContributionTa : Address
  recipient : Pubkey

def payContribution (s : VestingState) (tokens : Ledger Address) (a : PayContribution) :
    Except VestingTxError (VestingState × Ledger Address) := do
  let p ← loadPda s.positions VestingPosition.seeds a.position
  let _ ← loadMint tokens a.contributionMint
  checkOwned tokens a.recipientContributionTa a.contributionMint (.wallet a.recipient)
  require (.wallet a.recipient = p.recipient) (.custom .unauthorized)
  require (0 < p.contributionRequired) (.custom .noContributionRequired)
  require (p.contributionPaid = false) (.custom .contributionAlreadyPaid)
  require (a.contributionMint = p.contributionMint) (.custom .contributionMintMismatch)
  let tokens ← invoke (tokens.burn a.recipientContributionTa a.contributionMint
    (.wallet a.recipient) p.contributionRequired)
  let p := { p with contributionPaid := true }
  pure ({ s with positions := s.positions.insert a.position p }, tokens)

def markFdvMilestone (s : VestingState) (k : TrustPda) (grantor : Pubkey) :
    Except VestingTxError VestingState := do
  let p ← loadPda s.positions VestingPosition.seeds k
  require (grantor = p.grantor) (.custom .unauthorized)
  require (p.fdvMilestoneUnlocked = false) (.custom .alreadyUnlocked)
  pure { s with positions := s.positions.insert k { p with fdvMilestoneUnlocked := true } }

/-- `i64 as u128`, with the sign extended. -/
def asU128 (n : Int) : Nat := (n % 2 ^ 128).toNat

def vestedAmountAt (p : VestingPosition) (now : Int) : Option Nat :=
  if now < p.cliffTime then
    some 0
  else if p.endTime ≤ now then
    some p.totalAmount
  else do
    let elapsed ← checkedSubI64 now p.startTime
    let duration ← checkedSubI64 p.endTime p.startTime
    let product ← checkedMul 128 p.totalAmount (asU128 elapsed)
    let vested ← checkedDiv product (asU128 duration)
    tryInto 64 vested

def vestedOf (p : VestingPosition) (now : Int) : Option Nat :=
  if p.fdvMilestoneUnlocked = true then some p.totalAmount else vestedAmountAt p now

def claimableOf (p : VestingPosition) (now : Int) : Option Nat := do
  let vested ← vestedOf p now
  checkedSub vested p.claimedAmount

structure Claim where
  position : TrustPda
  mint : Address
  vault : Address
  recipientTa : Address

/-- Anyone may claim for the recipient. The trust is the first seed of the position. -/
def claim (s : VestingState) (tokens : Ledger Address) (clock : Clock) (a : Claim) :
    Except VestingTxError (VestingState × Ledger Address) := do
  let trust := a.position.trust
  let p ← loadPda s.positions (fun p => ⟨trust, p.positionId⟩) a.position
  let _ ← loadMint tokens a.mint
  checkOwned tokens a.vault a.mint (.vestingVaultAuthority trust)
  checkOwned tokens a.recipientTa a.mint p.recipient
  require (p.contributionRequired = 0 ∨ p.contributionPaid = true) (.custom .contributionUnpaid)
  let claimable ← okOr (claimableOf p clock.unixTimestamp) (.custom .mathOverflow)
  require (0 < claimable) (.custom .nothingToClaim)
  let tokens ← invoke
    (tokens.transfer a.vault a.mint a.recipientTa (.vestingVaultAuthority trust) claimable)
  let claimedAmount ← okOr (checkedAdd 64 p.claimedAmount claimable) (.custom .mathOverflow)
  pure ({ s with positions := s.positions.insert a.position { p with claimedAmount } }, tokens)

/-! ## The program as one transition function -/

inductive VestingIx
  | init (trust payer : Pubkey)
  | createPosition (a : CreatePosition) (p : PositionParams)
  | payContribution (a : PayContribution)
  | markFdvMilestone (position : TrustPda) (grantor : Pubkey)
  | claim (a : Claim)

def VestingState.exec (s : VestingState) (trusts : Accounts Pubkey Trust)
    (tokens : Ledger Address) (clock : Clock) :
    VestingIx → Except VestingTxError (VestingState × Ledger Address)
  | .init trust payer => do
    let s ← Vesting.init s trusts trust payer
    pure (s, tokens)
  | .createPosition a p => do
    let s ← Vesting.createPosition s tokens a p
    pure (s, tokens)
  | .payContribution a => Vesting.payContribution s tokens a
  | .markFdvMilestone position grantor => do
    let s ← Vesting.markFdvMilestone s position grantor
    pure (s, tokens)
  | .claim a => Vesting.claim s tokens clock a

end Aeqi.Vesting

/-!
## aeqi_vesting: what a successful instruction did
-/

namespace Aeqi.Vesting

open Aeqi.Lib Aeqi.Solana
open Governance (Trust)
open Token (Ledger)
open Token.Ledger (Moves)

namespace VestingPosition

/-- A position as `create_position` writes it. -/
def opened (a : CreatePosition) (p : PositionParams) : VestingPosition :=
  ⟨a.trust, p.positionId, p.recipient, a.mint, a.grantor, p.totalAmount, 0, p.startTime,
    p.cliffTime, p.endTime, false, p.contributionRequired, false, p.contributionMint⟩

variable (p : VestingPosition)

def claimed (n : Nat) : VestingPosition := { p with claimedAmount := p.claimedAmount + n }

def contributed : VestingPosition := { p with contributionPaid := true }

def unlocked : VestingPosition := { p with fdvMilestoneUnlocked := true }

end VestingPosition

/-! ## Handlers -/

section Handlers

variable {s s' : VestingState} {tokens tokens' : Ledger Address} {clock : Clock}

theorem init_ok {trusts : Accounts Pubkey Trust} {k payer : Pubkey}
    (h : init s trusts k payer = .ok s') :
    s' = { s with modules := s.modules.insert k ⟨k, 0⟩ } := by
  simp only [init, bind_eq_ok, exists_punit, pure_eq_ok] at h
  obtain ⟨_, -, -, -, -, rfl⟩ := h
  rfl

theorem createPosition_ok {a : CreatePosition} {p : PositionParams}
    (h : createPosition s tokens a p = .ok s') :
    s.positions.lookup ⟨a.trust, p.positionId⟩ = none ∧ ∃ m, s' = { s with
      positions := s.positions.insert ⟨a.trust, p.positionId⟩ (.opened a p)
      modules := s.modules.insert a.trust m } := by
  simp only [createPosition, bind_eq_ok, requireFree_eq_ok, exists_punit, pure_eq_ok] at h
  obtain ⟨_, -, hfree, _, -, -, -, -, -, _, -, rfl⟩ := h
  exact ⟨hfree, _, rfl⟩

theorem payContribution_ok {a : PayContribution}
    (h : payContribution s tokens a = .ok (s', tokens')) :
    ∃ p, s.positions.lookup a.position = some p ∧
      tokens.burn a.recipientContributionTa a.contributionMint (.wallet a.recipient)
        p.contributionRequired = .ok tokens' ∧
      s' = { s with positions := s.positions.insert a.position p.contributed } := by
  simp only [payContribution, bind_eq_ok, loadPda_eq_ok, invoke_eq_ok, exists_punit] at h
  obtain ⟨p, ⟨hp, -⟩, _, -, -, -, -, -, -, _, hpay, rfl, rfl⟩ := h
  exact ⟨p, hp, hpay, rfl⟩

theorem markFdvMilestone_ok {k : TrustPda} {grantor : Pubkey}
    (h : markFdvMilestone s k grantor = .ok s') :
    ∃ p, s.positions.lookup k = some p ∧
      s' = { s with positions := s.positions.insert k p.unlocked } := by
  simp only [markFdvMilestone, bind_eq_ok, loadPda_eq_ok, exists_punit, pure_eq_ok] at h
  obtain ⟨p, ⟨hp, -⟩, -, -, rfl⟩ := h
  exact ⟨p, hp, rfl⟩

theorem claim_ok {a : Claim} (h : claim s tokens clock a = .ok (s', tokens')) :
    ∃ p claimable, s.positions.lookup a.position = some p ∧
      claimableOf p clock.unixTimestamp = some claimable ∧ 0 < claimable ∧
      Owned tokens a.vault a.mint (.vestingVaultAuthority a.position.trust) ∧
      Owned tokens a.recipientTa a.mint p.recipient ∧
      tokens.transfer a.vault a.mint a.recipientTa (.vestingVaultAuthority a.position.trust)
        claimable = .ok tokens' ∧
      s' = { s with positions := s.positions.insert a.position (p.claimed claimable) } := by
  simp only [claim, bind_eq_ok, loadPda_eq_ok, checkOwned_eq_ok, require_eq_ok,
    okOr_eq_ok, checkedAdd_eq_some, invoke_eq_ok, exists_punit] at h
  obtain ⟨p, ⟨hp, -⟩, _, -, hvault, hrecipient, -, claimable, hclaimable, hpos, _, hpay, _,
    ⟨-, rfl⟩, rfl, rfl⟩ := h
  exact ⟨p, claimable, hp, hclaimable, hpos, hvault, hrecipient, hpay, rfl⟩

end Handlers

/-! ## The ledger -/

def VestingIx.authority : VestingIx → Option Address
  | .claim a => some (.vestingVaultAuthority a.position.trust)
  | _ => none

section Exec

variable {s s' : VestingState} {trusts : Accounts Pubkey Trust} {tokens tokens' : Ledger Address}
  {clock : Clock} {ix : VestingIx}

theorem exec_moves (h : s.exec trusts tokens clock ix = .ok (s', tokens')) :
    Moves (Signs ix.authority) (fun _ => 0) tokens tokens' := by
  cases ix with
  | init trust payer | createPosition a p | markFdvMilestone position grantor =>
    obtain ⟨-, rfl⟩ := ok_of_fst h
    exact .refl _
  | payContribution a =>
    obtain ⟨_, -, hpay, -⟩ := payContribution_ok h
    exact .burn hpay (.inl ⟨_, rfl⟩)
  | claim a =>
    obtain ⟨_, _, -, -, -, -, -, hpay, -⟩ := claim_ok h
    exact .transfer hpay (.inr rfl)

end Exec

end Aeqi.Vesting
