import Aeqi.Lib.Merkle
import Aeqi.Roles.State

/-!
# aeqi_governance: accounts

The accounts of the governance program, the accounts of other programs it reads,
and its errors. The digests of sha256 are a type parameter `D` with the order of
byte strings and the all-zero digest; a leaf preimage is the buffer that holds
the voter's key and the balance, a node preimage the concatenation of two digests.
-/

namespace Aeqi.Governance

open Aeqi.Lib Aeqi.Lib.Merkle Aeqi.Solana

/-- The 40-byte leaf buffer: a public key and a 64-bit balance. -/
abbrev VoteLeaf := Pubkey × Nat

abbrev Sha256 (D : Type) := Preimage VoteLeaf D → D

/-! ## Accounts of other programs -/

structure Trust where
  trustId : Bytes32
  authority : Pubkey
  creationMode : Bool
  paused : Bool
  moduleCount : Nat

/-- What the accounts outside aeqi_role and aeqi_governance hold when a
transaction executes: the trusts, and the supply of the cap-table mint
`[b"mint", trust]` of each trust that has one. -/
structure Env where
  trusts : Accounts Pubkey Trust := ∅
  mints : Accounts Pubkey Nat := ∅

/-! ## Accounts -/

/-- Address of a config: `[b"gov_config", trust, governance_config_id]`. -/
structure ConfigPda where
  trust : Pubkey
  governanceConfigId : Bytes32
  deriving DecidableEq

/-- Address of a proposal: `[b"proposal", trust, proposal_id]`. -/
structure ProposalPda where
  trust : Pubkey
  proposalId : Bytes32
  deriving DecidableEq

/-- Address of a vote record: `[b"vote", trust, proposal_id, voter]`. -/
structure VotePda where
  trust : Pubkey
  proposalId : Bytes32
  voter : Pubkey
  deriving DecidableEq

structure GovernanceModuleState where
  trust : Pubkey
  proposalCount : Nat
  configCount : Nat

structure GovernanceConfigInput where
  proposalThreshold : Nat
  quorumBps : Nat
  supportBps : Nat
  votingPeriod : Int
  executionDelay : Int
  allowEarlyEnact : Bool

structure GovernanceConfig extends GovernanceConfigInput where
  trust : Pubkey
  governanceConfigId : Bytes32

structure VoteRecord where
  trust : Pubkey
  proposalId : Bytes32
  voter : Pubkey
  choice : Nat
  weight : Nat

structure Proposal (D : Type) where
  trust : Pubkey
  proposalId : Bytes32
  governanceConfigId : Bytes32
  proposer : Pubkey
  ipfsCid : Bytes64
  voteStart : Int
  voteDuration : Int
  executionDelay : Int
  snapshotSlot : Nat
  snapshotRoot : D
  snapshotTotalSupply : Nat
  forVotes : Nat
  againstVotes : Nat
  abstainVotes : Nat
  executed : Bool
  canceled : Bool
  succeededAt : Int

inductive GovernanceError
  | invalidBpsValue
  | zeroVotingPeriod
  | configMismatch
  | invalidVoteChoice
  | zeroWeight
  | genericVotingDisabled
  | proposalAlreadyExecuted
  | proposalCanceled
  | votingNotStarted
  | votingClosed
  | votingNotClosed
  | quorumNotMet
  | noDecisiveVotes
  | supportNotMet
  | executionDelayNotMet
  | checkpointVoterMismatch
  | invalidCheckpoint
  | checkpointAfterSnapshot
  | missingVoteSupplyAccount
  | voteSupplyAccountMismatch
  | invalidVoteSupplyAccount
  | zeroVoteSupply
  | mathOverflow
  | unauthorized
  | trustNotInCreationMode
  | commitRootMismatch
  | snapshotNotCommitted
  | invalidMerkleProof
  | snapshotSlotNotYetReached

abbrev GovError := TxError GovernanceError

/-- All accounts owned by the governance program. -/
structure GovState (D : Type) where
  modules : Accounts Pubkey GovernanceModuleState := ∅
  configs : Accounts ConfigPda GovernanceConfig := ∅
  proposals : Accounts ProposalPda (Proposal D) := ∅
  votes : Accounts VotePda VoteRecord := ∅

def GovState.init {D : Type} : GovState D := {}

end Aeqi.Governance
