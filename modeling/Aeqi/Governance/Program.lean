import Aeqi.Governance.State

/-!
# aeqi_governance: instructions

The handlers of `programs/aeqi-governance/src/lib.rs`. The role accounts of
aeqi_role and the accounts in `Env` are only read. `init`, `register_config` and
`propose` fix the addresses they write by seeds; `proposal` slots carry seeds
taken from the account's own data, so the caller chooses among the proposals.
-/

namespace Aeqi.Governance

open Aeqi.Lib Aeqi.Solana
open Aeqi.Roles (RoleState RoleTypePda)

def TOKEN_VOTING_CONFIG_ID : Bytes32 := 0

def BPS_DENOMINATOR : Nat := 10000

/-- The address passed as vote supply: a cap-table mint, a role type, or
anything else. -/
inductive SupplyAccount
  | mint (trust : Pubkey)
  | roleType (pda : RoleTypePda)
  | other (key : Pubkey)
  deriving DecidableEq

/-- `remaining_accounts` by position; an account beyond the ones read is ignored. -/
structure ExecuteProposal where
  proposal : ProposalPda
  config : Option ConfigPda
  voteSupply : Option SupplyAccount

structure Propose where
  trust : Pubkey
  proposer : Pubkey
  config : Option ConfigPda

/-- The two slots a caller fills to vote. -/
structure CastVote where
  proposal : ProposalPda
  voter : Pubkey
  deriving DecidableEq

structure CommitSnapshotRoot where
  proposal : ProposalPda
  committer : Pubkey

/-! ## Merkle proofs -/

section Merkle

variable {D : Type} [LinearOrder D] (sha256 : Sha256 D)

def tokenVoteLeaf (voter : Pubkey) (balance : Nat) : D := sha256 (.leaf (voter, balance))

/-- The loop of `verify_merkle_proof`. -/
def foldProof : D → List D → D
  | current, [] => current
  | current, sibling :: rest =>
    foldProof
      (if current ≤ sibling then sha256 (.node current sibling)
        else sha256 (.node sibling current))
      rest

def verifyMerkleProof (leaf : D) (proof : List D) (root : D) : Bool :=
  foldProof sha256 leaf proof == root

end Merkle

/-! ## Helpers -/

section Helpers

variable {D : Type}

def proposalVoteEnd (p : Proposal D) : Except GovError Int :=
  okOr (checkedAddI64 p.voteStart p.voteDuration) (.custom .mathOverflow)

def checkedBpsCeil (value bps : Nat) : Except GovError Nat := do
  let numerator ← okOr (checkedMul 128 value bps) (.custom .mathOverflow)
  let sum ← okOr (checkedAdd 128 numerator (BPS_DENOMINATOR - 1)) (.custom .mathOverflow)
  okOr (checkedDiv sum BPS_DENOMINATOR) (.custom .mathOverflow)

def loadTokenVoteSupply (env : Env) (p : Proposal D) (acct : SupplyAccount) :
    Except GovError Nat := do
  require (acct = .mint p.trust) (.custom .voteSupplyAccountMismatch)
  let supply ← okOr (env.mints.lookup p.trust) (.custom .invalidVoteSupplyAccount)
  require (0 < supply) (.custom .zeroVoteSupply)
  pure supply

def loadRoleVoteSupply (roles : RoleState) (p : Proposal D) (acct : SupplyAccount) :
    Except GovError Nat := do
  require (acct = .roleType ⟨p.trust, p.governanceConfigId⟩) (.custom .voteSupplyAccountMismatch)
  let roleType ← okOr (roles.roleTypes.lookup ⟨p.trust, p.governanceConfigId⟩)
    (.custom .invalidVoteSupplyAccount)
  require (roleType.trust = p.trust) (.custom .voteSupplyAccountMismatch)
  require (roleType.roleTypeId = p.governanceConfigId) (.custom .voteSupplyAccountMismatch)
  require (0 < roleType.roleCount) (.custom .zeroVoteSupply)
  pure roleType.roleCount

def loadTotalVoteSupply (env : Env) (roles : RoleState) (p : Proposal D) (acct : SupplyAccount) :
    Except GovError Nat :=
  if p.governanceConfigId = TOKEN_VOTING_CONFIG_ID then
    loadTokenVoteSupply env p acct
  else
    loadRoleVoteSupply roles p acct

def requireVoteOpen (p : Proposal D) (now : Int) : Except GovError Unit := do
  require (p.executed = false) (.custom .proposalAlreadyExecuted)
  require (p.canceled = false) (.custom .proposalCanceled)
  require (p.voteStart ≤ now) (.custom .votingNotStarted)
  let voteEnd ← proposalVoteEnd p
  require (now < voteEnd) (.custom .votingClosed)

def recordVote (p : Proposal D) (voter : Pubkey) (choice weight : Nat) : VoteRecord :=
  { trust := p.trust, proposalId := p.proposalId, voter, choice, weight }

def applyVoteTally (p : Proposal D) (choice weight : Nat) : Except GovError (Proposal D) := do
  require (choice ≤ 2) (.custom .invalidVoteChoice)
  match choice with
  | 0 => do
    let againstVotes ← okOr (checkedAdd 128 p.againstVotes weight) (.custom .mathOverflow)
    pure { p with againstVotes }
  | 1 => do
    let forVotes ← okOr (checkedAdd 128 p.forVotes weight) (.custom .mathOverflow)
    pure { p with forVotes }
  | _ => do
    let abstainVotes ← okOr (checkedAdd 128 p.abstainVotes weight) (.custom .mathOverflow)
    pure { p with abstainVotes }

def bumpConfigCount (m : GovernanceModuleState) : Except GovError GovernanceModuleState := do
  let configCount ← okOr (checkedAdd 32 m.configCount 1) (.custom .mathOverflow)
  pure { m with configCount }

def loadGovernanceConfig (s : GovState D) (acct : ConfigPda) (trust : Pubkey)
    (governanceConfigId : Bytes32) : Except GovError GovernanceConfig := do
  require (acct = ⟨trust, governanceConfigId⟩) (.custom .configMismatch)
  let cfg ← okOr (s.configs.lookup acct) (.custom .configMismatch)
  require (cfg.trust = trust) (.custom .configMismatch)
  require (cfg.governanceConfigId = governanceConfigId) (.custom .configMismatch)
  pure cfg

/-- `seeds = [b"proposal", proposal.trust, proposal.proposal_id]` on an existing
proposal. -/
def loadProposal (s : GovState D) (k : ProposalPda) : Except GovError (Proposal D) := do
  let p ← load s.proposals k
  require (k = ⟨p.trust, p.proposalId⟩) (.anchor .constraintSeeds)
  pure p

end Helpers

/-! ## Handlers -/

section Handlers

variable {D : Type} [LinearOrder D] [Zero D] (sha256 : Sha256 D)

def init (s : GovState D) (env : Env) (trust payer : Pubkey) : Except GovError (GovState D) := do
  let t ← load env.trusts trust
  requireFree s.modules trust
  require (t.creationMode = true) (.custom .trustNotInCreationMode)
  require (payer = t.authority) (.custom .unauthorized)
  pure { s with modules := s.modules.insert trust ⟨trust, 0, 0⟩ }

def registerConfig (s : GovState D) (env : Env) (trust payer : Pubkey)
    (governanceConfigId : Bytes32) (config : GovernanceConfigInput) :
    Except GovError (GovState D) := do
  let t ← load env.trusts trust
  let m ← load s.modules trust
  requireFree s.configs ⟨trust, governanceConfigId⟩
  require (payer = t.authority) (.custom .unauthorized)
  require (config.quorumBps ≤ 10000) (.custom .invalidBpsValue)
  require (config.supportBps ≤ 10000) (.custom .invalidBpsValue)
  require (0 < config.quorumBps) (.custom .invalidBpsValue)
  require (0 < config.supportBps) (.custom .invalidBpsValue)
  require (0 < config.votingPeriod) (.custom .zeroVotingPeriod)
  let g : GovernanceConfig := { config with trust, governanceConfigId }
  let m ← bumpConfigCount m
  pure { s with
    modules := s.modules.insert trust m
    configs := s.configs.insert ⟨trust, governanceConfigId⟩ g }

def propose (s : GovState D) (clock : Clock) (a : Propose) (proposalId governanceConfigId : Bytes32)
    (ipfsCid : Bytes64) : Except GovError (GovState D) := do
  let m ← load s.modules a.trust
  requireFree s.proposals ⟨a.trust, proposalId⟩
  let cfgAcct ← okOr a.config (.custom .configMismatch)
  let cfg ← loadGovernanceConfig s cfgAcct a.trust governanceConfigId
  let p : Proposal D := {
    trust := a.trust
    proposalId
    governanceConfigId
    proposer := a.proposer
    ipfsCid
    voteStart := clock.unixTimestamp
    snapshotSlot := clock.slot
    snapshotRoot := 0
    snapshotTotalSupply := 0
    voteDuration := cfg.votingPeriod
    executionDelay := cfg.executionDelay
    forVotes := 0
    againstVotes := 0
    abstainVotes := 0
    executed := false
    canceled := false
    succeededAt := 0 }
  let proposalCount ← okOr (checkedAdd 64 m.proposalCount 1) (.custom .mathOverflow)
  pure { s with
    modules := s.modules.insert a.trust { m with proposalCount }
    proposals := s.proposals.insert ⟨a.trust, proposalId⟩ p }

def castVoteRole (s : GovState D) (roles : RoleState) (clock : Clock) (a : CastVote)
    (choice : Nat) : Except GovError (GovState D) := do
  let p ← loadProposal s a.proposal
  let votePda : VotePda := ⟨p.trust, p.proposalId, a.voter⟩
  requireFree s.votes votePda
  -- the checkpoint is unchecked by the framework: the handler tests its owner and layout
  let ckpt ← okOr (roles.checkpoints.lookup ⟨p.trust, p.governanceConfigId, a.voter⟩)
    (.custom .invalidCheckpoint)
  require (ckpt.account = a.voter) (.custom .checkpointVoterMismatch)
  require (ckpt.roleTypeId = p.governanceConfigId) (.custom .configMismatch)
  require (ckpt.slot ≤ p.snapshotSlot) (.custom .checkpointAfterSnapshot)
  let weight := ckpt.count
  require (0 < weight) (.custom .zeroWeight)
  requireVoteOpen p clock.unixTimestamp
  let p ← applyVoteTally p choice weight
  pure { s with
    proposals := s.proposals.insert a.proposal p
    votes := s.votes.insert votePda (recordVote p a.voter choice weight) }

def castVoteToken (s : GovState D) (clock : Clock) (a : CastVote) (choice claimedBalance : Nat)
    (merkleProof : List D) : Except GovError (GovState D) := do
  let p ← loadProposal s a.proposal
  let votePda : VotePda := ⟨p.trust, p.proposalId, a.voter⟩
  requireFree s.votes votePda
  require (p.snapshotRoot ≠ 0) (.custom .snapshotNotCommitted)
  require (0 < claimedBalance) (.custom .zeroWeight)
  let leaf := tokenVoteLeaf sha256 a.voter claimedBalance
  require (verifyMerkleProof sha256 leaf merkleProof p.snapshotRoot = true)
    (.custom .invalidMerkleProof)
  let weight := claimedBalance
  requireVoteOpen p clock.unixTimestamp
  let p ← applyVoteTally p choice weight
  pure { s with
    proposals := s.proposals.insert a.proposal p
    votes := s.votes.insert votePda (recordVote p a.voter choice weight) }

def commitSnapshotRoot (s : GovState D) (clock : Clock) (a : CommitSnapshotRoot) (root : D)
    (totalSupplySnapshot : Nat) : Except GovError (GovState D) := do
  let p ← loadProposal s a.proposal
  require (root ≠ 0) (.custom .invalidMerkleProof)
  require (p.snapshotRoot = 0) (.custom .commitRootMismatch)
  require (p.snapshotSlot < clock.slot) (.custom .snapshotSlotNotYetReached)
  pure { s with
    proposals := s.proposals.insert a.proposal
      { p with snapshotRoot := root, snapshotTotalSupply := totalSupplySnapshot } }

def executeProposal (s : GovState D) (env : Env) (roles : RoleState) (clock : Clock)
    (a : ExecuteProposal) : Except GovError (GovState D) := do
  let p ← loadProposal s a.proposal
  require (p.executed = false) (.custom .proposalAlreadyExecuted)
  require (p.canceled = false) (.custom .proposalCanceled)
  let cfgAcct ← okOr a.config (.custom .configMismatch)
  let cfg ← loadGovernanceConfig s cfgAcct p.trust p.governanceConfigId
  let voteSupplyAcct ← okOr a.voteSupply (.custom .missingVoteSupplyAccount)
  let totalVoteSupply ← loadTotalVoteSupply env roles p voteSupplyAcct
  let now := clock.unixTimestamp
  let voteEnd ← proposalVoteEnd p
  require (voteEnd ≤ now ∨ cfg.allowEarlyEnact = true) (.custom .votingNotClosed)
  let participating ← okOr (checkedAdd 128 p.forVotes p.abstainVotes) (.custom .mathOverflow)
  let quorumRequired ← checkedBpsCeil totalVoteSupply cfg.quorumBps
  require (quorumRequired ≤ participating) (.custom .quorumNotMet)
  let decisive ← okOr (checkedAdd 128 p.forVotes p.againstVotes) (.custom .mathOverflow)
  require (0 < decisive) (.custom .noDecisiveVotes)
  let supportRequired ← checkedBpsCeil decisive cfg.supportBps
  require (supportRequired ≤ p.forVotes) (.custom .supportNotMet)
  if 0 < cfg.executionDelay then do
    let executionReadyAt ← okOr (checkedAddI64 voteEnd cfg.executionDelay) (.custom .mathOverflow)
    require (executionReadyAt ≤ now) (.custom .executionDelayNotMet)
  pure { s with
    proposals := s.proposals.insert a.proposal
      { p with
        succeededAt := if p.succeededAt = 0 then now else p.succeededAt
        executed := true } }

/-- The deprecated entry point: its accounts are opened, the handler refuses. -/
def castVote (s : GovState D) (a : CastVote) (_choice _weight : Nat) :
    Except GovError (GovState D) := do
  let p ← loadProposal s a.proposal
  requireFree s.votes ⟨p.trust, p.proposalId, a.voter⟩
  .error (.custom .genericVotingDisabled)

end Handlers

/-! ## The program as one transition function -/

inductive GovIx (D : Type)
  | init (trust payer : Pubkey)
  | registerConfig (trust payer : Pubkey) (governanceConfigId : Bytes32)
      (config : GovernanceConfigInput)
  | propose (a : Propose) (proposalId governanceConfigId : Bytes32) (ipfsCid : Bytes64)
  | castVoteRole (a : CastVote) (choice : Nat)
  | castVoteToken (a : CastVote) (choice claimedBalance : Nat) (merkleProof : List D)
  | commitSnapshotRoot (a : CommitSnapshotRoot) (root : D) (totalSupplySnapshot : Nat)
  | executeProposal (a : ExecuteProposal)
  | castVote (a : CastVote) (choice weight : Nat)

def GovState.exec {D : Type} [LinearOrder D] [Zero D] (sha256 : Sha256 D) (s : GovState D)
    (env : Env) (roles : RoleState) (clock : Clock) (ix : GovIx D) : Except GovError (GovState D) :=
  match ix with
  | .init trust payer => Governance.init s env trust payer
  | .registerConfig trust payer id config => registerConfig s env trust payer id config
  | .propose a proposalId configId ipfsCid => propose s clock a proposalId configId ipfsCid
  | .castVoteRole a choice => castVoteRole s roles clock a choice
  | .castVoteToken a choice balance proof => castVoteToken sha256 s clock a choice balance proof
  | .commitSnapshotRoot a root total => commitSnapshotRoot s clock a root total
  | .executeProposal a => executeProposal s env roles clock a
  | .castVote a choice weight => castVote s a choice weight

end Aeqi.Governance
