import Aeqi.Solana.Anchor

/-!
# aeqi_role: accounts

The accounts of the role program (`state.rs`), the addresses they live at, and
the errors of its handlers (`errors.rs`). The PDA bumps are left out: they only
reproduce the address.
-/

namespace Aeqi.Roles

open Aeqi.Lib Aeqi.Solana

/-- Address of a role type: `[b"role_type", trust, role_type_id]`. -/
structure RoleTypePda where
  trust : Pubkey
  roleTypeId : Bytes32
  deriving DecidableEq

/-- Address of a role, `[b"role", trust, role_id]`; also the seeds of the role's
delegation, `[b"role_deleg", trust, role_id]`. -/
structure RolePda where
  trust : Pubkey
  roleId : Bytes32
  deriving DecidableEq

/-- Address of a vote checkpoint: `[b"role_ckpt", trust, role_type_id, account]`. -/
structure CheckpointPda where
  trust : Pubkey
  roleTypeId : Bytes32
  account : Pubkey
  deriving DecidableEq

structure RoleTypeConfig where
  vesting : Bool
  vestingCliff : Int
  vestingDuration : Int
  fdv : Bool
  fdvStart : Nat
  fdvEnd : Nat
  probationaryPeriod : Int
  severancePeriod : Int
  contribution : Bool

structure RoleType where
  trust : Pubkey
  roleTypeId : Bytes32
  hierarchy : Nat
  config : RoleTypeConfig
  roleCount : Nat

inductive RoleStatus
  | vacant
  | occupied
  | resigned
  | removed
  deriving DecidableEq

structure Role where
  trust : Pubkey
  roleId : Bytes32
  roleTypeId : Bytes32
  account : Pubkey
  parentRoleId : Bytes32
  status : RoleStatus
  statusSince : Int
  ipfsCid : Bytes64

structure RoleDelegation where
  trust : Pubkey
  roleId : Bytes32
  delegatee : Pubkey

/-- One per (account, role type) pair, updated on every assignment or delegation
change; `slot` records when it was written. -/
structure RoleVoteCheckpoint where
  account : Pubkey
  roleTypeId : Bytes32
  slot : Nat
  count : Nat
  deriving DecidableEq

def RoleDelegation.zeroed : RoleDelegation := ⟨0, 0, 0⟩

def RoleVoteCheckpoint.zeroed : RoleVoteCheckpoint := ⟨0, 0, 0, 0⟩

inductive AeqiRoleError
  | unauthorized
  | roleNotVacant
  | roleNotOccupied
  | authorityNotFound
  | invalidAuthorityWalk
  | authorityWalkTooDeep
  | checkpointAfterQuery
  | prevCheckpointRequired
  | invalidDelegatee
  | roleTypeMismatch
  | mathOverflow
  | trustNotInCreationMode

abbrev RoleError := TxError AeqiRoleError

/-- All accounts owned by the role program. -/
@[ext] structure RoleState where
  roleTypes : Accounts RoleTypePda RoleType := ∅
  roles : Accounts RolePda Role := ∅
  delegations : Accounts RolePda RoleDelegation := ∅
  checkpoints : Accounts CheckpointPda RoleVoteCheckpoint := ∅

/-- Before the first instruction no account exists. -/
def RoleState.init : RoleState := {}

end Aeqi.Roles
