import Aeqi.Roles.State

/-!
# aeqi_role: instructions

The handlers of `programs/aeqi-role/src/lib.rs`, each as a function of the
program's accounts, the clock, the accounts the caller passes and the
instruction arguments. Events and the ids of seed-constrained accounts are left
out (see `Aeqi.Solana.Anchor`).

The remaining accounts of an authority walk are given by address; an address
that holds no role fails the walk where the program's `Account::try_from` does.
-/

namespace Aeqi.Roles

open Aeqi.Lib Aeqi.Solana

def MAX_AUTHORITY_WALK : Nat := 8

/-! ## Account contexts: the slots a caller is free to choose -/

structure CreateRoleType where
  trust : Pubkey
  payer : Pubkey

structure CreateRole where
  trust : Pubkey
  callerRole : Option RolePda
  payer : Pubkey
  remaining : List RolePda

structure AssignRole where
  role : RolePda
  roleType : RoleTypePda
  trust : Pubkey
  callerRole : Option RolePda
  payer : Pubkey
  remaining : List RolePda

structure ResignRole where
  role : RolePda
  roleType : RoleTypePda
  trust : Pubkey
  payer : Pubkey

structure TransferRole where
  role : RolePda
  roleType : RoleTypePda
  trust : Pubkey
  newAccount : Pubkey
  payer : Pubkey

structure DelegateRole where
  role : RolePda
  roleType : RoleTypePda
  prevCheckpoint : Option CheckpointPda
  newDelegatee : Pubkey
  payer : Pubkey

/-! ## Helpers -/

/-- The loop of `check_authority_walk` from account number `i` on: `expectedId`
is the role the next account has to be. -/
def walkFrom (roles : Accounts RolePda Role) (callerRole : Role) :
    Nat → Bytes32 → List RolePda → Except RoleError Unit
  | _, _, [] => .error (.custom .authorityNotFound)
  | i, expectedId, acc :: rest => do
    let role ← okOr (roles.lookup acc) (.custom .invalidAuthorityWalk)
    require (role.trust = callerRole.trust) (.custom .invalidAuthorityWalk)
    require (role.roleId = expectedId) (.custom .invalidAuthorityWalk)
    if role.roleId = callerRole.roleId then
      pure ()
    else if role.parentRoleId = 0 then
      -- `break`: fall through to the error after the loop
      .error (.custom .authorityNotFound)
    else if i + 1 = MAX_AUTHORITY_WALK then
      .error (.custom .authorityWalkTooDeep)
    else
      walkFrom roles callerRole (i + 1) role.parentRoleId rest

def checkAuthorityWalk (roles : Accounts RolePda Role) (callerRole : Role)
    (targetRoleId : Bytes32) (remaining : List RolePda) : Except RoleError Unit :=
  if callerRole.roleId = targetRoleId then
    pure ()
  else
    walkFrom roles callerRole 0 targetRoleId (remaining.take MAX_AUTHORITY_WALK)

def gateRoleCreation (roles : Accounts RolePda Role) (trust : Pubkey) (roleType : RoleType)
    (callerRole : Option Role) (payer : Pubkey) (parentRoleId : Option Bytes32)
    (remaining : List RolePda) : Except RoleError Unit :=
  match callerRole with
  | some callerRole => do
    require (callerRole.trust = trust) (.custom .unauthorized)
    require (callerRole.status = .occupied) (.custom .unauthorized)
    require (callerRole.account = payer) (.custom .unauthorized)
    match parentRoleId with
    | some parent => checkAuthorityWalk roles callerRole parent remaining
    | none => pure ()
  | none => do
    require (parentRoleId = none) (.custom .unauthorized)
    require (roleType.roleCount = 0) (.custom .unauthorized)

def gateRoleAssignment (roles : Accounts RolePda Role) (role : Role) (roleType : RoleType)
    (callerRole : Option Role) (payer assignee : Pubkey) (remaining : List RolePda) :
    Except RoleError Unit := do
  require (roleType.trust = role.trust) (.custom .unauthorized)
  require (role.roleTypeId = roleType.roleTypeId) (.custom .unauthorized)
  match callerRole with
  | some callerRole => do
    require (callerRole.trust = role.trust) (.custom .unauthorized)
    require (callerRole.status = .occupied) (.custom .unauthorized)
    require (callerRole.account = payer) (.custom .unauthorized)
    if role.parentRoleId ≠ 0 then
      checkAuthorityWalk roles callerRole role.parentRoleId remaining
    else
      pure ()
  | none => do
    require (role.parentRoleId = 0) (.custom .unauthorized)
    require (roleType.roleCount = 1) (.custom .unauthorized)
    require (assignee = payer) (.custom .unauthorized)

def bumpCheckpoint (clock : Clock) (ckpt : RoleVoteCheckpoint) (account : Pubkey)
    (roleTypeId : Bytes32) (delta : Int) : Except RoleError RoleVoteCheckpoint := do
  let count ←
    if 0 ≤ delta then
      okOr (checkedAdd 64 ckpt.count delta.toNat) (.custom .mathOverflow)
    else
      okOr (checkedSub ckpt.count (-delta).toNat) (.custom .mathOverflow)
  pure { account, roleTypeId, slot := clock.slot, count }

def requireRoleTypeMatches (role : Role) (roleType : RoleType) : Except RoleError Unit := do
  require (roleType.trust = role.trust) (.custom .roleTypeMismatch)
  require (roleType.roleTypeId = role.roleTypeId) (.custom .roleTypeMismatch)

def bumpRoleCount (roleType : RoleType) : Except RoleError RoleType := do
  let roleCount ← okOr (checkedAdd 32 roleType.roleCount 1) (.custom .mathOverflow)
  pure { roleType with roleCount }

/-! ## Handlers -/

def createRoleType (s : RoleState) (a : CreateRoleType) (roleTypeId : Bytes32)
    (hierarchy : Nat) (config : RoleTypeConfig) : Except RoleError RoleState := do
  requireFree s.roleTypes ⟨a.trust, roleTypeId⟩
  let rt : RoleType := { trust := a.trust, roleTypeId, hierarchy, config, roleCount := 0 }
  pure { s with roleTypes := s.roleTypes.insert ⟨a.trust, roleTypeId⟩ rt }

def createRole (s : RoleState) (clock : Clock) (a : CreateRole) (roleId roleTypeId : Bytes32)
    (parentRoleId : Option Bytes32) (ipfsCid : Bytes64) : Except RoleError RoleState := do
  let roleType ← load s.roleTypes ⟨a.trust, roleTypeId⟩
  requireFree s.roles ⟨a.trust, roleId⟩
  let callerRole ← loadOption s.roles a.callerRole
  gateRoleCreation s.roles a.trust roleType callerRole a.payer parentRoleId a.remaining
  let role : Role := {
    trust := a.trust
    roleId
    roleTypeId
    account := 0
    parentRoleId := parentRoleId.getD 0
    status := .vacant
    statusSince := clock.unixTimestamp
    ipfsCid }
  let roleType ← bumpRoleCount roleType
  pure { s with
    roleTypes := s.roleTypes.insert ⟨a.trust, roleTypeId⟩ roleType
    roles := s.roles.insert ⟨a.trust, roleId⟩ role }

def assignRole (s : RoleState) (clock : Clock) (a : AssignRole) (account : Pubkey) :
    Except RoleError RoleState := do
  let role ← load s.roles a.role
  require (role.trust = a.trust) (.anchor .constraintHasOne)
  let roleType ← load s.roleTypes a.roleType
  let callerRole ← loadOption s.roles a.callerRole
  let ckptPda : CheckpointPda := ⟨a.trust, roleType.roleTypeId, account⟩
  let checkpoint := initIfNeeded s.checkpoints ckptPda .zeroed
  gateRoleAssignment s.roles role roleType callerRole a.payer account a.remaining
  requireRoleTypeMatches role roleType
  require (role.status = .vacant) (.custom .roleNotVacant)
  let checkpoint ← bumpCheckpoint clock checkpoint account roleType.roleTypeId 1
  pure { s with
    roles := s.roles.insert a.role
      { role with account, status := .occupied, statusSince := clock.unixTimestamp }
    checkpoints := s.checkpoints.insert ckptPda checkpoint }

def resignRole (s : RoleState) (clock : Clock) (a : ResignRole) : Except RoleError RoleState := do
  let role ← load s.roles a.role
  require (role.trust = a.trust) (.anchor .constraintHasOne)
  let roleType ← load s.roleTypes a.roleType
  let ckptPda : CheckpointPda := ⟨a.trust, roleType.roleTypeId, role.account⟩
  let checkpoint ← load s.checkpoints ckptPda
  requireRoleTypeMatches role roleType
  require (role.status = .occupied) (.custom .roleNotOccupied)
  require (a.payer = role.account) (.custom .unauthorized)
  let checkpoint ← bumpCheckpoint clock checkpoint role.account roleType.roleTypeId (-1)
  pure { s with
    roles := s.roles.insert a.role
      { role with account := 0, status := .resigned, statusSince := clock.unixTimestamp }
    checkpoints := s.checkpoints.insert ckptPda checkpoint }

/-- The two checkpoints are independent copies, both read before either is
written: passing one account in both slots keeps the later copy. -/
def transferRole (s : RoleState) (clock : Clock) (a : TransferRole) (newAccount : Pubkey) :
    Except RoleError RoleState := do
  let role ← load s.roles a.role
  require (role.trust = a.trust) (.anchor .constraintHasOne)
  let roleType ← load s.roleTypes a.roleType
  let prevPda : CheckpointPda := ⟨a.trust, roleType.roleTypeId, role.account⟩
  let prevCheckpoint ← load s.checkpoints prevPda
  let newPda : CheckpointPda := ⟨a.trust, roleType.roleTypeId, a.newAccount⟩
  let newCheckpoint := initIfNeeded s.checkpoints newPda .zeroed
  requireRoleTypeMatches role roleType
  require (a.newAccount = newAccount) (.custom .invalidDelegatee)
  require (role.status = .occupied) (.custom .roleNotOccupied)
  require (a.payer = role.account) (.custom .unauthorized)
  let prevCheckpoint ←
    bumpCheckpoint clock prevCheckpoint role.account roleType.roleTypeId (-1)
  let newCheckpoint ← bumpCheckpoint clock newCheckpoint newAccount roleType.roleTypeId 1
  pure { s with
    roles := s.roles.insert a.role
      { role with account := newAccount, statusSince := clock.unixTimestamp }
    checkpoints := (s.checkpoints.insert prevPda prevCheckpoint).insert newPda newCheckpoint }

/-- `prev_checkpoint` carries no seeds: any checkpoint the program owns is
accepted there. -/
def delegateRole (s : RoleState) (clock : Clock) (a : DelegateRole) (delegatee : Pubkey) :
    Except RoleError RoleState := do
  let role ← load s.roles a.role
  let roleType ← load s.roleTypes a.roleType
  let delegPda : RolePda := ⟨role.trust, role.roleId⟩
  let deleg := initIfNeeded s.delegations delegPda .zeroed
  let prevCheckpoint ← loadOption s.checkpoints a.prevCheckpoint
  let newPda : CheckpointPda := ⟨role.trust, roleType.roleTypeId, a.newDelegatee⟩
  let newCheckpoint := initIfNeeded s.checkpoints newPda .zeroed
  requireRoleTypeMatches role roleType
  require (delegatee ≠ 0) (.custom .invalidDelegatee)
  require (a.newDelegatee = delegatee) (.custom .invalidDelegatee)
  require (role.status = .occupied) (.custom .roleNotOccupied)
  require (a.payer = role.account) (.custom .unauthorized)
  let prev := if deleg.delegatee = 0 then role.account else deleg.delegatee
  let deleg : RoleDelegation := { trust := role.trust, roleId := role.roleId, delegatee }
  if prev = delegatee then
    pure { s with
      delegations := s.delegations.insert delegPda deleg
      checkpoints := s.checkpoints.insert newPda newCheckpoint }
  else do
    let prevPda ← okOr a.prevCheckpoint (.custom .prevCheckpointRequired)
    let prevCkpt ← okOr prevCheckpoint (.custom .prevCheckpointRequired)
    let prevCkpt ← bumpCheckpoint clock prevCkpt prev roleType.roleTypeId (-1)
    let newCheckpoint ← bumpCheckpoint clock newCheckpoint delegatee roleType.roleTypeId 1
    pure { s with
      delegations := s.delegations.insert delegPda deleg
      checkpoints := (s.checkpoints.insert prevPda prevCkpt).insert newPda newCheckpoint }

/-! ## The program as one transition function -/

inductive RoleIx
  | createRoleType (a : CreateRoleType) (roleTypeId : Bytes32) (hierarchy : Nat)
      (config : RoleTypeConfig)
  | createRole (a : CreateRole) (roleId roleTypeId : Bytes32) (parentRoleId : Option Bytes32)
      (ipfsCid : Bytes64)
  | assignRole (a : AssignRole) (account : Pubkey)
  | resignRole (a : ResignRole)
  | transferRole (a : TransferRole) (newAccount : Pubkey)
  | delegateRole (a : DelegateRole) (delegatee : Pubkey)

/-- One transaction: an instruction executed at a clock value. -/
structure RoleTx where
  clock : Clock
  ix : RoleIx

def RoleTx.signer (tx : RoleTx) : Pubkey :=
  match tx.ix with
  | .createRoleType a _ _ _ => a.payer
  | .createRole a _ _ _ _ => a.payer
  | .assignRole a _ => a.payer
  | .resignRole a => a.payer
  | .transferRole a _ => a.payer
  | .delegateRole a _ => a.payer

def RoleState.exec (s : RoleState) (tx : RoleTx) : Except RoleError RoleState :=
  match tx.ix with
  | .createRoleType a roleTypeId hierarchy config =>
    createRoleType s a roleTypeId hierarchy config
  | .createRole a roleId roleTypeId parentRoleId ipfsCid =>
    createRole s tx.clock a roleId roleTypeId parentRoleId ipfsCid
  | .assignRole a account => assignRole s tx.clock a account
  | .resignRole a => resignRole s tx.clock a
  | .transferRole a newAccount => transferRole s tx.clock a newAccount
  | .delegateRole a delegatee => delegateRole s tx.clock a delegatee

/-! ## A first trust -/

def noConfig : RoleTypeConfig := ⟨false, 0, 0, false, 0, 0, 0, 0, false⟩

def bootstrap : List RoleTx :=
  [⟨⟨10, 100⟩, .createRoleType ⟨1, 9⟩ 7 0 noConfig⟩,
   ⟨⟨10, 100⟩, .createRole ⟨1, none, 9, []⟩ 5 7 none 0⟩,
   ⟨⟨10, 100⟩, .assignRole ⟨⟨1, 5⟩, ⟨1, 7⟩, 1, none, 9, []⟩ 9⟩]

end Aeqi.Roles
