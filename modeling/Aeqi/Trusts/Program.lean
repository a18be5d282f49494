import Aeqi.Governance.State

/-!
# aeqi_trust

The trust account, its module registry and its config slots. A bytes config is kept as the
raw data of its account, since other programs read it without going through this one: a
write covers the front of the data and leaves the bytes behind it. The ACL edges and the
catalogue of implementations are left out; nothing modelled reads them.
-/

namespace Aeqi.Trusts

open Aeqi.Lib Aeqi.Solana
open Governance (Trust)

/-- The seeds of a module, `[b"module", trust, module_id]`. -/
structure ModulePda where
  trust : Pubkey
  moduleId : Bytes32
  deriving DecidableEq

/-- The seeds of a config slot, `[b"cfg_num", trust, key]`, `[b"cfg_addr", trust, key]` or
`[b"cfg_bytes", trust, key]`. -/
structure ConfigPda where
  trust : Pubkey
  key : Bytes32
  deriving DecidableEq

inductive ModuleInitState
  | pending
  | initialized
  | finalized
  deriving DecidableEq

structure Module where
  trust : Pubkey
  moduleId : Bytes32
  programId : Pubkey
  provider : Pubkey
  implementationVersion : Nat
  implementationMetadataHash : Bytes32
  trustAcl : Nat
  initialized : ModuleInitState

structure NumericConfig where
  trust : Pubkey
  key : Bytes32
  value : Nat

structure AddressConfig where
  trust : Pubkey
  key : Bytes32
  value : Pubkey

structure BytesConfig where
  trust : Pubkey
  key : Bytes32
  value : Bytes
  bump : BitVec 8

inductive AeqiTrustError
  | trustPaused
  | invalidImplementationVersion
  | notInCreationMode
  | unauthorized
  | mathOverflow
  | alreadyFinalized
  | noModulesRegistered
  | configTooLarge

abbrev TrustError := TxError AeqiTrustError

/-- All accounts owned by the trust program. -/
structure TrustState where
  trusts : Accounts Pubkey Trust := ∅
  modules : Accounts ModulePda Module := ∅
  numericConfigs : Accounts ConfigPda NumericConfig := ∅
  addressConfigs : Accounts ConfigPda AddressConfig := ∅
  bytesConfigs : Accounts ConfigPda Bytes := ∅

def maxBytesConfig : Nat := 1024

/-- `BytesConfig::INIT_SPACE_BASE`. -/
def initSpaceBase : Nat := 32 + 32 + 4 + 1

/-- The account discriminator of `BytesConfig`; every reader skips it. -/
def bytesConfigDiscriminator : Bytes := List.replicate 8 255#8

/-- The data of a new account. -/
def zeroedBytesConfig : Bytes := List.replicate (8 + initSpaceBase + maxBytesConfig) 0

def BytesConfig.serialize (cfg : BytesConfig) : Bytes :=
  bytesConfigDiscriminator ++ keyBytes cfg.trust ++ keyBytes cfg.key ++
    leBytes 4 cfg.value.length ++ cfg.value ++ [cfg.bump]

/-! ## Handlers -/

/-- `initialize`. The address of a trust is its seed `trust_id`. -/
def initializeTrust (s : TrustState) (trustId : Bytes32) (authority : Pubkey) :
    Except TrustError TrustState := do
  requireFree s.trusts trustId
  let trust : Trust :=
    { trustId, authority, creationMode := true, paused := false, moduleCount := 0 }
  pure { s with trusts := s.trusts.insert trustId trust }

structure RegisterModule where
  trust : Pubkey
  authority : Pubkey

def registerModule (s : TrustState) (a : RegisterModule) (moduleId : Bytes32)
    (programId provider : Pubkey) (implementationVersion : Nat)
    (implementationMetadataHash : Bytes32) (trustAcl : Nat) : Except TrustError TrustState := do
  let trust ← load s.trusts a.trust
  requireFree s.modules ⟨a.trust, moduleId⟩
  require (trust.paused = false) (.custom .trustPaused)
  require (0 < implementationVersion) (.custom .invalidImplementationVersion)
  require (trust.creationMode = true) (.custom .notInCreationMode)
  require (a.authority = trust.authority) (.custom .unauthorized)
  let moduleCount ← okOr (checkedAdd 32 trust.moduleCount 1) (.custom .mathOverflow)
  let m : Module := {
    trust := a.trust
    moduleId
    programId
    provider
    implementationVersion
    implementationMetadataHash
    trustAcl
    initialized := .pending }
  pure { s with
    trusts := s.trusts.insert a.trust { trust with moduleCount }
    modules := s.modules.insert ⟨a.trust, moduleId⟩ m }

def finalize (s : TrustState) (k authority : Pubkey) : Except TrustError TrustState := do
  let trust ← load s.trusts k
  require (authority = trust.authority) (.custom .unauthorized)
  require (trust.paused = false) (.custom .trustPaused)
  require (trust.creationMode = true) (.custom .alreadyFinalized)
  require (0 < trust.moduleCount) (.custom .noModulesRegistered)
  pure { s with trusts := s.trusts.insert k { trust with creationMode := false } }

def setPaused (s : TrustState) (k authority : Pubkey) (paused : Bool) :
    Except TrustError TrustState := do
  let trust ← load s.trusts k
  require (authority = trust.authority) (.custom .unauthorized)
  pure { s with trusts := s.trusts.insert k { trust with paused } }

def gateConfigWrite (trust : Trust) (signer : Pubkey) : Except TrustError Unit := do
  require (trust.paused = false) (.custom .trustPaused)
  require (signer = trust.authority) (.custom .unauthorized)

def setNumericConfig (s : TrustState) (k authority : Pubkey) (key : Bytes32) (value : Nat) :
    Except TrustError TrustState := do
  let trust ← load s.trusts k
  gateConfigWrite trust authority
  pure { s with numericConfigs := s.numericConfigs.insert ⟨k, key⟩ ⟨k, key, value⟩ }

def setAddressConfig (s : TrustState) (k authority : Pubkey) (key : Bytes32) (value : Pubkey) :
    Except TrustError TrustState := do
  let trust ← load s.trusts k
  gateConfigWrite trust authority
  pure { s with addressConfigs := s.addressConfigs.insert ⟨k, key⟩ ⟨k, key, value⟩ }

/-- The bump of the slot's address is not known to the model, and any will do. -/
def setBytesConfig (s : TrustState) (k authority : Pubkey) (key : Bytes32) (value : Bytes)
    (bump : BitVec 8) : Except TrustError TrustState := do
  let trust ← load s.trusts k
  let data := initIfNeeded s.bytesConfigs ⟨k, key⟩ zeroedBytesConfig
  require (value.length ≤ maxBytesConfig) (.custom .configTooLarge)
  gateConfigWrite trust authority
  let cfg : BytesConfig := { trust := k, key, value, bump }
  pure { s with
    bytesConfigs := s.bytesConfigs.insert ⟨k, key⟩ (overwrite data cfg.serialize) }

/-! ## The program as one transition function -/

inductive TrustIx
  | initializeTrust (trustId : Bytes32) (authority : Pubkey)
  | registerModule (a : RegisterModule) (moduleId : Bytes32) (programId provider : Pubkey)
      (implementationVersion : Nat) (implementationMetadataHash : Bytes32) (trustAcl : Nat)
  | finalize (trust authority : Pubkey)
  | setPaused (trust authority : Pubkey) (paused : Bool)
  | setNumericConfig (trust authority : Pubkey) (key : Bytes32) (value : Nat)
  | setAddressConfig (trust authority : Pubkey) (key : Bytes32) (value : Pubkey)
  | setBytesConfig (trust authority : Pubkey) (key : Bytes32) (value : Bytes) (bump : BitVec 8)

def TrustState.exec (s : TrustState) : TrustIx → Except TrustError TrustState
  | .initializeTrust trustId authority => Trusts.initializeTrust s trustId authority
  | .registerModule a moduleId programId provider version hash trustAcl =>
    Trusts.registerModule s a moduleId programId provider version hash trustAcl
  | .finalize trust authority => Trusts.finalize s trust authority
  | .setPaused trust authority paused => Trusts.setPaused s trust authority paused
  | .setNumericConfig trust authority key value =>
    Trusts.setNumericConfig s trust authority key value
  | .setAddressConfig trust authority key value =>
    Trusts.setAddressConfig s trust authority key value
  | .setBytesConfig trust authority key value bump =>
    Trusts.setBytesConfig s trust authority key value bump

end Aeqi.Trusts
