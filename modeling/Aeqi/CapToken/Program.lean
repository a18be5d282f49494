import Aeqi.Solana.Tokens
import Aeqi.Trusts.Program

/-!
# aeqi_token

The cap-table token of a trust: a mint at `[b"mint", trust]` whose authority is the address
`[b"token_authority", trust]`, created once the config slot of the trust was decoded. The
ledger knows no decimals; those of the mints at the program's own addresses are kept here.
-/

namespace Aeqi.CapToken

open Aeqi.Lib Aeqi.Solana
open Trusts (TrustState BytesConfig ModuleInitState)
open Token (Ledger)

/-- The program behind a `token_program` slot. -/
inductive TokenProgram
  | token
  | token2022
  deriving DecidableEq

inductive TokenError
  | notInitialized
  | notFinalized
  | mintAlreadyCreated
  | mintMismatch
  | invalidConfig
  | supplyCapExceeded
  | invalidTokenProgram
  | trustMismatch
  | unauthorizedMintAuthority
  | zeroAmount
  | decimalsMismatch
  | unauthorized
  | trustNotInCreationMode

abbrev TokenTxError := TxError TokenError

structure TokenModuleState where
  trust : Pubkey
  mint : Address
  initialized : ModuleInitState
  decimals : Nat
  maxSupplyCap : Nat

/-- All accounts owned by the token module, and the decimals of its mints. -/
structure TokenState where
  modules : Accounts Pubkey TokenModuleState := ∅
  decimals : Accounts Pubkey Nat := ∅

/-- `Pubkey::default()`. -/
def defaultMint : Address := .wallet 0

/-! ## The config slot -/

/-- `[1, 0, .., 0]`. -/
def tokenConfigKey : Bytes32 := ofKeyBytes (1#8 :: List.replicate 31 0#8)

structure TokenInitConfig where
  decimals : Nat
  maxSupplyCap : Nat

/-- Borsh takes exactly the nine bytes of a `u8` and a `u64`. -/
def TokenInitConfig.tryFromSlice (value : Bytes) : Option TokenInitConfig :=
  if value.length = 9 then
    some ⟨ofLeBytes (slice value 0 1), ofLeBytes (slice value 1 9)⟩
  else
    none

def decodeBytesConfigAccount (data : Bytes) : Except TokenTxError BytesConfig := do
  let discriminatorLen := 8
  let pubkeyLen := 32
  let keyLen := 32
  let vecLenPrefix := 4
  let fixedPrefix := discriminatorLen + pubkeyLen + keyLen + vecLenPrefix
  require (fixedPrefix < data.length) (.custom .invalidConfig)
  let trust := ofKeyBytes (slice data discriminatorLen (discriminatorLen + pubkeyLen))
  let keyStart := discriminatorLen + pubkeyLen
  let key := ofKeyBytes (slice data keyStart (keyStart + keyLen))
  let lenStart := keyStart + keyLen
  let valueLen := ofLeBytes (slice data lenStart (lenStart + vecLenPrefix))
  let valueStart := lenStart + vecLenPrefix
  let valueEnd ← okOr (checkedAdd 64 valueStart valueLen) (.custom .invalidConfig)
  require (valueEnd < data.length) (.custom .invalidConfig)
  pure { trust, key, value := slice data valueStart valueEnd, bump := data.getD valueEnd 0 }

def requireToken2022 (tokenProgram : TokenProgram) : Except TokenTxError Unit :=
  require (tokenProgram = .token2022) (.custom .invalidTokenProgram)

/-! ## Handlers -/

def init (s : TokenState) (trusts : TrustState) (k payer : Pubkey) :
    Except TokenTxError TokenState := do
  let trust ← load trusts.trusts k
  requireFree s.modules k
  require (trust.creationMode = true) (.custom .trustNotInCreationMode)
  require (payer = trust.authority) (.custom .unauthorized)
  let m : TokenModuleState := {
    trust := k
    mint := defaultMint
    initialized := .initialized
    decimals := 0
    maxSupplyCap := 0 }
  pure { s with modules := s.modules.insert k m }

/-- Only the trust program writes at the address of the slot, so its owner is that program
when there is an account. -/
def finalize (s : TokenState) (trusts : TrustState) (k : Pubkey) :
    Except TokenTxError TokenState := do
  let m ← load s.modules k
  require (m.initialized = .initialized) (.custom .notInitialized)
  let data ← okOr (trusts.bytesConfigs.lookup ⟨k, tokenConfigKey⟩) (.custom .invalidConfig)
  let cfg ← decodeBytesConfigAccount data
  require (cfg.trust = k) (.custom .invalidConfig)
  require (cfg.key = tokenConfigKey) (.custom .invalidConfig)
  let initCfg ← okOr (TokenInitConfig.tryFromSlice cfg.value) (.custom .invalidConfig)
  pure { s with modules := s.modules.insert k { m with
    decimals := initCfg.decimals
    maxSupplyCap := initCfg.maxSupplyCap
    initialized := .finalized } }

structure BurnTokens where
  trust : Pubkey
  ownerTa : Address
  owner : Pubkey
  tokenProgram : TokenProgram

def burnTokens (s : TokenState) (tokens : Ledger Address) (a : BurnTokens) (amount : Nat) :
    Except TokenTxError (Ledger Address) := do
  let m ← load s.modules a.trust
  let mint : Address := .tokenMint a.trust
  let _ ← loadMint tokens mint
  let _ ← okOr (tokens.accounts.lookup a.ownerTa) (.anchor .accountNotInitialized)
  require (0 < amount) (.custom .zeroAmount)
  requireToken2022 a.tokenProgram
  require (m.initialized = .finalized) (.custom .notFinalized)
  require (m.mint = mint) (.custom .mintMismatch)
  require (m.trust = a.trust) (.custom .trustMismatch)
  invoke (tokens.burn a.ownerTa mint (.wallet a.owner) amount)

structure MintTokens where
  trust : Pubkey
  recipientTa : Address
  authority : Pubkey
  tokenProgram : TokenProgram

/-- `if module.max_supply_cap > 0`: the supply after the mint stays within the cap. -/
def checkSupplyCap (m : TokenModuleState) (supply amount : Nat) : Except TokenTxError Unit :=
  if 0 < m.maxSupplyCap then do
    let newSupply ← okOr (checkedAdd 64 supply amount) (.custom .supplyCapExceeded)
    require (newSupply ≤ m.maxSupplyCap) (.custom .supplyCapExceeded)
  else
    pure ()

def mintTokens (s : TokenState) (trusts : TrustState) (tokens : Ledger Address) (a : MintTokens)
    (amount : Nat) : Except TokenTxError (Ledger Address) := do
  let trust ← load trusts.trusts a.trust
  let m ← load s.modules a.trust
  let mint : Address := .tokenMint a.trust
  let mintAccount ← loadMint tokens mint
  let decimals ← okOr (s.decimals.lookup a.trust) (.anchor .accountNotInitialized)
  let _ ← okOr (tokens.accounts.lookup a.recipientTa) (.anchor .accountNotInitialized)
  require (0 < amount) (.custom .zeroAmount)
  requireToken2022 a.tokenProgram
  require (m.initialized = .finalized) (.custom .notFinalized)
  require (m.mint = mint) (.custom .mintMismatch)
  require (m.trust = a.trust) (.custom .trustMismatch)
  require (decimals = m.decimals) (.custom .decimalsMismatch)
  require (a.authority = trust.authority) (.custom .unauthorizedMintAuthority)
  checkSupplyCap m mintAccount.supply amount
  invoke (tokens.mintTo mint a.recipientTa (.tokenAuthority a.trust) amount)

structure CreateMint where
  trust : Pubkey
  tokenProgram : TokenProgram

def createMint (s : TokenState) (tokens : Ledger Address) (a : CreateMint) (decimals : Nat) :
    Except TokenTxError (TokenState × Ledger Address) := do
  let m ← load s.modules a.trust
  let mint : Address := .tokenMint a.trust
  requireToken2022 a.tokenProgram
  require (m.initialized = .finalized) (.custom .notFinalized)
  require (m.trust = a.trust) (.custom .trustMismatch)
  require (decimals = m.decimals) (.custom .decimalsMismatch)
  require (m.mint = defaultMint) (.custom .mintAlreadyCreated)
  let tokens ← invoke (tokens.initializeMint mint (.tokenAuthority a.trust))
  let s := { s with
    modules := s.modules.insert a.trust { m with mint }
    decimals := s.decimals.insert a.trust decimals }
  pure (s, tokens)

/-! ## The program as one transition function -/

inductive CapTokenIx
  | init (trust payer : Pubkey)
  | finalize (trust : Pubkey)
  | createMint (a : CreateMint) (decimals : Nat)
  | mintTokens (a : MintTokens) (amount : Nat)
  | burnTokens (a : BurnTokens) (amount : Nat)

def TokenState.exec (s : TokenState) (trusts : TrustState) (tokens : Ledger Address) :
    CapTokenIx → Except TokenTxError (TokenState × Ledger Address)
  | .init trust payer => do
    let s ← CapToken.init s trusts trust payer
    pure (s, tokens)
  | .finalize trust => do
    let s ← CapToken.finalize s trusts trust
    pure (s, tokens)
  | .createMint a decimals => CapToken.createMint s tokens a decimals
  | .mintTokens a amount => do
    let tokens ← CapToken.mintTokens s trusts tokens a amount
    pure (s, tokens)
  | .burnTokens a amount => do
    let tokens ← CapToken.burnTokens s tokens a amount
    pure (s, tokens)

end Aeqi.CapToken

/-!
## aeqi_token: what a successful instruction did
-/

namespace Aeqi.CapToken

open Aeqi.Lib Aeqi.Solana
open Trusts (TrustState BytesConfig)
open Token (Ledger)
open Token.Ledger (Moves)

namespace TokenModuleState

/-- A module as `init` writes it. -/
def opened (k : Pubkey) : TokenModuleState := ⟨k, defaultMint, .initialized, 0, 0⟩

variable (m : TokenModuleState)

def configured (cfg : TokenInitConfig) : TokenModuleState :=
  { m with decimals := cfg.decimals, maxSupplyCap := cfg.maxSupplyCap, initialized := .finalized }

def minted (k : Pubkey) : TokenModuleState := { m with mint := .tokenMint k }

end TokenModuleState

/-! ## Handlers -/

section Handlers

variable {s s' : TokenState} {trusts : TrustState} {tokens tokens' : Ledger Address}

theorem init_ok {k payer : Pubkey} (h : init s trusts k payer = .ok s') :
    s.modules.lookup k = none ∧ s' = { s with modules := s.modules.insert k (.opened k) } := by
  simp only [init, bind_eq_ok, requireFree_eq_ok, exists_punit, pure_eq_ok] at h
  obtain ⟨_, -, hfree, -, -, rfl⟩ := h
  exact ⟨hfree, rfl⟩

theorem finalize_ok {k : Pubkey} (h : finalize s trusts k = .ok s') :
    ∃ m cfg, s.modules.lookup k = some m ∧ m.initialized = .initialized ∧
      s' = { s with modules := s.modules.insert k (m.configured cfg) } := by
  simp only [finalize, bind_eq_ok, load_eq_ok, require_eq_ok, exists_punit, pure_eq_ok] at h
  obtain ⟨m, hm, hinit, _, -, _, -, -, -, cfg, -, rfl⟩ := h
  exact ⟨m, cfg, hm, hinit, rfl⟩

theorem createMint_ok {a : CreateMint} {decimals : Nat}
    (h : createMint s tokens a decimals = .ok (s', tokens')) :
    ∃ m, s.modules.lookup a.trust = some m ∧ m.initialized = .finalized ∧ m.mint = defaultMint ∧
      tokens.initializeMint (.tokenMint a.trust) (.tokenAuthority a.trust) = .ok tokens' ∧
      s' = { s with
        modules := s.modules.insert a.trust (m.minted a.trust)
        decimals := s.decimals.insert a.trust decimals } := by
  simp only [createMint, bind_eq_ok, load_eq_ok, require_eq_ok, invoke_eq_ok, exists_punit] at h
  obtain ⟨m, hm, -, hfinal, -, -, hmint, _, hcreate, rfl, rfl⟩ := h
  exact ⟨m, hm, hfinal, hmint, hcreate, rfl⟩

theorem checkSupplyCap_ok {m : TokenModuleState} {supply amount : Nat} {u : Unit} :
    checkSupplyCap m supply amount = .ok u ↔
      (0 < m.maxSupplyCap → supply + amount < 2 ^ 64 ∧ supply + amount ≤ m.maxSupplyCap) := by
  unfold checkSupplyCap
  split
  · next hcap =>
    simp only [bind_eq_ok, okOr_eq_ok, checkedAdd_eq_some, require_eq_ok]
    constructor
    · rintro ⟨_, ⟨hlt, rfl⟩, hle⟩ -
      exact ⟨hlt, hle⟩
    · intro hle
      exact ⟨_, ⟨(hle hcap).1, rfl⟩, (hle hcap).2⟩
  · next hcap => simp [hcap]

theorem mintTokens_ok {a : MintTokens} {amount : Nat}
    (h : mintTokens s trusts tokens a amount = .ok tokens') :
    ∃ m mint, s.modules.lookup a.trust = some m ∧ m.initialized = .finalized ∧
      m.mint = .tokenMint a.trust ∧ tokens.mints.lookup (.tokenMint a.trust) = some mint ∧
      (0 < m.maxSupplyCap → mint.supply + amount ≤ m.maxSupplyCap) ∧
      tokens.mintTo (.tokenMint a.trust) a.recipientTa (.tokenAuthority a.trust) amount =
        .ok tokens' := by
  simp only [mintTokens, bind_eq_ok, load_eq_ok, loadMint_eq_ok, require_eq_ok,
    checkSupplyCap_ok, invoke_eq_ok, exists_punit] at h
  obtain ⟨_, -, m, hm, mint, hmint, _, -, _, -, -, -, hfinal, hrecorded, -, -, -, hcap, hmintTo⟩ := h
  exact ⟨m, mint, hm, hfinal, hrecorded, hmint, fun hpos => (hcap hpos).2, hmintTo⟩

theorem burnTokens_ok {a : BurnTokens} {amount : Nat}
    (h : burnTokens s tokens a amount = .ok tokens') :
    tokens.burn a.ownerTa (.tokenMint a.trust) (.wallet a.owner) amount = .ok tokens' := by
  simp only [burnTokens, bind_eq_ok, invoke_eq_ok, exists_punit] at h
  obtain ⟨_, -, _, -, _, -, -, -, -, -, -, hburn⟩ := h
  exact hburn

end Handlers

/-! ## The ledger -/

def CapTokenIx.minted : CapTokenIx → Address → Nat
  | .mintTokens a amount, k => if Address.tokenMint a.trust = k then amount else 0
  | _, _ => 0

section Exec

variable {s s' : TokenState} {trusts : TrustState} {tokens tokens' : Ledger Address}
  {ix : CapTokenIx}

theorem exec_moves (h : s.exec trusts tokens ix = .ok (s', tokens')) :
    Moves (Signs none) ix.minted tokens tokens' := by
  cases ix with
  | init trust payer | finalize trust =>
    obtain ⟨-, rfl⟩ := ok_of_fst h
    exact .refl _
  | createMint a decimals =>
    obtain ⟨_, -, -, -, hcreate, -⟩ := createMint_ok h
    exact .initializeMint hcreate
  | mintTokens a amount =>
    obtain ⟨hmint, -⟩ := ok_of_snd h
    obtain ⟨_, _, -, -, -, -, -, hmintTo⟩ := mintTokens_ok hmint
    exact .mintTo hmintTo (if_pos rfl).ge
  | burnTokens a amount =>
    obtain ⟨hburn, -⟩ := ok_of_snd h
    exact .burn (burnTokens_ok hburn) (.inl ⟨_, rfl⟩)

end Exec

end Aeqi.CapToken
