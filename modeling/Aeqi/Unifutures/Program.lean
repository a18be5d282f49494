import Aeqi.Unifutures.PoolMath
import Aeqi.Unifutures.State

/-!
# aeqi_unifutures: pool instructions

`init` and the four pool handlers of `lib.rs`, with the constraints of their account
contexts. The vaults of an instruction are token accounts of the right mint that the
pool's authority owns; which of them is the caller's choice. Next to them stand the
moves that anybody can make in the token program with a key of their own.
-/

namespace Aeqi.Unifutures

open Aeqi.Lib Aeqi.Solana
open Token (Ledger)

/-! ## Account contexts -/

structure CreateLiquidityPool where
  trust : Pubkey
  baseMint : Address
  quoteMint : Address
  creator : Pubkey

/-- The slots that `AddLiquidity`, `RemoveLiquidity` and `SwapExactIn` share; the user is
the provider or trader who signs. -/
structure PoolAccounts where
  pool : PoolPda
  baseMint : Address
  quoteMint : Address
  userBaseTa : Address
  userQuoteTa : Address
  baseVault : Address
  quoteVault : Address
  user : Pubkey

structure AddLiquidity extends PoolAccounts where
  providerLpTa : Address

structure RemoveLiquidity extends PoolAccounts where
  providerLpTa : Address

abbrev SwapExactIn := PoolAccounts

/-- `token::mint = mint, token::authority = owner`. -/
def checkTokenAccount (tokens : Ledger Address) (a mint owner : Address) :
    Except PoolError Unit := do
  let acc ← okOr (tokens.accounts.lookup a) (.anchor .accountNotInitialized)
  require (acc.mint = mint) (.anchor .constraintTokenMint)
  require (acc.owner = owner) (.anchor .constraintTokenOwner)

def checkMint (tokens : Ledger Address) (mint : Address) : Except PoolError Unit :=
  require ((tokens.mints.lookup mint).isSome) (.anchor .accountNotInitialized)

def loadPool (s : Dex) (pool : PoolPda) : Except PoolError LiquidityPool := do
  let p ← load s.pools pool
  require (pool = ⟨p.trust, p.poolId⟩) (.anchor .constraintSeeds)
  pure p

def checkPoolAccounts (tokens : Ledger Address) (a : PoolAccounts) : Except PoolError Unit := do
  checkMint tokens a.baseMint
  checkMint tokens a.quoteMint
  checkTokenAccount tokens a.userBaseTa a.baseMint (.wallet a.user)
  checkTokenAccount tokens a.userQuoteTa a.quoteMint (.wallet a.user)
  checkTokenAccount tokens a.baseVault a.baseMint (.poolAuthority a.pool)
  checkTokenAccount tokens a.quoteVault a.quoteMint (.poolAuthority a.pool)

def checkLpAccount (tokens : Ledger Address) (pool : PoolPda) (providerLpTa : Address)
    (provider : Pubkey) : Except PoolError Unit := do
  checkMint tokens (.lpMint pool)
  checkTokenAccount tokens providerLpTa (.lpMint pool) (.wallet provider)

/-- `require_keys_eq!` on the base and quote mints. -/
def checkPoolMints (p : LiquidityPool) (a : PoolAccounts) : Except PoolError Unit := do
  require (a.baseMint = p.baseMint) (.custom .poolMintMismatch)
  require (a.quoteMint = p.quoteMint) (.custom .poolMintMismatch)

def invoke (x : Except Token.Error (Ledger Address)) : Except PoolError (Ledger Address) :=
  x.mapError fun _ => .anchor .tokenProgram

/-! ## Handlers -/

def init (s : Dex) (trusts : Accounts Pubkey Trust) (trust payer : Pubkey) :
    Except PoolError Dex := do
  let t ← load trusts trust
  requireFree s.modules trust
  require (t.creationMode = true) (.custom .trustNotInCreationMode)
  require (payer = t.authority) (.custom .unauthorized)
  pure { s with modules := s.modules.insert trust ⟨trust, 0, 0, 0, 0⟩ }

/-- The LP mint and both vaults are created before the handler runs. -/
def createLiquidityPool (s : Dex) (a : CreateLiquidityPool) (poolId : Bytes32) (feeBps : Nat) :
    Except PoolError Dex := do
  let pool : PoolPda := ⟨a.trust, poolId⟩
  let _ ← load s.modules a.trust
  requireFree s.pools pool
  checkMint s.tokens a.baseMint
  checkMint s.tokens a.quoteMint
  let authority : Address := .poolAuthority pool
  let baseVault : Address := .associated authority a.baseMint
  let quoteVault : Address := .associated authority a.quoteMint
  let tokens ← invoke (s.tokens.initializeMint (.lpMint pool) authority)
  let tokens ← invoke (tokens.initializeAccount baseVault a.baseMint authority)
  let tokens ← invoke (tokens.initializeAccount quoteVault a.quoteMint authority)
  require (a.baseMint ≠ a.quoteMint) (.custom .identicalMints)
  require (feeBps < 10000) (.custom .invalidFeeBps)
  let p : LiquidityPool := {
    trust := a.trust
    poolId
    baseMint := a.baseMint
    quoteMint := a.quoteMint
    baseVault
    quoteVault
    lpMint := .lpMint pool
    lpSupply := 0
    baseReserve := 0
    quoteReserve := 0
    feeBps }
  pure { s with tokens, pools := s.pools.insert pool p }

def quoteDeposit (p : LiquidityPool) (baseAmount quoteAmount : Nat) :
    Except PoolError LiquidityQuote :=
  if p.lpSupply = 0 then
    okOr (quoteInitialLiquidity baseAmount quoteAmount) (.custom .insufficientInitialLiquidity)
  else
    okOr (quoteAddLiquidity baseAmount quoteAmount p.baseReserve p.quoteReserve p.lpSupply)
      (.custom .insufficientLiquidity)

def addLiquidity (s : Dex) (a : AddLiquidity) (baseAmount quoteAmount minLpOut : Nat) :
    Except PoolError Dex := do
  let p ← loadPool s a.pool
  checkLpAccount s.tokens a.pool a.providerLpTa a.user
  checkPoolAccounts s.tokens a.toPoolAccounts
  require (0 < baseAmount) (.custom .zeroAmount)
  require (0 < quoteAmount) (.custom .zeroAmount)
  checkPoolMints p a.toPoolAccounts
  require (.lpMint a.pool = p.lpMint) (.custom .poolMintMismatch)
  let quote ← quoteDeposit p baseAmount quoteAmount
  require (minLpOut ≤ quote.lpOut) (.custom .slippageExceeded)
  let tokens ← invoke
    (s.tokens.transfer a.userBaseTa a.baseMint a.baseVault (.wallet a.user) quote.baseUsed)
  let tokens ← invoke
    (tokens.transfer a.userQuoteTa a.quoteMint a.quoteVault (.wallet a.user) quote.quoteUsed)
  let tokens ← invoke
    (tokens.mintTo (.lpMint a.pool) a.providerLpTa (.poolAuthority a.pool) quote.lpOut)
  let baseReserve ← okOr (checkedAdd 64 p.baseReserve quote.baseUsed) (.custom .mathOverflow)
  let quoteReserve ← okOr (checkedAdd 64 p.quoteReserve quote.quoteUsed) (.custom .mathOverflow)
  let lpSupply ← okOr (checkedAdd 64 p.lpSupply quote.lpOut) (.custom .mathOverflow)
  pure { s with
    tokens
    pools := s.pools.insert a.pool { p with baseReserve, quoteReserve, lpSupply } }

def removeLiquidity (s : Dex) (a : RemoveLiquidity) (lpAmount minBaseOut minQuoteOut : Nat) :
    Except PoolError Dex := do
  let p ← loadPool s a.pool
  checkLpAccount s.tokens a.pool a.providerLpTa a.user
  checkPoolAccounts s.tokens a.toPoolAccounts
  require (0 < lpAmount) (.custom .zeroAmount)
  checkPoolMints p a.toPoolAccounts
  require (.lpMint a.pool = p.lpMint) (.custom .poolMintMismatch)
  let (baseOut, quoteOut) ← okOr
    (quoteRemoveLiquidity lpAmount p.baseReserve p.quoteReserve p.lpSupply)
    (.custom .insufficientLiquidity)
  require (minBaseOut ≤ baseOut) (.custom .slippageExceeded)
  require (minQuoteOut ≤ quoteOut) (.custom .slippageExceeded)
  let tokens ← invoke (s.tokens.burn a.providerLpTa (.lpMint a.pool) (.wallet a.user) lpAmount)
  let tokens ← invoke
    (tokens.transfer a.baseVault a.baseMint a.userBaseTa (.poolAuthority a.pool) baseOut)
  let tokens ← invoke
    (tokens.transfer a.quoteVault a.quoteMint a.userQuoteTa (.poolAuthority a.pool) quoteOut)
  let baseReserve ← okOr (checkedSub p.baseReserve baseOut) (.custom .insufficientLiquidity)
  let quoteReserve ← okOr (checkedSub p.quoteReserve quoteOut) (.custom .insufficientLiquidity)
  let lpSupply ← okOr (checkedSub p.lpSupply lpAmount) (.custom .insufficientLiquidity)
  pure { s with
    tokens
    pools := s.pools.insert a.pool { p with baseReserve, quoteReserve, lpSupply } }

def quoteSwap (p : LiquidityPool) (amountIn : Nat) : SwapDirection → Option SwapQuote
  | .baseToQuote => quoteSwapExactIn p.baseReserve p.quoteReserve amountIn p.feeBps
  | .quoteToBase => quoteSwapExactIn p.quoteReserve p.baseReserve amountIn p.feeBps

def swapExactIn (s : Dex) (a : SwapExactIn) (direction amountIn minOut : Nat) :
    Except PoolError Dex := do
  let p ← loadPool s a.pool
  checkPoolAccounts s.tokens a
  require (0 < amountIn) (.custom .zeroAmount)
  let swapDirection ← okOr (SwapDirection.fromU8 direction) (.custom .invalidSwapDirection)
  checkPoolMints p a
  let quote ← okOr (quoteSwap p amountIn swapDirection) (.custom .insufficientLiquidity)
  require (minOut ≤ quote.amountOut) (.custom .slippageExceeded)
  match swapDirection with
  | .baseToQuote => do
    let tokens ← invoke
      (s.tokens.transfer a.userBaseTa a.baseMint a.baseVault (.wallet a.user) amountIn)
    let tokens ← invoke (tokens.transfer a.quoteVault a.quoteMint a.userQuoteTa
      (.poolAuthority a.pool) quote.amountOut)
    let baseReserve ← okOr (checkedAdd 64 p.baseReserve amountIn) (.custom .mathOverflow)
    let quoteReserve ←
      okOr (checkedSub p.quoteReserve quote.amountOut) (.custom .insufficientLiquidity)
    pure { s with tokens, pools := s.pools.insert a.pool { p with baseReserve, quoteReserve } }
  | .quoteToBase => do
    let tokens ← invoke
      (s.tokens.transfer a.userQuoteTa a.quoteMint a.quoteVault (.wallet a.user) amountIn)
    let tokens ← invoke (tokens.transfer a.baseVault a.baseMint a.userBaseTa
      (.poolAuthority a.pool) quote.amountOut)
    let quoteReserve ← okOr (checkedAdd 64 p.quoteReserve amountIn) (.custom .mathOverflow)
    let baseReserve ←
      okOr (checkedSub p.baseReserve quote.amountOut) (.custom .insufficientLiquidity)
    pure { s with tokens, pools := s.pools.insert a.pool { p with baseReserve, quoteReserve } }

/-! ## The program and the token program as one transition function -/

/-- What a key can do in the token program by itself. -/
inductive TokenIx
  | initializeMint (key authority : Pubkey)
  | initializeAccount (key : Pubkey) (mint owner : Address)
  | createAssociated (mint owner : Address)
  | mintTo (mint dest : Address) (authority : Pubkey) (amount : Nat)
  | transfer (source mint dest : Address) (authority : Pubkey) (amount : Nat)
  | burn (source mint : Address) (authority : Pubkey) (amount : Nat)

def execToken (tokens : Ledger Address) : TokenIx → Except Token.Error (Ledger Address)
  | .initializeMint key authority => tokens.initializeMint (.wallet key) (.wallet authority)
  | .initializeAccount key mint owner => tokens.initializeAccount (.wallet key) mint owner
  | .createAssociated mint owner => tokens.initializeAccount (.associated owner mint) mint owner
  | .mintTo mint dest authority amount => tokens.mintTo mint dest (.wallet authority) amount
  | .transfer source mint dest authority amount =>
    tokens.transfer source mint dest (.wallet authority) amount
  | .burn source mint authority amount => tokens.burn source mint (.wallet authority) amount

inductive DexIx
  | init (trust payer : Pubkey)
  | createLiquidityPool (a : CreateLiquidityPool) (poolId : Bytes32) (feeBps : Nat)
  | addLiquidity (a : AddLiquidity) (baseAmount quoteAmount minLpOut : Nat)
  | removeLiquidity (a : RemoveLiquidity) (lpAmount minBaseOut minQuoteOut : Nat)
  | swapExactIn (a : SwapExactIn) (direction amountIn minOut : Nat)
  | token (ix : TokenIx)

/-- A transaction, and the trusts as it finds them. -/
structure DexTx where
  trusts : Accounts Pubkey Trust := ∅
  ix : DexIx

def Dex.exec (s : Dex) (tx : DexTx) : Except PoolError Dex :=
  match tx.ix with
  | .init trust payer => Unifutures.init s tx.trusts trust payer
  | .createLiquidityPool a poolId feeBps => createLiquidityPool s a poolId feeBps
  | .addLiquidity a baseAmount quoteAmount minLpOut =>
    addLiquidity s a baseAmount quoteAmount minLpOut
  | .removeLiquidity a lpAmount minBaseOut minQuoteOut =>
    removeLiquidity s a lpAmount minBaseOut minQuoteOut
  | .swapExactIn a direction amountIn minOut => swapExactIn s a direction amountIn minOut
  | .token ix => do
    let tokens ← invoke (execToken s.tokens ix)
    pure { s with tokens }

end Aeqi.Unifutures
