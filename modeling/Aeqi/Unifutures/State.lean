import Aeqi.Lib.Token
import Aeqi.Solana.Anchor

/-!
# aeqi_unifutures: accounts of the liquidity pools

The pool accounts, the addresses the pools derive, and the errors of the pool
handlers. Mints and token accounts live in the ledger of the token program.
-/

namespace Aeqi.Unifutures

open Aeqi.Lib Aeqi.Solana

/-- The seeds of a pool, `[b"liquidity_pool", trust, pool_id]`, and of its authority and
LP mint. -/
structure PoolPda where
  trust : Pubkey
  poolId : Bytes32
  deriving DecidableEq

/-- Addresses of mints, token accounts and their owners. Only a `wallet` can sign a
transaction; a pool's authority signs inside the pool handlers. -/
inductive Address
  | wallet (key : Pubkey)
  | poolAuthority (pool : PoolPda)
  | lpMint (pool : PoolPda)
  | associated (owner mint : Address)
  deriving DecidableEq

structure LiquidityPool where
  trust : Pubkey
  poolId : Bytes32
  baseMint : Address
  quoteMint : Address
  baseVault : Address
  quoteVault : Address
  lpMint : Address
  lpSupply : Nat
  baseReserve : Nat
  quoteReserve : Nat
  feeBps : Nat

structure UnifuturesModuleState where
  trust : Pubkey
  curveCount : Nat
  saleCount : Nat
  exitCount : Nat
  poolCount : Nat

/-- The part of a trust account that `init` reads. -/
structure Trust where
  authority : Pubkey
  creationMode : Bool

inductive UnifuturesError
  | trustNotInCreationMode
  | unauthorized
  | identicalMints
  | invalidFeeBps
  | zeroAmount
  | poolMintMismatch
  | insufficientInitialLiquidity
  | insufficientLiquidity
  | slippageExceeded
  | invalidSwapDirection
  | mathOverflow

abbrev PoolError := TxError UnifuturesError

/-- The pools, and the ledger they share with everybody else. -/
structure Dex where
  modules : Accounts Pubkey UnifuturesModuleState := ∅
  pools : Accounts PoolPda LiquidityPool := ∅
  tokens : Token.Ledger Address := {}

def Dex.init : Dex := {}

end Aeqi.Unifutures
