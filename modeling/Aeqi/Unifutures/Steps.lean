import Aeqi.Unifutures.Program

/-!
# aeqi_unifutures: what a successful instruction did

One lemma per handler, as in `Aeqi.Roles.Steps`. The two directions of a swap are one
case: `vaultIn`, `reserveIn` and so on name the side that receives.
-/

namespace Aeqi.Unifutures

open Aeqi.Lib Aeqi.Solana
open Token (Ledger)

/-! ## Sides of a swap -/

namespace PoolAccounts

variable (a : PoolAccounts)

def payFrom : SwapDirection → Address
  | .baseToQuote => a.userBaseTa
  | .quoteToBase => a.userQuoteTa

def payTo : SwapDirection → Address
  | .baseToQuote => a.userQuoteTa
  | .quoteToBase => a.userBaseTa

def vaultIn : SwapDirection → Address
  | .baseToQuote => a.baseVault
  | .quoteToBase => a.quoteVault

def vaultOut : SwapDirection → Address
  | .baseToQuote => a.quoteVault
  | .quoteToBase => a.baseVault

def mintIn : SwapDirection → Address
  | .baseToQuote => a.baseMint
  | .quoteToBase => a.quoteMint

def mintOut : SwapDirection → Address
  | .baseToQuote => a.quoteMint
  | .quoteToBase => a.baseMint

end PoolAccounts

namespace LiquidityPool

variable (p : LiquidityPool)

def reserveIn : SwapDirection → Nat
  | .baseToQuote => p.baseReserve
  | .quoteToBase => p.quoteReserve

def reserveOut : SwapDirection → Nat
  | .baseToQuote => p.quoteReserve
  | .quoteToBase => p.baseReserve

def deposited (quote : LiquidityQuote) : LiquidityPool :=
  { p with
    baseReserve := p.baseReserve + quote.baseUsed
    quoteReserve := p.quoteReserve + quote.quoteUsed
    lpSupply := p.lpSupply + quote.lpOut }

def withdrawn (lpAmount : Nat) (out : Nat × Nat) : LiquidityPool :=
  { p with
    baseReserve := p.baseReserve - out.1
    quoteReserve := p.quoteReserve - out.2
    lpSupply := p.lpSupply - lpAmount }

def traded (amountIn amountOut : Nat) : SwapDirection → LiquidityPool
  | .baseToQuote =>
    { p with baseReserve := p.baseReserve + amountIn, quoteReserve := p.quoteReserve - amountOut }
  | .quoteToBase =>
    { p with quoteReserve := p.quoteReserve + amountIn, baseReserve := p.baseReserve - amountOut }

end LiquidityPool

theorem quoteSwap_eq (p : LiquidityPool) (amountIn : Nat) (d : SwapDirection) :
    quoteSwap p amountIn d = quoteSwapExactIn (p.reserveIn d) (p.reserveOut d) amountIn p.feeBps := by
  cases d <;> rfl

/-! ## Constraints -/

def Owned (tokens : Ledger Address) (a mint owner : Address) : Prop :=
  ∃ acc, tokens.accounts.lookup a = some acc ∧ acc.mint = mint ∧ acc.owner = owner

/-- What the constraints of the three pool contexts leave to the caller. -/
structure PoolAccounts.Valid (tokens : Ledger Address) (a : PoolAccounts) (p : LiquidityPool) :
    Prop where
  seeds : a.pool = ⟨p.trust, p.poolId⟩
  minted : (∃ m, tokens.mints.lookup a.baseMint = some m) ∧
    ∃ m, tokens.mints.lookup a.quoteMint = some m
  baseMint : a.baseMint = p.baseMint
  quoteMint : a.quoteMint = p.quoteMint
  userBase : Owned tokens a.userBaseTa a.baseMint (.wallet a.user)
  userQuote : Owned tokens a.userQuoteTa a.quoteMint (.wallet a.user)
  baseVault : Owned tokens a.baseVault a.baseMint (.poolAuthority a.pool)
  quoteVault : Owned tokens a.quoteVault a.quoteMint (.poolAuthority a.pool)

section Checks

variable {s : Dex} {tokens : Ledger Address} {k : PoolPda} {p : LiquidityPool} {a : PoolAccounts}

variable {u : Unit}

theorem checkTokenAccount_ok {ta mint owner : Address} :
    checkTokenAccount tokens ta mint owner = .ok u ↔ Owned tokens ta mint owner := by
  simp [checkTokenAccount, Owned, bind_eq_ok]

theorem checkMint_ok {mint : Address} :
    checkMint tokens mint = .ok u ↔ ∃ m, tokens.mints.lookup mint = some m := by
  simp [checkMint, Option.isSome_iff_exists]

theorem loadPool_ok : loadPool s k = .ok p ↔ s.pools.lookup k = some p ∧ k = ⟨p.trust, p.poolId⟩ := by
  simp only [loadPool, bind_eq_ok, load_eq_ok, require_eq_ok, exists_punit, pure_eq_ok]
  constructor
  · rintro ⟨_, hp, hk, rfl⟩
    exact ⟨hp, hk⟩
  · rintro ⟨hp, hk⟩
    exact ⟨p, hp, hk, rfl⟩

theorem checkPoolAccounts_ok : checkPoolAccounts tokens a = .ok u ↔
    ((∃ m, tokens.mints.lookup a.baseMint = some m) ∧
      ∃ m, tokens.mints.lookup a.quoteMint = some m) ∧
    (Owned tokens a.userBaseTa a.baseMint (.wallet a.user) ∧
      Owned tokens a.userQuoteTa a.quoteMint (.wallet a.user)) ∧
    Owned tokens a.baseVault a.baseMint (.poolAuthority a.pool) ∧
    Owned tokens a.quoteVault a.quoteMint (.poolAuthority a.pool) := by
  simp [checkPoolAccounts, bind_eq_ok, checkMint_ok, checkTokenAccount_ok, and_assoc]

theorem checkPoolMints_ok : checkPoolMints p a = .ok u ↔
    a.baseMint = p.baseMint ∧ a.quoteMint = p.quoteMint := by
  simp [checkPoolMints, bind_eq_ok]

theorem checkLpAccount_ok {ta : Address} {user : Pubkey} :
    checkLpAccount tokens k ta user = .ok u ↔ (∃ m, tokens.mints.lookup (.lpMint k) = some m) ∧
      Owned tokens ta (.lpMint k) (.wallet user) := by
  simp [checkLpAccount, bind_eq_ok, checkMint_ok, checkTokenAccount_ok]

theorem invoke_ok {x : Except Token.Error (Ledger Address)} :
    invoke x = .ok tokens ↔ x = .ok tokens := mapError_eq_ok

end Checks

/-! ## Handlers -/

section Handlers

variable {s s' : Dex}

theorem init_ok {trusts : Accounts Pubkey Trust} {trust payer : Pubkey}
    (h : init s trusts trust payer = .ok s') : s'.pools = s.pools ∧ s'.tokens = s.tokens := by
  simp only [init, bind_eq_ok, exists_punit, pure_eq_ok] at h
  obtain ⟨t, -, -, -, -, rfl⟩ := h
  exact ⟨rfl, rfl⟩

theorem createLiquidityPool_ok {a : CreateLiquidityPool} {poolId : Bytes32} {feeBps : Nat}
    (h : createLiquidityPool s a poolId feeBps = .ok s') :
    let k : PoolPda := ⟨a.trust, poolId⟩
    let authority : Address := .poolAuthority k
    ∃ t₁ t₂ t₃, s.pools.lookup k = none ∧ s.tokens.initializeMint (.lpMint k) authority = .ok t₁ ∧
      t₁.initializeAccount (.associated authority a.baseMint) a.baseMint authority = .ok t₂ ∧
      t₂.initializeAccount (.associated authority a.quoteMint) a.quoteMint authority = .ok t₃ ∧
      a.baseMint ≠ a.quoteMint ∧ feeBps < 10000 ∧
      s' = { s with
        tokens := t₃
        pools := s.pools.insert k ⟨a.trust, poolId, a.baseMint, a.quoteMint,
          .associated authority a.baseMint, .associated authority a.quoteMint, .lpMint k,
          0, 0, 0, feeBps⟩ } := by
  simp only [createLiquidityPool, bind_eq_ok, requireFree_eq_ok, invoke_ok, require_eq_ok, exists_punit, pure_eq_ok] at h
  obtain ⟨_, -, hfree, -, -, t₁, h₁, t₂, h₂, t₃, h₃, hne, hfee, rfl⟩ := h
  exact ⟨t₁, t₂, t₃, hfree, h₁, h₂, h₃, hne, hfee, rfl⟩

theorem addLiquidity_ok {a : AddLiquidity} {b q m : Nat} (h : addLiquidity s a b q m = .ok s') :
    ∃ p quote t₁ t₂ t₃, s.pools.lookup a.pool = some p ∧ a.Valid s.tokens p ∧
      quoteDeposit p b q = .ok quote ∧
      s.tokens.transfer a.userBaseTa a.baseMint a.baseVault (.wallet a.user) quote.baseUsed =
        .ok t₁ ∧
      t₁.transfer a.userQuoteTa a.quoteMint a.quoteVault (.wallet a.user) quote.quoteUsed = .ok t₂ ∧
      t₂.mintTo (.lpMint a.pool) a.providerLpTa (.poolAuthority a.pool) quote.lpOut = .ok t₃ ∧
      s' = { s with tokens := t₃, pools := s.pools.insert a.pool (p.deposited quote) } := by
  simp only [addLiquidity, bind_eq_ok, loadPool_ok, checkPoolAccounts_ok,
    checkPoolMints_ok, invoke_ok, okOr_eq_ok, checkedAdd_eq_some, exists_punit,
    pure_eq_ok] at h
  obtain ⟨p, ⟨hp, hseeds⟩, -, ⟨hmints, ⟨hub, huq⟩, hvb, hvq⟩, -, -, ⟨hbase, hquote⟩, -, quote, hq, -,
    t₁, h₁, t₂, h₂, t₃, h₃, _, ⟨-, rfl⟩, _, ⟨-, rfl⟩, _, ⟨-, rfl⟩, rfl⟩ := h
  have hvalid : a.Valid s.tokens p := ⟨hseeds, hmints, hbase, hquote, hub, huq, hvb, hvq⟩
  exact ⟨p, quote, t₁, t₂, t₃, hp, hvalid, hq, h₁, h₂, h₃, rfl⟩

theorem removeLiquidity_eq_ok {a : RemoveLiquidity} {l mb mq : Nat} :
    removeLiquidity s a l mb mq = .ok s' ↔
    ∃ p out t₁ t₂ t₃, s.pools.lookup a.pool = some p ∧ a.Valid s.tokens p ∧
      (((∃ m, s.tokens.mints.lookup (.lpMint a.pool) = some m) ∧
        Owned s.tokens a.providerLpTa (.lpMint a.pool) (.wallet a.user)) ∧
      .lpMint a.pool = p.lpMint) ∧ 0 < l ∧
      quoteRemoveLiquidity l p.baseReserve p.quoteReserve p.lpSupply = some out ∧
      (mb ≤ out.1 ∧ mq ≤ out.2) ∧
      s.tokens.burn a.providerLpTa (.lpMint a.pool) (.wallet a.user) l = .ok t₁ ∧
      t₁.transfer a.baseVault a.baseMint a.userBaseTa (.poolAuthority a.pool) out.1 = .ok t₂ ∧
      t₂.transfer a.quoteVault a.quoteMint a.userQuoteTa (.poolAuthority a.pool) out.2 = .ok t₃ ∧
      (out.1 ≤ p.baseReserve ∧ out.2 ≤ p.quoteReserve ∧ l ≤ p.lpSupply) ∧
      s' = { s with tokens := t₃, pools := s.pools.insert a.pool (p.withdrawn l out) } := by
  simp only [removeLiquidity, bind_eq_ok, loadPool_ok, checkLpAccount_ok, checkPoolAccounts_ok,
    checkPoolMints_ok, require_eq_ok, invoke_ok, okOr_eq_ok, checkedSub_eq_some, exists_punit,
    pure_eq_ok]
  constructor
  · rintro ⟨p, ⟨hp, hseeds⟩, hlp, ⟨hmints, ⟨hub, huq⟩, hvb, hvq⟩, hl, ⟨hbase, hquote⟩, hmint, out,
      hq, hmb, hmq, t₁, h₁, t₂, h₂, t₃, h₃, _, ⟨hb, rfl⟩, _, ⟨hq', rfl⟩, _, ⟨hlp', rfl⟩, rfl⟩
    exact ⟨p, out, t₁, t₂, t₃, hp, ⟨hseeds, hmints, hbase, hquote, hub, huq, hvb, hvq⟩,
      ⟨hlp, hmint⟩, hl, hq, ⟨hmb, hmq⟩, h₁, h₂, h₃, ⟨hb, hq', hlp'⟩, rfl⟩
  · rintro ⟨p, out, t₁, t₂, t₃, hp, hv, ⟨hlp, hmint⟩, hl, hq, ⟨hmb, hmq⟩, h₁, h₂, h₃,
      ⟨hb, hq', hlp'⟩, rfl⟩
    exact ⟨p, ⟨hp, hv.seeds⟩, hlp,
      ⟨hv.minted, ⟨hv.userBase, hv.userQuote⟩, hv.baseVault, hv.quoteVault⟩, hl,
      ⟨hv.baseMint, hv.quoteMint⟩, hmint, out, hq, hmb, hmq, t₁, h₁, t₂, h₂, t₃, h₃, _, ⟨hb, rfl⟩, _,
      ⟨hq', rfl⟩, _, ⟨hlp', rfl⟩, rfl⟩

theorem removeLiquidity_ok {a : RemoveLiquidity} {l mb mq : Nat}
    (h : removeLiquidity s a l mb mq = .ok s') :
    ∃ p out t₁ t₂ t₃, s.pools.lookup a.pool = some p ∧ a.Valid s.tokens p ∧
      quoteRemoveLiquidity l p.baseReserve p.quoteReserve p.lpSupply = some out ∧
      s.tokens.burn a.providerLpTa (.lpMint a.pool) (.wallet a.user) l = .ok t₁ ∧
      t₁.transfer a.baseVault a.baseMint a.userBaseTa (.poolAuthority a.pool) out.1 = .ok t₂ ∧
      t₂.transfer a.quoteVault a.quoteMint a.userQuoteTa (.poolAuthority a.pool) out.2 = .ok t₃ ∧
      s' = { s with tokens := t₃, pools := s.pools.insert a.pool (p.withdrawn l out) } := by
  obtain ⟨p, out, t₁, t₂, t₃, hp, hv, -, -, hq, -, h₁, h₂, h₃, -, hs⟩ := removeLiquidity_eq_ok.1 h
  exact ⟨p, out, t₁, t₂, t₃, hp, hv, hq, h₁, h₂, h₃, hs⟩

theorem swapExactIn_ok {a : SwapExactIn} {direction n m : Nat}
    (h : swapExactIn s a direction n m = .ok s') :
    ∃ p d quote t₁ t₂, s.pools.lookup a.pool = some p ∧ a.Valid s.tokens p ∧
      SwapDirection.fromU8 direction = some d ∧ quoteSwap p n d = some quote ∧
      s.tokens.transfer (a.payFrom d) (a.mintIn d) (a.vaultIn d) (.wallet a.user) n = .ok t₁ ∧
      t₁.transfer (a.vaultOut d) (a.mintOut d) (a.payTo d) (.poolAuthority a.pool)
        quote.amountOut = .ok t₂ ∧
      s' = { s with
        tokens := t₂, pools := s.pools.insert a.pool (p.traded n quote.amountOut d) } := by
  simp only [swapExactIn, bind_eq_ok, loadPool_ok, checkPoolAccounts_ok, checkPoolMints_ok,
    okOr_eq_ok, exists_punit] at h
  obtain ⟨p, ⟨hp, hseeds⟩, ⟨hmints, ⟨hub, huq⟩, hvb, hvq⟩, -, d, hd, ⟨hbase, hquote⟩, quote, hq, -,
    h⟩ := h
  have hvalid : a.Valid s.tokens p := ⟨hseeds, hmints, hbase, hquote, hub, huq, hvb, hvq⟩
  cases d with
  | baseToQuote =>
    simp only [bind_eq_ok, invoke_ok, okOr_eq_ok, checkedAdd_eq_some, checkedSub_eq_some,
      pure_eq_ok] at h
    obtain ⟨t₁, h₁, t₂, h₂, _, ⟨-, rfl⟩, _, ⟨-, rfl⟩, rfl⟩ := h
    exact ⟨p, .baseToQuote, quote, t₁, t₂, hp, hvalid, hd, hq, h₁, h₂, rfl⟩
  | quoteToBase =>
    simp only [bind_eq_ok, invoke_ok, okOr_eq_ok, checkedAdd_eq_some, checkedSub_eq_some,
      pure_eq_ok] at h
    obtain ⟨t₁, h₁, t₂, h₂, _, ⟨-, rfl⟩, _, ⟨-, rfl⟩, rfl⟩ := h
    exact ⟨p, .quoteToBase, quote, t₁, t₂, hp, hvalid, hd, hq, h₁, h₂, rfl⟩

end Handlers

end Aeqi.Unifutures
