import Aeqi.Unifutures.Steps

/-!
# aeqi_unifutures: pools and the ledger

What every reachable state satisfies: the ledger is sound, and the authority of each
pool holds at least the pool's reserves (`PoolWf`), in whatever accounts. A pool only
moves by a deposit, a withdrawal or a swap that is quoted on its own reserves
(`Moved`), and it is either empty or filled on all three counters.
-/

namespace Aeqi.Unifutures

open Aeqi.Lib Aeqi.Lib.Shares Aeqi.Solana Option
open Token (Ledger)
open Token.Ledger (heldBy Sound Keeps)

def DexIx.pool : DexIx → Option PoolPda
  | .addLiquidity a _ _ _ => some a.pool
  | .removeLiquidity a _ _ _ => some a.pool
  | .swapExactIn a _ _ _ => some a.pool
  | _ => none

/-! ## Moves of a pool -/

/-- What a transaction did to the pool at `k`. -/
inductive Moved (tx : DexTx) (k : PoolPda) (p : LiquidityPool) : LiquidityPool → Prop
  | other (hne : tx.ix.pool ≠ some k) : Moved tx k p p
  | add {a : AddLiquidity} {b q m : Nat} {quote : LiquidityQuote}
      (hix : tx.ix = .addLiquidity a b q m) (hk : a.pool = k)
      (hquote : quoteDeposit p b q = .ok quote) : Moved tx k p (p.deposited quote)
  | remove {a : RemoveLiquidity} {l mb mq : Nat} {out : Nat × Nat}
      (hix : tx.ix = .removeLiquidity a l mb mq) (hk : a.pool = k)
      (hquote : quoteRemoveLiquidity l p.baseReserve p.quoteReserve p.lpSupply = some out) :
      Moved tx k p (p.withdrawn l out)
  | swap {a : SwapExactIn} {direction n m : Nat} {d : SwapDirection} {quote : SwapQuote}
      (hix : tx.ix = .swapExactIn a direction n m) (hk : a.pool = k)
      (hd : SwapDirection.fromU8 direction = some d) (hquote : quoteSwap p n d = some quote) :
      Moved tx k p (p.traded n quote.amountOut d)

section Step

variable {w w' : Dex} {tx : DexTx} {k : PoolPda} {p : LiquidityPool}

theorem lookup_insert_pool {pools : Accounts PoolPda LiquidityPool} {k' : PoolPda}
    {p' p₁ : LiquidityPool} (hp : pools.lookup k = some p) (hp₁ : pools.lookup k' = some p₁) :
    (k' = k ∧ p₁ = p ∧ (pools.insert k' p').lookup k = some p') ∨
      (k' ≠ k ∧ (pools.insert k' p').lookup k = some p) := by
  by_cases hk : k' = k
  · subst hk
    exact .inl ⟨rfl, some.inj (hp₁.symm.trans hp), AList.lookup_insert _⟩
  · exact .inr ⟨hk, by rw [AList.lookup_insert_ne fun he => hk he.symm, hp]⟩

theorem pool_step (h : w.exec tx = .ok w') (hp : w.pools.lookup k = some p) :
    ∃ p', w'.pools.lookup k = some p' ∧ Moved tx k p p' := by
  unfold Dex.exec at h
  cases hix : tx.ix with
  | init trust payer =>
    rw [hix] at h
    obtain ⟨hpools, -⟩ := init_ok h
    exact ⟨p, by rw [hpools, hp], .other (by simp [hix, DexIx.pool])⟩
  | createLiquidityPool a poolId feeBps =>
    rw [hix] at h
    obtain ⟨_, _, _, hfree, -, -, -, -, -, rfl⟩ := createLiquidityPool_ok h
    have hne : k ≠ ⟨a.trust, poolId⟩ := by
      rintro rfl
      rw [hp] at hfree
      cases hfree
    exact ⟨p, by rw [AList.lookup_insert_ne hne, hp], .other (by simp [hix, DexIx.pool])⟩
  | addLiquidity a b q m =>
    rw [hix] at h
    obtain ⟨p₁, quote, _, _, _, hp₁, -, hquote, -, -, -, rfl⟩ := addLiquidity_ok h
    rcases lookup_insert_pool hp hp₁ with ⟨hk, rfl, hp'⟩ | ⟨hk, hp'⟩
    · exact ⟨_, hp', .add hix hk hquote⟩
    · exact ⟨_, hp', .other (by simp [hix, DexIx.pool, hk])⟩
  | removeLiquidity a l mb mq =>
    rw [hix] at h
    obtain ⟨p₁, out, _, _, _, hp₁, -, hquote, -, -, -, rfl⟩ := removeLiquidity_ok h
    rcases lookup_insert_pool hp hp₁ with ⟨hk, rfl, hp'⟩ | ⟨hk, hp'⟩
    · exact ⟨_, hp', .remove hix hk hquote⟩
    · exact ⟨_, hp', .other (by simp [hix, DexIx.pool, hk])⟩
  | swapExactIn a direction n m =>
    rw [hix] at h
    obtain ⟨p₁, d, quote, _, _, hp₁, -, hd, hquote, -, -, rfl⟩ := swapExactIn_ok h
    rcases lookup_insert_pool hp hp₁ with ⟨hk, rfl, hp'⟩ | ⟨hk, hp'⟩
    · exact ⟨_, hp', .swap hix hk hd hquote⟩
    · exact ⟨_, hp', .other (by simp [hix, DexIx.pool, hk])⟩
  | token ix =>
    rw [hix] at h
    simp only [bind_eq_ok, pure_eq_ok] at h
    obtain ⟨_, -, rfl⟩ := h
    exact ⟨p, hp, .other (by simp [hix, DexIx.pool])⟩

end Step

/-! ## Empty or filled -/

def EmptyOrFilled (p : LiquidityPool) : Prop :=
  (p.lpSupply = 0 ∧ p.baseReserve = 0 ∧ p.quoteReserve = 0) ∨
    (0 < p.lpSupply ∧ 0 < p.baseReserve ∧ 0 < p.quoteReserve)

section Filled

variable {p : LiquidityPool} {b q l n : Nat} {quote : LiquidityQuote} {d : SwapDirection}

theorem quoteDeposit_empty (hlp : p.lpSupply = 0) (h : quoteDeposit p b q = .ok quote) :
    0 < b ∧ 0 < q ∧ quote = ⟨Nat.sqrt (b * q), b, q⟩ := by
  rw [quoteDeposit, if_pos hlp, okOr_eq_ok] at h
  exact quoteInitialLiquidity_some h

theorem EmptyOrFilled.filled (hfill : EmptyOrFilled p) (hlp : 0 < p.lpSupply) :
    0 < p.baseReserve ∧ 0 < p.quoteReserve := by
  rcases hfill with ⟨hzero, -, -⟩ | ⟨-, hb, hq⟩
  · omega
  · exact ⟨hb, hq⟩

/-- The shares that a deposit of `b` and `q` into a filled pool mints. -/
abbrev LiquidityPool.sharesFor (p : LiquidityPool) (b q : Nat) : Nat :=
  proRataShares b q p.baseReserve p.quoteReserve p.lpSupply

theorem quoteDeposit_filled (hfill : EmptyOrFilled p) (hlp : 0 < p.lpSupply)
    (h : quoteDeposit p b q = .ok quote) :
    0 < p.sharesFor b q ∧ quote = ⟨p.sharesFor b q, p.sharesFor b q * p.baseReserve / p.lpSupply,
        p.sharesFor b q * p.quoteReserve / p.lpSupply⟩ := by
  obtain ⟨hb, hq⟩ := hfill.filled hlp
  rw [quoteDeposit, if_neg (by omega), okOr_eq_ok] at h
  exact quoteAddLiquidity_some hlp hb hq h

theorem EmptyOrFilled.deposited (hfill : EmptyOrFilled p) (h : quoteDeposit p b q = .ok quote) :
    EmptyOrFilled (p.deposited quote) := by
  rcases Nat.eq_zero_or_pos p.lpSupply with hlp | hlp
  · obtain ⟨hb, hq, rfl⟩ := quoteDeposit_empty hlp h
    have hroot : 0 < Nat.sqrt (b * q) := Nat.sqrt_pos.2 (Nat.mul_pos hb hq)
    exact .inr ⟨Nat.add_pos_right _ hroot, Nat.add_pos_right _ hb, Nat.add_pos_right _ hq⟩
  · obtain ⟨hb, hq⟩ := hfill.filled hlp
    exact .inr ⟨Nat.add_pos_left hlp _, Nat.add_pos_left hb _, Nat.add_pos_left hq _⟩

theorem EmptyOrFilled.withdrawn {out : Nat × Nat} (hfill : EmptyOrFilled p)
    (h : quoteRemoveLiquidity l p.baseReserve p.quoteReserve p.lpSupply = some out) :
    EmptyOrFilled (p.withdrawn l out) := by
  obtain ⟨hl, hle, -, -, rfl⟩ := quoteRemoveLiquidity_some.1 h
  obtain ⟨hb, hq⟩ := hfill.filled (by omega)
  rcases Nat.lt_or_eq_of_le hle with hlt | rfl
  · exact .inr ⟨Nat.sub_pos_of_lt hlt, Nat.sub_pos_of_lt (withdraw_lt hb hlt),
      Nat.sub_pos_of_lt (withdraw_lt hq hlt)⟩
  · refine .inl ⟨Nat.sub_self _, ?_, ?_⟩
    · simp [LiquidityPool.withdrawn, withdraw_all hl]
    · simp [LiquidityPool.withdrawn, withdraw_all hl]

theorem traded_facts {quote : SwapQuote} (h : quoteSwap p n d = some quote) :
    (0 < p.baseReserve ∧ 0 < p.quoteReserve) ∧ quote.amountOut ≤ p.reserveOut d ∧
      0 < (p.traded n quote.amountOut d).baseReserve ∧
      0 < (p.traded n quote.amountOut d).quoteReserve ∧
      p.baseReserve * p.quoteReserve ≤ (p.traded n quote.amountOut d).baseReserve *
        (p.traded n quote.amountOut d).quoteReserve := by
  rw [quoteSwap_eq] at h
  obtain ⟨hin, hout, e, kept, rfl, hamount⟩ := quoteSwapExactIn_some h
  have hlt := swap_out_lt hin hout (e := e)
  have hprod := swap_product_le (p.reserveIn d) (p.reserveOut d) e kept
  rw [← hamount] at hlt hprod
  cases d with
  | baseToQuote =>
    exact ⟨⟨hin, hout⟩, hlt.le, Nat.add_pos_left hin _, Nat.sub_pos_of_lt hlt, hprod⟩
  | quoteToBase =>
    refine ⟨⟨hout, hin⟩, hlt.le, Nat.sub_pos_of_lt hlt, Nat.add_pos_left hin _, ?_⟩
    rw [Nat.mul_comm p.baseReserve, Nat.mul_comm (LiquidityPool.baseReserve _)]
    exact hprod

theorem lpSupply_traded (out : Nat) : (p.traded n out d).lpSupply = p.lpSupply := by
  cases d <;> rfl

theorem EmptyOrFilled.traded {quote : SwapQuote} (hfill : EmptyOrFilled p)
    (h : quoteSwap p n d = some quote) : EmptyOrFilled (p.traded n quote.amountOut d) := by
  obtain ⟨⟨hb, -⟩, -, hb', hq', -⟩ := traded_facts h
  rcases hfill with ⟨-, hzero, -⟩ | ⟨hlp, -, -⟩
  · omega
  · exact .inr ⟨by rwa [lpSupply_traded], hb', hq'⟩

end Filled

/-! ## The ledger around the pools -/

section Ledger

variable {L L' : Ledger Address} {source mint dest authority a owner k' : Address} {n : Nat}

theorem Owned.transfer (ho : Owned L a k' owner)
    (h : L.transfer source mint dest authority n = .ok L') : Owned L' a k' owner := by
  obtain ⟨acc, ha, hk, howner⟩ := ho
  obtain ⟨m, -, ha'⟩ := Token.Ledger.lookup_pay_out h ha
  exact ⟨_, ha', hk, howner⟩

theorem Owned.keeps (ho : Owned L a k' owner) (h : Keeps owner L L') : Owned L' a k' owner := by
  obtain ⟨acc, ha, hk, howner⟩ := ho
  obtain ⟨m, -, ha'⟩ := h.account ha howner
  exact ⟨_, ha', hk, howner⟩

theorem Owned.heldBy_pay_in {pool : PoolPda} {user : Pubkey}
    (ho : Owned L dest mint (.poolAuthority pool))
    (h : L.transfer source mint dest (.wallet user) n = .ok L') :
    heldBy (.poolAuthority pool) mint L + n = heldBy (.poolAuthority pool) mint L' := by
  obtain ⟨acc, ha, -, howner⟩ := ho
  rw [← howner]
  exact Token.Ledger.heldBy_pay_in h ha (by rw [howner]; exact Address.noConfusion)

end Ledger

/-! ## Well-formed states -/

/-- A pool and what its authority holds. -/
structure PoolWf (L : Ledger Address) (k : PoolPda) (p : LiquidityPool) : Prop where
  seeds : k = ⟨p.trust, p.poolId⟩
  apart : p.baseMint ≠ p.quoteMint
  lpMint : p.lpMint = .lpMint k
  baseVault : Owned L p.baseVault p.baseMint (.poolAuthority k)
  quoteVault : Owned L p.quoteVault p.quoteMint (.poolAuthority k)
  base : p.baseReserve ≤ heldBy (.poolAuthority k) p.baseMint L
  quote : p.quoteReserve ≤ heldBy (.poolAuthority k) p.quoteMint L
  filled : EmptyOrFilled p

structure Wf (w : Dex) : Prop where
  sound : Sound w.tokens
  pool : ∀ {k p}, w.pools.lookup k = some p → PoolWf w.tokens k p

namespace PoolWf

variable {L t₁ t₂ t₃ : Ledger Address} {k : PoolPda} {p : LiquidityPool}

theorem keeps (hp : PoolWf L k p) (h : Keeps (.poolAuthority k) L t₁) : PoolWf t₁ k p :=
  { hp with
    baseVault := hp.baseVault.keeps h
    quoteVault := hp.quoteVault.keeps h
    base := Nat.le_trans hp.base (h.held _)
    quote := Nat.le_trans hp.quote (h.held _) }

theorem add {a : AddLiquidity} {b q : Nat} {quote : LiquidityQuote} (hp : PoolWf L a.pool p)
    (hvalid : a.Valid L p) (hquote : quoteDeposit p b q = .ok quote)
    (h₁ : L.transfer a.userBaseTa a.baseMint a.baseVault (.wallet a.user) quote.baseUsed = .ok t₁)
    (h₂ : t₁.transfer a.userQuoteTa a.quoteMint a.quoteVault (.wallet a.user) quote.quoteUsed =
      .ok t₂)
    (h₃ : t₂.mintTo (.lpMint a.pool) a.providerLpTa (.poolAuthority a.pool) quote.lpOut = .ok t₃) :
    PoolWf t₃ a.pool (p.deposited quote) := by
  have hkeep₁ : Keeps (.poolAuthority a.pool) L t₁ := .transfer h₁ Address.noConfusion
  have hkeep₂ : Keeps (.poolAuthority a.pool) t₁ t₂ := .transfer h₂ Address.noConfusion
  have hkeep₃ : Keeps (.poolAuthority a.pool) t₂ t₃ := .mintTo h₃
  have hbase := hvalid.baseVault.heldBy_pay_in h₁
  have hquote' := (hvalid.quoteVault.keeps hkeep₁).heldBy_pay_in h₂
  rw [hvalid.baseMint] at hbase
  rw [hvalid.quoteMint] at hquote'
  have hp₃ := hp.keeps (hkeep₁.trans (hkeep₂.trans hkeep₃))
  refine { hp₃ with base := ?_, quote := ?_, filled := hp.filled.deposited hquote }
  · calc p.baseReserve + quote.baseUsed
        ≤ heldBy (.poolAuthority a.pool) p.baseMint L + quote.baseUsed :=
          Nat.add_le_add_right hp.base _
      _ = heldBy (.poolAuthority a.pool) p.baseMint t₁ := hbase
      _ ≤ heldBy (.poolAuthority a.pool) p.baseMint t₃ := (hkeep₂.trans hkeep₃).held _
  · calc p.quoteReserve + quote.quoteUsed
        ≤ heldBy (.poolAuthority a.pool) p.quoteMint t₁ + quote.quoteUsed :=
          Nat.add_le_add_right (Nat.le_trans hp.quote (hkeep₁.held _)) _
      _ = heldBy (.poolAuthority a.pool) p.quoteMint t₂ := hquote'
      _ ≤ heldBy (.poolAuthority a.pool) p.quoteMint t₃ := hkeep₃.held _

theorem remove {a : RemoveLiquidity} {l : Nat} {out : Nat × Nat} (hp : PoolWf L a.pool p)
    (hvalid : a.Valid L p)
    (hquote : quoteRemoveLiquidity l p.baseReserve p.quoteReserve p.lpSupply = some out)
    (h₁ : L.burn a.providerLpTa (.lpMint a.pool) (.wallet a.user) l = .ok t₁)
    (h₂ : t₁.transfer a.baseVault a.baseMint a.userBaseTa (.poolAuthority a.pool) out.1 = .ok t₂)
    (h₃ : t₂.transfer a.quoteVault a.quoteMint a.userQuoteTa (.poolAuthority a.pool) out.2 =
      .ok t₃) : PoolWf t₃ a.pool (p.withdrawn l out) := by
  have hp₁ : PoolWf t₁ a.pool p := hp.keeps (.burn h₁ Address.noConfusion)
  have hfilled := hp.filled.withdrawn hquote
  rw [hvalid.baseMint] at h₂
  rw [hvalid.quoteMint] at h₃
  have hbase₂ := Token.Ledger.heldBy_pay_out h₂ (.poolAuthority a.pool)
  have hquote₂ := Token.Ledger.heldBy_other_mint h₂ (.poolAuthority a.pool) hp.apart.symm
  have hbase₃ := Token.Ledger.heldBy_other_mint h₃ (.poolAuthority a.pool) hp.apart
  have hquote₃ := Token.Ledger.heldBy_pay_out h₃ (.poolAuthority a.pool)
  have hb := hp₁.base
  have hq := hp₁.quote
  have hbase : p.baseReserve - out.1 ≤ heldBy (.poolAuthority a.pool) p.baseMint t₃ := by omega
  have hquote : p.quoteReserve - out.2 ≤ heldBy (.poolAuthority a.pool) p.quoteMint t₃ := by omega
  exact { hp₁ with
    baseVault := (hp₁.baseVault.transfer h₂).transfer h₃
    quoteVault := (hp₁.quoteVault.transfer h₂).transfer h₃
    base := hbase
    quote := hquote
    filled := hfilled }

theorem swap {a : SwapExactIn} {n : Nat} {d : SwapDirection} {quote : SwapQuote}
    (hp : PoolWf L a.pool p) (hvalid : a.Valid L p) (hquote : quoteSwap p n d = some quote)
    (h₁ : L.transfer (a.payFrom d) (a.mintIn d) (a.vaultIn d) (.wallet a.user) n = .ok t₁)
    (h₂ : t₁.transfer (a.vaultOut d) (a.mintOut d) (a.payTo d) (.poolAuthority a.pool)
      quote.amountOut = .ok t₂) : PoolWf t₂ a.pool (p.traded n quote.amountOut d) := by
  have hkeep : Keeps (.poolAuthority a.pool) L t₁ := .transfer h₁ Address.noConfusion
  have hp₁ : PoolWf t₁ a.pool p := hp.keeps hkeep
  have hb := hp.base
  have hq := hp.quote
  have hb₁ := hkeep.held p.baseMint
  have hq₁ := hkeep.held p.quoteMint
  have hfilled := hp.filled.traded hquote
  have hbv := hp₁.baseVault.transfer h₂
  have hqv := hp₁.quoteVault.transfer h₂
  cases d with
  | baseToQuote =>
    have hin := hvalid.baseVault.heldBy_pay_in h₁
    have hout : t₁.transfer a.quoteVault a.quoteMint a.userQuoteTa (.poolAuthority a.pool)
      quote.amountOut = .ok t₂ := h₂
    rw [hvalid.baseMint] at hin
    rw [hvalid.quoteMint] at hout
    have hbase₂ := Token.Ledger.heldBy_other_mint hout (.poolAuthority a.pool) hp.apart
    have hquote₂ := Token.Ledger.heldBy_pay_out hout (.poolAuthority a.pool)
    have hbase : p.baseReserve + n ≤ heldBy (.poolAuthority a.pool) p.baseMint t₂ := by omega
    have hquote : p.quoteReserve - quote.amountOut ≤
        heldBy (.poolAuthority a.pool) p.quoteMint t₂ := by omega
    exact { hp₁ with
      baseVault := hbv, quoteVault := hqv, base := hbase, quote := hquote, filled := hfilled }
  | quoteToBase =>
    have hin := hvalid.quoteVault.heldBy_pay_in h₁
    have hout : t₁.transfer a.baseVault a.baseMint a.userBaseTa (.poolAuthority a.pool)
      quote.amountOut = .ok t₂ := h₂
    rw [hvalid.quoteMint] at hin
    rw [hvalid.baseMint] at hout
    have hbase₂ := Token.Ledger.heldBy_pay_out hout (.poolAuthority a.pool)
    have hquote₂ := Token.Ledger.heldBy_other_mint hout (.poolAuthority a.pool) hp.apart.symm
    have hbase : p.baseReserve - quote.amountOut ≤
        heldBy (.poolAuthority a.pool) p.baseMint t₂ := by omega
    have hquote : p.quoteReserve + n ≤ heldBy (.poolAuthority a.pool) p.quoteMint t₂ := by omega
    exact { hp₁ with
      baseVault := hbv, quoteVault := hqv, base := hbase, quote := hquote, filled := hfilled }

end PoolWf

section Run

variable {w w' : Dex} {tx : DexTx}

theorem execToken_frame {L L' : Ledger Address} {ix : TokenIx} (hs : Sound L)
    (h : execToken L ix = .ok L') : Sound L' ∧ ∀ k, Keeps (.poolAuthority k) L L' := by
  cases ix with
  | initializeMint => exact ⟨hs.initializeMint h, fun _ => .initializeMint h⟩
  | initializeAccount | createAssociated =>
    exact ⟨hs.initializeAccount h, fun _ => .initializeAccount h⟩
  | mintTo => exact ⟨hs.mintTo h, fun _ => .mintTo h⟩
  | transfer => exact ⟨hs.transfer h, fun _ => .transfer h Address.noConfusion⟩
  | burn => exact ⟨hs.burn h, fun _ => .burn h Address.noConfusion⟩

theorem tokens_step (hs : Sound w.tokens) (h : w.exec tx = .ok w') :
    Sound w'.tokens ∧ ∀ k, tx.ix.pool ≠ some k → Keeps (.poolAuthority k) w.tokens w'.tokens := by
  unfold Dex.exec at h
  cases hix : tx.ix with
  | init trust payer =>
    rw [hix] at h
    obtain ⟨-, htokens⟩ := init_ok h
    rw [htokens]
    exact ⟨hs, fun _ _ => .refl _ _⟩
  | createLiquidityPool a poolId feeBps =>
    rw [hix] at h
    obtain ⟨_, _, _, -, h₁, h₂, h₃, -, -, rfl⟩ := createLiquidityPool_ok h
    have hs₃ := ((hs.initializeMint h₁).initializeAccount h₂).initializeAccount h₃
    exact ⟨hs₃, fun _ _ => (Keeps.initializeMint h₁).trans
      ((Keeps.initializeAccount h₂).trans (Keeps.initializeAccount h₃))⟩
  | addLiquidity a b q m =>
    rw [hix] at h
    obtain ⟨_, _, _, _, _, -, -, -, h₁, h₂, h₃, rfl⟩ := addLiquidity_ok h
    have hs₃ := ((hs.transfer h₁).transfer h₂).mintTo h₃
    exact ⟨hs₃, fun _ _ => (Keeps.transfer h₁ Address.noConfusion).trans
      ((Keeps.transfer h₂ Address.noConfusion).trans (Keeps.mintTo h₃))⟩
  | removeLiquidity a l mb mq =>
    rw [hix] at h
    obtain ⟨_, _, _, _, _, -, -, -, h₁, h₂, h₃, rfl⟩ := removeLiquidity_ok h
    have hs₃ := ((hs.burn h₁).transfer h₂).transfer h₃
    refine ⟨hs₃, fun k hk => ?_⟩
    have hne : Address.poolAuthority a.pool ≠ .poolAuthority k := by
      simpa [DexIx.pool] using hk
    exact (Keeps.burn h₁ Address.noConfusion).trans
      ((Keeps.transfer h₂ hne).trans (Keeps.transfer h₃ hne))
  | swapExactIn a direction n m =>
    rw [hix] at h
    obtain ⟨_, _, _, _, _, -, -, -, -, h₁, h₂, rfl⟩ := swapExactIn_ok h
    refine ⟨(hs.transfer h₁).transfer h₂, fun k hk => ?_⟩
    have hne : Address.poolAuthority a.pool ≠ .poolAuthority k := by
      simpa [DexIx.pool] using hk
    exact (Keeps.transfer h₁ Address.noConfusion).trans (Keeps.transfer h₂ hne)
  | token ix =>
    rw [hix] at h
    simp only [bind_eq_ok, invoke_ok, pure_eq_ok] at h
    obtain ⟨_, htokens, rfl⟩ := h
    obtain ⟨hs', hkeep⟩ := execToken_frame hs htokens
    exact ⟨hs', fun k _ => hkeep k⟩

theorem PoolWf.create {k : PoolPda} {baseMint quoteMint : Address} {feeBps : Nat}
    {t₁ t₂ t₃ : Ledger Address} (hne : baseMint ≠ quoteMint)
    (h₂ : t₁.initializeAccount (.associated (.poolAuthority k) baseMint) baseMint
      (.poolAuthority k) = .ok t₂)
    (h₃ : t₂.initializeAccount (.associated (.poolAuthority k) quoteMint) quoteMint
      (.poolAuthority k) = .ok t₃) :
    PoolWf t₃ k ⟨k.trust, k.poolId, baseMint, quoteMint, .associated (.poolAuthority k) baseMint,
      .associated (.poolAuthority k) quoteMint, .lpMint k, 0, 0, 0, feeBps⟩ := by
  have hbase : Owned t₂ (.associated (.poolAuthority k) baseMint) baseMint (.poolAuthority k) := by
    obtain ⟨-, -, rfl⟩ := Token.Ledger.initializeAccount_ok h₂
    exact ⟨_, AList.lookup_insert _, rfl, rfl⟩
  have hquote : Owned t₃ (.associated (.poolAuthority k) quoteMint) quoteMint
      (.poolAuthority k) := by
    obtain ⟨-, -, rfl⟩ := Token.Ledger.initializeAccount_ok h₃
    exact ⟨_, AList.lookup_insert _, rfl, rfl⟩
  exact ⟨rfl, hne, rfl, hbase.keeps (.initializeAccount h₃), hquote, Nat.zero_le _, Nat.zero_le _,
    .inl ⟨rfl, rfl, rfl⟩⟩

theorem Wf.insert (hwf : Wf w) {L : Ledger Address} {k₁ : PoolPda} {p₁ : LiquidityPool}
    (hs : Sound L) (hkeep : ∀ k, k ≠ k₁ → Keeps (.poolAuthority k) w.tokens L)
    (hp₁ : PoolWf L k₁ p₁) : Wf ⟨w.modules, w.pools.insert k₁ p₁, L⟩ := by
  refine ⟨hs, fun {k p} hp => ?_⟩
  rcases Accounts.lookup_insert_some hp with ⟨rfl, rfl⟩ | ⟨hk, hp⟩
  · exact hp₁
  · exact (hwf.pool hp).keeps (hkeep k hk)

theorem Wf.init : Wf Dex.init :=
  ⟨.empty, fun h => by simp [Dex.init] at h⟩

theorem Wf.step (hwf : Wf w) (h : w.exec tx = .ok w') : Wf w' := by
  obtain ⟨hs, hkeep⟩ := tokens_step hwf.sound h
  have hother : ∀ k₁ k, tx.ix.pool = some k₁ → k ≠ k₁ →
      Keeps (.poolAuthority k) w.tokens w'.tokens := by
    intro k₁ k hpool hne
    refine hkeep k fun heq => hne ?_
    exact some.inj (heq.symm.trans hpool)
  unfold Dex.exec at h
  cases hix : tx.ix with
  | init trust payer =>
    rw [hix] at h
    obtain ⟨hpools, -⟩ := init_ok h
    refine ⟨hs, fun {k p} hp => ?_⟩
    rw [hpools] at hp
    exact (hwf.pool hp).keeps (hkeep k (by simp [hix, DexIx.pool]))
  | createLiquidityPool a poolId feeBps =>
    rw [hix] at h
    obtain ⟨t₁, t₂, t₃, -, -, h₂, h₃, hne, -, rfl⟩ := createLiquidityPool_ok h
    exact hwf.insert hs (fun k _ => hkeep k (by simp [hix, DexIx.pool])) (.create hne h₂ h₃)
  | addLiquidity a b q m =>
    rw [hix] at h
    obtain ⟨p, quote, t₁, t₂, t₃, hp, hvalid, hquote, h₁, h₂, h₃, rfl⟩ := addLiquidity_ok h
    exact hwf.insert hs (fun k => hother a.pool k (by rw [hix]; rfl))
      ((hwf.pool hp).add hvalid hquote h₁ h₂ h₃)
  | removeLiquidity a l mb mq =>
    rw [hix] at h
    obtain ⟨p, out, t₁, t₂, t₃, hp, hvalid, hquote, h₁, h₂, h₃, rfl⟩ := removeLiquidity_ok h
    exact hwf.insert hs (fun k => hother a.pool k (by rw [hix]; rfl))
      ((hwf.pool hp).remove hvalid hquote h₁ h₂ h₃)
  | swapExactIn a direction n m =>
    rw [hix] at h
    obtain ⟨p, d, quote, t₁, t₂, hp, hvalid, -, hquote, h₁, h₂, rfl⟩ := swapExactIn_ok h
    exact hwf.insert hs (fun k => hother a.pool k (by rw [hix]; rfl))
      ((hwf.pool hp).swap hvalid hquote h₁ h₂)
  | token ix =>
    rw [hix] at h
    simp only [bind_eq_ok, pure_eq_ok] at h
    obtain ⟨_, -, rfl⟩ := h
    exact ⟨hs, fun {k _} hp => (hwf.pool hp).keeps (hkeep k (by simp [hix, DexIx.pool]))⟩

theorem Wf.of_run {hist : List (Dex × DexTx)} (run : Run (okStep Dex.exec) .init hist w) : Wf w :=
  run.invariant .init fun _ _ _ hwf h => hwf.step h

end Run

end Aeqi.Unifutures
