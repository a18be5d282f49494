import Aeqi.Unifutures.Reserves

/-!
# aeqi_unifutures: liquidity providers and rounding

Withdrawals and swaps never lower what a share is worth. A deposit does as soon as
one of the amounts it pays is rounded down: the shares are minted in full, and the
part that was rounded away comes from everybody else. `WholeDeposit` is the condition
that nothing is rounded, and it is exact.
-/

namespace Aeqi.Unifutures

open Aeqi.Lib Aeqi.Lib.Shares Option

/-! ## The law and the condition -/

def DexIx.MovesShares : DexIx → Prop
  | .addLiquidity _ _ _ _ => True
  | .removeLiquidity _ _ _ _ => True
  | _ => False

/-- What a share is worth does not fall: both reserves together in every instruction,
each of them when shares are minted or burned. -/
structure NotDiluted (tx : DexTx) (p p' : LiquidityPool) : Prop where
  product : p.baseReserve * p.quoteReserve * p'.lpSupply ^ 2 ≤
    p'.baseReserve * p'.quoteReserve * p.lpSupply ^ 2
  sides : tx.ix.MovesShares →
    p.baseReserve * p'.lpSupply ≤ p'.baseReserve * p.lpSupply ∧
      p.quoteReserve * p'.lpSupply ≤ p'.quoteReserve * p.lpSupply

/-- A deposit into the pool at `k` mints shares of which both reserves have a whole
amount each. -/
def WholeDeposit (k : PoolPda) (w : Dex) (tx : DexTx) : Prop :=
  match tx.ix with
  | .addLiquidity a b q _ => a.pool = k → ∀ p ∈ w.pools.lookup k,
      p.lpSupply ∣ p.sharesFor b q * p.baseReserve ∧ p.lpSupply ∣ p.sharesFor b q * p.quoteReserve
  | _ => True

/-- The pool at `k` is at most deposited into. -/
def OnlyDeposits (k : PoolPda) (tx : DexTx) : Prop :=
  match tx.ix with
  | .removeLiquidity a _ _ _ => a.pool ≠ k
  | .swapExactIn a _ _ _ => a.pool ≠ k
  | _ => True

section Step

variable {w : Dex} {tx : DexTx} {k : PoolPda} {p p' : LiquidityPool}

theorem deposited_sides_iff {b q : Nat} {quote : LiquidityQuote} (hfill : EmptyOrFilled p)
    (hlp : 0 < p.lpSupply) (h : quoteDeposit p b q = .ok quote) :
    (p.baseReserve * (p.deposited quote).lpSupply ≤ (p.deposited quote).baseReserve * p.lpSupply ↔
      p.lpSupply ∣ p.sharesFor b q * p.baseReserve) ∧
    (p.quoteReserve * (p.deposited quote).lpSupply ≤ (p.deposited quote).quoteReserve * p.lpSupply ↔
      p.lpSupply ∣ p.sharesFor b q * p.quoteReserve) := by
  obtain ⟨-, rfl⟩ := quoteDeposit_filled hfill hlp h
  exact ⟨deposit_ge_iff, deposit_ge_iff⟩

theorem deposited_sides_of_product {b q : Nat} {quote : LiquidityQuote} (hfill : EmptyOrFilled p)
    (hlp : 0 < p.lpSupply) (h : quoteDeposit p b q = .ok quote)
    (hprod : p.baseReserve * p.quoteReserve * (p.deposited quote).lpSupply ^ 2 ≤
      (p.deposited quote).baseReserve * (p.deposited quote).quoteReserve * p.lpSupply ^ 2) :
    p.baseReserve * (p.deposited quote).lpSupply ≤ (p.deposited quote).baseReserve * p.lpSupply ∧
      p.quoteReserve * (p.deposited quote).lpSupply ≤ (p.deposited quote).quoteReserve * p.lpSupply := by
  obtain ⟨hb, hq⟩ := hfill.filled hlp
  obtain ⟨-, rfl⟩ := quoteDeposit_filled hfill hlp h
  have hlp' : 0 < p.lpSupply + p.sharesFor b q := Nat.add_pos_left hlp _
  exact sides_le_of_product_le deposit_le deposit_le (Nat.mul_pos hb hlp') (Nat.mul_pos hq hlp') hprod

theorem withdrawn_sides {l : Nat} {out : Nat × Nat}
    (h : quoteRemoveLiquidity l p.baseReserve p.quoteReserve p.lpSupply = some out) :
    p.baseReserve * (p.withdrawn l out).lpSupply ≤ (p.withdrawn l out).baseReserve * p.lpSupply ∧
      p.quoteReserve * (p.withdrawn l out).lpSupply ≤ (p.withdrawn l out).quoteReserve * p.lpSupply := by
  obtain ⟨-, -, -, -, rfl⟩ := quoteRemoveLiquidity_some.1 h
  exact ⟨withdraw_le _ _ _, withdraw_le _ _ _⟩

theorem Moved.notDiluted_iff (hp : w.pools.lookup k = some p) (hfill : EmptyOrFilled p)
    (hlp : 0 < p.lpSupply) (h : Moved tx k p p') : NotDiluted tx p p' ↔ WholeDeposit k w tx := by
  cases h with
  | other hne =>
    refine iff_of_true ⟨le_rfl, fun _ => ⟨le_rfl, le_rfl⟩⟩ ?_
    unfold WholeDeposit
    split
    · next a b q m hix =>
      intro hk
      exact absurd (by rw [hix, DexIx.pool, hk]) hne
    · trivial
  | @add a b q m quote hix hk hquote =>
    obtain ⟨hbase, hquote'⟩ := deposited_sides_iff hfill hlp hquote
    have hwhole : WholeDeposit k w tx ↔ p.lpSupply ∣ p.sharesFor b q * p.baseReserve ∧
        p.lpSupply ∣ p.sharesFor b q * p.quoteReserve := by
      simp [WholeDeposit, hix, hk, hp]
    rw [hwhole, ← hbase, ← hquote']
    constructor
    · intro hlaw
      exact deposited_sides_of_product hfill hlp hquote hlaw.product
    · intro hsides
      exact ⟨product_le hsides.1 hsides.2, fun _ => hsides⟩
  | remove hix hk hquote =>
    have hsides := withdrawn_sides hquote
    exact iff_of_true ⟨product_le hsides.1 hsides.2, fun _ => hsides⟩
      (by simp [WholeDeposit, hix])
  | swap hix hk hd hquote =>
    obtain ⟨-, -, -, -, hprod⟩ := traded_facts hquote
    refine iff_of_true ⟨?_, fun hmoves => ?_⟩ (by simp [WholeDeposit, hix])
    · rw [lpSupply_traded]
      exact Nat.mul_le_mul_right _ hprod
    · rw [hix] at hmoves
      exact hmoves.elim

end Step

/-! ## Deposits and what they are worth -/

/-- What a transaction deposits into the pool at `k`. -/
def depositOf (k : PoolPda) (w : Dex) (tx : DexTx) : LiquidityQuote :=
  match tx.ix, w.pools.lookup k with
  | .addLiquidity a b q _, some p =>
    if a.pool = k then (quoteDeposit p b q).toOption.getD ⟨0, 0, 0⟩ else ⟨0, 0, 0⟩
  | _, _ => ⟨0, 0, 0⟩

/-- All that was paid into the pool at `k`, and the shares minted for it. -/
def deposits (k : PoolPda) : List (Dex × DexTx) → LiquidityQuote
  | [] => ⟨0, 0, 0⟩
  | (w, tx) :: hist =>
    let before := deposits k hist
    let quote := depositOf k w tx
    ⟨before.lpOut + quote.lpOut, before.baseUsed + quote.baseUsed,
      before.quoteUsed + quote.quoteUsed⟩

/-- A pool after deposits of `paid`: the reserves and shares are the sums, and a share is
worth what it was. -/
structure Grown (p₀ p : LiquidityPool) (paid : LiquidityQuote) : Prop where
  lp : p.lpSupply = p₀.lpSupply + paid.lpOut
  base : p.baseReserve = p₀.baseReserve + paid.baseUsed
  quote : p.quoteReserve = p₀.quoteReserve + paid.quoteUsed
  basePrice : p.baseReserve * p₀.lpSupply = p₀.baseReserve * p.lpSupply
  quotePrice : p.quoteReserve * p₀.lpSupply = p₀.quoteReserve * p.lpSupply

namespace Grown

variable {p₀ p : LiquidityPool} {paid quote : LiquidityQuote} {b q : Nat}

theorem refl (p : LiquidityPool) : Grown p p ⟨0, 0, 0⟩ := ⟨rfl, rfl, rfl, rfl, rfl⟩

theorem deposit (hfill₀ : EmptyOrFilled p₀) (hfill : EmptyOrFilled p) (hg : Grown p₀ p paid)
    (h : quoteDeposit p b q = .ok quote)
    (hwhole : p.lpSupply ∣ p.sharesFor b q * p.baseReserve ∧
      p.lpSupply ∣ p.sharesFor b q * p.quoteReserve) :
    Grown p₀ (p.deposited quote) ⟨paid.lpOut + quote.lpOut, paid.baseUsed + quote.baseUsed,
      paid.quoteUsed + quote.quoteUsed⟩ := by
  have hprice : (p.deposited quote).baseReserve * p₀.lpSupply =
        p₀.baseReserve * (p.deposited quote).lpSupply ∧
      (p.deposited quote).quoteReserve * p₀.lpSupply =
        p₀.quoteReserve * (p.deposited quote).lpSupply := by
    rcases Nat.eq_zero_or_pos p.lpSupply with hlp | hlp
    · -- a first deposit starts from nothing
      have hlp₀ : p₀.lpSupply = 0 := by
        have hsum := hg.lp
        omega
      rcases hfill₀ with ⟨-, hb, hq⟩ | ⟨hpos, -, -⟩
      · simp [hlp₀, hb, hq]
      · omega
    · obtain ⟨hbase, hquote⟩ := deposited_sides_iff hfill hlp h
      have hbase' := hbase.2 hwhole.1
      have hquote' := hquote.2 hwhole.2
      obtain ⟨-, rfl⟩ := quoteDeposit_filled hfill hlp h
      exact ⟨price_trans hlp hg.basePrice (Nat.le_antisymm deposit_le hbase'),
        price_trans hlp hg.quotePrice (Nat.le_antisymm deposit_le hquote')⟩
  have hlp := hg.lp
  have hb := hg.base
  have hq := hg.quote
  refine ⟨?_, ?_, ?_, hprice.1, hprice.2⟩
  · show p.lpSupply + quote.lpOut = p₀.lpSupply + (paid.lpOut + quote.lpOut)
    omega
  · show p.baseReserve + quote.baseUsed = p₀.baseReserve + (paid.baseUsed + quote.baseUsed)
    omega
  · show p.quoteReserve + quote.quoteUsed = p₀.quoteReserve + (paid.quoteUsed + quote.quoteUsed)
    omega

theorem withdraw_le {out : Nat × Nat} (hg : Grown p₀ p paid)
    (h : quoteRemoveLiquidity paid.lpOut p.baseReserve p.quoteReserve p.lpSupply = some out) :
    out.1 ≤ paid.baseUsed ∧ out.2 ≤ paid.quoteUsed := by
  obtain ⟨-, -, -, -, rfl⟩ := quoteRemoveLiquidity_some.1 h
  have hside : ∀ {R R₀ n : Nat}, R = R₀ + n → R * p₀.lpSupply = R₀ * p.lpSupply →
      paid.lpOut * R / p.lpSupply ≤ n := by
    rintro _ R₀ n rfl hprice
    rw [hg.lp] at hprice ⊢
    apply round_trip_le
    have hexpand : R₀ * p₀.lpSupply + n * p₀.lpSupply = R₀ * p₀.lpSupply + R₀ * paid.lpOut := by
      rw [← Nat.add_mul, ← Nat.mul_add, hprice]
    omega
  exact ⟨hside hg.base hg.basePrice, hside hg.quote hg.quotePrice⟩

end Grown

section Run

variable {w w₁ : Dex} {hist : List (Dex × DexTx)} {k : PoolPda} {p : LiquidityPool}

theorem depositOf_other {tx : DexTx} (hne : tx.ix.pool ≠ some k) :
    depositOf k w tx = ⟨0, 0, 0⟩ := by
  unfold depositOf
  split
  · next hix _ =>
    rw [if_neg]
    rintro rfl
    exact hne (by rw [hix, DexIx.pool])
  · rfl

theorem Grown.of_run (hwf : Wf w) (hp : w.pools.lookup k = some p)
    (run : Run (Guarded (fun w tx => OnlyDeposits k tx ∧ WholeDeposit k w tx)
      (okStep Dex.exec)) w hist w₁) :
    Wf w₁ ∧ ∃ p₁, w₁.pools.lookup k = some p₁ ∧ Grown p p₁ (deposits k hist) := by
  induction run with
  | nil => exact ⟨hwf, p, hp, .refl p⟩
  | @step hist t t' tx _ hstep ih =>
    obtain ⟨⟨honly, hwhole⟩, hstep⟩ := hstep
    obtain ⟨hwf₁, p₁, hp₁, hg⟩ := ih
    obtain ⟨p₂, hp₂, hmoved⟩ := pool_step hstep hp₁
    refine ⟨hwf₁.step hstep, p₂, hp₂, ?_⟩
    cases hmoved with
    | other hne =>
      rw [deposits, depositOf_other hne]
      exact hg
    | @add a b q m quote hix hk hquote =>
      have hdeposit : depositOf k t tx = quote := by
        simp [depositOf, hix, hp₁, hk, hquote, Except.toOption]
      simp only [WholeDeposit, hix] at hwhole
      rw [deposits, hdeposit]
      exact hg.deposit (hwf.pool hp).filled (hwf₁.pool hp₁).filled hquote (hwhole hk p₁ hp₁)
    | remove hix hk _ | swap hix hk _ _ =>
      simp only [OnlyDeposits, hix] at honly
      exact absurd hk honly

/-- **Providers are not diluted.** An instruction keeps what a share is worth exactly when it is no
deposit that rounds. -/
theorem shares_undiluted {hist₀ : List (Dex × DexTx)} (run₀ : Run (okStep Dex.exec) .init hist₀ w)
    (hp : w.pools.lookup k = some p) :
    (∀ tx w' p', w.exec tx = .ok w' → w'.pools.lookup k = some p' → 0 < p.lpSupply →
      (NotDiluted tx p p' ↔ WholeDeposit k w tx)) ∧
    ∀ hist w₁ p₁, Run (Guarded (fun w tx => OnlyDeposits k tx ∧ WholeDeposit k w tx)
        (okStep Dex.exec)) w hist w₁ → w₁.pools.lookup k = some p₁ →
      ∀ a mb mq w₂, a.pool = k → removeLiquidity w₁ a (deposits k hist).lpOut mb mq = .ok w₂ →
        ∃ out, quoteRemoveLiquidity (deposits k hist).lpOut p₁.baseReserve p₁.quoteReserve
            p₁.lpSupply = some out ∧
          out.1 ≤ (deposits k hist).baseUsed ∧ out.2 ≤ (deposits k hist).quoteUsed := by
  have hwf := Wf.of_run run₀
  constructor
  · intro tx w' p' h hp' hlp
    obtain ⟨p₁, hp₁, hmoved⟩ := pool_step h hp
    obtain rfl : p' = p₁ := some.inj (hp'.symm.trans hp₁)
    exact hmoved.notDiluted_iff hp (hwf.pool hp).filled hlp
  · intro hist w₁ p₁ run hp₁ a mb mq w₂ hk hremove
    obtain ⟨-, p₂, hp₂, hg⟩ := Grown.of_run hwf hp run
    obtain rfl : p₁ = p₂ := some.inj (hp₁.symm.trans hp₂)
    obtain ⟨p₃, out, _, _, _, hp₃, -, hquote, -⟩ := removeLiquidity_ok hremove
    rw [hk] at hp₃
    obtain rfl : p₁ = p₃ := some.inj (hp₁.symm.trans hp₃)
    exact ⟨out, hquote, hg.withdraw_le hquote⟩

end Run

/-! ## A first pool -/

/-- Account 9 creates two mints and pool 3 of trust 1 with a fee of one half. -/
def openPool : List DexTx :=
  [{ trusts := AList.singleton 1 ⟨9, true⟩, ix := .init 1 9 },
   { ix := .token (.initializeMint 1 9) },
   { ix := .token (.initializeMint 2 9) },
   { ix := .token (.initializeAccount 11 (.wallet 1) (.wallet 9)) },
   { ix := .token (.initializeAccount 12 (.wallet 2) (.wallet 9)) },
   { ix := .token (.mintTo (.wallet 1) (.wallet 11) 9 1000) },
   { ix := .token (.mintTo (.wallet 2) (.wallet 12) 9 1000) },
   { ix := .createLiquidityPool ⟨1, .wallet 1, .wallet 2, 9⟩ 3 5000 },
   { ix := .token (.initializeAccount 13 (.lpMint ⟨1, 3⟩) (.wallet 9)) }]

def account9 : PoolAccounts where
  pool := ⟨1, 3⟩
  baseMint := .wallet 1
  quoteMint := .wallet 2
  userBaseTa := .wallet 11
  userQuoteTa := .wallet 12
  baseVault := .associated (.poolAuthority ⟨1, 3⟩) (.wallet 1)
  quoteVault := .associated (.poolAuthority ⟨1, 3⟩) (.wallet 2)
  user := 9

def addTx (b q : Nat) : DexTx := { ix := .addLiquidity ⟨account9, .wallet 13⟩ b q 0 }

def removeTx (l : Nat) : DexTx := { ix := .removeLiquidity ⟨account9, .wallet 13⟩ l 0 0 }

def swapTx (direction n : Nat) : DexTx := { ix := .swapExactIn account9 direction n 0 }

/-- Ten shares are worth 15 of each token after two swaps. -/
def tradedPool : List DexTx := openPool ++ [addTx 10 10, swapTx 0 20, swapTx 1 10]

def sharesAndReserves (w : Dex) : Option (Nat × Nat × Nat) :=
  (w.pools.lookup ⟨1, 3⟩).map fun p => (p.lpSupply, p.baseReserve, p.quoteReserve)

theorem sharesAndReserves_eq_some {w : Dex} {S B Q : Nat}
    (h : sharesAndReserves w = some (S, B, Q)) : ∃ p, w.pools.lookup ⟨1, 3⟩ = some p ∧
      p.lpSupply = S ∧ p.baseReserve = B ∧ p.quoteReserve = Q := by
  obtain ⟨p, hp, heq⟩ := Option.map_eq_some_iff.1 h
  simp only [Prod.mk.injEq] at heq
  exact ⟨p, hp, heq⟩

/-- A deposit of three of each token is worth two shares to the last unit. -/
theorem wholeDeposit_undiluted : ∃ w w₁ p p₁ out,
    execAll Dex.exec .init tradedPool = .ok w ∧ w.pools.lookup ⟨1, 3⟩ = some p ∧
    w.exec (addTx 3 3) = .ok w₁ ∧ w₁.pools.lookup ⟨1, 3⟩ = some p₁ ∧
    NotDiluted (addTx 3 3) p p₁ ∧
    quoteRemoveLiquidity 2 p₁.baseReserve p₁.quoteReserve p₁.lpSupply = some out ∧
    out.1 ≤ 3 ∧ out.2 ≤ 3 := by
  have hfacts : ((execAll Dex.exec .init tradedPool).toOption.bind fun w =>
      (w.exec (addTx 3 3)).toOption.bind fun w₁ =>
        (removeLiquidity w₁ ⟨account9, .wallet 13⟩ 2 0 0).toOption.map fun _ =>
          (sharesAndReserves w, sharesAndReserves w₁, deposits ⟨1, 3⟩ [(w, addTx 3 3)])) =
      some (some (10, 15, 15), some (12, 18, 18), ⟨2, 3, 3⟩) := by decide +kernel
  simp only [Option.bind_eq_some_iff, toOption_eq_some, toOption_map_eq_some,
    Prod.mk.injEq] at hfacts
  obtain ⟨w, hw, w₁, hw₁, w₂, hw₂, hp, hp₁, hpaid⟩ := hfacts
  obtain ⟨p, hp, hS, hB, hQ⟩ := sharesAndReserves_eq_some hp
  obtain ⟨p₁, hp₁, -⟩ := sharesAndReserves_eq_some hp₁
  obtain ⟨hist₀, run₀⟩ := Run.execAll hw
  obtain ⟨hlaw, hback⟩ := shares_undiluted run₀ hp
  have hwhole : WholeDeposit ⟨1, 3⟩ w (addTx 3 3) := by
    intro _ p' hp'
    obtain rfl : p = p' := some.inj (hp.symm.trans hp')
    rw [LiquidityPool.sharesFor, hS, hB, hQ]
    decide
  have run : Run (Guarded (fun w tx => OnlyDeposits ⟨1, 3⟩ tx ∧ WholeDeposit ⟨1, 3⟩ w tx)
      (okStep Dex.exec)) w [(w, addTx 3 3)] w₁ := .step .nil ⟨⟨trivial, hwhole⟩, hw₁⟩
  have hreturn := hback _ w₁ p₁ run hp₁ ⟨account9, .wallet 13⟩ 0 0 w₂ rfl
  rw [hpaid] at hreturn
  obtain ⟨out, hout, hbase, hquote⟩ := hreturn hw₂
  exact ⟨w, w₁, p, p₁, out, hw, hp, hw₁, hp₁,
    (hlaw _ w₁ p₁ hw₁ hp₁ (by omega)).2 hwhole, hout, hbase, hquote⟩

/-- A deposit of two of each token gets one share, worth one and a half, for one. -/
theorem not_shares_undiluted : ¬ ∀ hist w, Run (okStep Dex.exec) .init hist w →
    ∀ k p tx w' p', w.pools.lookup k = some p → 0 < p.lpSupply → w.exec tx = .ok w' →
      w'.pools.lookup k = some p' → 0 < p'.lpSupply → NotDiluted tx p p' := by
  intro hall
  have hfacts : ((execAll Dex.exec .init tradedPool).toOption.bind fun w =>
      (w.exec (addTx 2 2)).toOption.map fun w' => (sharesAndReserves w, sharesAndReserves w')) =
      some (some (10, 15, 15), some (11, 16, 16)) := by decide +kernel
  simp only [Option.bind_eq_some_iff, toOption_eq_some, toOption_map_eq_some,
    Prod.mk.injEq] at hfacts
  obtain ⟨w, hw, w', hw', hp, hp'⟩ := hfacts
  obtain ⟨p, hp, hS, hB, -⟩ := sharesAndReserves_eq_some hp
  obtain ⟨p', hp', hS', hB', -⟩ := sharesAndReserves_eq_some hp'
  obtain ⟨hist, run⟩ := Run.execAll hw
  have hlaw := hall hist w run _ p _ w' p' hp (by omega) hw' hp' (by omega)
  obtain ⟨hbase, -⟩ := hlaw.sides trivial
  rw [hS, hB, hS', hB'] at hbase
  exact nomatch hbase

end Aeqi.Unifutures
