import Aeqi.Unifutures.LpShares

/-!
# aeqi_unifutures: swaps

Swaps in reachable states: the product of the reserves does not fall, the reserves
stay positive, and once a swap is quoted the update of the reserves cannot fail,
because the transfer it follows was bounded by the supply of the mint.
-/

namespace Aeqi.Unifutures

open Aeqi.Lib Aeqi.Lib.Shares Aeqi.Solana Option
open Token (Ledger)
open Token.Ledger (heldBy Sound)

/-! ## The update after the quote -/

section Errors

variable {s : Dex} {L : Ledger Address} {e : UnifuturesError}

theorem loadPool_ne_custom {k : PoolPda} : loadPool s k ≠ .error (.custom e) := by
  simp [loadPool, bind_eq_error, -bind_pure_comp]

theorem checkPoolAccounts_ne_custom {a : PoolAccounts} :
    checkPoolAccounts L a ≠ .error (.custom e) := by
  simp [checkPoolAccounts, checkMint, checkTokenAccount, bind_eq_error]

theorem checkPoolMints_error {p : LiquidityPool} {a : PoolAccounts}
    (h : checkPoolMints p a = .error (.custom e)) : e = .poolMintMismatch := by
  simp only [checkPoolMints, bind_eq_error, require_eq_error, TxError.custom.injEq] at h
  rcases h with ⟨-, he⟩ | ⟨-, -, -, he⟩
  · exact he.symm
  · exact he.symm

theorem invoke_ne_custom {x : Except Token.Error (Ledger Address)} :
    invoke x ≠ .error (.custom e) := by
  simp [invoke, mapError_eq_error]

end Errors

section Update

variable {w : Dex} {p : LiquidityPool} {a : SwapExactIn} {L : Ledger Address} {direction n m : Nat}
  {d : SwapDirection} {quote : SwapQuote}

theorem reserveIn_add_lt (hs : Sound w.tokens) (hp : PoolWf w.tokens a.pool p)
    (hvalid : a.Valid w.tokens p)
    (h : w.tokens.transfer (a.payFrom d) (a.mintIn d) (a.vaultIn d) (.wallet a.user) n = .ok L) :
    p.reserveIn d + n < 2 ^ 64 := by
  have hs' : Sound L := hs.transfer h
  have hvault : Owned w.tokens (a.vaultIn d) (a.mintIn d) (.poolAuthority a.pool) := by
    cases d
    · exact hvalid.baseVault
    · exact hvalid.quoteVault
  have hheld : p.reserveIn d ≤ heldBy (.poolAuthority a.pool) (a.mintIn d) w.tokens := by
    cases d
    · rw [PoolAccounts.mintIn, hvalid.baseMint]
      exact hp.base
    · rw [PoolAccounts.mintIn, hvalid.quoteMint]
      exact hp.quote
  have hin := hvault.heldBy_pay_in h
  obtain ⟨acc, hacc, hmint, -⟩ := hvault.transfer h
  have hlt := hs'.issued_lt ⟨acc, hacc, hmint⟩
  have hle := Token.Ledger.heldBy_le_issued L (.poolAuthority a.pool) (a.mintIn d)
  omega

theorem swapExactIn_error (hwf : Wf w) (hp : w.pools.lookup a.pool = some p)
    (hd : SwapDirection.fromU8 direction = some d) (hquote : quoteSwap p n d = some quote) :
    swapExactIn w a direction n m ≠ .error (.custom .mathOverflow) ∧
      swapExactIn w a direction n m ≠ .error (.custom .insufficientLiquidity) := by
  have hmain : ∀ e, swapExactIn w a direction n m = .error (.custom e) →
      e ≠ .mathOverflow ∧ e ≠ .insufficientLiquidity := by
    intro e h
    simp only [swapExactIn, bind_eq_error, loadPool_ne_custom, checkPoolAccounts_ne_custom,
      false_or, loadPool_ok, checkPoolAccounts_ok, require_eq_error, okOr_eq_error,
      okOr_eq_ok, checkPoolMints_ok, exists_punit, hd, reduceCtorEq, false_and,
      TxError.custom.injEq] at h
    obtain ⟨p₁, ⟨hp₁, hseeds⟩, ⟨hmints, ⟨hub, huq⟩, hvb, hvq⟩, h⟩ := h
    obtain rfl : p = p₁ := some.inj (hp.symm.trans hp₁)
    rcases h with ⟨-, rfl⟩ | ⟨-, d₁, hd₁, h⟩
    · simp
    obtain rfl : d = d₁ := some.inj hd₁
    rcases h with herr | ⟨⟨hbase, hquote'⟩, h⟩
    · rw [checkPoolMints_error herr]
      simp
    have hvalid : a.Valid w.tokens p := ⟨hseeds, hmints, hbase, hquote', hub, huq, hvb, hvq⟩
    rcases h with ⟨hnone, -⟩ | ⟨quote₁, hquote₁, h⟩
    · rw [hquote] at hnone
      cases hnone
    obtain rfl : quote = quote₁ := some.inj (hquote.symm.trans hquote₁)
    rcases h with ⟨-, rfl⟩ | ⟨-, h⟩
    · simp
    -- what is left is the transfers and the reserves
    obtain ⟨-, hout, -⟩ := traded_facts hquote
    have hin : ∀ {L}, w.tokens.transfer (a.payFrom d) (a.mintIn d) (a.vaultIn d) (.wallet a.user) n =
        .ok L → p.reserveIn d + n < 2 ^ 64 := fun h₁ =>
      reserveIn_add_lt hwf.sound (hwf.pool hp) hvalid h₁
    cases d
    all_goals
      simp only [bind_eq_error, invoke_ne_custom, false_or, invoke_ok, okOr_eq_error,
        checkedAdd_eq_none, checkedSub_eq_none, pure_eq_error, and_false,
        exists_const, or_false] at h
      obtain ⟨t₁, h₁, -, -, ⟨hover, -⟩ | ⟨_, -, hunder, -⟩⟩ := h
      · exact absurd hover (Nat.not_le.2 (hin h₁))
      · exact absurd hunder (Nat.not_lt.2 hout)
  exact ⟨fun h => (hmain _ h).1 rfl, fun h => (hmain _ h).2 rfl⟩

end Update

/-! ## Sequences of swaps -/

/-- The pool at `k` is at most traded with. -/
def OnlySwaps (k : PoolPda) (tx : DexTx) : Prop :=
  match tx.ix with
  | .addLiquidity a _ _ _ => a.pool ≠ k
  | .removeLiquidity a _ _ _ => a.pool ≠ k
  | _ => True

section Run

variable {w w₁ : Dex} {hist : List (Dex × DexTx)} {k : PoolPda} {p : LiquidityPool}

theorem product_of_run (hp : w.pools.lookup k = some p)
    (run : Run (Guarded (fun _ tx => OnlySwaps k tx) (okStep Dex.exec)) w hist w₁) :
    ∃ p₁, w₁.pools.lookup k = some p₁ ∧ p₁.lpSupply = p.lpSupply ∧
      p.baseReserve * p.quoteReserve ≤ p₁.baseReserve * p₁.quoteReserve := by
  induction run with
  | nil => exact ⟨p, hp, rfl, le_rfl⟩
  | @step hist t t' tx _ hstep ih =>
    obtain ⟨honly, hstep⟩ := hstep
    obtain ⟨p₁, hp₁, hlp, hprod⟩ := ih
    obtain ⟨p₂, hp₂, hmoved⟩ := pool_step hstep hp₁
    refine ⟨p₂, hp₂, ?_⟩
    cases hmoved with
    | other => exact ⟨hlp, hprod⟩
    | add hix hk _ | remove hix hk _ =>
      simp only [OnlySwaps, hix] at honly
      exact absurd hk honly
    | swap _ _ _ hquote =>
      obtain ⟨-, -, -, -, hstep⟩ := traded_facts hquote
      exact ⟨by rw [lpSupply_traded, hlp], Nat.le_trans hprod hstep⟩

/-- **Swaps are safe.** A swap keeps both reserves positive and their product up, and no sequence of
swaps takes out on one side without paying on the other. -/
theorem swaps_safe {hist₀ : List (Dex × DexTx)} (run₀ : Run (okStep Dex.exec) .init hist₀ w)
    (hp : w.pools.lookup k = some p) :
    ((p.lpSupply = 0 ∧ p.baseReserve = 0 ∧ p.quoteReserve = 0) ∨
      (0 < p.lpSupply ∧ 0 < p.baseReserve ∧ 0 < p.quoteReserve)) ∧
    (∀ a direction n m w', a.pool = k → swapExactIn w a direction n m = .ok w' →
      ∃ p', w'.pools.lookup k = some p' ∧ 0 < p'.baseReserve ∧ 0 < p'.quoteReserve ∧
        p.baseReserve * p.quoteReserve ≤ p'.baseReserve * p'.quoteReserve) ∧
    (∀ a direction n m d quote, a.pool = k → SwapDirection.fromU8 direction = some d →
      quoteSwap p n d = some quote →
        swapExactIn w a direction n m ≠ .error (.custom .mathOverflow) ∧
          swapExactIn w a direction n m ≠ .error (.custom .insufficientLiquidity)) ∧
    ∀ hist w₁ p₁, Run (Guarded (fun _ tx => OnlySwaps k tx) (okStep Dex.exec)) w hist w₁ →
      w₁.pools.lookup k = some p₁ → p₁.baseReserve ≤ p.baseReserve →
        p.quoteReserve ≤ p₁.quoteReserve := by
  have hwf := Wf.of_run run₀
  have hfill := (hwf.pool hp).filled
  refine ⟨hfill, ?_, ?_, ?_⟩
  · intro a direction n m w' hk h
    obtain ⟨p₁, d, quote, _, _, hp₁, -, -, hquote, -, -, rfl⟩ := swapExactIn_ok h
    rw [hk] at hp₁
    obtain rfl : p = p₁ := some.inj (hp.symm.trans hp₁)
    obtain ⟨-, -, hb, hq, hprod⟩ := traded_facts hquote
    exact ⟨_, by rw [hk]; exact AList.lookup_insert _, hb, hq, hprod⟩
  · intro a direction n m d quote hk hd hquote
    exact swapExactIn_error hwf (hk ▸ hp) hd hquote
  · intro hist w₁ p₁ run hp₁ hle
    obtain ⟨p₂, hp₂, hlp, hprod⟩ := product_of_run hp run
    obtain rfl : p₁ = p₂ := some.inj (hp₁.symm.trans hp₂)
    have hwf₁ : Wf w₁ := run.invariant hwf fun _ _ _ hwf h => hwf.step h.2
    rcases (hwf₁.pool hp₁).filled with ⟨hempty, -, -⟩ | ⟨-, hpos, -⟩
    · -- swaps mint no shares, so the pool was empty before
      rcases hfill with ⟨-, -, hzero⟩ | ⟨hlp', -, -⟩
      · omega
      · omega
    · exact other_side_le hprod hle hpos

end Run

/-- Paying 20 of the quote token for 5 of the base token, at a fee of one half. -/
theorem openPool_swaps_safe : ∃ w w₁ p p₁,
    execAll Dex.exec .init (openPool ++ [addTx 10 10]) = .ok w ∧
    w.pools.lookup ⟨1, 3⟩ = some p ∧ w.exec (swapTx 1 20) = .ok w₁ ∧
    w₁.pools.lookup ⟨1, 3⟩ = some p₁ ∧ p₁.baseReserve = 5 ∧ p₁.quoteReserve = 30 ∧
    p.quoteReserve ≤ p₁.quoteReserve ∧
    p.baseReserve * p.quoteReserve ≤ p₁.baseReserve * p₁.quoteReserve := by
  have hfacts : ((execAll Dex.exec .init (openPool ++ [addTx 10 10])).toOption.bind fun w =>
      (w.exec (swapTx 1 20)).toOption.map fun w₁ => (sharesAndReserves w, sharesAndReserves w₁)) =
      some (some (10, 10, 10), some (10, 5, 30)) := by decide +kernel
  simp only [Option.bind_eq_some_iff, toOption_eq_some, toOption_map_eq_some,
    Prod.mk.injEq] at hfacts
  obtain ⟨w, hw, w₁, hw₁, hp, hp₁⟩ := hfacts
  obtain ⟨p, hp, -, hB, -⟩ := sharesAndReserves_eq_some hp
  obtain ⟨p₁, hp₁, -, hB₁, hQ₁⟩ := sharesAndReserves_eq_some hp₁
  obtain ⟨hist₀, run₀⟩ := Run.execAll hw
  obtain ⟨-, hswap, -, hround⟩ := swaps_safe run₀ hp
  have run : Run (Guarded (fun _ tx => OnlySwaps ⟨1, 3⟩ tx) (okStep Dex.exec)) w
      [(w, swapTx 1 20)] w₁ := .step .nil ⟨trivial, hw₁⟩
  obtain ⟨p', hp', -, -, hprod⟩ := hswap account9 1 20 0 w₁ rfl hw₁
  obtain rfl : p' = p₁ := some.inj (hp'.symm.trans hp₁)
  exact ⟨w, w₁, p, p', hw, hp, hw₁, hp₁, hB₁, hQ₁, hround _ w₁ p' run hp₁ (by omega), hprod⟩

end Aeqi.Unifutures
