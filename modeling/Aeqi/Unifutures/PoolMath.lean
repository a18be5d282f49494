import Aeqi.Lib.Result
import Aeqi.Lib.Shares

/-!
# aeqi_unifutures: pool math

`pool.rs`: the quotes of the constant-product pool, in checked 64 and 128 bit
arithmetic, and what a quote says once it is given.
-/

namespace Aeqi.Unifutures

open Aeqi.Lib Aeqi.Lib.Shares Option

def FEE_BPS_DENOMINATOR : Nat := 10000

structure LiquidityQuote where
  lpOut : Nat
  baseUsed : Nat
  quoteUsed : Nat
  deriving DecidableEq

structure SwapQuote where
  amountOut : Nat
  feeAmount : Nat

inductive SwapDirection
  | baseToQuote
  | quoteToBase

def SwapDirection.fromU8 : Nat → Option SwapDirection
  | 0 => some .baseToQuote
  | 1 => some .quoteToBase
  | _ => none

/-- `while x1 < x0`; `none` where the unchecked operators would panic. -/
def sqrtLoop (value x0 x1 : Nat) : Option Nat :=
  if x1 < x0 then do
    let quotient ← checkedDiv value x1
    let sum ← checkedAdd 128 x1 quotient
    sqrtLoop value x1 (sum / 2)
  else
    some x0
termination_by x0

def integerSqrt (value : Nat) : Option Nat :=
  if value = 0 then some 0 else sqrtLoop value value ((value + 1) / 2)

def quoteInitialLiquidity (baseAmount quoteAmount : Nat) : Option LiquidityQuote :=
  if baseAmount = 0 ∨ quoteAmount = 0 then
    none
  else do
    let product ← checkedMul 128 baseAmount quoteAmount
    let lpOut ← integerSqrt product
    let lpOut ← tryInto 64 lpOut
    some { lpOut, baseUsed := baseAmount, quoteUsed := quoteAmount }

def quoteAddLiquidity (baseAmount quoteAmount baseReserve quoteReserve lpSupply : Nat) :
    Option LiquidityQuote :=
  if baseAmount = 0 ∨ quoteAmount = 0 then
    none
  else if lpSupply = 0 ∨ baseReserve = 0 ∨ quoteReserve = 0 then
    quoteInitialLiquidity baseAmount quoteAmount
  else do
    let lpFromBase ← (checkedMul 128 baseAmount lpSupply).bind (checkedDiv · baseReserve)
    let lpFromQuote ← (checkedMul 128 quoteAmount lpSupply).bind (checkedDiv · quoteReserve)
    let lpOut := min lpFromBase lpFromQuote
    if lpOut = 0 then
      none
    else do
      let lpOut ← tryInto 64 lpOut
      let baseUsed ← (checkedMul 128 lpOut baseReserve).bind (checkedDiv · lpSupply)
      let quoteUsed ← (checkedMul 128 lpOut quoteReserve).bind (checkedDiv · lpSupply)
      let baseUsed ← tryInto 64 baseUsed
      let quoteUsed ← tryInto 64 quoteUsed
      if baseUsed = 0 ∨ quoteUsed = 0 then none else some { lpOut, baseUsed, quoteUsed }

def quoteRemoveLiquidity (lpAmount baseReserve quoteReserve lpSupply : Nat) :
    Option (Nat × Nat) :=
  if lpAmount = 0 ∨ lpSupply = 0 ∨ lpSupply < lpAmount then
    none
  else do
    let baseOut ← (checkedMul 128 lpAmount baseReserve).bind (checkedDiv · lpSupply)
    let quoteOut ← (checkedMul 128 lpAmount quoteReserve).bind (checkedDiv · lpSupply)
    let baseOut ← tryInto 64 baseOut
    let quoteOut ← tryInto 64 quoteOut
    some (baseOut, quoteOut)

def quoteSwapExactIn (reserveIn reserveOut amountIn feeBps : Nat) : Option SwapQuote :=
  if reserveIn = 0 ∨ reserveOut = 0 ∨ amountIn = 0 then
    none
  else if FEE_BPS_DENOMINATOR ≤ feeBps then
    none
  else do
    let feeAmount ← (checkedMul 128 amountIn feeBps).bind (checkedDiv · FEE_BPS_DENOMINATOR)
    let effectiveIn ← checkedSub amountIn feeAmount
    if effectiveIn = 0 then
      none
    else do
      let numerator ← checkedMul 128 reserveOut effectiveIn
      let denominator ← checkedAdd 128 reserveIn effectiveIn
      let amountOut ← checkedDiv numerator denominator
      let amountOut ← tryInto 64 amountOut
      let feeAmount ← tryInto 64 feeAmount
      if amountOut = 0 then none else some { amountOut, feeAmount }

/-! ## The square root -/

section Sqrt

variable {value x0 x1 : Nat}

theorem newton_sum_lt (hvalue : value < 2 ^ 128) (hpos : 0 < x1) (hlow : Nat.sqrt value ≤ x1)
    (hhigh : x1 ≤ 2 ^ 127) : x1 + value / x1 < 2 ^ 128 := by
  have hquot : value / x1 ≤ Nat.sqrt value + 2 := by
    have hle : value ≤ Nat.sqrt value * Nat.sqrt value + 2 * Nat.sqrt value := by
      have h := Nat.sqrt_le_add value
      omega
    apply Nat.div_le_of_le_mul
    calc value ≤ Nat.sqrt value * (Nat.sqrt value + 2) := by rw [Nat.mul_add]; omega
      _ ≤ x1 * (Nat.sqrt value + 2) := Nat.mul_le_mul_right _ hlow
  have hroot : Nat.sqrt value < 2 ^ 64 := Nat.sqrt_lt'.2 (by omega)
  omega

theorem sqrtLoop_eq (hvalue : value < 2 ^ 128) (hpos : 0 < value) :
    ∀ {x0 x1 : Nat}, 0 < x0 → Nat.sqrt value ≤ x0 → x1 = (x0 + value / x0) / 2 → x1 ≤ 2 ^ 127 →
      sqrtLoop value x0 x1 = some (Nat.sqrt value) := by
  intro x0
  induction x0 using Nat.strong_induction_on with
  | _ x0 ih =>
    intro x1 hx0 hlow hx1 hhigh
    have hlow1 : Nat.sqrt value ≤ x1 := hx1 ▸ sqrt_le_newton hx0
    have hroot : 0 < Nat.sqrt value := Nat.sqrt_pos.2 hpos
    rw [sqrtLoop]
    split
    · next hlt =>
      have hdiv : checkedDiv value x1 = some (value / x1) :=
        checkedDiv_eq_some.2 ⟨by omega, rfl⟩
      have hsum : checkedAdd 128 x1 (value / x1) = some (x1 + value / x1) :=
        checkedAdd_eq_some.2 ⟨newton_sum_lt hvalue (by omega) hlow1 hhigh, rfl⟩
      simp only [hdiv, hsum, bind_eq_bind, bind_some]
      have hbound := newton_sum_lt hvalue (by omega) hlow1 hhigh
      exact ih x1 hlt (by omega) hlow1 rfl (by omega)
    · next hge =>
      have hup : x0 ≤ Nat.sqrt value := le_sqrt_of_newton_ge hx0 (hx1 ▸ Nat.le_of_not_lt hge)
      rw [Nat.le_antisymm hup hlow]

theorem integerSqrt_eq (hvalue : value < 2 ^ 128) : integerSqrt value = some (Nat.sqrt value) := by
  rw [integerSqrt]
  split
  · next h => rw [h, Nat.sqrt_zero]
  · next h =>
    have hself : value / value = 1 := Nat.div_self (by omega)
    exact sqrtLoop_eq hvalue (by omega) (by omega) (Nat.sqrt_le_self _)
      (by rw [hself]) (by omega)

/-- Over all of `u128` the loop ends, no operator panics, and the root is the floor. -/
theorem integerSqrt_floor (value : BitVec 128) :
    ∃ root, integerSqrt value.toNat = some root ∧
      root * root ≤ value.toNat ∧ value.toNat < (root + 1) * (root + 1) :=
  ⟨Nat.sqrt value.toNat, integerSqrt_eq value.isLt, Nat.sqrt_le _, Nat.lt_succ_sqrt _⟩

end Sqrt

/-! ## What a quote says -/

section Quotes

variable {b q B Q S l r r' n fee : Nat} {quote : LiquidityQuote} {swap : SwapQuote}

/-- The shares of a deposit of `b` and `q` at the pool's ratio. -/
def proRataShares (b q B Q S : Nat) : Nat := min (b * S / B) (q * S / Q)

theorem quoteInitialLiquidity_some (h : quoteInitialLiquidity b q = some quote) :
    0 < b ∧ 0 < q ∧ quote = ⟨Nat.sqrt (b * q), b, q⟩ := by
  unfold quoteInitialLiquidity at h
  split at h
  · cases h
  · next hpos =>
    simp only [bind_eq_bind, bind_eq_some_iff, checkedMul_eq_some, tryInto_eq_some,
      Option.some.injEq] at h
    obtain ⟨_, ⟨hlt, rfl⟩, root, hroot, _, ⟨-, rfl⟩, rfl⟩ := h
    rw [integerSqrt_eq hlt, Option.some.injEq] at hroot
    subst hroot
    exact ⟨by omega, by omega, rfl⟩

theorem quoteAddLiquidity_some (hS : 0 < S) (hB : 0 < B) (hQ : 0 < Q)
    (h : quoteAddLiquidity b q B Q S = some quote) :
    0 < proRataShares b q B Q S ∧ quote = ⟨proRataShares b q B Q S, proRataShares b q B Q S * B / S,
        proRataShares b q B Q S * Q / S⟩ := by
  unfold quoteAddLiquidity at h
  rw [if_neg (show ¬ (S = 0 ∨ B = 0 ∨ Q = 0) by omega)] at h
  split at h
  · cases h
  · simp only [bind_eq_bind, bind_eq_some_iff, checkedMul_eq_some, checkedDiv_eq_some] at h
    obtain ⟨_, ⟨_, ⟨-, rfl⟩, -, rfl⟩, _, ⟨_, ⟨-, rfl⟩, -, rfl⟩, h⟩ := h
    split at h
    · cases h
    · next hne =>
      simp only [bind_eq_some_iff, checkedMul_eq_some, checkedDiv_eq_some, tryInto_eq_some] at h
      obtain ⟨_, ⟨-, rfl⟩, _, ⟨_, ⟨-, rfl⟩, -, rfl⟩, _, ⟨_, ⟨-, rfl⟩, -, rfl⟩, _, ⟨-, rfl⟩, _,
        ⟨-, rfl⟩, h⟩ := h
      split at h
      · cases h
      · exact ⟨Nat.pos_of_ne_zero hne, (some.inj h).symm⟩

theorem quoteRemoveLiquidity_some {out : Nat × Nat} :
    quoteRemoveLiquidity l B Q S = some out ↔ 0 < l ∧ l ≤ S ∧
      (l * B < 2 ^ 128 ∧ l * B / S < 2 ^ 64) ∧ (l * Q < 2 ^ 128 ∧ l * Q / S < 2 ^ 64) ∧
      out = (l * B / S, l * Q / S) := by
  unfold quoteRemoveLiquidity
  split
  · next h =>
    simp only [reduceCtorEq, false_iff]
    omega
  · next h =>
    simp only [bind_eq_bind, bind_eq_some_iff, checkedMul_eq_some,
      checkedDiv_eq_some, tryInto_eq_some, Option.some.injEq]
    constructor
    · rintro ⟨_, ⟨_, ⟨hB, rfl⟩, -, rfl⟩, _, ⟨_, ⟨hQ, rfl⟩, -, rfl⟩, _, ⟨hB', rfl⟩, _, ⟨hQ', rfl⟩,
        rfl⟩
      exact ⟨by omega, by omega, ⟨hB, hB'⟩, ⟨hQ, hQ'⟩, rfl⟩
    · rintro ⟨-, -, ⟨hB, hB'⟩, ⟨hQ, hQ'⟩, rfl⟩
      exact ⟨_, ⟨_, ⟨hB, rfl⟩, by omega, rfl⟩, _, ⟨_, ⟨hQ, rfl⟩, by omega, rfl⟩, _, ⟨hB', rfl⟩, _,
        ⟨hQ', rfl⟩, rfl⟩

theorem quoteSwapExactIn_some (h : quoteSwapExactIn r r' n fee = some swap) :
    0 < r ∧ 0 < r' ∧ ∃ e kept, n = e + kept ∧ swap.amountOut = r' * e / (r + e) := by
  unfold quoteSwapExactIn at h
  split at h
  · cases h
  · next hpos =>
    split at h
    · cases h
    · simp only [bind_eq_bind, bind_eq_some_iff, checkedSub_eq_some] at h
      obtain ⟨kept, -, _, ⟨-, rfl⟩, h⟩ := h
      split at h
      · cases h
      · simp only [bind_eq_some_iff, checkedMul_eq_some, checkedAdd_eq_some,
          checkedDiv_eq_some, tryInto_eq_some] at h
        obtain ⟨_, ⟨-, rfl⟩, _, ⟨-, rfl⟩, _, ⟨-, rfl⟩, _, ⟨-, rfl⟩, _, ⟨-, rfl⟩, h⟩ := h
        split at h
        · cases h
        · have hswap := some.inj h
          subst hswap
          exact ⟨by omega, by omega, n - kept, kept, by omega, rfl⟩

end Quotes

end Aeqi.Unifutures
