import Aeqi.Market.Prices

/-!
# The price between its ends

A curve is meant to run from its start price to its end price. The product of the price step and
the progress saturates at 128 bits, though, and the quotient of what is left is then far below the
step. `interpolates_iff` says which prices are near enough: `create_curve` does not ask for it.
-/

namespace Aeqi.Market

/-! ## The formula -/

/-- `progress`, or its square, with no bound on the numbers. -/
def exactScaleAt (curveType : CurveType) (maxSupply currentSupply : Nat) : Nat :=
  let progress := min (currentSupply * precision / maxSupply) precision
  match curveType with
  | .linear => progress
  | .exponential => progress * progress / precision

/-- `price_at` with no bound on the numbers. -/
def exactPriceAt (curveType : CurveType) (startPrice endPrice maxSupply currentSupply : Nat) : Nat :=
  let scale := exactScaleAt curveType maxSupply currentSupply
  if startPrice ≤ endPrice then
    startPrice + (endPrice - startPrice) * scale / precision
  else
    startPrice - (startPrice - endPrice) * scale / precision

/-- The price runs from the start price to the end price, and never turns back. -/
structure Interpolates (ct : CurveType) (s e M : Nat) : Prop where
  start : priceAt ct s e M 0 = s
  finish : priceAt ct s e M M = e
  between : ∀ x ≤ M, min s e ≤ priceAt ct s e M x ∧ priceAt ct s e M x ≤ max s e
  rising : s ≤ e → ∀ x y, x ≤ y → y ≤ M → priceAt ct s e M x ≤ priceAt ct s e M y
  falling : e < s → ∀ x y, x ≤ y → y ≤ M → priceAt ct s e M y ≤ priceAt ct s e M x
  exact : ∀ x ≤ M, priceAt ct s e M x = exactPriceAt ct s e M x

section Scale

variable {ct : CurveType} {M x y d : Nat}

theorem saturatingMul_mono {a a' b b' : Nat} (ha : a ≤ a') (hb : b ≤ b') :
    saturatingMul a b ≤ saturatingMul a' b' :=
  min_le_min (Nat.mul_le_mul ha hb) (le_rfl)

theorem scaleAt_zero : scaleAt ct M 0 = 0 := by
  cases ct <;> simp [scaleAt, saturatingMul]

theorem saturatingMul_supply (hx : x < 2 ^ 64) : saturatingMul x precision = x * precision := by
  refine Nat.min_eq_left ?_
  calc x * precision ≤ 2 ^ 64 * precision := Nat.mul_le_mul_right _ (by omega)
    _ ≤ u128Max := by decide +kernel

theorem scaleAt_eq (hx : x < 2 ^ 64) : scaleAt ct M x = exactScaleAt ct M x := by
  unfold scaleAt exactScaleAt
  rw [saturatingMul_supply hx]
  cases ct with
  | linear => rfl
  | exponential =>
    have hprogress : min (x * precision / M) precision ≤ precision := Nat.min_le_right _ _
    refine congrArg (· / precision) (Nat.min_eq_left ?_)
    calc _ ≤ precision * precision := Nat.mul_le_mul hprogress hprogress
      _ ≤ u128Max := by decide +kernel

theorem scaleAt_self (hM : 0 < M) (hfits : M < 2 ^ 64) : scaleAt ct M M = precision := by
  have hprogress : M * precision / M = precision := Nat.mul_div_cancel_left _ hM
  rw [scaleAt_eq hfits]
  unfold exactScaleAt
  rw [hprogress]
  cases ct with
  | linear => rfl
  | exponential => exact Nat.mul_div_cancel_left _ precision_pos

theorem scaleAt_mono (hxy : x ≤ y) : scaleAt ct M x ≤ scaleAt ct M y := by
  have hprogress : min (saturatingMul x precision / M) precision ≤
      min (saturatingMul y precision / M) precision :=
    min_le_min (Nat.div_le_div_right (saturatingMul_mono hxy (le_rfl))) (le_rfl)
  cases ct with
  | linear => exact hprogress
  | exponential => exact Nat.div_le_div_right (saturatingMul_mono hprogress hprogress)

theorem step_mono (hxy : x ≤ y) : saturatingMul d (scaleAt ct M x) / precision ≤
    saturatingMul d (scaleAt ct M y) / precision :=
  Nat.div_le_div_right (saturatingMul_mono (le_rfl) (scaleAt_mono hxy))

theorem step_self (hM : 0 < M) (hfits : M < 2 ^ 64) :
    saturatingMul d (scaleAt ct M M) / precision = d ↔ d * precision < 2 ^ 128 := by
  rw [scaleAt_self hM hfits]
  constructor
  · intro h
    have hle : d * precision ≤ saturatingMul d precision := by
      calc d * precision = saturatingMul d precision / precision * precision := by rw [h]
        _ ≤ saturatingMul d precision := Nat.div_mul_le_self _ _
    have hmax : saturatingMul d precision ≤ u128Max := Nat.min_le_right _ _
    unfold u128Max at hmax
    omega
  · intro h
    have hproduct : saturatingMul d precision = d * precision := by
      refine Nat.min_eq_left ?_
      unfold u128Max
      omega
    rw [hproduct]
    exact Nat.mul_div_cancel _ precision_pos

end Scale

section Prices

variable {ct : CurveType} {s e M x y : Nat}

theorem priceAt_zero (hM : 0 < M) (he : e < 2 ^ 128) : priceAt ct s e M 0 = s := by
  rw [priceAt_eq hM he, scaleAt_zero]
  simp [saturatingMul]

theorem priceAt_rising (hM : 0 < M) (he : e < 2 ^ 128) (hle : s ≤ e) (hxy : x ≤ y) :
    priceAt ct s e M x ≤ priceAt ct s e M y := by
  rw [priceAt_eq hM he, priceAt_eq hM he, if_pos hle, if_pos hle]
  exact Nat.add_le_add_left (step_mono hxy) s

theorem priceAt_falling (hM : 0 < M) (he : e < 2 ^ 128) (hlt : e < s) (hxy : x ≤ y) :
    priceAt ct s e M y ≤ priceAt ct s e M x := by
  rw [priceAt_eq hM he, priceAt_eq hM he, if_neg (by omega), if_neg (by omega)]
  exact Nat.sub_le_sub_left (step_mono hxy) s

theorem priceAt_self (hM : 0 < M) (hfits : M < 2 ^ 64) (he : e < 2 ^ 128) :
    priceAt ct s e M M = e ↔ spread s e * precision < 2 ^ 128 := by
  rw [priceAt_eq hM he]
  split
  · next hle =>
    have hspread : spread s e = e - s := by unfold spread; omega
    rw [hspread, ← @step_self ct M _ hM hfits]
    omega
  · next hlt =>
    have hspread : spread s e = s - e := by unfold spread; omega
    rw [hspread, ← @step_self ct M _ hM hfits]
    have hstep := step_le ct M M (s - e)
    omega

theorem priceAt_exact (hM : 0 < M) (hfits : M < 2 ^ 64) (he : e < 2 ^ 128) (hx : x ≤ M)
    (hd : spread s e * precision < 2 ^ 128) : priceAt ct s e M x = exactPriceAt ct s e M x := by
  rw [priceAt_eq hM he]
  unfold exactPriceAt
  simp only [← scaleAt_eq (Nat.lt_of_le_of_lt hx hfits)]
  split
  · next hle =>
    have hspread : spread s e = e - s := by unfold spread; omega
    rw [saturatingMul_step (hspread ▸ hd)]
  · next hlt =>
    have hspread : spread s e = s - e := by unfold spread; omega
    rw [saturatingMul_step (hspread ▸ hd)]

end Prices

/-- A curve that `create_curve` admits interpolates its ends exactly when the step between them,
times `PRECISION`, fits 128 bits. -/
theorem interpolates_iff (ct : CurveType) {s e M : Nat} (he : e < 2 ^ 128) (hM : 0 < M)
    (hfits : M < 2 ^ 64) : Interpolates ct s e M ↔ spread s e * precision < 2 ^ 128 := by
  constructor
  · intro h
    exact (priceAt_self hM hfits he).1 h.finish
  · intro hd
    exact {
      start := priceAt_zero hM he
      finish := (priceAt_self hM hfits he).2 hd
      between := fun x _ => priceAt_mem ct s x hM he
      rising := fun hle _ _ hxy _ => priceAt_rising hM he hle hxy
      falling := fun hlt _ _ hxy _ => priceAt_falling hM he hlt hxy
      exact := fun _ hx => priceAt_exact hM hfits he hx hd }

theorem doubling_interpolates : Interpolates .linear precision (2 * precision) 1000 :=
  (interpolates_iff .linear (by decide +kernel) (by decide) (by decide)).2 (by decide +kernel)

/-- A curve from nothing to the highest price ends near `3.4e20`. -/
theorem not_interpolates : ¬ ∀ (ct : CurveType) (s e M : Nat), s < 2 ^ 128 → e < 2 ^ 128 → 0 < M →
    M < 2 ^ 64 → Interpolates ct s e M := by
  intro h
  have hfinish := (h .linear 0 u128Max 1 (by decide) (by decide) (by decide) (by decide)).finish
  revert hfinish
  decide +kernel

end Aeqi.Market
