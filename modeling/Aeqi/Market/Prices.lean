import Aeqi.Market.State
import Mathlib.Tactic.Linarith

/-!
# What the floors of the curve math lose

A price stays between the start price and the end price. A cost is the trapezoid rounded
down, so it may miss up to one unit of quote and half a unit of price a token; a return is
at most its share of the trapezoid. When the price step does not saturate, the prices run
within a fixed distance below a line or a parabola, and what a trade moves of the area under
it lies between two multiples of the trapezoid of the trade.
-/

namespace Aeqi.Market

open Aeqi.Lib

theorem precision_pos : 0 < precision := by decide

section Prices

variable {ct : CurveType} {s e M x n cost r ppm : Nat}

theorem scaleAt_le (ct : CurveType) (M x : Nat) : scaleAt ct M x ≤ precision := by
  have hprogress : min (saturatingMul x precision / M) precision ≤ precision :=
    Nat.min_le_right _ _
  cases ct with
  | linear => exact hprogress
  | exponential =>
    refine Nat.div_le_of_le_mul ?_
    exact Nat.le_trans (Nat.min_le_left _ _) (Nat.mul_le_mul hprogress hprogress)

theorem step_le (ct : CurveType) (M x d : Nat) :
    saturatingMul d (scaleAt ct M x) / precision ≤ d := by
  refine Nat.div_le_of_le_mul ?_
  calc saturatingMul d (scaleAt ct M x) ≤ d * scaleAt ct M x := Nat.min_le_left _ _
    _ ≤ d * precision := Nat.mul_le_mul_left d (scaleAt_le ct M x)
    _ = precision * d := Nat.mul_comm _ _

theorem priceAt_eq (hM : 0 < M) (he : e < 2 ^ 128) :
    priceAt ct s e M x = if s ≤ e then s + saturatingMul (e - s) (scaleAt ct M x) / precision
      else s - saturatingMul (s - e) (scaleAt ct M x) / precision := by
  rw [priceAt, if_neg (by omega)]
  split
  · next hle =>
    have hstep := step_le ct M x (e - s)
    refine Nat.min_eq_left ?_
    unfold u128Max
    omega
  · rfl

theorem priceAt_mem (ct : CurveType) (s x : Nat) (hM : 0 < M) (he : e < 2 ^ 128) :
    min s e ≤ priceAt ct s e M x ∧ priceAt ct s e M x ≤ max s e := by
  rw [priceAt_eq hM he]
  split
  · next hle =>
    have hstep := step_le ct M x (e - s)
    generalize saturatingMul (e - s) (scaleAt ct M x) / precision = δ at hstep
    omega
  · next hlt =>
    have hstep := step_le ct M x (s - e)
    generalize saturatingMul (s - e) (scaleAt ct M x) / precision = δ at hstep
    omega

abbrev ends (ct : CurveType) (s e M x n : Nat) : Nat :=
  priceAt ct s e M x + priceAt ct s e M (x + n)

theorem purchaseCost_eq_some (hn : 0 < n) (h : purchaseCost ct s e M x n = some cost) :
    n * (ends ct s e M x n / 2) / precision = cost := by
  rw [purchaseCost, if_neg (by omega)] at h
  simp only [bind, Option.bind_eq_some_iff, checkedAdd_eq_some, checkedMul_eq_some] at h
  obtain ⟨_, ⟨-, rfl⟩, _, ⟨-, rfl⟩, _, ⟨-, rfl⟩, -, rfl⟩ := h
  rfl

theorem saleReturn_eq_some (h : saleReturn ct s e M (x + n) n ppm = some r) :
    n * (ends ct s e M x n / 2) / precision * ppm / 1000000 = r := by
  unfold saleReturn at h
  split at h
  · cases h
  · simp only [bind, Option.bind_eq_some_iff, checkedSub_eq_some, checkedAdd_eq_some,
      checkedMul_eq_some] at h
    obtain ⟨_, ⟨-, rfl⟩, _, ⟨-, rfl⟩, _, ⟨-, rfl⟩, _, ⟨-, rfl⟩, _, ⟨-, rfl⟩, -, rfl⟩ := h
    rw [Nat.add_sub_cancel]

theorem le_purchaseCost (hn : 0 < n) (h : purchaseCost ct s e M x n = some cost) :
    n * ends ct s e M x n ≤ 2 * precision * cost + 2 * precision + n := by
  have hcost := purchaseCost_eq_some hn h
  have hfloor : n * (ends ct s e M x n / 2) < precision * (cost + 1) := by
    rw [← hcost]
    exact Nat.lt_mul_div_succ _ precision_pos
  have hhalf : ends ct s e M x n ≤ 2 * (ends ct s e M x n / 2) + 1 := by omega
  calc n * ends ct s e M x n ≤ n * (2 * (ends ct s e M x n / 2) + 1) :=
        Nat.mul_le_mul_left n hhalf
    _ = 2 * (n * (ends ct s e M x n / 2)) + n := by ring
    _ ≤ 2 * (precision * (cost + 1)) + n := by omega
    _ = 2 * precision * cost + 2 * precision + n := by ring

theorem saleReturn_le (h : saleReturn ct s e M (x + n) n ppm = some r) :
    2 * precision * 1000000 * r ≤ ppm * (n * ends ct s e M x n) := by
  have hr := saleReturn_eq_some h
  have hgross : n * (ends ct s e M x n / 2) / precision * precision ≤
      n * (ends ct s e M x n / 2) := Nat.div_mul_le_self _ _
  have hhalf : 2 * (ends ct s e M x n / 2) ≤ ends ct s e M x n := Nat.mul_div_le _ _
  have hfloor : r * 1000000 ≤ n * (ends ct s e M x n / 2) / precision * ppm := by
    rw [← hr]
    omega
  calc 2 * precision * 1000000 * r = 2 * precision * (r * 1000000) := by ring
    _ ≤ 2 * precision * (n * (ends ct s e M x n / 2) / precision * ppm) :=
      Nat.mul_le_mul_left _ hfloor
    _ = 2 * (n * (ends ct s e M x n / 2) / precision * precision) * ppm := by ring
    _ ≤ 2 * (n * (ends ct s e M x n / 2)) * ppm :=
      Nat.mul_le_mul_right _ (by omega)
    _ = ppm * (n * (2 * (ends ct s e M x n / 2))) := by ring
    _ ≤ ppm * (n * ends ct s e M x n) :=
      Nat.mul_le_mul_left _ (Nat.mul_le_mul_left _ hhalf)

end Prices

/-! ## The shape of a curve -/

def CurveType.degree : CurveType → Nat
  | .linear => 1
  | .exponential => 2

/-- How far the scale of a curve falls behind this power, at most. -/
def CurveType.lag : CurveType → Nat
  | .linear => 1
  | .exponential => 4

section Shape

variable {ct : CurveType} {s e M x d : Nat}

theorem scaleAt_mem (ct : CurveType) (hM : 0 < M) (hx : x ≤ M) (hfits : M < 2 ^ 64) :
    scaleAt ct M x * M ^ ct.degree ≤ x ^ ct.degree * precision ∧
      x ^ ct.degree * precision ≤ (scaleAt ct M x + ct.lag) * M ^ ct.degree := by
  have hprecision : precision = 1000000000000000000 := rfl
  obtain ⟨q, hq⟩ : ∃ q, q = x * precision / M := ⟨_, rfl⟩
  have hle : q ≤ precision := hq ▸ Nat.div_le_of_le_mul (Nat.mul_le_mul_right _ hx)
  have hprogress : min (saturatingMul x precision / M) precision = q := by
    have hmul : saturatingMul x precision = x * precision := by
      refine Nat.min_eq_left ?_
      rw [u128Max, hprecision]
      omega
    rw [hmul, ← hq]
    omega
  have hlow : q * M ≤ x * precision := hq ▸ Nat.div_mul_le_self _ _
  have hhigh : x * precision ≤ (q + 1) * M := by
    rw [hq, Nat.mul_comm (_ + 1)]
    exact (Nat.lt_mul_div_succ _ hM).le
  cases ct with
  | linear =>
    rw [scaleAt, hprogress]
    simpa [CurveType.degree, CurveType.lag] using ⟨hlow, hhigh⟩
  | exponential =>
    have hsquare : saturatingMul q q = q * q := by
      refine Nat.min_eq_left (Nat.le_trans (Nat.mul_le_mul hle hle) ?_)
      decide
    obtain ⟨r, hr⟩ : ∃ r, r = q * q / precision := ⟨_, rfl⟩
    have hrlow : r * precision ≤ q * q := hr ▸ Nat.div_mul_le_self _ _
    have hrhigh : q * q ≤ (r + 1) * precision := by
      rw [hr, Nat.mul_comm (_ + 1)]
      exact (Nat.lt_mul_div_succ _ precision_pos).le
    simp only [scaleAt, hprogress, hsquare, ← hr]
    constructor
    · refine Nat.le_of_mul_le_mul_right ?_ precision_pos
      calc r * M ^ 2 * precision = r * precision * M ^ 2 := by ring
        _ ≤ q * q * M ^ 2 := Nat.mul_le_mul_right _ hrlow
        _ = (q * M) ^ 2 := by ring
        _ ≤ (x * precision) ^ 2 := Nat.pow_le_pow_left hlow 2
        _ = x ^ 2 * precision * precision := by ring
    · refine Nat.le_of_mul_le_mul_right ?_ precision_pos
      calc x ^ 2 * precision * precision = (x * precision) ^ 2 := by ring
        _ ≤ ((q + 1) * M) ^ 2 := Nat.pow_le_pow_left hhigh 2
        _ = (q * q + 2 * q + 1) * M ^ 2 := by ring
        _ ≤ ((r + 1) * precision + 2 * precision + precision) * M ^ 2 := by
          refine Nat.mul_le_mul_right _ ?_
          omega
        _ = (r + 4) * M ^ 2 * precision := by ring

/-- How far the prices of a curve fall behind its shape, at most. -/
def slack (ct : CurveType) (d : Nat) : Nat := ct.lag * (d / precision + 1) + 1

theorem step_mem (ct : CurveType) (d : Nat) (hM : 0 < M) (hx : x ≤ M) (hfits : M < 2 ^ 64) :
    d * scaleAt ct M x / precision * M ^ ct.degree ≤ d * x ^ ct.degree ∧ d * x ^ ct.degree ≤
        (d * scaleAt ct M x / precision + slack ct d) * M ^ ct.degree := by
  obtain ⟨hlow, hhigh⟩ := scaleAt_mem ct hM hx hfits
  generalize scaleAt ct M x = q at hlow hhigh
  obtain ⟨δ, hδ⟩ : ∃ δ, δ = d * q / precision := ⟨_, rfl⟩
  have hδq : δ * precision ≤ d * q := hδ ▸ Nat.div_mul_le_self _ _
  have hδq' : d * q ≤ (δ + 1) * precision := by
    rw [hδ, Nat.mul_comm (_ + 1)]
    exact (Nat.lt_mul_div_succ _ precision_pos).le
  have hd : d ≤ (d / precision + 1) * precision := by
    rw [Nat.mul_comm]
    exact (Nat.lt_mul_div_succ d precision_pos).le
  rw [← hδ]
  constructor
  · refine Nat.le_of_mul_le_mul_right ?_ precision_pos
    calc δ * M ^ ct.degree * precision = δ * precision * M ^ ct.degree := by ring
      _ ≤ d * q * M ^ ct.degree := Nat.mul_le_mul_right _ hδq
      _ = d * (q * M ^ ct.degree) := by ring
      _ ≤ d * (x ^ ct.degree * precision) := Nat.mul_le_mul_left d hlow
      _ = d * x ^ ct.degree * precision := by ring
  · refine Nat.le_of_mul_le_mul_right ?_ precision_pos
    calc d * x ^ ct.degree * precision = d * (x ^ ct.degree * precision) := by ring
      _ ≤ d * ((q + ct.lag) * M ^ ct.degree) := Nat.mul_le_mul_left d hhigh
      _ = (d * q + ct.lag * d) * M ^ ct.degree := by ring
      _ ≤ ((δ + 1) * precision + ct.lag * ((d / precision + 1) * precision)) * M ^ ct.degree :=
        Nat.mul_le_mul_right _ (Nat.add_le_add hδq' (Nat.mul_le_mul_left _ hd))
      _ = (δ + slack ct d) * M ^ ct.degree * precision := by
        unfold slack
        ring

/-- How far the end price is from the start price. -/
def spread (s e : Nat) : Nat := max s e - min s e

theorem saturatingMul_step (hd : d * precision < 2 ^ 128) :
    saturatingMul d (scaleAt ct M x) = d * scaleAt ct M x := by
  have hle : d * scaleAt ct M x ≤ d * precision := Nat.mul_le_mul_left d (scaleAt_le ct M x)
  refine Nat.min_eq_left ?_
  unfold u128Max
  omega

/-- A line or a parabola over the prices of a curve, scaled by the power of `M`. -/
def shape (ct : CurveType) (s e M x : Nat) : Int :=
  (if s ≤ e then (s : Int) else s + slack ct (spread s e)) * M ^ ct.degree +
    ((e : Int) - s) * x ^ ct.degree

theorem priceAt_shape (ct : CurveType) (hM : 0 < M) (hx : x ≤ M) (hfits : M < 2 ^ 64)
    (he : e < 2 ^ 128) (hd : spread s e * precision < 2 ^ 128) :
    (priceAt ct s e M x * M ^ ct.degree : Int) ≤ shape ct s e M x ∧
      shape ct s e M x ≤ (priceAt ct s e M x + slack ct (spread s e)) * M ^ ct.degree := by
  rw [priceAt_eq hM he]
  unfold shape
  split
  · next hle =>
    have hspread : spread s e = e - s := by unfold spread; omega
    rw [hspread] at hd ⊢
    rw [saturatingMul_step hd]
    obtain ⟨hlow, hhigh⟩ := step_mem ct (e - s) hM hx hfits
    generalize (e - s) * scaleAt ct M x / precision = δ at hlow hhigh
    have hdiff : ((e - s : Nat) : Int) = (e : Int) - s := Int.ofNat_sub hle
    zify at hlow hhigh
    rw [hdiff] at hlow hhigh
    push_cast
    constructor
    · linarith
    · linarith
  · next hlt =>
    have hspread : spread s e = s - e := by unfold spread; omega
    have hstep : saturatingMul (s - e) (scaleAt ct M x) / precision ≤ s - e :=
      step_le ct M x (s - e)
    rw [hspread] at hd ⊢
    rw [saturatingMul_step hd] at hstep ⊢
    obtain ⟨hlow, hhigh⟩ := step_mem ct (s - e) hM hx hfits
    generalize (s - e) * scaleAt ct M x / precision = δ at hstep hlow hhigh
    have hdiff : ((s - e : Nat) : Int) = (s : Int) - e := Int.ofNat_sub (by omega)
    have hprice : ((s - δ : Nat) : Int) = (s : Int) - δ := Int.ofNat_sub (by omega)
    zify at hlow hhigh
    rw [hdiff] at hlow hhigh
    rw [hprice]
    constructor
    · linarith
    · linarith

/-! ## The area under the shape -/

def area (ct : CurveType) (s e M x : Nat) : Int :=
  match ct with
  | .linear => x * (shape .linear s e M 0 + shape .linear s e M x)
  | .exponential => x * (4 * shape .exponential s e M 0 + 2 * shape .exponential s e M x)

/-- The area that a trade moves, over and under the trapezoid of its ends. -/
def bend (ct : CurveType) (s e : Nat) : Nat × Nat :=
  match ct with
  | .linear => (1, 1)
  | .exponential => if s ≤ e then (3, 2) else (4, 3)

def trapezoid (ct : CurveType) (s e M x n : Nat) : Int :=
  n * (shape ct s e M x + shape ct s e M (x + n))

theorem area_linear (s e M x n : Nat) :
    area .linear s e M (x + n) = area .linear s e M x + trapezoid .linear s e M x n := by
  unfold area trapezoid shape CurveType.degree
  push_cast
  ring

theorem area_exponential (s e M x n : Nat) :
    area .exponential s e M (x + n) + ((e : Int) - s) * n ^ 3 =
      area .exponential s e M x + 3 * trapezoid .exponential s e M x n := by
  unfold area trapezoid shape CurveType.degree
  push_cast
  ring

theorem trapezoid_rising (hse : s ≤ e) (M x n : Nat) :
    ((e : Int) - s) * n ^ 3 ≤ trapezoid .exponential s e M x n := by
  have hd : 0 ≤ (e : Int) - s := by omega
  have hrest : trapezoid .exponential s e M x n - ((e : Int) - s) * n ^ 3 =
      n * (2 * s * M ^ 2) + ((e : Int) - s) * (n * (2 * x ^ 2 + 2 * x * n)) := by
    unfold trapezoid shape CurveType.degree
    rw [if_pos hse]
    push_cast
    ring
  have hbase : 0 ≤ (n : Int) * (2 * s * M ^ 2) := by positivity
  have hmore : 0 ≤ ((e : Int) - s) * (n * (2 * x ^ 2 + 2 * x * n)) :=
    mul_nonneg hd (by positivity)
  linarith

theorem trapezoid_falling {n : Nat} (hse : e < s) (hpos : 0 ≤ shape .exponential s e M (x + n)) :
    ((s : Int) - e) * n ^ 3 ≤ trapezoid .exponential s e M x n := by
  have hd : 0 ≤ (s : Int) - e := by omega
  have hrest : trapezoid .exponential s e M x n - ((s : Int) - e) * n ^ 3 =
      n * (2 * shape .exponential s e M (x + n)) + ((s : Int) - e) * (2 * x * n ^ 2) := by
    unfold trapezoid shape CurveType.degree
    push_cast
    ring
  have hbase : 0 ≤ (n : Int) * (2 * shape .exponential s e M (x + n)) :=
    mul_nonneg (by positivity) (by linarith)
  have hmore : 0 ≤ ((s : Int) - e) * (2 * x * n ^ 2) := mul_nonneg hd (by positivity)
  linarith

theorem area_mem (ct : CurveType) {n : Nat} (hpos : 0 ≤ shape ct s e M (x + n)) :
    area ct s e M x + (bend ct s e).2 * trapezoid ct s e M x n ≤ area ct s e M (x + n) ∧
      area ct s e M (x + n) ≤ area ct s e M x + (bend ct s e).1 * trapezoid ct s e M x n := by
  cases ct with
  | linear =>
    have harea := area_linear s e M x n
    unfold bend
    push_cast
    constructor
    · linarith
    · linarith
  | exponential =>
    have harea := area_exponential s e M x n
    unfold bend
    rcases Nat.lt_or_ge e s with hse | hse
    · have htrapezoid := trapezoid_falling hse hpos
      have hcube : 0 ≤ ((s : Int) - e) * n ^ 3 := mul_nonneg (by omega) (by positivity)
      rw [if_neg (by omega)]
      push_cast
      constructor
      · linarith
      · linarith
    · have htrapezoid := trapezoid_rising hse M x n
      have hcube : 0 ≤ ((e : Int) - s) * n ^ 3 := mul_nonneg (by omega) (by positivity)
      rw [if_pos hse]
      push_cast
      constructor
      · linarith
      · linarith

end Shape

end Aeqi.Market
