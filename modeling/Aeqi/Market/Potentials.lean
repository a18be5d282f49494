import Aeqi.Market.Prices
import Aeqi.Market.Steps

/-!
# Potentials of a bonding curve

A potential assigns an amount to every supply, such that every buy covers what it adds and
every sale spends no more than it removes. Costs are trapezoids rounded down, so many small
buys pay less than one large sale returns, and not every curve has one: a curve does when
its price hardly moves (`Flat`), or when its reserve ratio keeps back what the floors of a
buy and the bend of the curve can lose (`Spaced`).
-/

namespace Aeqi.Market

open Option
open CurveType (fromU8)

/-- What `create_curve` checks and every trade keeps, with the sizes of the fields. -/
structure BondingCurve.Wf (c : BondingCurve) : Prop where
  ratio : c.reserveRatioPpm ≤ 1000000
  positive : 0 < c.maxSupply
  fits : c.maxSupply < 2 ^ 64 ∧ c.startPrice < 2 ^ 128 ∧ c.endPrice < 2 ^ 128
  supply : c.currentSupply ≤ c.maxSupply

def BondingCurve.SameTerms (c c' : BondingCurve) : Prop :=
  c' = { c with
    currentSupply := c'.currentSupply
    reserveBalance := c'.reserveBalance
    proceedsCollected := c'.proceedsCollected }

theorem BondingCurve.SameTerms.symm {c c' : BondingCurve} (h : c.SameTerms c') :
    c'.SameTerms c := by
  unfold BondingCurve.SameTerms at ⊢
  rw [h]

/-- A potential of a curve: a buy pays for what it adds, a sale takes no more than it
removes, where a unit of quote pays for `K`. -/
structure Potential (K : Nat) (Φ : Nat → Int) (c : BondingCurve) : Prop where
  zero : Φ 0 = 0
  buy : ∀ {x n cost}, 0 < n → x + n ≤ c.maxSupply → c.costAt x n = some cost →
    Φ (x + n) ≤ Φ x + K * cost
  sell : ∀ {x n returned}, x + n ≤ c.maxSupply → c.returnAt (x + n) n = some returned →
    Φ x + K * returned ≤ Φ (x + n)
  nonneg : ∀ {x}, x ≤ c.maxSupply → 0 ≤ Φ x

section Potential

variable {K : Nat} {Φ : Nat → Int} {c c' : BondingCurve} {n r : Nat}

theorem Potential.sameTerms (hp : Potential K Φ c) (h : c.SameTerms c') : Potential K Φ c' := by
  rw [h]
  exact ⟨hp.zero, hp.buy, hp.sell, hp.nonneg⟩

theorem Potential.sell_now (hp : Potential K Φ c) (hwf : c.Wf) (hn : n ≤ c.currentSupply)
    (hr : c.returnOf n = some r) : Φ (c.currentSupply - n) + K * r ≤ Φ c.currentSupply := by
  obtain ⟨x, hx⟩ := Nat.exists_eq_add_of_le' hn
  have hsupply := hwf.supply
  rw [BondingCurve.returnOf, hx] at hr
  rw [hx] at hsupply ⊢
  rw [Nat.add_sub_cancel]
  exact hp.sell hsupply hr

end Potential

/-! ## Curves with a potential -/

namespace BondingCurve

variable (c : BondingCurve)

def low : Nat := min c.startPrice c.endPrice

def high : Nat := max c.startPrice c.endPrice

/-- A token never returns more at the highest price than it costs at the lowest. -/
def Flat : Prop := c.high * c.reserveRatioPpm ≤ 1000000 * (precision * (c.low / precision))

/-- The steps of the price do not saturate, and the reserve ratio keeps back from every
token what the floors of a buy, and the bend of the curve, can lose. -/
def Spaced : Prop :=
  spread c.startPrice c.endPrice * precision < 2 ^ 128 ∧
    ∀ ct ∈ fromU8 c.curveType,
      (bend ct c.startPrice c.endPrice).2 * 1000000 *
          (2 * precision + 2 * slack ct (spread c.startPrice c.endPrice) + 1) ≤
        ((bend ct c.startPrice c.endPrice).2 * 1000000 -
          (bend ct c.startPrice c.endPrice).1 * c.reserveRatioPpm) * (2 * c.low)

def Covered : Prop := c.Flat ∨ c.Spaced

instance : Decidable c.Covered := by
  unfold Covered Flat Spaced
  infer_instance

variable {c : BondingCurve} {x n cost returned : Nat}

theorem costAt_eq_some : c.costAt x n = some cost ↔ ∃ ct, fromU8 c.curveType = some ct ∧
      purchaseCost ct c.startPrice c.endPrice c.maxSupply x n = some cost := by
  simp [costAt, Option.bind_eq_some_iff]

theorem returnAt_eq_some : c.returnAt x n = some returned ↔ ∃ ct, fromU8 c.curveType = some ct ∧
      saleReturn ct c.startPrice c.endPrice c.maxSupply x n c.reserveRatioPpm = some returned := by
  simp [returnAt, Option.bind_eq_some_iff]

theorem Wf.ends_mem (hwf : c.Wf) (ct : CurveType) (x n : Nat) :
    2 * c.low ≤ ends ct c.startPrice c.endPrice c.maxSupply x n ∧
      ends ct c.startPrice c.endPrice c.maxSupply x n ≤ 2 * c.high := by
  have hstart := priceAt_mem ct c.startPrice x hwf.positive hwf.fits.2.2
  have hend := priceAt_mem ct c.startPrice (x + n) hwf.positive hwf.fits.2.2
  unfold low high ends
  omega

theorem Flat.potential (hwf : c.Wf) (h : c.Flat) :
    Potential 1 (fun x => ((c.low / precision * x : Nat) : Int)) c where
  zero := rfl
  nonneg _ := Int.natCast_nonneg _
  buy := by
    intro x n cost hn _ hcost
    obtain ⟨ct, -, hcost⟩ := costAt_eq_some.1 hcost
    obtain ⟨hlow, -⟩ := hwf.ends_mem ct x n
    have hunit : c.low / precision * n ≤ cost := by
      rw [← purchaseCost_eq_some hn hcost, Nat.mul_comm]
      refine Nat.le_trans (Nat.mul_div_le_mul_div_assoc n c.low precision) ?_
      exact Nat.div_le_div_right (Nat.mul_le_mul_left n (by omega))
    have hsplit : c.low / precision * (x + n) = c.low / precision * x + c.low / precision * n :=
      Nat.mul_add _ _ _
    omega
  sell := by
    intro x n r _ hr
    obtain ⟨ct, -, hr⟩ := returnAt_eq_some.1 hr
    obtain ⟨-, hhigh⟩ := hwf.ends_mem ct x n
    have hunit : r ≤ c.low / precision * n := by
      refine Nat.le_of_mul_le_mul_left ?_ (show 0 < 2 * precision * 1000000 by decide)
      calc 2 * precision * 1000000 * r
          ≤ c.reserveRatioPpm * (n * ends ct c.startPrice c.endPrice c.maxSupply x n) :=
            saleReturn_le hr
        _ ≤ c.reserveRatioPpm * (n * (2 * c.high)) :=
          Nat.mul_le_mul_left _ (Nat.mul_le_mul_left _ hhigh)
        _ = 2 * n * (c.high * c.reserveRatioPpm) := by ring
        _ ≤ 2 * n * (1000000 * (precision * (c.low / precision))) := Nat.mul_le_mul_left _ h
        _ = 2 * precision * 1000000 * (c.low / precision * n) := by ring
    have hsplit : c.low / precision * (x + n) = c.low / precision * x + c.low / precision * n :=
      Nat.mul_add _ _ _
    omega

theorem bend_pos (ct : CurveType) (s e : Nat) : 0 < (bend ct s e).2 := by
  unfold bend
  split
  · decide
  · split <;> decide

section Spaced

variable {ct : CurveType}

theorem Spaced.le_cost (hwf : c.Wf) (h : c.Spaced) (hct : fromU8 c.curveType = some ct)
    (hn : 0 < n)
    (hcost : purchaseCost ct c.startPrice c.endPrice c.maxSupply x n = some cost) :
    (bend ct c.startPrice c.endPrice).1 * c.reserveRatioPpm *
        (n * (ends ct c.startPrice c.endPrice c.maxSupply x n +
          2 * slack ct (spread c.startPrice c.endPrice))) ≤
      (bend ct c.startPrice c.endPrice).2 * 1000000 * (2 * precision * cost) := by
  have hkept := h.2 ct hct
  obtain ⟨hlow, -⟩ := hwf.ends_mem ct x n
  have hfloor := le_purchaseCost hn hcost
  have hbend : 0 < (bend ct c.startPrice c.endPrice).2 * 1000000 :=
    Nat.mul_pos (bend_pos ..) (by decide)
  generalize ends ct c.startPrice c.endPrice c.maxSupply x n = E at hlow hfloor
  generalize slack ct (spread c.startPrice c.endPrice) = η at hkept
  generalize (bend ct c.startPrice c.endPrice).2 * 1000000 = b at hkept hbend
  generalize (bend ct c.startPrice c.endPrice).1 * c.reserveRatioPpm = a at hkept
  have hab : a ≤ b := by
    by_contra hlt
    rw [Nat.sub_eq_zero_of_le (by omega), Nat.zero_mul] at hkept
    exact absurd hkept (Nat.not_le.2 (Nat.mul_pos hbend (by omega)))
  obtain ⟨g, rfl⟩ := Nat.exists_eq_add_of_le hab
  rw [Nat.add_sub_cancel_left] at hkept
  have hone : 2 * precision ≤ n * (2 * precision) := Nat.le_mul_of_pos_left _ hn
  have hkeep : (a + g) * (2 * precision + n) + a * (n * (2 * η)) ≤ g * (n * E) := by
    calc (a + g) * (2 * precision + n) + a * (n * (2 * η))
        ≤ (a + g) * (n * (2 * precision) + n) + (a + g) * (n * (2 * η)) := by
          refine Nat.add_le_add (Nat.mul_le_mul_left _ (by omega)) ?_
          exact Nat.mul_le_mul_right _ hab
      _ = n * ((a + g) * (2 * precision + 2 * η + 1)) := by ring
      _ ≤ n * (g * (2 * c.low)) := Nat.mul_le_mul_left n hkept
      _ ≤ n * (g * E) := Nat.mul_le_mul_left n (Nat.mul_le_mul_left g hlow)
      _ = g * (n * E) := by ring
  have hcost' : (a + g) * (n * E) ≤ (a + g) * (2 * precision * cost + 2 * precision + n) :=
    Nat.mul_le_mul_left _ hfloor
  linarith

theorem Spaced.shape_mem (hwf : c.Wf) (h : c.Spaced) (ct : CurveType) (hx : x ≤ c.maxSupply) :
    (priceAt ct c.startPrice c.endPrice c.maxSupply x * c.maxSupply ^ ct.degree : Int) ≤
      shape ct c.startPrice c.endPrice c.maxSupply x ∧
    shape ct c.startPrice c.endPrice c.maxSupply x ≤
      (priceAt ct c.startPrice c.endPrice c.maxSupply x +
        slack ct (spread c.startPrice c.endPrice)) * c.maxSupply ^ ct.degree :=
  priceAt_shape ct hwf.positive hx hwf.fits.1 hwf.fits.2.2 h.1

theorem Spaced.shape_nonneg (hwf : c.Wf) (h : c.Spaced) (ct : CurveType) (hx : x ≤ c.maxSupply) :
    0 ≤ shape ct c.startPrice c.endPrice c.maxSupply x :=
  le_trans (by positivity) (h.shape_mem hwf ct hx).1

theorem Spaced.trapezoid_mem (hwf : c.Wf) (h : c.Spaced) (ct : CurveType)
    (hmax : x + n ≤ c.maxSupply) :
    (n * ends ct c.startPrice c.endPrice c.maxSupply x n * c.maxSupply ^ ct.degree : Int) ≤
      trapezoid ct c.startPrice c.endPrice c.maxSupply x n ∧
    trapezoid ct c.startPrice c.endPrice c.maxSupply x n ≤
      n * (ends ct c.startPrice c.endPrice c.maxSupply x n +
        2 * slack ct (spread c.startPrice c.endPrice)) * c.maxSupply ^ ct.degree := by
  obtain ⟨hstart, hstart'⟩ := h.shape_mem hwf ct (Nat.le_trans (Nat.le_add_right x n) hmax)
  obtain ⟨hend, hend'⟩ := h.shape_mem hwf ct hmax
  have hn : (0 : Int) ≤ n := Int.natCast_nonneg n
  have hlow := mul_le_mul_of_nonneg_left (add_le_add hstart hend) hn
  have hhigh := mul_le_mul_of_nonneg_left (add_le_add hstart' hend') hn
  unfold trapezoid ends
  push_cast
  constructor
  · linarith
  · linarith

theorem Spaced.area_buy (hwf : c.Wf) (h : c.Spaced)
    (hct : fromU8 c.curveType = some ct) (hn : 0 < n) (hmax : x + n ≤ c.maxSupply)
    (hcost : purchaseCost ct c.startPrice c.endPrice c.maxSupply x n = some cost) :
    c.reserveRatioPpm * area ct c.startPrice c.endPrice c.maxSupply (x + n) ≤
      c.reserveRatioPpm * area ct c.startPrice c.endPrice c.maxSupply x +
        ((c.maxSupply ^ ct.degree * ((bend ct c.startPrice c.endPrice).2 * 1000000 *
          (2 * precision)) : Nat) : Int) * cost := by
  have hle := h.le_cost hwf hct hn hcost
  obtain ⟨-, harea⟩ := area_mem ct (h.shape_nonneg hwf ct hmax)
  obtain ⟨-, htrapezoid⟩ := h.trapezoid_mem hwf ct hmax
  generalize ends ct c.startPrice c.endPrice c.maxSupply x n = E at hle htrapezoid
  have hscaled := Nat.mul_le_mul_right (c.maxSupply ^ ct.degree) hle
  have hppm : (0 : Int) ≤ c.reserveRatioPpm := Int.natCast_nonneg _
  have hmoved := mul_le_mul_of_nonneg_left harea hppm
  have hshare := mul_le_mul_of_nonneg_left htrapezoid
    (mul_nonneg hppm (Int.natCast_nonneg (bend ct c.startPrice c.endPrice).1))
  push_cast
  linarith

theorem Spaced.area_sell (hwf : c.Wf) (h : c.Spaced) (hmax : x + n ≤ c.maxSupply)
    (hr : saleReturn ct c.startPrice c.endPrice c.maxSupply (x + n) n c.reserveRatioPpm =
      some returned) :
    c.reserveRatioPpm * area ct c.startPrice c.endPrice c.maxSupply x +
        ((c.maxSupply ^ ct.degree * ((bend ct c.startPrice c.endPrice).2 * 1000000 *
          (2 * precision)) : Nat) : Int) * returned ≤
      c.reserveRatioPpm * area ct c.startPrice c.endPrice c.maxSupply (x + n) := by
  have hle := saleReturn_le hr
  obtain ⟨harea, -⟩ := area_mem ct (h.shape_nonneg hwf ct hmax)
  obtain ⟨htrapezoid, -⟩ := h.trapezoid_mem hwf ct hmax
  generalize ends ct c.startPrice c.endPrice c.maxSupply x n = E at hle htrapezoid
  have hscaled := Nat.mul_le_mul_right
    (c.maxSupply ^ ct.degree * (bend ct c.startPrice c.endPrice).2) hle
  have hppm : (0 : Int) ≤ c.reserveRatioPpm := Int.natCast_nonneg _
  have hmoved := mul_le_mul_of_nonneg_left harea hppm
  have hshare := mul_le_mul_of_nonneg_left htrapezoid
    (mul_nonneg hppm (Int.natCast_nonneg (bend ct c.startPrice c.endPrice).2))
  push_cast
  linarith

theorem Spaced.area_nonneg (hwf : c.Wf) (h : c.Spaced) (ct : CurveType) (hx : x ≤ c.maxSupply) :
    0 ≤ area ct c.startPrice c.endPrice c.maxSupply x := by
  have hzero := h.shape_nonneg hwf ct (Nat.zero_le c.maxSupply)
  have hx' := h.shape_nonneg hwf ct hx
  cases ct with
  | linear | exponential =>
    unfold area
    positivity

theorem Spaced.potential (hwf : c.Wf) (h : c.Spaced)
    (hct : fromU8 c.curveType = some ct) :
    Potential (c.maxSupply ^ ct.degree *
        ((bend ct c.startPrice c.endPrice).2 * 1000000 * (2 * precision)))
      (fun x => c.reserveRatioPpm * area ct c.startPrice c.endPrice c.maxSupply x) c where
  zero := by cases ct <;> simp [area]
  buy := by
    intro x n cost hn hmax hcost
    obtain ⟨ct', hct', hcost⟩ := costAt_eq_some.1 hcost
    obtain rfl : ct = ct' := some.inj (hct.symm.trans hct')
    exact h.area_buy hwf hct hn hmax hcost
  sell := by
    intro x n returned hmax hr
    obtain ⟨ct', hct', hr⟩ := returnAt_eq_some.1 hr
    obtain rfl : ct = ct' := some.inj (hct.symm.trans hct')
    exact h.area_sell hwf hmax hr
  nonneg := by
    intro x hx
    exact mul_nonneg (by omega) (h.area_nonneg hwf ct hx)

end Spaced

theorem potential_untyped (hct : fromU8 c.curveType = none) :
    Potential 1 (fun _ => 0) c where
  zero := rfl
  nonneg _ := le_refl _
  buy := by
    intro x n cost _ _ hcost
    obtain ⟨ct, hct', -⟩ := costAt_eq_some.1 hcost
    rw [hct] at hct'
    cases hct'
  sell := by
    intro x n returned _ hr
    obtain ⟨ct, hct', -⟩ := returnAt_eq_some.1 hr
    rw [hct] at hct'
    cases hct'

theorem Covered.potential (hwf : c.Wf) (h : c.Covered) : ∃ K Φ, 0 < K ∧ Potential K Φ c := by
  rcases h with h | h
  · exact ⟨_, _, Nat.one_pos, h.potential hwf⟩
  · cases hct : fromU8 c.curveType with
    | none => exact ⟨_, _, Nat.one_pos, potential_untyped hct⟩
    | some ct =>
      refine ⟨_, _, Nat.mul_pos (Nat.pow_pos hwf.positive) ?_, h.potential hwf hct⟩
      exact Nat.mul_pos (Nat.mul_pos (bend_pos ..) (by decide)) (by decide)

end BondingCurve

end Aeqi.Market
