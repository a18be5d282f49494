import Mathlib.Tactic.Ring
import Mathlib.Tactic.Linarith

/-!
# Pool shares and constant products in floor arithmetic

A pool with reserve `R` and `S` shares is worth `R / S` a share; that a share is
worth no less afterwards, `R / S ≤ R' / S'`, is stated without fractions as
`R * S' ≤ R' * S`. Rounding a withdrawal down favours the shares that stay;
rounding a deposit down favours the one who deposits, unless nothing is rounded.
-/

namespace Aeqi.Lib.Shares

section Side

variable {R S l paid : Nat}

/-- A withdrawal of `l` shares, paid out rounded down. -/
theorem withdraw_le (R S l : Nat) : R * (S - l) ≤ (R - l * R / S) * S := by
  have hfloor : l * R / S * S ≤ l * R := Nat.div_mul_le_self _ _
  rw [Nat.mul_sub, Nat.sub_mul, Nat.mul_comm R l]
  omega

theorem withdraw_lt (hR : 0 < R) (hl : l < S) : l * R / S < R := by
  rw [Nat.div_lt_iff_lt_mul (by omega), Nat.mul_comm R S]
  exact Nat.mul_lt_mul_of_pos_right hl hR

theorem withdraw_all (hS : 0 < S) : S * R / S = R := Nat.mul_div_cancel_left R hS

/-- A deposit for `l` shares, paid in rounded down, never pays too much. -/
theorem deposit_le : (R + l * R / S) * S ≤ R * (S + l) := by
  have hfloor : l * R / S * S ≤ l * R := Nat.div_mul_le_self _ _
  calc (R + l * R / S) * S = R * S + l * R / S * S := Nat.add_mul _ _ _
    _ ≤ R * S + l * R := Nat.add_le_add_left hfloor _
    _ = R * (S + l) := by ring

theorem deposit_ge_iff : R * (S + l) ≤ (R + l * R / S) * S ↔ S ∣ l * R := by
  have hsplit : (R + l * R / S) * S = R * S + l * R / S * S := Nat.add_mul _ _ _
  have hshare : R * (S + l) = R * S + l * R := by ring
  rw [hsplit, hshare, Nat.add_le_add_iff_left]
  constructor
  · intro h
    have hcancel : l * R / S * S = l * R := Nat.le_antisymm (Nat.div_mul_le_self _ _) h
    exact ⟨l * R / S, by rw [Nat.mul_comm S, hcancel]⟩
  · intro h
    rw [Nat.div_mul_cancel h]

theorem round_trip_le (h : R * l ≤ paid * S) : l * (R + paid) / (S + l) ≤ paid := by
  apply Nat.div_le_of_le_mul
  calc l * (R + paid) = R * l + l * paid := by ring
    _ ≤ paid * S + l * paid := Nat.add_le_add_right h _
    _ = (S + l) * paid := by ring

theorem sum_floor_le {α : Type} (f : α → Nat) (a c : Nat) (l : List α) :
    (l.map fun x => f x * a / c).sum ≤ (l.map f).sum * a / c := by
  induction l with
  | nil => exact Nat.zero_le _
  | cons x l ih =>
    calc f x * a / c + (l.map fun x => f x * a / c).sum
        ≤ f x * a / c + (l.map f).sum * a / c := Nat.add_le_add_left ih _
      _ ≤ (f x * a + (l.map f).sum * a) / c := Nat.div_add_div_le_add_div
      _ = (f x + (l.map f).sum) * a / c := by rw [Nat.add_mul]

/-- Prices compose: `R / S` is kept from one pool to the next. -/
theorem price_trans {R₀ S₀ R' S' : Nat} (hS : 0 < S) (h : R * S₀ = R₀ * S)
    (h' : R' * S = R * S') : R' * S₀ = R₀ * S' := by
  apply Nat.eq_of_mul_eq_mul_right hS
  calc R' * S₀ * S = R' * S * S₀ := by ring
    _ = R * S' * S₀ := by rw [h']
    _ = R * S₀ * S' := by ring
    _ = R₀ * S * S' := by rw [h]
    _ = R₀ * S' * S := by ring

end Side

section Product

variable {B Q S B' Q' S' : Nat}

theorem product_le (hB : B * S' ≤ B' * S) (hQ : Q * S' ≤ Q' * S) :
    B * Q * S' ^ 2 ≤ B' * Q' * S ^ 2 := by
  calc B * Q * S' ^ 2 = (B * S') * (Q * S') := by ring
    _ ≤ (B' * S) * (Q' * S) := Nat.mul_le_mul hB hQ
    _ = B' * Q' * S ^ 2 := by ring

theorem sides_le_of_product_le (hB : B' * S ≤ B * S') (hQ : Q' * S ≤ Q * S')
    (hBpos : 0 < B * S') (hQpos : 0 < Q * S') (h : B * Q * S' ^ 2 ≤ B' * Q' * S ^ 2) :
    B * S' ≤ B' * S ∧ Q * S' ≤ Q' * S := by
  have hprod : (B * S') * (Q * S') ≤ (B' * S) * (Q' * S) := by
    calc (B * S') * (Q * S') = B * Q * S' ^ 2 := by ring
      _ ≤ B' * Q' * S ^ 2 := h
      _ = (B' * S) * (Q' * S) := by ring
  constructor
  · by_contra hlt
    have hstrict : (B' * S) * (Q' * S) < (B * S') * (Q * S') :=
      Nat.mul_lt_mul_of_lt_of_le (by omega) hQ hQpos
    omega
  · by_contra hlt
    have hstrict : (B' * S) * (Q' * S) < (B * S') * (Q * S') :=
      Nat.mul_lt_mul_of_le_of_lt hB (by omega) hBpos
    omega

end Product

/-! ## The constant product -/

section Swap

variable {x y e fee : Nat}

theorem swap_out_lt (hx : 0 < x) (hy : 0 < y) : y * e / (x + e) < y := by
  rw [Nat.div_lt_iff_lt_mul (by omega)]
  exact Nat.mul_lt_mul_of_pos_left (by omega) hy

/-- The product does not fall, whatever is kept as a fee on top of `e`. -/
theorem swap_product_le (x y e fee : Nat) :
    x * y ≤ (x + (e + fee)) * (y - y * e / (x + e)) := by
  have hfloor : y * e / (x + e) * (x + e) ≤ y * e := Nat.div_mul_le_self _ _
  have hnofee : x * y ≤ (x + e) * (y - y * e / (x + e)) := by
    rw [Nat.mul_sub, Nat.mul_comm (x + e) (y * e / (x + e))]
    have hsplit : (x + e) * y = x * y + y * e := by ring
    omega
  exact Nat.le_trans hnofee (Nat.mul_le_mul_right _ (by omega))

theorem other_side_le {x' y' : Nat} (h : x * y ≤ x' * y') (hx : x' ≤ x) (hpos : 0 < x') :
    y ≤ y' := by
  have hle : x' * y ≤ x' * y' := Nat.le_trans (Nat.mul_le_mul_right y hx) h
  exact Nat.le_of_mul_le_mul_left hle hpos

end Swap

/-! ## Integer square roots by Newton's iteration -/

section Sqrt

variable {v x : Nat}

theorem sqrt_le_newton (hx : 0 < x) : Nat.sqrt v ≤ (x + v / x) / 2 := by
  rw [Nat.le_div_iff_mul_le (by decide)]
  by_cases hfar : Nat.sqrt v * 2 ≤ x
  · exact Nat.le_trans hfar (Nat.le_add_right _ _)
  · have hsq : Nat.sqrt v * Nat.sqrt v ≤ v := Nat.sqrt_le v
    have hquot : Nat.sqrt v * 2 - x ≤ v / x := by
      rw [Nat.le_div_iff_mul_le hx]
      obtain ⟨d, hd⟩ := Nat.exists_eq_add_of_lt (Nat.lt_of_not_le hfar)
      have hdiff : Nat.sqrt v * 2 - x = d + 1 := by omega
      nlinarith [sq_nonneg ((x : Int) - (d + 1))]
    omega

theorem le_sqrt_of_newton_ge (hx : 0 < x) (h : x ≤ (x + v / x) / 2) : x ≤ Nat.sqrt v := by
  rw [Nat.le_sqrt]
  exact (Nat.le_div_iff_mul_le hx).1 (by omega)

end Sqrt

end Aeqi.Lib.Shares
