import Aeqi.Funds.Flows
import Mathlib.Tactic.Linarith

/-!
# What becomes carry

A mark accrues carry on whatever it reports above the high-water mark, and the mark only
moves with the marks themselves: a deposit lifts the NAV and leaves the mark behind. So the
carry is bounded by gains and deposits together (`CarryBounded`), and by the gains alone as
long as no mark is made on a NAV above the high-water mark.
-/

namespace Aeqi.Funds

open Aeqi.Lib Aeqi.Solana Option

def MarkedBelow (es : List FundEvent) : Prop :=
  ∀ gain carry above, .marked gain carry above ∈ es → above = 0

/-- The carry accrued so far, with what the NAV above the mark can still become. -/
structure CarryBounded (es : List FundEvent) (f : Fund) : Prop where
  bps : f.carryBps ≤ 10000
  total : 10000 * carryIn es + f.carryBps * (f.grossNav - f.highWaterMark) ≤
    f.carryBps * (gainsIn es + depositsIn es)
  gains : MarkedBelow es → 10000 * carryIn es ≤ f.carryBps * gainsIn es

inductive CarryPhase (es : List FundEvent) : Option Fund → Prop
  | absent (h : carryIn es = 0) : CarryPhase es none
  | opened {f : Fund} (h : CarryBounded es f) : CarryPhase es (some f)

section Step

variable {es : List FundEvent} {f : Fund} {s s' : FundState} {k : TrustPda} {e : FundEvent}
  {lpNav : Nat}

theorem MarkedBelow.tail (h : MarkedBelow (e :: es)) : MarkedBelow es :=
  fun g c a hm => h g c a (List.mem_cons_of_mem _ hm)

theorem carryOn_le (f : Fund) (lpNav : Nat) :
    10000 * f.carryOn lpNav ≤ f.carryBps * (lpNav - f.highWaterMark) := by
  rw [Nat.mul_comm f.carryBps]
  exact Nat.mul_div_le _ _

theorem CarryBounded.quiet (h : CarryBounded es f) {f' : Fund} {n : Nat}
    (hcarry : carryIn (e :: es) = carryIn es) (hgains : gainsIn (e :: es) = gainsIn es)
    (hdeposits : depositsIn (e :: es) = n + depositsIn es) (hbps : f'.carryBps = f.carryBps)
    (habove : f'.grossNav - f'.highWaterMark ≤ f.grossNav - f.highWaterMark + n) :
    CarryBounded (e :: es) f' := by
  refine ⟨hbps ▸ h.bps, ?_, fun hbelow => ?_⟩
  · rw [hcarry, hgains, hdeposits, hbps]
    calc 10000 * carryIn es + f.carryBps * (f'.grossNav - f'.highWaterMark)
        ≤ 10000 * carryIn es + f.carryBps * (f.grossNav - f.highWaterMark + n) :=
          Nat.add_le_add_left (Nat.mul_le_mul_left _ habove) _
      _ = 10000 * carryIn es + f.carryBps * (f.grossNav - f.highWaterMark) + f.carryBps * n := by
          ring
      _ ≤ f.carryBps * (gainsIn es + depositsIn es) + f.carryBps * n :=
          Nat.add_le_add_right h.total _
      _ = f.carryBps * (gainsIn es + (n + depositsIn es)) := by ring
  · rw [hcarry, hgains, hbps]
    exact h.gains hbelow.tail

theorem CarryBounded.mark (h : CarryBounded es f) :
    CarryBounded (.marked (lpNav - f.grossNav) (f.carryOn lpNav) (f.grossNav - f.highWaterMark) ::
      es) (f.marked lpNav) := by
  have hcarry := carryOn_le f lpNav
  have hspread : lpNav - f.highWaterMark ≤
      lpNav - f.grossNav + (f.grossNav - f.highWaterMark) := by omega
  refine ⟨h.bps, ?_, fun hbelow => ?_⟩
  · have habove : (f.marked lpNav).grossNav - (f.marked lpNav).highWaterMark = 0 :=
      Nat.sub_eq_zero_of_le (Nat.le_max_right _ _)
    rw [habove]
    have htotal := h.total
    calc 10000 * (f.carryOn lpNav + carryIn es)
        = 10000 * f.carryOn lpNav + 10000 * carryIn es := Nat.mul_add _ _ _
      _ ≤ f.carryBps * (lpNav - f.grossNav + (f.grossNav - f.highWaterMark)) + 10000 * carryIn es :=
        Nat.add_le_add_right (Nat.le_trans hcarry (Nat.mul_le_mul_left _ hspread)) _
      _ = f.carryBps * (lpNav - f.grossNav) + (10000 * carryIn es +
          f.carryBps * (f.grossNav - f.highWaterMark)) := by ring
      _ ≤ f.carryBps * (lpNav - f.grossNav) + f.carryBps * (gainsIn es + depositsIn es) :=
        Nat.add_le_add_left htotal _
      _ = f.carryBps * (lpNav - f.grossNav + gainsIn es + depositsIn es) := by ring
  · have hzero : f.grossNav - f.highWaterMark = 0 := hbelow _ _ _ List.mem_cons_self
    rw [hzero] at hspread
    have hgains := h.gains hbelow.tail
    calc 10000 * (f.carryOn lpNav + carryIn es)
        = 10000 * f.carryOn lpNav + 10000 * carryIn es := Nat.mul_add _ _ _
      _ ≤ f.carryBps * (lpNav - f.grossNav) + f.carryBps * gainsIn es :=
        Nat.add_le_add (Nat.le_trans hcarry (Nat.mul_le_mul_left _ hspread)) hgains
      _ = f.carryBps * (lpNav - f.grossNav + gainsIn es) := (Nat.mul_add _ _ _).symm

theorem CarryPhase.step (h : CarryPhase es (s.funds.lookup k)) (hmove : FundMoved k s s' e) :
    CarryPhase (e :: es) (s'.funds.lookup k) := by
  cases hmove with
  | kept hf =>
    rw [hf]
    generalize s.funds.lookup k = o at h
    cases h with
    | absent hzero => exact .absent hzero
    | opened h => exact .opened (h.quiet rfl rfl (Nat.zero_add _).symm rfl (le_rfl))
  | opened hfree hbps hf' =>
    rw [hfree] at h
    rw [hf']
    cases h with
    | absent hzero =>
      have hcarry : carryIn (.quiet :: es) = 0 := hzero
      refine .opened ⟨hbps, ?_, fun _ => ?_⟩
      · rw [hcarry]
        exact Nat.zero_le _
      · rw [hcarry]
        omega
  | @deposited f lp amount shares hf _ _ hf' =>
    rw [hf] at h
    rw [hf']
    cases h with
    | opened h =>
      refine .opened (h.quiet rfl rfl rfl rfl ?_)
      show f.grossNav + amount - f.highWaterMark ≤ f.grossNav - f.highWaterMark + amount
      omega
  | @redeemed f lp shares quoteOut hf _ _ _ hf' =>
    rw [hf] at h
    rw [hf']
    cases h with
    | opened h =>
      refine .opened (h.quiet rfl rfl (Nat.zero_add _).symm rfl ?_)
      show f.grossNav - quoteOut - f.highWaterMark ≤ f.grossNav - f.highWaterMark + 0
      omega
  | marked hf hmark hf' =>
    rw [hf] at h
    rw [hf']
    cases h with
    | opened h =>
      rw [markNav_ok h.bps hmark]
      exact .opened h.mark
  | carryClaimed hf hf' =>
    rw [hf] at h
    rw [hf']
    cases h with
    | opened h => exact .opened (h.quiet rfl rfl (Nat.zero_add _).symm rfl (le_rfl))

end Step

/-! ## Runs -/

section Run

variable {hist : List (World × WorldTx)} {w : World} {k : TrustPda} {f : Fund}

theorem CarryPhase.of_run (run : Run World.Step .init hist w) :
    CarryPhase (fundEvents k hist) (w.funds.funds.lookup k) := by
  induction run with
  | nil => exact .absent rfl
  | step _ hstep ih => exact ih.step (fund_step k hstep)

/-- **Carry is charged above the high-water mark.** A mark accrues the carry on what it reports
above the mark, and none at book value. -/
theorem carry_on_performance (run : Run World.Step .init hist w)
    (hf : w.funds.funds.lookup k = some f) :
    (∀ tx manager n w', tx.ix = .fund (.updateNav k manager n) → w.exec tx = .ok w' →
      ∃ f', w'.funds.funds.lookup k = some f' ∧ f'.accruedCarry = f.accruedCarry +
          (n - f.accruedCarry - f.highWaterMark) * f.carryBps / 10000 ∧
        (n = f.grossNav + f.accruedCarry → f.grossNav ≤ f.highWaterMark →
          f'.accruedCarry = f.accruedCarry)) ∧
    10000 * carryIn (fundEvents k hist) + f.carryBps * (f.grossNav - f.highWaterMark) ≤
      f.carryBps * (gainsIn (fundEvents k hist) + depositsIn (fundEvents k hist)) ∧
    (MarkedBelow (fundEvents k hist) →
      10000 * carryIn (fundEvents k hist) ≤ f.carryBps * gainsIn (fundEvents k hist)) := by
  have hphase : CarryPhase (fundEvents k hist) (w.funds.funds.lookup k) := .of_run run
  rw [hf] at hphase
  cases hphase with
  | opened hbounded =>
    refine ⟨?_, hbounded.total, hbounded.gains⟩
    intro tx manager n w' hix h
    rcases World.fund_step h with ⟨ix, hix', hexec⟩ | ⟨hne, -⟩
    · obtain rfl : .updateNav k manager n = ix := WorldIx.fund.inj (hix.symm.trans hix')
      obtain ⟨hupdate, -⟩ := ok_of_fst hexec
      obtain ⟨f₁, f', hf₁, -, hmark, hfunds⟩ := updateNav_ok hupdate
      obtain rfl : f = f₁ := some.inj (hf.symm.trans hf₁)
      obtain rfl := markNav_ok hbounded.bps hmark
      refine ⟨_, by rw [hfunds, AList.lookup_insert], rfl, ?_⟩
      rintro rfl hbelow
      simp [Fund.marked, Fund.carryOn, Nat.sub_eq_zero_of_le hbelow]
    · exact absurd hix (hne _)

end Run

/-! ## A deposit that becomes carry -/

/-- Fund 6 of trust 1 by key 10 at twenty percent carry, and an LP with 1000 units. -/
def openFund : List WorldTx :=
  World.openMarket ++
  [{ ix := .fund (.init 1 10) },
   { ix := .fund (.createFund ⟨1, .wallet 2, 10⟩ 6 2000) }] ++
  World.openAccount 22 2 (.fundAuthority ⟨1, 6⟩) 0 ++
  World.openAccount 32 2 (.wallet 11) 1000

def depositTx (n : Nat) : WorldTx :=
  { ix := .fund (.deposit ⟨⟨1, 6⟩, .wallet 2, .wallet 22, .wallet 32, 11⟩ n) }

def markTx (n : Nat) : WorldTx := { ix := .fund (.updateNav ⟨1, 6⟩ 10 n) }

def redeemTx (n : Nat) : WorldTx :=
  { ix := .fund (.redeem ⟨⟨1, 6⟩, .wallet 2, .wallet 22, .wallet 32, 11⟩ n) }

/-- After a deposit of 1000 and a mark of 1200 the mark is at 960, and a mark at book value
accrues nothing more. -/
theorem markedFund_carry : ∃ hist w f w' f', Run World.Step .init hist w ∧
    w.funds.funds.lookup ⟨1, 6⟩ = some f ∧ f.accruedCarry = 240 ∧
    10000 * carryIn (fundEvents ⟨1, 6⟩ hist) ≤
      2000 * (gainsIn (fundEvents ⟨1, 6⟩ hist) + depositsIn (fundEvents ⟨1, 6⟩ hist)) ∧
    w.exec (markTx 1200) = .ok w' ∧ w'.funds.funds.lookup ⟨1, 6⟩ = some f' ∧
    f'.accruedCarry = 240 := by
  have hfacts : ((execAll World.exec .init
      (openFund ++ [depositTx 1000, markTx 1200])).toOption.bind fun w =>
        (w.funds.funds.lookup ⟨1, 6⟩).bind fun f => (w.exec (markTx 1200)).toOption.map fun _ =>
          (f.grossNav, f.highWaterMark, f.carryBps, f.accruedCarry)) =
      some (960, 960, 2000, 240) := by decide +kernel
  simp only [Option.bind_eq_some_iff, toOption_eq_some, toOption_map_eq_some,
    Prod.mk.injEq] at hfacts
  obtain ⟨w, hw, f, hf, w', hw', hnav, hmark, hbps, haccrued⟩ := hfacts
  obtain ⟨hist, run⟩ := Run.execAll hw
  obtain ⟨hupdate, htotal, -⟩ := carry_on_performance run hf
  obtain ⟨f', hf', -, hbook⟩ := hupdate (markTx 1200) 10 1200 w' rfl hw'
  have hsame := hbook (by rw [hnav, haccrued]) (by rw [hnav, hmark])
  rw [hbps] at htotal
  exact ⟨hist, w, f, w', f', run, hf, haccrued, Nat.le_trans (by omega) htotal, hw',
    hf', hsame.trans haccrued⟩

/-- A mark at book value right after the deposit accrues a fifth of it. -/
theorem not_carry_on_performance : ¬ ∀ hist w, Run World.Step .init hist w → ∀ k f tx manager w',
    w.funds.funds.lookup k = some f →
      tx.ix = .fund (.updateNav k manager (f.grossNav + f.accruedCarry)) → w.exec tx = .ok w' →
        ∃ f', w'.funds.funds.lookup k = some f' ∧ f'.accruedCarry = f.accruedCarry := by
  intro hall
  have hfacts : ((execAll World.exec .init (openFund ++ [depositTx 1000])).toOption.bind fun w =>
      (w.funds.funds.lookup ⟨1, 6⟩).bind fun f => (w.exec (markTx 1000)).toOption.bind fun w' =>
        (w'.funds.funds.lookup ⟨1, 6⟩).map fun f' =>
          (f.grossNav, f.accruedCarry, f'.accruedCarry)) = some (1000, 0, 200) := by
    decide +kernel
  simp only [Option.bind_eq_some_iff, Option.map_eq_some_iff, toOption_eq_some,
    Prod.mk.injEq] at hfacts
  obtain ⟨w, hw, f, hf, w', hw', f', hf', hnav, haccrued, haccrued'⟩ := hfacts
  obtain ⟨hist, run⟩ := Run.execAll hw
  have hix : (markTx 1000).ix = .fund (.updateNav ⟨1, 6⟩ 10 (f.grossNav + f.accruedCarry)) := by
    rw [hnav, haccrued]
    rfl
  obtain ⟨f₁, hf₁, hsame⟩ := hall hist w run ⟨1, 6⟩ f (markTx 1000) 10 w' hf hix hw'
  obtain rfl : f' = f₁ := some.inj (hf'.symm.trans hf₁)
  omega

end Aeqi.Funds
