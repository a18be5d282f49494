import Aeqi.World.Steps

/-!
# What a grant has vested

Between cliff and end a grant vests in proportion to the time since its start, rounded down;
before the cliff nothing has vested, and from the end, or once the milestone is hit, all of it.
A claim pays the difference to what was claimed before, so however often a grant was claimed,
after a claim it has drawn what was vested at that time.
-/

namespace Aeqi.Vesting

open Aeqi.Lib Aeqi.Solana Option
open Token (Ledger)

namespace VestingPosition

variable (p : VestingPosition)

/-- A schedule `create_position` accepts. -/
structure Scheduled : Prop where
  start_lt_end : p.startTime < p.endTime
  start_le_cliff : p.startTime ≤ p.cliffTime
  cliff_le_end : p.cliffTime ≤ p.endTime

/-- The share of the grant that belongs to the time since its start. -/
def linear (now : Int) : Nat :=
  p.totalAmount * (now - p.startTime).toNat / (p.endTime - p.startTime).toNat

/-- The schedule as a function of time. -/
def curve (now : Int) : Nat :=
  if now < p.cliffTime then 0 else if p.endTime ≤ now then p.totalAmount else p.linear now

def vested (now : Int) : Nat := if p.fdvMilestoneUnlocked = true then p.totalAmount else p.curve now

/-- `vested_amount_at` follows the schedule wherever it returns a value. -/
structure OnSchedule : Prop where
  le_total {now : Int} {v : Nat} : vestedAmountAt p now = some v → v ≤ p.totalAmount
  before_cliff {now : Int} {v : Nat} : vestedAmountAt p now = some v → now < p.cliffTime → v = 0
  from_end {now : Int} {v : Nat} :
    vestedAmountAt p now = some v → p.endTime ≤ now → v = p.totalAmount
  mono {now later : Int} {v v' : Nat} : vestedAmountAt p now = some v →
    vestedAmountAt p later = some v' → now ≤ later → v ≤ v'

end VestingPosition

open VestingPosition (curve linear opened vested)

/-! ## The curve -/

section Curve

variable {p : VestingPosition} {now later : Int} {v : Nat}

theorem linear_mono (h : now ≤ later) : p.linear now ≤ p.linear later := by
  have htime : (now - p.startTime).toNat ≤ (later - p.startTime).toNat :=
    Int.toNat_le_toNat (by omega)
  exact Nat.div_le_div_right (Nat.mul_le_mul_left _ htime)

theorem linear_le_total (h : now ≤ p.endTime) : p.linear now ≤ p.totalAmount := by
  have htime : (now - p.startTime).toNat ≤ (p.endTime - p.startTime).toNat :=
    Int.toNat_le_toNat (by omega)
  apply Nat.div_le_of_le_mul
  rw [Nat.mul_comm]
  exact Nat.mul_le_mul_right _ htime

theorem curve_of_cliff (h : now < p.cliffTime) : p.curve now = 0 := if_pos h

theorem curve_of_end (hs : p.Scheduled) (h : p.endTime ≤ now) : p.curve now = p.totalAmount := by
  have hcliff : ¬ now < p.cliffTime := Int.not_lt.2 (Int.le_trans hs.cliff_le_end h)
  rw [curve, if_neg hcliff, if_pos h]

theorem curve_le_total : p.curve now ≤ p.totalAmount := by
  unfold curve
  split
  · omega
  · split
    · exact le_rfl
    · next hend => exact linear_le_total (by omega)

theorem curve_mono (hs : p.Scheduled) (h : now ≤ later) : p.curve now ≤ p.curve later := by
  by_cases hcliff : now < p.cliffTime
  · rw [curve_of_cliff hcliff]
    omega
  · by_cases hend : p.endTime ≤ later
    · rw [curve_of_end hs hend]
      exact curve_le_total
    · have hbefore : ¬ p.endTime ≤ now := fun hle => hend (by omega)
      have hpast : ¬ later < p.cliffTime := fun hlt => hcliff (by omega)
      rw [curve, curve, if_neg hcliff, if_neg hbefore, if_neg hpast, if_neg hend]
      exact linear_mono h

theorem vested_le_total : p.vested now ≤ p.totalAmount := by
  unfold vested
  split
  · exact le_rfl
  · exact curve_le_total

theorem vested_mono (hs : p.Scheduled) (h : now ≤ later) : p.vested now ≤ p.vested later := by
  unfold vested
  split
  · exact le_rfl
  · exact curve_mono hs h

/-- Casting a time span to `u128` keeps it. -/
theorem asU128_of_nonneg {n : Int} (hnonneg : 0 ≤ n) (hlt : n < 2 ^ 63) : asU128 n = n.toNat := by
  rw [asU128, Int.emod_eq_of_lt hnonneg (by omega)]

/-- What `vested_amount_at` returns, it returns as the curve says. -/
theorem vestedAmountAt_eq (hs : p.Scheduled) (h : vestedAmountAt p now = some v) :
    v = p.curve now := by
  unfold vestedAmountAt at h
  split at h
  · next hcliff => rw [curve_of_cliff hcliff, ← some.inj h]
  · next hcliff =>
    split at h
    · next hend => rw [curve_of_end hs hend, ← some.inj h]
    · next hend =>
      simp only [bind_eq_bind, bind_eq_some_iff, checkedSubI64,
        checkedAddI64_eq_some, checkedMul_eq_some, checkedDiv_eq_some, tryInto_eq_some,
        ← Int.sub_eq_add_neg] at h
      obtain ⟨-, ⟨⟨-, hlt⟩, rfl⟩, -, ⟨⟨-, hlt'⟩, rfl⟩, _, ⟨-, rfl⟩, _, ⟨-, rfl⟩, -, rfl⟩ := h
      have hstart := hs.start_le_cliff
      rw [asU128_of_nonneg (by omega) hlt, asU128_of_nonneg (by omega) hlt',
        curve, if_neg hcliff, if_neg hend, linear]

theorem onSchedule (hs : p.Scheduled) : p.OnSchedule where
  le_total h := by
    rw [vestedAmountAt_eq hs h]
    exact curve_le_total
  before_cliff h hcliff := by rw [vestedAmountAt_eq hs h, curve_of_cliff hcliff]
  from_end h hend := by rw [vestedAmountAt_eq hs h, curve_of_end hs hend]
  mono h h' hle := by
    rw [vestedAmountAt_eq hs h, vestedAmountAt_eq hs h']
    exact curve_mono hs hle

theorem vestedOf_eq (hs : p.Scheduled) (h : vestedOf p now = some v) : v = p.vested now := by
  unfold vestedOf at h
  unfold vested
  split at h
  · next hunlocked => rw [if_pos hunlocked, ← some.inj h]
  · next hlocked => rw [if_neg hlocked, vestedAmountAt_eq hs h]

theorem claimableOf_eq (hs : p.Scheduled) (h : claimableOf p now = some v) :
    vestedOf p now = some (p.vested now) ∧ p.claimedAmount + v = p.vested now := by
  simp only [claimableOf, bind_eq_bind, bind_eq_some_iff, checkedSub_eq_some] at h
  obtain ⟨vested, hvested, hle, rfl⟩ := h
  obtain rfl := vestedOf_eq hs hvested
  exact ⟨hvested, Nat.add_sub_cancel' hle⟩

end Curve

/-! ## Steps -/

namespace VestingPosition

/-- No more was claimed than was granted. -/
structure Covered (p : VestingPosition) : Prop where
  scheduled : p.Scheduled
  claimed_le : p.claimedAmount ≤ p.totalAmount

/-- No more was claimed than is vested at a time. -/
structure Drawn (p : VestingPosition) (now : Int) : Prop where
  scheduled : p.Scheduled
  claimed_le : p.claimedAmount ≤ p.vested now

variable {p : VestingPosition} {now later : Int}

theorem Scheduled.contributed (h : p.Scheduled) : p.contributed.Scheduled := ⟨h.1, h.2, h.3⟩

theorem Scheduled.unlocked (h : p.Scheduled) : p.unlocked.Scheduled := ⟨h.1, h.2, h.3⟩

theorem Scheduled.claimed (h : p.Scheduled) (n : Nat) : (p.claimed n).Scheduled :=
  ⟨h.1, h.2, h.3⟩

theorem Drawn.mono (h : p.Drawn now) (hle : now ≤ later) : p.Drawn later :=
  ⟨h.scheduled, Nat.le_trans h.claimed_le (vested_mono h.scheduled hle)⟩

theorem Drawn.contributed (h : p.Drawn now) : p.contributed.Drawn now :=
  ⟨h.scheduled.contributed, h.claimed_le⟩

theorem Drawn.unlocked (h : p.Drawn now) : p.unlocked.Drawn now :=
  ⟨h.scheduled.unlocked, Nat.le_trans h.claimed_le vested_le_total⟩

theorem Drawn.claimed {n : Nat} (h : p.Drawn now) (hn : claimableOf p now = some n) :
    (p.claimed n).Drawn now :=
  ⟨h.scheduled.claimed n, Nat.le_of_eq (claimableOf_eq h.scheduled hn).2⟩

/-- What a step may do to a grant that stands: its terms stay and nothing is given back. -/
structure Later (p p' : VestingPosition) : Prop where
  total_eq : p'.totalAmount = p.totalAmount
  start_eq : p'.startTime = p.startTime
  cliff_eq : p'.cliffTime = p.cliffTime
  end_eq : p'.endTime = p.endTime
  claimed_le : p.claimedAmount ≤ p'.claimedAmount

theorem Later.refl (p : VestingPosition) : p.Later p := ⟨rfl, rfl, rfl, rfl, le_rfl⟩

theorem Later.trans {p' p'' : VestingPosition} (h : p.Later p') (h' : p'.Later p'') :
    p.Later p'' :=
  ⟨h'.total_eq.trans h.total_eq, h'.start_eq.trans h.start_eq, h'.cliff_eq.trans h.cliff_eq,
    h'.end_eq.trans h.end_eq, Nat.le_trans h.claimed_le h'.claimed_le⟩

theorem Later.contributed : p.Later p.contributed := ⟨rfl, rfl, rfl, rfl, le_rfl⟩

theorem Later.unlocked : p.Later p.unlocked := ⟨rfl, rfl, rfl, rfl, le_rfl⟩

theorem Later.claimed (n : Nat) : p.Later (p.claimed n) :=
  ⟨rfl, rfl, rfl, rfl, Nat.le_add_right _ n⟩

end VestingPosition

/-- Every grant of the store meets `P`. -/
def VestingState.Grants (s : VestingState) (P : VestingPosition → Prop) : Prop :=
  ∀ k p, s.positions.lookup k = some p → P p

/-- What the instructions of a time keep of a grant. -/
structure Kept (now : Int) (P : VestingPosition → Prop) : Prop where
  opened {a : CreatePosition} {params : PositionParams} :
    (VestingPosition.opened a params).Scheduled → P (.opened a params)
  contributed {p : VestingPosition} : P p → P p.contributed
  unlocked {p : VestingPosition} : P p → P p.unlocked
  claimed {p : VestingPosition} {n : Nat} : P p → claimableOf p now = some n → P (p.claimed n)

theorem kept_drawn (now : Int) : Kept now (·.Drawn now) where
  opened hs := ⟨hs, Nat.zero_le _⟩
  contributed h := h.contributed
  unlocked h := h.unlocked
  claimed h hn := h.claimed hn

theorem kept_covered (now : Int) : Kept now VestingPosition.Covered where
  opened hs := ⟨hs, Nat.zero_le _⟩
  contributed h := ⟨h.scheduled.contributed, h.claimed_le⟩
  unlocked h := ⟨h.scheduled.unlocked, h.claimed_le⟩
  claimed h hn := by
    refine ⟨h.scheduled.claimed _, ?_⟩
    calc _ = _ := (claimableOf_eq h.scheduled hn).2
      _ ≤ _ := vested_le_total

section Step

variable {s s' : VestingState} {trusts : Accounts Pubkey Governance.Trust}
  {tokens tokens' : Ledger Address} {clock : Clock} {ix : VestingIx} {k k' : TrustPda}
  {p p' : VestingPosition} {P : VestingPosition → Prop}

theorem Grants.insert (h : s.Grants P) (hp : P p) (modules : Accounts Pubkey VestingModuleState) :
    VestingState.Grants { s with positions := s.positions.insert k p, modules } P := by
  intro k' p' hp'
  by_cases hk : k' = k
  · subst hk
    rw [AList.lookup_insert] at hp'
    exact some.inj hp' ▸ hp
  · rw [AList.lookup_insert_ne hk] at hp'
    exact h k' p' hp'

/-- `create_position` refuses a schedule that runs backwards. -/
theorem createPosition_scheduled {a : CreatePosition} {params : PositionParams}
    (h : createPosition s tokens a params = .ok s') :
    (opened a params).Scheduled := by
  simp only [createPosition, bind_eq_ok, require_eq_ok, exists_punit] at h
  obtain ⟨_, -, -, _, -, hend, hcliff, hcliff', -⟩ := h
  exact ⟨hend, hcliff, hcliff'⟩

theorem exec_grants (hP : Kept clock.unixTimestamp P) (h : s.Grants P)
    (hexec : s.exec trusts tokens clock ix = .ok (s', tokens')) : s'.Grants P := by
  cases ix with
  | init trust payer =>
    obtain ⟨hexec, -⟩ := ok_of_fst hexec
    obtain rfl := init_ok hexec
    exact h
  | createPosition a params =>
    obtain ⟨hexec, -⟩ := ok_of_fst hexec
    have hs := createPosition_scheduled hexec
    obtain ⟨-, _, rfl⟩ := createPosition_ok hexec
    exact Grants.insert h (hP.opened hs) _
  | payContribution a =>
    obtain ⟨p, hp, -, rfl⟩ := payContribution_ok hexec
    exact Grants.insert h (hP.contributed (h _ p hp)) _
  | markFdvMilestone position grantor =>
    obtain ⟨hexec, -⟩ := ok_of_fst hexec
    obtain ⟨p, hp, rfl⟩ := markFdvMilestone_ok hexec
    exact Grants.insert h (hP.unlocked (h _ p hp)) _
  | claim a =>
    obtain ⟨p, n, hp, hn, -, -, -, -, rfl⟩ := claim_ok hexec
    exact Grants.insert h (hP.claimed (h _ p hp) hn) _

/-- The grant at `k` after another grant, or a later version of it, was written. -/
theorem insert_later (hp : s.positions.lookup k = some p)
    (hp' : ∀ q, s.positions.lookup k' = some q → q.Later p') :
    ∃ q, (s.positions.insert k' p').lookup k = some q ∧ p.Later q := by
  by_cases hk : k = k'
  · subst hk
    exact ⟨p', AList.lookup_insert _, hp' p hp⟩
  · exact ⟨p, (AList.lookup_insert_ne hk).trans hp, .refl p⟩

theorem exec_later (hp : s.positions.lookup k = some p)
    (hexec : s.exec trusts tokens clock ix = .ok (s', tokens')) :
    ∃ p', s'.positions.lookup k = some p' ∧ p.Later p' := by
  cases ix with
  | init trust payer =>
    obtain ⟨hexec, -⟩ := ok_of_fst hexec
    obtain rfl := init_ok hexec
    exact ⟨p, hp, .refl p⟩
  | createPosition a params =>
    obtain ⟨hexec, -⟩ := ok_of_fst hexec
    obtain ⟨hfree, _, rfl⟩ := createPosition_ok hexec
    refine insert_later hp fun q hq => ?_
    rw [hfree] at hq
    cases hq
  | payContribution a =>
    obtain ⟨q, hq, -, rfl⟩ := payContribution_ok hexec
    exact insert_later hp fun q' hq' => some.inj (hq.symm.trans hq') ▸ .contributed
  | markFdvMilestone position grantor =>
    obtain ⟨hexec, -⟩ := ok_of_fst hexec
    obtain ⟨q, hq, rfl⟩ := markFdvMilestone_ok hexec
    exact insert_later hp fun q' hq' => some.inj (hq.symm.trans hq') ▸ .unlocked
  | claim a =>
    obtain ⟨q, n, hq, -, -, -, -, -, rfl⟩ := claim_ok hexec
    exact insert_later hp fun q' hq' => some.inj (hq.symm.trans hq') ▸ .claimed n

theorem claim_draws {a : Claim} (h : s.Grants VestingPosition.Covered)
    (hexec : claim s tokens clock a = .ok (s', tokens')) :
    ∃ p', s'.positions.lookup a.position = some p' ∧
      vestedOf p' clock.unixTimestamp = some p'.claimedAmount := by
  obtain ⟨p, n, hp, hn, -, -, -, -, rfl⟩ := claim_ok hexec
  obtain ⟨hvested, hsum⟩ := claimableOf_eq (h _ p hp).scheduled hn
  refine ⟨p.claimed n, AList.lookup_insert _, ?_⟩
  rw [show (p.claimed n).claimedAmount = p.claimedAmount + n from rfl, hsum]
  exact hvested

end Step

/-! ## Runs -/

/-- The clock does not go back along the run. -/
def Ticking (hist : List (World × WorldTx)) : Prop :=
  hist.Pairwise fun later earlier => earlier.2.clock.unixTimestamp ≤ later.2.clock.unixTimestamp

instance Ticking.decidable (hist : List (World × WorldTx)) : Decidable (Ticking hist) :=
  inferInstanceAs (Decidable (hist.Pairwise _))

/-- No reading of the clock is later than a time. -/
def Until (hist : List (World × WorldTx)) (now : Int) : Prop :=
  ∀ e ∈ hist, e.2.clock.unixTimestamp ≤ now

section Runs

variable {w w' : World} {tx : WorldTx} {hist hist' : List (World × WorldTx)} {k : TrustPda}
  {p : VestingPosition}

theorem step_grants {P : VestingPosition → Prop} (hP : Kept tx.clock.unixTimestamp P)
    (h : w.vesting.Grants P) (hstep : World.Step w tx w') : w'.vesting.Grants P := by
  rcases World.vesting_step hstep with ⟨ix, -, hexec⟩ | ⟨-, hsame⟩
  · exact exec_grants hP h hexec
  · rwa [hsame]

theorem step_later (hp : w.vesting.positions.lookup k = some p) (hstep : World.Step w tx w') :
    ∃ p', w'.vesting.positions.lookup k = some p' ∧ p.Later p' := by
  rcases World.vesting_step hstep with ⟨ix, -, hexec⟩ | ⟨-, hsame⟩
  · exact exec_later hp hexec
  · exact ⟨p, hsame ▸ hp, .refl p⟩

theorem run_later (run : Run World.Step w hist w') (hp : w.vesting.positions.lookup k = some p) :
    ∃ p', w'.vesting.positions.lookup k = some p' ∧ p.Later p' := by
  induction run with
  | nil => exact ⟨p, hp, .refl p⟩
  | step _ hstep ih =>
    obtain ⟨q, hq, hlater⟩ := ih
    obtain ⟨p', hp', hlater'⟩ := step_later hq hstep
    exact ⟨p', hp', hlater.trans hlater'⟩

theorem run_covered (run : Run World.Step .init hist w) :
    w.vesting.Grants VestingPosition.Covered := by
  refine run.invariant ?_ fun _ _ _ h hstep => step_grants (kept_covered _) h hstep
  intro k p hp
  cases hp

theorem run_drawn (run : Run World.Step .init hist w) (hticking : Ticking hist) {now : Int}
    (hnow : Until hist now) : w.vesting.Grants (·.Drawn now) := by
  induction run generalizing now with
  | nil =>
    intro k p hp
    cases hp
  | step _ hstep ih =>
    obtain ⟨hlast, hticking⟩ := List.pairwise_cons.1 hticking
    have hdrawn := step_grants (kept_drawn _) (ih hticking hlast) hstep
    exact fun k p hp => (hdrawn k p hp).mono (hnow _ List.mem_cons_self)

/-- **Draws follow the schedule.** `vested_amount_at` rises from nothing to the total, and after a
claim what was claimed is what is vested. -/
theorem draws_follow_schedule (run : Run World.Step .init hist w)
    (hp : w.vesting.positions.lookup k = some p) :
    p.OnSchedule ∧ p.claimedAmount ≤ p.totalAmount ∧
    (∀ hist' w', Run World.Step w hist' w' →
      ∃ p', w'.vesting.positions.lookup k = some p' ∧ p.Later p') ∧
    (Ticking hist → ∀ now, Until hist now → ∀ v, vestedOf p now = some v → p.claimedAmount ≤ v) ∧
    (∀ tx w' a, World.Step w tx w' → tx.ix = .vesting (.claim a) → a.position = k →
      ∃ p', w'.vesting.positions.lookup k = some p' ∧
        vestedOf p' tx.clock.unixTimestamp = some p'.claimedAmount) := by
  have hcovered := run_covered run
  obtain ⟨hs, hclaimed⟩ := hcovered k p hp
  refine ⟨onSchedule hs, hclaimed, fun _ _ later => run_later later hp, ?_, ?_⟩
  · intro hticking now hnow v hv
    rw [vestedOf_eq hs hv]
    exact (run_drawn run hticking hnow k p hp).claimed_le
  · rintro tx w' a hstep htx rfl
    rcases World.vesting_step hstep with ⟨ix, hix, hexec⟩ | ⟨hne, -⟩
    · obtain rfl := WorldIx.vesting.inj (htx.symm.trans hix)
      exact claim_draws hcovered hexec
    · exact absurd htx (hne _)

/-- Position 7 of trust 1 grants recipient 11 fifty tokens over ten seconds with a cliff at two. -/
def openGrant : List WorldTx :=
  World.openMarket ++
  [{ ix := .vesting (.init 1 10) },
   { ix := .vesting (.createPosition ⟨1, .wallet 1, 12⟩
      ⟨7, .wallet 11, 50, 0, 2, 10, 0, .wallet 1⟩) }] ++
  World.openAccount 21 1 (.vestingVaultAuthority 1) 100 ++
  World.openAccount 31 1 (.wallet 11) 0

/-- The grant is claimed at a time. -/
def drawTx (now : Int) : WorldTx :=
  { clock := ⟨0, now⟩, ix := .vesting (.claim ⟨⟨1, 7⟩, .wallet 1, .wallet 21, .wallet 31⟩) }

/-- Draws at three and at seven seconds leave thirty-five of the fifty tokens claimed. -/
theorem openGrant_draws : ∃ hist w p, Run World.Step .init hist w ∧
    w.vesting.positions.lookup ⟨1, 7⟩ = some p ∧ p.claimedAmount = 35 ∧ p.OnSchedule ∧
    ∀ v, vestedOf p 9 = some v → 35 ≤ v := by
  have hfacts : (traceAll World.exec [] .init (openGrant ++ [drawTx 3, drawTx 7])).toOption.map
      (fun t => (decide (Ticking t.1), t.1.all fun e => e.2.clock.unixTimestamp ≤ 9,
        (t.2.vesting.positions.lookup ⟨1, 7⟩).map (·.claimedAmount))) =
      some (true, true, some 35) := by decide +kernel
  simp only [map_eq_some_iff, toOption_eq_some, Prod.mk.injEq, decide_eq_true_eq] at hfacts
  obtain ⟨⟨hist, w⟩, htrace, hticking, huntil, p, hp, hclaimed⟩ := hfacts
  have run := Run.nil.traceAll htrace
  obtain ⟨hs, -, -, hdrawn, -⟩ := draws_follow_schedule run hp
  refine ⟨hist, w, p, run, hp, hclaimed, hs, fun v hv => hclaimed ▸ hdrawn hticking 9 ?_ v hv⟩
  intro e he
  exact of_decide_eq_true (List.all_eq_true.1 huntil e he)

end Runs

end Aeqi.Vesting
