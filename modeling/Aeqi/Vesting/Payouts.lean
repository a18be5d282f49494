import Aeqi.World.Steps

/-!
# What grants are paid from

A grant records its mint, but a claim pays out of a vault of whatever mint it names, and all
grants of a trust share one vault authority. What was paid in a mint is what the grants in
that mint have claimed as long as every claim names the mint of its grant (`ClaimsOwnMint`).
-/

namespace Aeqi.Vesting

open Aeqi.Lib Aeqi.Lib.Accounts Aeqi.Solana

/-- What an instruction pays in mint `m` out of the vaults of trust `t`. -/
def VestingState.paidFrom (s : VestingState) (clock : Clock) (t : Pubkey) (m : Address) :
    VestingIx → Nat
  | .claim a =>
    if a.position.trust = t ∧ a.mint = m then
      ((s.positions.lookup a.position).bind (claimableOf · clock.unixTimestamp)).getD 0
    else 0
  | _ => 0

def paidFrom (t : Pubkey) (m : Address) (w : World) (tx : WorldTx) : Nat :=
  match tx.ix with
  | .vesting ix => w.vesting.paidFrom tx.clock t m ix
  | _ => 0

/-- What the grants of trust `t` in mint `m` have claimed. -/
def claimedFrom (t : Pubkey) (m : Address) (s : VestingState) : Nat :=
  total (fun (k : TrustPda) p => if k.trust = t ∧ p.mint = m then p.claimedAmount else 0)
    s.positions

/-- A claim on a grant of trust `t` names the mint of the grant. -/
def ClaimsOwnMint (t : Pubkey) (w : World) (tx : WorldTx) : Prop :=
  match tx.ix with
  | .vesting (.claim a) =>
    a.position.trust = t → ∀ p ∈ w.vesting.positions.lookup a.position, a.mint = p.mint
  | _ => True

instance (t : Pubkey) (w : World) (tx : WorldTx) : Decidable (ClaimsOwnMint t w tx) := by
  unfold ClaimsOwnMint
  split <;> infer_instance

section Step

variable {s s' : VestingState} {t : Pubkey} {m : Address} {k : TrustPda}
  {p p' : VestingPosition}

/-- Writing grant `k` takes away what the old grant at `k` counted and adds the new one. -/
theorem claimedFrom_insert (t : Pubkey) (m : Address) (s : VestingState) (k : TrustPda)
    (p' : VestingPosition) (modules : Accounts Pubkey VestingModuleState) :
    claimedFrom t m { s with positions := s.positions.insert k p', modules } +
        wt (fun k p => if k.trust = t ∧ p.mint = m then p.claimedAmount else 0) s.positions k =
      claimedFrom t m s + if k.trust = t ∧ p'.mint = m then p'.claimedAmount else 0 :=
  total_insert k p'

theorem claimedFrom_keep (hp : s.positions.lookup k = some p) (hmint : p'.mint = p.mint)
    (hclaimed : p'.claimedAmount = p.claimedAmount) :
    claimedFrom t m { s with positions := s.positions.insert k p' } = claimedFrom t m s := by
  have h := claimedFrom_insert t m s k p' s.modules
  rw [wt_of_some hp, hmint, hclaimed] at h
  omega

theorem claimedFrom_claim {n : Nat} (hp : s.positions.lookup k = some p) :
    claimedFrom t m { s with positions := s.positions.insert k (p.claimed n) } =
      claimedFrom t m s + if k.trust = t ∧ p.mint = m then n else 0 := by
  have h := claimedFrom_insert t m s k (p.claimed n) s.modules
  rw [wt_of_some hp, show (p.claimed n).mint = p.mint from rfl,
    show (p.claimed n).claimedAmount = p.claimedAmount + n from rfl] at h
  by_cases hcond : k.trust = t ∧ p.mint = m
  · simp only [if_pos hcond] at h ⊢
    omega
  · simp only [if_neg hcond] at h ⊢
    exact h

theorem claimedFrom_open {a : CreatePosition} {params : PositionParams}
    (hfree : s.positions.lookup k = none) (modules : Accounts Pubkey VestingModuleState) :
    claimedFrom t m { s with positions := s.positions.insert k (.opened a params), modules } =
      claimedFrom t m s := by
  have h := claimedFrom_insert t m s k (.opened a params) modules
  rwa [wt_of_none hfree, show (VestingPosition.opened a params).claimedAmount = 0 from rfl,
    ite_self] at h

theorem exec_claimedFrom {trusts : Accounts Pubkey Governance.Trust}
    {tokens tokens' : Token.Ledger Address} {clock : Clock} {ix : VestingIx}
    (hgood : ∀ a, ix = .claim a → a.position.trust = t →
      ∀ p ∈ s.positions.lookup a.position, a.mint = p.mint)
    (h : s.exec trusts tokens clock ix = .ok (s', tokens')) :
    claimedFrom t m s' = claimedFrom t m s + s.paidFrom clock t m ix := by
  cases ix with
  | init trust payer =>
    obtain ⟨h, -⟩ := ok_of_fst h
    obtain rfl := init_ok h
    rfl
  | createPosition a params =>
    obtain ⟨h, -⟩ := ok_of_fst h
    obtain ⟨hfree, _, rfl⟩ := createPosition_ok h
    exact claimedFrom_open hfree _
  | payContribution a =>
    obtain ⟨p, hp, -, rfl⟩ := payContribution_ok h
    exact claimedFrom_keep hp rfl rfl
  | markFdvMilestone k grantor =>
    obtain ⟨h, -⟩ := ok_of_fst h
    obtain ⟨p, hp, rfl⟩ := markFdvMilestone_ok h
    exact claimedFrom_keep hp rfl rfl
  | claim a =>
    obtain ⟨p, n, hp, hn, -, -, -, -, rfl⟩ := claim_ok h
    rw [claimedFrom_claim hp, VestingState.paidFrom, hp, Option.bind_some, hn]
    by_cases ht : a.position.trust = t
    · rw [hgood a rfl ht p hp]
      rfl
    · rw [if_neg fun hcond => ht hcond.1, if_neg fun hcond => ht hcond.1]

theorem claimedFrom_step {w w' : World} {tx : WorldTx} (hgood : ClaimsOwnMint t w tx)
    (h : w.exec tx = .ok w') :
    claimedFrom t m w'.vesting = claimedFrom t m w.vesting + paidFrom t m w tx := by
  unfold paidFrom
  unfold ClaimsOwnMint at hgood
  rcases World.vesting_step h with ⟨ix, hix, hexec⟩ | ⟨hne, hsame⟩
  · rw [hix] at hgood ⊢
    refine exec_claimedFrom ?_ hexec
    rintro a rfl
    exact hgood
  · rw [hsame]
    split
    · next ix hix => exact absurd hix (hne ix)
    · rfl

end Step

/-! ## Runs -/

/-- **Grants are paid from their own mint** in every run whose claims name the mint of their
grant: what was paid in a mint is what the grants in that mint have claimed. -/
theorem paid_eq_claimed {hist : List (World × WorldTx)} {w : World} {t : Pubkey}
    (run : Run (Guarded (ClaimsOwnMint t) World.Step) .init hist w) (m : Address) :
    sumOver (paidFrom t m) hist = claimedFrom t m w.vesting := by
  induction run with
  | nil => rfl
  | step _ hstep ih => rw [sumOver_cons, ih, claimedFrom_step hstep.1 hstep.2, Nat.add_comm]

/-- Position 7 of trust 1 grants recipient 11 fifty tokens of mint 1, and position 8 ten
tokens of mint 2; the vaults of both mints hold a hundred. -/
def openPositions : List WorldTx :=
  World.openMarket ++
  [{ ix := .vesting (.init 1 10) },
   { ix := .vesting (.createPosition ⟨1, .wallet 1, 12⟩
      ⟨7, .wallet 11, 50, 0, 0, 1, 0, .wallet 1⟩) },
   { ix := .vesting (.createPosition ⟨1, .wallet 2, 10⟩
      ⟨8, .wallet 11, 10, 0, 0, 1, 0, .wallet 1⟩) }] ++
  World.openAccount 21 1 (.vestingVaultAuthority 1) 100 ++
  World.openAccount 22 2 (.vestingVaultAuthority 1) 100 ++
  World.openAccount 31 1 (.wallet 11) 0 ++ World.openAccount 32 2 (.wallet 11) 0

def claimTx (position mint vault ta : Pubkey) : WorldTx :=
  { clock := ⟨0, 2⟩, ix := .vesting (.claim ⟨⟨1, position⟩, .wallet mint, .wallet vault,
    .wallet ta⟩) }

/-- Both grants are claimed in their mints. -/
theorem ownMints_paid : ∃ hist w,
    execAll World.exec .init (openPositions ++ [claimTx 7 1 21 31, claimTx 8 2 22 32]) = .ok w ∧
    claimedFrom 1 (.wallet 2) w.vesting = 10 ∧ sumOver (paidFrom 1 (.wallet 2)) hist = 10 := by
  have hgood : AllGood (ClaimsOwnMint 1) World.exec .init
      (openPositions ++ [claimTx 7 1 21 31, claimTx 8 2 22 32]) := by decide +kernel
  obtain ⟨hist, w, hw, run⟩ := Run.of_allGood .nil hgood
  have hfacts : ((execAll World.exec .init
      (openPositions ++ [claimTx 7 1 21 31, claimTx 8 2 22 32])).toOption.map fun w =>
        claimedFrom 1 (.wallet 2) w.vesting) = some 10 := by decide +kernel
  simp only [toOption_map_eq_some, hw, Except.ok.injEq] at hfacts
  obtain ⟨_, rfl, hclaimed⟩ := hfacts
  exact ⟨hist, w, hw, hclaimed, (paid_eq_claimed run (.wallet 2)).trans hclaimed⟩

/-- The grant in mint 1 is claimed out of the vault of mint 2, whose grants have claimed
nothing. -/
theorem not_paid_eq_claimed : ¬ ∀ hist w, Run World.Step .init hist w → ∀ t m,
    sumOver (paidFrom t m) hist = claimedFrom t m w.vesting := by
  intro hall
  have hfacts : ((execAll World.exec .init openPositions).toOption.bind fun w =>
      (w.exec (claimTx 7 2 22 32)).toOption.map fun w' =>
        (paidFrom 1 (.wallet 2) w (claimTx 7 2 22 32), claimedFrom 1 (.wallet 2) w'.vesting)) =
      some (50, 0) := by decide +kernel
  simp only [Option.bind_eq_some_iff, toOption_eq_some, toOption_map_eq_some,
    Prod.mk.injEq] at hfacts
  obtain ⟨w, hw, w', hw', hpaid, hclaimed⟩ := hfacts
  obtain ⟨hist, run⟩ := Run.execAll hw
  have heq := hall _ w' (.step run hw') 1 (.wallet 2)
  rw [sumOver_cons] at heq
  omega

end Aeqi.Vesting
