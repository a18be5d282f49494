import Aeqi.Market.Sales

/-!
# What backs the proceeds of a sale

A sale records no mint: a commitment is paid in whatever mint the buyer names, and a claim
pays out of whatever mint the claimant names. The proceeds are backed by one mint as long as
all commitments are paid in it and no claim is paid out of it (`CommitsIn`).
-/

namespace Aeqi.Market

open Aeqi.Lib Aeqi.Solana Option
open Token.Ledger (heldBy Keeps)

/-- Commitments to the sale at `k` are paid in mint `m`, and claims in another one. -/
def CommitsIn (k : TrustPda) (m : Address) (w : World) (tx : WorldTx) : Prop :=
  match w.marketIx tx.ix with
  | some (.commitToSale a _) => a.sale = k → a.quoteMint = m
  | some (.claimAllocation a) => a.sale = k → a.assetMint ≠ m
  | _ => True

instance (k : TrustPda) (m : Address) (w : World) (tx : WorldTx) :
    Decidable (CommitsIn k m w tx) := by
  unfold CommitsIn
  split <;> infer_instance

/-- The authority of the sale at `k` holds the proceeds in mint `m`. -/
def Backed (k : TrustPda) (m : Address) (w : World) : Prop :=
  ∀ sale ∈ w.market.sales.lookup k, sale.proceedsCollected ≤ heldBy (.saleAuthority k) m w.tokens

section Step

variable {w w' : World} {tx : WorldTx} {k : TrustPda} {m : Address}

theorem sale_authority (h : tx.ix.authority = some (.saleAuthority k)) :
    ∃ a : ClaimAllocation, w.marketIx tx.ix = some (.claimAllocation a) ∧ a.sale = k := by
  cases hix : tx.ix with
  | market ix =>
    rw [hix] at h
    cases ix with
    | claimAllocation a => exact ⟨a, rfl, Address.saleAuthority.inj (some.inj h)⟩
    | buyFromCurve | sellToCurve | claimProRata | init | createCurve | createCommitmentSale
      | commitToSale | finalizeSale | createExit | settleExit => cases h
  | fund ix | vesting ix => rw [hix] at h; cases ix <;> cases h
  | trust | role | capToken | budget | funding | token => rw [hix] at h; cases h

/-- Nothing leaves the vaults of mint `m`: a claim is paid in another mint. -/
theorem held_mono (hgood : CommitsIn k m w tx) (h : w.exec tx = .ok w') :
    heldBy (.saleAuthority k) m w.tokens ≤ heldBy (.saleAuthority k) m w'.tokens := by
  by_cases hsigns : tx.ix.authority = some (.saleAuthority k)
  · obtain ⟨a, hix, hk⟩ := sale_authority (w := w) hsigns
    obtain ⟨_, _, _, -, -, -, -, -, hpay, -⟩ := claimAllocation_ok (World.market_exec h hix)
    simp only [CommitsIn, hix] at hgood
    exact (Token.Ledger.heldBy_other_mint hpay _ (Ne.symm (hgood hk))).ge
  · have hkeeps : Keeps (.saleAuthority k) w.tokens w'.tokens := by
      refine (World.moves h).keeps ?_
      rintro (⟨_, hwallet⟩ | hauthority)
      · cases hwallet
      · exact hsigns hauthority
    exact hkeeps.held m

/-- A commitment to the sale is a transaction of `commit_to_sale`. -/
theorem commit_of_event {b : Pubkey} {n : Nat} (h : saleEvent k w tx = .committed b n) :
    ∃ a, w.marketIx tx.ix = some (.commitToSale a n) ∧ a.sale = k := by
  unfold saleEvent at h
  cases hix : w.marketIx tx.ix with
  | none =>
    rw [hix] at h
    cases h
  | some ix =>
    rw [hix, elim_some] at h
    unfold MarketState.saleEvent at h
    split at h
    · next a amount =>
      split at h
      · next hk =>
        cases h
        exact ⟨a, rfl, hk⟩
      · cases h
    · split at h <;> cases h
    · cases h

/-- A commitment is paid into the vaults of mint `m`. -/
theorem held_commit {b : Pubkey} {n : Nat} (hgood : CommitsIn k m w tx)
    (h : w.exec tx = .ok w') (hevent : saleEvent k w tx = .committed b n) :
    heldBy (.saleAuthority k) m w.tokens + n ≤ heldBy (.saleAuthority k) m w'.tokens := by
  obtain ⟨a, hix, hk⟩ := commit_of_event hevent
  obtain ⟨_, -, -, hvault, -, -, -, hpay, -⟩ := commitToSale_ok (World.market_exec h hix)
  simp only [CommitsIn, hix] at hgood
  have hin := hvault.pay_in hpay Address.noConfusion
  rw [hgood hk, hk] at hin
  exact hin.le

theorem backed_step (hb : Backed k m w) (hgood : CommitsIn k m w tx) (h : w.exec tx = .ok w') :
    Backed k m w' := by
  have hheld := held_mono hgood h
  have hmoved := sale_step k h
  have hcommit : ∀ b n, saleEvent k w tx = .committed b n → _ := fun b n => held_commit hgood h
  generalize saleEvent k w tx = e at hmoved hcommit
  intro sale' hsale'
  cases hmoved with
  | kept hsale =>
    rw [hsale] at hsale'
    exact Nat.le_trans (hb sale' hsale') hheld
  | opened _ hsale =>
    rw [hsale] at hsale'
    cases hsale'
    exact Nat.zero_le _
  | @committed sale b n hsale _ _ hsale₁ =>
    rw [hsale₁] at hsale'
    cases hsale'
    exact Nat.le_trans (Nat.add_le_add_right (hb sale hsale) n) (hcommit b n rfl)
  | @completed sale hsale _ hsale₁ =>
    rw [hsale₁] at hsale'
    cases hsale'
    exact Nat.le_trans (hb sale hsale) hheld
  | claimed hsale _ _ _ hsale₁ =>
    rw [hsale₁, ← hsale] at hsale'
    exact Nat.le_trans (hb sale' hsale') hheld

end Step

/-! ## Runs -/

def twoMints : List WorldTx := openSale 0 ++
  [{ ix := .token (.initializeMint 7 12) },
   { ix := .token (.initializeAccount 51 (.wallet 7) (.saleAuthority ⟨1, 4⟩)) },
   { ix := .token (.initializeAccount 52 (.wallet 7) (.wallet 12)) },
   { ix := .token (.mintTo (.wallet 7) (.wallet 52) 12 3) },
   commitTx 2 22 32 11 3, commitTx 7 51 52 12 3]

end Aeqi.Market
