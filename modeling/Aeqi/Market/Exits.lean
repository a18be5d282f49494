import Aeqi.Lib.Shares
import Aeqi.World.Steps

/-!
# Exits

An exit divides its quote by the supply of its asset at creation. The shares are rounded
down, so what is paid stays within the quote and splitting a burn gains nothing. That every
holder can still redeem needs more: the shares of the whole supply must fit into what
remains, which burning keeps up and minting need not (`KeepsRoom`).
-/

namespace Aeqi.Market

open Aeqi.Lib Aeqi.Lib.Shares Aeqi.Solana List Option
open Token (Ledger)
open Token.Ledger (Sound Issues)

/-! ## Claims on an exit -/

structure ExitClaim where
  holder : Pubkey
  burned : Nat
  share : Nat

def MarketState.exitClaim (s : MarketState) (k : TrustPda) : MarketIx → Option ExitClaim
  | .claimProRata a n =>
    if a.exit = k then
      some ⟨a.holder, n, ((s.exits.lookup k).bind (shareOf · n)).getD 0⟩
    else none
  | _ => none

def exitClaim (k : TrustPda) (w : World) (tx : WorldTx) : Option ExitClaim :=
  (w.marketIx tx.ix).bind (w.market.exitClaim k)

def exitClaims (k : TrustPda) (hist : List (World × WorldTx)) : List ExitClaim :=
  hist.filterMap fun e => exitClaim k e.1 e.2

/-- How one instruction changes the exit at `k`, with what it does to the asset's mint. -/
inductive ExitMoved (k : TrustPda) (tokens tokens' : Ledger Address) :
    Option Exit → Option Exit → Option ExitClaim → Prop
  | kept (o : Option Exit) : ExitMoved k tokens tokens' o o none
  | opened {clock : Clock} {a : CreateExit} {p : ExitParams} (hpos : 0 < p.totalSupplySnapshot)
      (hmint : ∃ m, tokens'.mints.lookup a.assetMint = some m ∧ p.totalSupplySnapshot = m.supply) :
      ExitMoved k tokens tokens' none (some (.opened clock a p)) none
  | settled (e : Exit) : ExitMoved k tokens tokens' (some e) (some e.settled) none
  | claimed {e : Exit} {h : Pubkey} {n share : Nat} (hshare : shareOf e n = some share)
      (hle : share ≤ e.remainingProceeds)
      (hmint : ∀ m, tokens.mints.lookup e.assetMint = some m → n ≤ m.supply ∧
        tokens'.mints.lookup e.assetMint = some { m with supply := m.supply - n }) :
      ExitMoved k tokens tokens' (some e) (some (e.paid share)) (some ⟨h, n, share⟩)

theorem exec_exit {s s' : MarketState} {trusts : Accounts Pubkey Governance.Trust}
    {tokens tokens' : Ledger Address} {clock : Clock} {ix : MarketIx} (k : TrustPda)
    (h : s.exec trusts tokens clock ix = .ok (s', tokens')) :
    ExitMoved k tokens tokens' (s.exits.lookup k) (s'.exits.lookup k) (s.exitClaim k ix) := by
  have hframe := (exec_framed h).exits
  have hother : ix.part ≠ .exits →
      ExitMoved k tokens tokens' (s.exits.lookup k) (s'.exits.lookup k) none := by
    intro hpart
    rw [hframe hpart]
    exact .kept _
  cases ix with
  | createExit a p =>
    obtain ⟨hcreate, rfl⟩ := ok_of_fst h
    obtain ⟨hfree, hpos, hmint, _, rfl⟩ := createExit_ok hcreate
    by_cases hk : k = ⟨a.trust, p.exitId⟩
    · subst hk
      rw [hfree, AList.lookup_insert]
      exact .opened hpos hmint
    · rw [AList.lookup_insert_ne hk]
      exact .kept _
  | settleExit a =>
    obtain ⟨e, he, -, rfl⟩ := settleExit_ok h
    by_cases hk : a.exit = k
    · subst hk
      rw [he, AList.lookup_insert]
      exact .settled e
    · rw [AList.lookup_insert_ne (Ne.symm hk)]
      exact .kept _
  | claimProRata a n =>
    obtain ⟨e, share, t₁, he, hasset, hshare, hle, hburn, hpay, rfl⟩ := claimProRata_ok h
    rw [MarketState.exitClaim]
    by_cases hk : a.exit = k
    · subst hk
      rw [if_pos rfl, he, AList.lookup_insert, bind_some, hshare]
      refine .claimed hshare hle fun m hm => ?_
      rw [← hasset] at hm ⊢
      rw [Token.Ledger.mints_transfer hpay]
      exact Token.Ledger.mint_burn hburn hm
    · rw [if_neg hk, AList.lookup_insert_ne (Ne.symm hk)]
      exact .kept _
  | init | createCurve | buyFromCurve | sellToCurve | createCommitmentSale | commitToSale
  | finalizeSale | claimAllocation => exact hother MarketPart.noConfusion

theorem exit_step {w w' : World} {tx : WorldTx} (k : TrustPda) (h : w.exec tx = .ok w') :
    ExitMoved k w.tokens w'.tokens (w.market.exits.lookup k) (w'.market.exits.lookup k)
      (exitClaim k w tx) := by
  unfold exitClaim
  rcases World.market_step h with ⟨hnone, hsame⟩ | ⟨ix, hix, hexec⟩
  · rw [hnone, hsame]
    exact .kept _
  · rw [hix]
    exact exec_exit k hexec

/-! ## What was paid -/

/-- Every claim was paid its share, and what remains is the rest of the quote. -/
structure ExitPaid (cs : List ExitClaim) (e : Exit) : Prop where
  share : ∀ c ∈ cs, c.share = c.burned * e.exitQuote / e.totalSupplySnapshot
  sum : (cs.map (·.share)).sum + e.remainingProceeds = e.exitQuote

inductive ExitPhase (cs : List ExitClaim) : Option Exit → Prop
  | absent (h : cs = []) : ExitPhase cs none
  | opened {e : Exit} (h : ExitPaid cs e) : ExitPhase cs (some e)

section Paid

variable {k : TrustPda} {tokens tokens' : Ledger Address} {o o' : Option Exit}
  {claim : Option ExitClaim} {cs : List ExitClaim} {e : Exit}

theorem ExitPhase.step (h : ExitPhase cs o) (hmove : ExitMoved k tokens tokens' o o' claim) :
    ExitPhase (claim.toList ++ cs) o' := by
  cases hmove with
  | kept => exact h
  | opened hpos hmint =>
    cases h with
    | absent hnil =>
      subst hnil
      exact .opened ⟨fun c hc => by simp at hc, Nat.zero_add _⟩
  | settled =>
    cases h with
    | opened h => exact .opened ⟨h.share, h.sum⟩
  | @claimed e holder n share hshare hle hmint =>
    cases h with
    | opened h =>
      obtain ⟨-, -, -, hfloor⟩ := shareOf_eq_some.1 hshare
      refine .opened ⟨?_, ?_⟩
      · simp only [toList_some, cons_append, mem_cons]
        rintro c (rfl | hc)
        · exact hfloor.symm
        · exact h.share c hc
      · have hsum := h.sum
        simp only [toList_some, cons_append, nil_append, map_cons, sum_cons, Exit.paid]
        omega

theorem ExitPaid.split (h : ExitPaid cs e) (p : ExitClaim → Bool) :
    ((cs.filter p).map (·.share)).sum ≤
      ((cs.filter p).map (·.burned)).sum * e.exitQuote / e.totalSupplySnapshot := by
  have hshares : (cs.filter p).map (·.share) =
      (cs.filter p).map fun c => c.burned * e.exitQuote / e.totalSupplySnapshot := by
    apply map_congr_left
    exact fun c hc => h.share c (mem_of_mem_filter hc)
  rw [hshares]
  exact sum_floor_le _ _ _ _

end Paid

/-! ## Room for the supply -/

/-- The share of the whole supply fits into what remains. -/
def ExitRoom (tokens : Ledger Address) (e : Exit) : Prop :=
  ∃ m, tokens.mints.lookup e.assetMint = some m ∧ 0 < e.totalSupplySnapshot ∧
    m.supply * e.exitQuote / e.totalSupplySnapshot ≤ e.remainingProceeds

/-- Whatever is minted of the asset of the exit at `k` has its share in what remains. -/
def KeepsRoom (k : TrustPda) (w : World) (tx : WorldTx) : Prop :=
  ∀ e ∈ w.market.exits.lookup k, tx.ix.minted e.assetMint = 0 ∨
    ∀ m ∈ w.tokens.mints.lookup e.assetMint,
      (m.supply + tx.ix.minted e.assetMint) * e.exitQuote / e.totalSupplySnapshot ≤
        e.remainingProceeds

instance (k : TrustPda) (w : World) (tx : WorldTx) : Decidable (KeepsRoom k w tx) := by
  unfold KeepsRoom
  infer_instance

section Room

variable {w w' : World} {tx : WorldTx} {k : TrustPda} {e : Exit} {tokens tokens' : Ledger Address}

theorem share_mono {a b : Nat} (hle : a ≤ b) :
    a * e.exitQuote / e.totalSupplySnapshot ≤ b * e.exitQuote / e.totalSupplySnapshot :=
  Nat.div_le_div_right (Nat.mul_le_mul_right _ hle)

theorem ExitRoom.issued {n : Nat} (h : ExitRoom tokens e)
    (hissues : Issues e.assetMint n tokens tokens')
    (hroom : n = 0 ∨ ∀ m ∈ tokens.mints.lookup e.assetMint,
      (m.supply + n) * e.exitQuote / e.totalSupplySnapshot ≤ e.remainingProceeds) :
    ExitRoom tokens' e := by
  obtain ⟨m, hm, hpos, hle⟩ := h
  obtain ⟨supply, hsupply, hm'⟩ := hissues m hm
  refine ⟨_, hm', hpos, ?_⟩
  rcases hroom with rfl | hroom
  · exact Nat.le_trans (share_mono hsupply) hle
  · exact Nat.le_trans (share_mono hsupply) (hroom m hm)

theorem ExitRoom.claimed {n share : Nat} (h : ExitRoom tokens e)
    (hshare : shareOf e n = some share)
    (hmint : ∀ m, tokens.mints.lookup e.assetMint = some m → n ≤ m.supply ∧
      tokens'.mints.lookup e.assetMint = some { m with supply := m.supply - n }) :
    ExitRoom tokens' (e.paid share) := by
  obtain ⟨m, hm, hpos, hle⟩ := h
  obtain ⟨hburned, hm'⟩ := hmint m hm
  obtain ⟨-, -, -, hfloor⟩ := shareOf_eq_some.1 hshare
  refine ⟨_, hm', hpos, ?_⟩
  have hparts : (m.supply - n) * e.exitQuote / e.totalSupplySnapshot + share ≤
      m.supply * e.exitQuote / e.totalSupplySnapshot := by
    calc (m.supply - n) * e.exitQuote / e.totalSupplySnapshot + share
        ≤ ((m.supply - n) * e.exitQuote + n * e.exitQuote) / e.totalSupplySnapshot := by
          rw [← hfloor]
          exact Nat.div_add_div_le_add_div
      _ = m.supply * e.exitQuote / e.totalSupplySnapshot := by
          rw [← Nat.add_mul, Nat.sub_add_cancel hburned]
  show (m.supply - n) * e.exitQuote / e.totalSupplySnapshot ≤ e.remainingProceeds - share
  omega

theorem room_step (hr : ∀ e ∈ w.market.exits.lookup k, ExitRoom w.tokens e)
    (hgood : KeepsRoom k w tx) (h : w.exec tx = .ok w') :
    ∀ e ∈ w'.market.exits.lookup k, ExitRoom w'.tokens e := by
  have hissues := (World.moves h).issues
  have hmove := exit_step k h
  unfold KeepsRoom at hgood
  generalize w.market.exits.lookup k = o at hr hgood hmove
  generalize w'.market.exits.lookup k = o' at hmove
  generalize exitClaim k w tx = claim at hmove
  cases hmove with
  | kept => exact fun e he => (hr e he).issued (hissues _) (hgood e he)
  | opened hpos hmint =>
    rintro _ ⟨⟩
    obtain ⟨m, hm, hsupply⟩ := hmint
    refine ⟨m, hm, hpos, ?_⟩
    rw [← hsupply]
    exact Nat.div_le_of_le_mul (le_rfl)
  | settled e =>
    rintro _ ⟨⟩
    obtain ⟨m, hm, hpos, hle⟩ := (hr e rfl).issued (hissues _) (hgood e rfl)
    exact ⟨m, hm, hpos, hle⟩
  | @claimed e _ _ _ hshare hle hmint =>
    rintro _ ⟨⟩
    exact (hr e rfl).claimed hshare hmint

theorem claimProRata_insufficientReserve {s : MarketState} {a : ClaimProRata} {n : Nat}
    (h : claimProRata s tokens a n = .error (.custom .insufficientReserve)) :
    ∃ e share, s.exits.lookup a.exit = some e ∧ shareOf e n = some share ∧
      e.remainingProceeds < share := by
  simp only [claimProRata, bind_eq_error, loadPda_ne_custom, loadPda_eq_ok, loadMint_ne_custom,
    checkOwned_ne_custom, checkOwned_eq_ok, loadTokenAccount_ne_custom,
    require_eq_error, require_eq_ok, okOr_eq_error, okOr_eq_ok,
    invoke_ne_custom, pure_eq_error, TxError.custom.injEq,
    reduceCtorEq, and_false, false_or, or_false, and_true, exists_const, exists_false] at h
  obtain ⟨e, ⟨he, -⟩, -, _, -, _, -, -, -, _, -, -, -, -, share, hshare, -, hlt⟩ := h
  exact ⟨e, share, he, hshare, Nat.lt_of_not_le hlt⟩

theorem ExitRoom.redeems {s : MarketState} {a : ClaimProRata} {n : Nat} (h : ExitRoom tokens e)
    (hs : Sound tokens) (he : s.exits.lookup a.exit = some e)
    (hheld : Owned tokens a.holderAssetTa e.assetMint (.wallet a.holder))
    (hn : n ≤ tokens.balance a.holderAssetTa) :
    claimProRata s tokens a n ≠ .error (.custom .insufficientReserve) := by
  intro herror
  obtain ⟨e', share, he', hshare, hlt⟩ := claimProRata_insufficientReserve herror
  obtain rfl : e = e' := some.inj (he.symm.trans he')
  obtain ⟨-, -, -, hfloor⟩ := shareOf_eq_some.1 hshare
  obtain ⟨m, hm, -, hle⟩ := h
  obtain ⟨acc, hacc, hmint, -⟩ := hheld
  rw [Token.Ledger.balance_of_some hacc] at hn
  have hissued := Token.Ledger.amount_le_issued hacc hmint
  rw [(hs.supply hm).1] at hissued
  have hshare' := share_mono (e := e) (Nat.le_trans hn hissued)
  omega

end Room

/-! ## Runs -/

section Run

variable {hist : List (World × WorldTx)} {w : World} {k : TrustPda} {e : Exit}

theorem ExitPhase.of_run (run : Run World.Step .init hist w) :
    ExitPhase (exitClaims k hist) (w.market.exits.lookup k) := by
  induction run with
  | nil => exact .absent rfl
  | @step hist t t' tx _ hstep ih =>
    have hcons : exitClaims k ((t, tx) :: hist) =
        (exitClaim k t tx).toList ++ exitClaims k hist := by
      unfold exitClaims
      cases hclaim : exitClaim k t tx <;> simp [hclaim]
    rw [hcons]
    exact ih.step (exit_step k hstep)

theorem room_of_run (run : Run (Guarded (KeepsRoom k) World.Step) .init hist w) :
    ∀ e ∈ w.market.exits.lookup k, ExitRoom w.tokens e :=
  run.invariant (P := fun w => ∀ e ∈ w.market.exits.lookup k, ExitRoom w.tokens e)
    (fun e he => by simp [World.init] at he) fun _ _ _ hr h => room_step hr h.1 h.2

theorem sound_of_run (run : Run World.Step .init hist w) : Sound w.tokens :=
  run.invariant (P := fun w => Sound w.tokens) .empty fun _ _ _ hs h => World.sound_step hs h

/-- **Exits redeem.** What was paid and what remains is the quote, and claims in parts are paid no
more than one claim. -/
theorem exit_redeems (run : Run World.Step .init hist w)
    (he : w.market.exits.lookup k = some e) :
    ((∀ i ∈ hist, KeepsRoom k i.1 i.2) → ∀ a n, a.exit = k →
      Owned w.tokens a.holderAssetTa e.assetMint (.wallet a.holder) →
      n ≤ w.tokens.balance a.holderAssetTa →
        claimProRata w.market w.tokens a n ≠ .error (.custom .insufficientReserve)) ∧
    ((exitClaims k hist).map (·.share)).sum + e.remainingProceeds = e.exitQuote ∧
    ∀ p, (((exitClaims k hist).filter p).map (·.share)).sum ≤
      (((exitClaims k hist).filter p).map (·.burned)).sum * e.exitQuote /
        e.totalSupplySnapshot := by
  have hphase : ExitPhase (exitClaims k hist) (w.market.exits.lookup k) := .of_run run
  rw [he] at hphase
  cases hphase with
  | opened hpaid =>
    refine ⟨?_, hpaid.sum, hpaid.split⟩
    intro hkeeps a n hk hheld hn
    have hroom : ExitRoom w.tokens e := room_of_run (Run.guarded_iff.2 ⟨run, hkeeps⟩) e he
    subst hk
    exact hroom.redeems (sound_of_run run) he hheld hn

end Run

/-- Holder 11 has the ten tokens of mint 1; exit 5 of trust 1 by key 10 pays ten units of mint
2 for them. Holder 12 has none yet. -/
def beforeExit : List WorldTx :=
  World.openMarket ++
  World.openAccount 31 1 (.wallet 11) 10 ++ World.openAccount 32 2 (.wallet 11) 0 ++
  World.openAccount 41 1 (.wallet 12) 0 ++ World.openAccount 42 2 (.wallet 12) 0 ++
  World.openAccount 62 2 (.wallet 10) 10 ++ World.openAccount 22 2 (.exitAuthority ⟨1, 5⟩) 0

def createExitTx : WorldTx :=
  { ix := .market (.createExit ⟨1, .wallet 1, 10⟩ ⟨5, 10, 10, 100⟩) }

def settleTx : WorldTx :=
  { ix := .market (.settleExit ⟨⟨1, 5⟩, .wallet 2, .wallet 22, .wallet 62, 10⟩) }

def mintMoreTx (n : Nat) : WorldTx := { ix := .token (.mintTo (.wallet 1) (.wallet 41) 10 n) }

def redeem11 : ClaimProRata :=
  ⟨⟨1, 5⟩, .wallet 1, .wallet 2, .wallet 22, .wallet 31, .wallet 32, 11⟩

def redeem12 : ClaimProRata :=
  ⟨⟨1, 5⟩, .wallet 1, .wallet 2, .wallet 22, .wallet 41, .wallet 42, 12⟩

/-- Holder 11 burns four tokens for nothing, holder 12 is minted as many and redeems them;
the other six are redeemed for what remains. -/
theorem roomyExit_redeems : ∃ w e, execAll World.exec .init (beforeExit ++ [createExitTx, settleTx,
      { ix := .token (.burn (.wallet 31) (.wallet 1) 11 4) }, mintMoreTx 4,
      { ix := .market (.claimProRata redeem12 4) }]) = .ok w ∧
    w.market.exits.lookup ⟨1, 5⟩ = some e ∧ e.remainingProceeds = 6 ∧
    claimProRata w.market w.tokens redeem11 6 ≠ .error (.custom .insufficientReserve) := by
  have hgood : AllGood (KeepsRoom ⟨1, 5⟩) World.exec .init (beforeExit ++ [createExitTx, settleTx,
      { ix := .token (.burn (.wallet 31) (.wallet 1) 11 4) }, mintMoreTx 4,
      { ix := .market (.claimProRata redeem12 4) }]) := by decide +kernel
  obtain ⟨hist, w, hw, run⟩ := Run.of_allGood .nil hgood
  have hfacts : ((execAll World.exec .init (beforeExit ++ [createExitTx, settleTx,
      { ix := .token (.burn (.wallet 31) (.wallet 1) 11 4) }, mintMoreTx 4,
      { ix := .market (.claimProRata redeem12 4) }])).toOption.bind fun w =>
        (w.market.exits.lookup ⟨1, 5⟩).bind fun e =>
          (w.tokens.accounts.lookup (.wallet 31)).map fun acc =>
            (e.remainingProceeds, e.assetMint, acc)) =
      some (6, .wallet 1, ⟨.wallet 1, .wallet 11, 6⟩) := by decide +kernel
  simp only [bind_eq_some_iff, map_eq_some_iff, toOption_eq_some, hw,
    Except.ok.injEq, Prod.mk.injEq] at hfacts
  obtain ⟨_, rfl, e, he, -, hacc, hremaining, hasset, rfl⟩ := hfacts
  obtain ⟨run, hkeeps⟩ := Run.guarded_iff.1 run
  obtain ⟨hredeems, -⟩ := exit_redeems run he
  have hheld : Owned w.tokens redeem11.holderAssetTa e.assetMint (.wallet redeem11.holder) :=
    ⟨_, hacc, hasset.symm, rfl⟩
  have hbalance : 6 ≤ w.tokens.balance redeem11.holderAssetTa :=
    (Token.Ledger.balance_of_some hacc).ge
  exact ⟨w, e, hw, he, hremaining, hredeems hkeeps redeem11 6 rfl hheld hbalance⟩

/-- Ten more tokens are minted to holder 12 and redeemed first: holder 11, whose ten tokens
were there when the exit was created and have not moved since, is refused. -/
theorem not_exit_redeems : ¬ ∀ (a : ClaimProRata) (n : Nat) hist₀ w₀ tx w₁ hist w,
    Run World.Step .init hist₀ w₀ → World.Step w₀ tx w₁ →
    w₀.market.exits.lookup a.exit = none → (∃ e, w₁.market.exits.lookup a.exit = some e) →
    Run (Guarded (fun w _ => n ≤ w.tokens.balance a.holderAssetTa) World.Step) w₁ hist w →
    n ≤ w.tokens.balance a.holderAssetTa →
      claimProRata w.market w.tokens a n ≠ .error (.custom .insufficientReserve) := by
  intro hall
  have hfacts : ((execAll World.exec .init beforeExit).toOption.bind fun w₀ =>
      (w₀.exec createExitTx).toOption.map fun w₁ =>
        ((w₀.market.exits.lookup ⟨1, 5⟩).isNone, (w₁.market.exits.lookup ⟨1, 5⟩).isSome,
          decide (AllGood (fun w (_ : WorldTx) => 10 ≤ w.tokens.balance redeem11.holderAssetTa)
            World.exec w₁ [settleTx, mintMoreTx 10, { ix := .market (.claimProRata redeem12 10) }]),
          (execAll World.exec w₁ [settleTx, mintMoreTx 10,
            { ix := .market (.claimProRata redeem12 10) }]).toOption.map fun w =>
              (w.tokens.balance redeem11.holderAssetTa,
                decide ((claimProRata w.market w.tokens redeem11 10).map (fun _ => ()) =
                  .error (.custom .insufficientReserve))))) =
      some (true, true, true, some (10, true)) := by decide +kernel
  simp only [bind_eq_some_iff, toOption_eq_some, toOption_map_eq_some, Prod.mk.injEq,
    decide_eq_true_eq, isNone_iff_eq_none, isSome_iff_exists] at hfacts
  obtain ⟨w₀, hw₀, w₁, hw₁, hnone, hsome, hgood, w, hw, hbalance, hrefused⟩ := hfacts
  obtain ⟨hist₀, run₀⟩ := Run.execAll hw₀
  obtain ⟨hist, w', hw', run⟩ := Run.of_allGood .nil hgood
  obtain rfl : w = w' := Except.ok.inj (hw.symm.trans hw')
  refine hall redeem11 10 hist₀ w₀ createExitTx w₁ hist w run₀ hw₁ hnone hsome run hbalance.ge ?_
  cases hclaim : claimProRata w.market w.tokens redeem11 10 with
  | ok _ =>
    rw [hclaim] at hrefused
    cases hrefused
  | error e =>
    rw [hclaim] at hrefused
    exact congrArg _ (Except.error.inj hrefused)

end Aeqi.Market
