import Aeqi.Market.Potentials
import Aeqi.World.Steps

/-!
# Bonding-curve solvency

The reserve of a curve is what was paid in less what was paid out, and a sale that returns
more than the reserve is refused. Whether that ever happens depends on the curve: one with a
potential keeps its reserve above every return, however the trades are split.
-/

namespace Aeqi.Market

open Aeqi.Lib Aeqi.Solana Option
open Token.Ledger (heldBy Moves)

/-! ## Moves of a curve -/

/-- The quote that an instruction pays to the curve at `k`. -/
def MarketState.paidIn (s : MarketState) (k : TrustPda) : MarketIx → Nat
  | .buyFromCurve a n _ =>
    if a.curve = k then ((s.curves.lookup k).bind (·.costOf n)).getD 0 else 0
  | _ => 0

/-- The quote that the curve at `k` pays in an instruction. -/
def MarketState.paidOut (s : MarketState) (k : TrustPda) : MarketIx → Nat
  | .sellToCurve a n _ =>
    if a.curve = k then ((s.curves.lookup k).bind (·.returnOf n)).getD 0 else 0
  | _ => 0

/-- `CurveMoved o o' cost returned`: how one instruction changes a curve, with the quote
that is paid in and out. -/
inductive CurveMoved : Option BondingCurve → Option BondingCurve → Nat → Nat → Prop
  | kept (o : Option BondingCurve) : CurveMoved o o 0 0
  | opened {a : CreateCurve} {p : CurveParams} (hmax : 0 < p.maxSupply.toNat)
      (hppm : p.reserveRatioPpm ≤ 1000000) : CurveMoved none (some (.opened a p)) 0 0
  | bought {c : BondingCurve} {n cost : Nat} (hn : 0 < n)
      (hmax : c.currentSupply + n ≤ c.maxSupply) (hcost : c.costOf n = some cost) :
      CurveMoved (some c) (some (c.bought n cost)) cost 0
  | sold {c : BondingCurve} {n returned : Nat} (hsupply : n ≤ c.currentSupply)
      (hreturn : c.returnOf n = some returned) (hreserve : returned ≤ c.reserveBalance) :
      CurveMoved (some c) (some (c.sold n returned)) 0 returned

theorem exec_curve {s s' : MarketState} {trusts : Accounts Pubkey Governance.Trust}
    {tokens tokens' : Token.Ledger Address} {clock : Clock} {ix : MarketIx} (k : TrustPda)
    (h : s.exec trusts tokens clock ix = .ok (s', tokens')) :
    CurveMoved (s.curves.lookup k) (s'.curves.lookup k) (s.paidIn k ix) (s.paidOut k ix) := by
  have hframe := (exec_framed h).curves
  cases ix with
  | createCurve a p =>
    obtain ⟨h, -⟩ := ok_of_fst h
    obtain ⟨hfree, hmax, hppm, _, rfl⟩ := createCurve_ok h
    by_cases hk : k = ⟨a.trust, p.curveId⟩
    · subst hk
      rw [hfree, AList.lookup_insert]
      exact .opened hmax hppm
    · rw [AList.lookup_insert_ne hk]
      exact .kept _
  | buyFromCurve a n maxCost =>
    obtain ⟨c, cost, _, hc, -, hn, hmax, hcost, -, -, rfl⟩ := buyFromCurve_ok h
    rw [MarketState.paidIn]
    by_cases hk : a.curve = k
    · subst hk
      rw [if_pos rfl, hc, AList.lookup_insert, bind_some, hcost]
      exact .bought hn hmax hcost
    · rw [if_neg hk, AList.lookup_insert_ne (Ne.symm hk)]
      exact .kept _
  | sellToCurve a n minReturn =>
    obtain ⟨c, returned, _, hc, -, -, hsupply, hreturn, hreserve, -, -, rfl⟩ := sellToCurve_ok h
    rw [MarketState.paidOut]
    by_cases hk : a.curve = k
    · subst hk
      rw [if_pos rfl, hc, AList.lookup_insert, bind_some, hreturn]
      exact .sold hsupply hreturn hreserve
    · rw [if_neg hk, AList.lookup_insert_ne (Ne.symm hk)]
      exact .kept _
  | init | createCommitmentSale | commitToSale | finalizeSale | claimAllocation | createExit
  | settleExit | claimProRata => rw [hframe MarketPart.noConfusion]; exact .kept _

/-- The quote that a transaction pays to the curve at `k`. -/
def paidIn (k : TrustPda) (w : World) (tx : WorldTx) : Nat :=
  (w.marketIx tx.ix).elim 0 (w.market.paidIn k)

/-- The quote that the curve at `k` pays in a transaction. -/
def paidOut (k : TrustPda) (w : World) (tx : WorldTx) : Nat :=
  (w.marketIx tx.ix).elim 0 (w.market.paidOut k)

theorem curve_step {w w' : World} {tx : WorldTx} (k : TrustPda) (h : w.exec tx = .ok w') :
    CurveMoved (w.market.curves.lookup k) (w'.market.curves.lookup k) (paidIn k w tx)
      (paidOut k w tx) := by
  unfold paidIn paidOut
  rcases World.market_step h with ⟨hnone, hsame⟩ | ⟨ix, hix, hexec⟩
  · rw [hnone, hsame]
    exact .kept _
  · rw [hix]
    exact exec_curve k hexec

/-! ## The reserve -/

section Reserve

variable {o o' : Option BondingCurve} {c c' : BondingCurve} {cost returned : Nat}

def reserveOf (o : Option BondingCurve) : Nat := o.elim 0 (·.reserveBalance)

theorem CurveMoved.reserve (h : CurveMoved o o' cost returned) :
    reserveOf o' + returned = reserveOf o + cost := by
  cases h with
  | kept | opened | bought => rfl
  | sold hsupply hreturn hreserve => exact Nat.sub_add_cancel hreserve

theorem CurveMoved.wf (h : CurveMoved o o' cost returned) (ho : ∀ c ∈ o, c.Wf) :
    ∀ c ∈ o', c.Wf := by
  cases h with
  | kept => exact ho
  | @opened a p hmax hppm =>
    rintro _ ⟨⟩
    exact ⟨hppm, hmax, ⟨p.maxSupply.isLt, p.startPrice.isLt, p.endPrice.isLt⟩, Nat.zero_le _⟩
  | bought hn hmax hcost =>
    rintro _ ⟨⟩
    have hwf := ho _ rfl
    exact ⟨hwf.ratio, hwf.positive, hwf.fits, hmax⟩
  | sold hsupply hreturn hreserve =>
    rintro _ ⟨⟩
    have hwf := ho _ rfl
    exact ⟨hwf.ratio, hwf.positive, hwf.fits, Nat.le_trans (Nat.sub_le _ _) hwf.supply⟩

theorem CurveMoved.terms (h : CurveMoved (some c) o' cost returned) :
    ∃ c', o' = some c' ∧ c.SameTerms c' := by
  cases h with
  | kept | bought | sold => exact ⟨_, rfl, rfl⟩

end Reserve

section Potential

variable {K : Nat} {Φ : Nat → Int} {c c' : BondingCurve} {cost returned : Nat}

theorem CurveMoved.potential (h : CurveMoved (some c) (some c') cost returned)
    (hp : Potential K Φ c) (hwf : c.Wf) :
    Φ c'.currentSupply + K * returned ≤ Φ c.currentSupply + K * cost := by
  cases h with
  | kept => omega
  | bought hn hmax hcost =>
    have hbuy := hp.buy hn hmax hcost
    simpa [BondingCurve.bought] using hbuy
  | sold hsupply hreturn hreserve =>
    have hsell := hp.sell_now hwf hsupply hreturn
    simpa [BondingCurve.sold] using hsell

end Potential

/-! ## Refused sales -/

section Refused

variable {s : MarketState} {tokens : Token.Ledger Address} {a : SellToCurve} {n minReturn r : Nat}
  {c : BondingCurve}

/-- What a sale is checked for before its return is compared with the reserve. -/
structure SellChecked (s : MarketState) (tokens : Token.Ledger Address) (a : SellToCurve)
    (n minReturn : Nat) (c : BondingCurve) (r : Nat) : Prop where
  curve : s.curves.lookup a.curve = some c
  seeds : a.curve = c.seeds
  vaults : checkCurveVaults tokens a = .ok ⟨⟩
  asset : Owned tokens a.userAssetTa a.assetMint (.wallet a.user)
  quote : ∃ acc, tokens.accounts.lookup a.userQuoteTa = some acc ∧ acc.mint = a.quoteMint
  positive : 0 < n
  mints : a.assetMint = c.assetMint ∧ a.quoteMint = c.quoteMint
  supply : n ≤ c.currentSupply
  returned : c.returnOf n = some r ∧ r < 2 ^ 64
  slippage : minReturn ≤ r

@[simp] theorem checkCurveVaults_ne_custom {e : UnifuturesError} :
    checkCurveVaults tokens a = .error (.custom e) ↔ False := by
  simp only [checkCurveVaults, bind_eq_error]
  simp

theorem sellToCurve_insufficientReserve :
    sellToCurve s tokens a n minReturn = .error (.custom .insufficientReserve) ↔
      ∃ c r, SellChecked s tokens a n minReturn c r ∧ c.reserveBalance < r := by
  simp only [sellToCurve, checkCurveMints, bind_eq_error, bind_eq_ok, loadPda_ne_custom, loadPda_eq_ok,
    checkCurveVaults_ne_custom, checkOwned_ne_custom, checkOwned_eq_ok,
    loadTokenAccount_ne_custom, loadTokenAccount_eq_ok, require_eq_error, require_eq_ok,
    okOr_eq_error, okOr_eq_ok, invoke_ne_custom, exists_punit, pure_eq_error,
    tryInto_eq_some, TxError.custom.injEq, reduceCtorEq, and_false, false_or, or_false, and_true, exists_false]
  constructor
  · rintro ⟨c, ⟨hc, hseeds⟩, hvaults, hasset, acc, hacc, hn, ct, hct, hmints, hsupply, r, hr, _,
      ⟨hfits, rfl⟩, hslippage, hreserve⟩
    exact ⟨c, r, ⟨hc, hseeds, hvaults, hasset, ⟨acc, hacc⟩, hn, hmints, hsupply,
      ⟨(c.returnAt_of_type hct).trans hr, hfits⟩, hslippage⟩, Nat.lt_of_not_le hreserve⟩
  · rintro ⟨c, r, h, hreserve⟩
    obtain ⟨acc, hacc⟩ := h.quote
    obtain ⟨ct, hct, hr⟩ := BondingCurve.returnAt_eq_some.1 h.returned.1
    exact ⟨c, ⟨h.curve, h.seeds⟩, h.vaults, h.asset, acc, hacc, h.positive, ct, hct, h.mints,
      h.supply, r, hr, r, ⟨h.returned.2, rfl⟩, h.slippage, Nat.not_le_of_lt hreserve⟩

end Refused

/-! ## Runs -/

section Run

variable {hist : List (World × WorldTx)} {w w' : World} {k : TrustPda} {c : BondingCurve}

theorem reserve_run (k : TrustPda) (run : Run World.Step w hist w') :
    reserveOf (w'.market.curves.lookup k) + sumOver (paidOut k) hist =
      reserveOf (w.market.curves.lookup k) + sumOver (paidIn k) hist := by
  induction run with
  | nil => rfl
  | step run hstep ih =>
    have hmove := (curve_step k hstep).reserve
    rw [sumOver_cons, sumOver_cons]
    omega

/-- What every reachable curve satisfies: the bounds, and a reserve above every potential. -/
structure Solvent (c : BondingCurve) : Prop extends c.Wf where
  covered : ∀ {K Φ}, Potential K Φ c → Φ c.currentSupply ≤ K * c.reserveBalance

theorem solvent_step {tx : WorldTx} (hs : ∀ c ∈ w.market.curves.lookup k, Solvent c)
    (h : w.exec tx = .ok w') : ∀ c ∈ w'.market.curves.lookup k, Solvent c := by
  have hmove := curve_step k h
  have hwf := hmove.wf fun c hc => (hs c hc).toWf
  intro c' hc'
  refine ⟨hwf c' hc', fun {K Φ} hp' => ?_⟩
  have hreserve := hmove.reserve
  rw [hc'] at hmove hreserve
  cases hc : w.market.curves.lookup k with
  | none =>
    -- a curve that was just created has nothing to cover
    rw [hc] at hmove
    generalize paidIn k w tx = cost, paidOut k w tx = returned at hmove
    cases hmove with
    | opened hmax hppm => simp [BondingCurve.opened, hp'.zero]
  | some c =>
    rw [hc] at hmove hreserve
    obtain ⟨_, hsome, hterms⟩ := hmove.terms
    cases hsome
    have hp : Potential K Φ c := hp'.sameTerms hterms.symm
    have hbefore := (hs c hc).covered hp
    have hpaid := hmove.potential hp (hs c hc).toWf
    have hK : (K : Int) * c'.reserveBalance + K * paidOut k w tx =
        K * c.reserveBalance + K * paidIn k w tx := by
      rw [← mul_add, ← mul_add]
      exact_mod_cast congrArg (K * ·) hreserve
    linarith

theorem solvent_run (run : Run World.Step .init hist w) :
    ∀ c ∈ w.market.curves.lookup k, Solvent c :=
  run.invariant (P := fun w => ∀ c ∈ w.market.curves.lookup k, Solvent c)
    (fun c hc => by simp [World.init] at hc) fun _ _ _ hs h => solvent_step hs h

theorem potential_run {K : Nat} {Φ : Nat → Int} (run : Run World.Step w hist w')
    (hc : w.market.curves.lookup k = some c) (hs : Solvent c) (hp : Potential K Φ c) :
    ∃ c', w'.market.curves.lookup k = some c' ∧ Solvent c' ∧ Potential K Φ c' ∧
      Φ c'.currentSupply + K * sumOver (paidOut k) hist ≤
        Φ c.currentSupply + K * sumOver (paidIn k) hist := by
  induction run with
  | nil => exact ⟨c, hc, hs, hp, le_refl _⟩
  | @step hist t t' tx run hstep ih =>
    obtain ⟨c₁, hc₁, hs₁, hp₁, hle⟩ := ih
    have hmove := curve_step k hstep
    rw [hc₁] at hmove
    obtain ⟨c₂, hc₂, hterms⟩ := hmove.terms
    have hs₂ := solvent_step (k := k) (fun c hc => some.inj (hc₁.symm.trans hc) ▸ hs₁) hstep
    rw [hc₂] at hmove
    have hpaid := hmove.potential hp₁ hs₁.toWf
    refine ⟨c₂, hc₂, hs₂ c₂ hc₂, hp₁.sameTerms hterms, ?_⟩
    rw [sumOver_cons, sumOver_cons]
    push_cast
    linarith

/-- **Bonding-curve solvency.** A sale is refused for the reserve exactly when its return exceeds
it, and on a covered curve no return does. -/
theorem curve_solvency (run : Run World.Step .init hist w)
    (hc : w.market.curves.lookup k = some c) :
    c.reserveBalance + sumOver (paidOut k) hist = sumOver (paidIn k) hist ∧
    (∀ a n minReturn, a.curve = k →
      (sellToCurve w.market w.tokens a n minReturn = .error (.custom .insufficientReserve) ↔
        ∃ r, SellChecked w.market w.tokens a n minReturn c r ∧ c.reserveBalance < r)) ∧
    (c.Covered → (∀ n r, n ≤ c.currentSupply → c.returnOf n = some r → r ≤ c.reserveBalance) ∧
      (∀ a n minReturn, a.curve = k →
        sellToCurve w.market w.tokens a n minReturn ≠ .error (.custom .insufficientReserve)) ∧
      ∀ hist' w' c', Run World.Step w hist' w' → w'.market.curves.lookup k = some c' →
        c.currentSupply = 0 → c'.currentSupply = 0 →
          sumOver (paidOut k) hist' ≤ sumOver (paidIn k) hist') := by
  have hreserve : c.reserveBalance + sumOver (paidOut k) hist = sumOver (paidIn k) hist := by
    have hrun := reserve_run k run
    rw [hc] at hrun
    simpa [reserveOf, World.init] using hrun
  have hsolvent : Solvent c := solvent_run run c hc
  have hrefused : ∀ a n minReturn, a.curve = k →
      (sellToCurve w.market w.tokens a n minReturn = .error (.custom .insufficientReserve) ↔
        ∃ r, SellChecked w.market w.tokens a n minReturn c r ∧ c.reserveBalance < r) := by
    intro a n minReturn hk
    rw [sellToCurve_insufficientReserve]
    constructor
    · rintro ⟨c₁, r, hchecked, hlt⟩
      obtain rfl : c = c₁ := some.inj (hc.symm.trans (hk ▸ hchecked.curve))
      exact ⟨r, hchecked, hlt⟩
    · rintro ⟨r, hchecked, hlt⟩
      exact ⟨c, r, hchecked, hlt⟩
  refine ⟨hreserve, hrefused, fun hcovered => ?_⟩
  obtain ⟨K, Φ, hK, hp⟩ := hcovered.potential hsolvent.toWf
  have hle : ∀ n r, n ≤ c.currentSupply → c.returnOf n = some r → r ≤ c.reserveBalance := by
    intro n r hn hr
    have hspent := hp.sell_now hsolvent.toWf hn hr
    have hleft := hp.nonneg (Nat.le_trans (Nat.sub_le _ n) hsolvent.supply)
    have hheld := hsolvent.covered hp
    refine Nat.le_of_mul_le_mul_left ?_ hK
    linarith
  refine ⟨hle, fun a n minReturn hk herror => ?_, fun hist' w' c' run' hc' hzero hzero' => ?_⟩
  · obtain ⟨r, hchecked, hlt⟩ := (hrefused a n minReturn hk).1 herror
    exact absurd hlt (Nat.not_lt.2 (hle n r hchecked.supply hchecked.returned.1))
  · obtain ⟨c₁, hc₁, -, -, hpaid⟩ := potential_run run' hc hsolvent hp
    obtain rfl : c' = c₁ := some.inj (hc'.symm.trans hc₁)
    rw [hzero, hzero', hp.zero, zero_add, zero_add] at hpaid
    refine Nat.le_of_mul_le_mul_left ?_ hK
    exact_mod_cast hpaid

end Run

/-! ## Two curves -/

def openCurve (price : BitVec 128) (supply : BitVec 64) (ppm : Nat) : List WorldTx :=
  World.openMarket ++
  [{ ix := .market (.createCurve ⟨1, .wallet 1, .wallet 2, 10⟩
      ⟨3, 0, price, price, supply, ppm⟩) }] ++
  World.openAccount 21 1 (.curveAuthority ⟨1, 3⟩) supply.toNat ++
  World.openAccount 22 2 (.curveAuthority ⟨1, 3⟩) 0 ++
  World.openAccount 31 1 (.wallet 11) 0 ++
  World.openAccount 32 2 (.wallet 11) 100

def trader : CurveAccounts :=
  ⟨⟨1, 3⟩, .wallet 1, .wallet 2, .wallet 21, .wallet 22, .wallet 31, .wallet 32, 11⟩

def buyTx (n : Nat) : WorldTx := { ix := .market (.buyFromCurve trader n 100) }

def sellTx (n : Nat) : WorldTx := { ix := .market (.sellToCurve trader n 0) }

/-- Ten tokens at a price of one, bought in two trades and sold in one at 90%. -/
theorem flatCurve_solvency : ∃ w c w',
    execAll World.exec .init (openCurve 1000000000000000000 10 900000 ++ [buyTx 4, buyTx 6]) =
      .ok w ∧
    w.market.curves.lookup ⟨1, 3⟩ = some c ∧ c.returnOf 10 = some 9 ∧ 9 ≤ c.reserveBalance ∧
    execAll World.exec w [sellTx 10] = .ok w' := by
  have hfacts : ((execAll World.exec .init
      (openCurve 1000000000000000000 10 900000 ++ [buyTx 4, buyTx 6])).toOption.bind fun w =>
        (w.market.curves.lookup ⟨1, 3⟩).bind fun c =>
          (execAll World.exec w [sellTx 10]).toOption.map fun _ =>
            (c.currentSupply, c.returnOf 10, decide c.Covered)) = some (10, some 9, true) := by
    decide +kernel
  simp only [bind_eq_some_iff, toOption_eq_some, toOption_map_eq_some, Prod.mk.injEq,
    decide_eq_true_eq] at hfacts
  obtain ⟨w, hw, c, hc, w', hw', hsupply, hreturn, hcovered⟩ := hfacts
  obtain ⟨hist, run⟩ := Run.execAll hw
  obtain ⟨hle, -, -⟩ := (curve_solvency run hc).2.2 hcovered
  exact ⟨w, c, w', hw, hc, hreturn, hle 10 9 hsupply.ge hreturn, hw'⟩

/-- At half a unit of quote a token, a token bought by itself is free and two of them return
one unit, which the reserve does not hold: the sale is refused. -/
theorem not_curve_solvency : ¬ ∀ hist w, Run World.Step .init hist w → ∀ k c,
    w.market.curves.lookup k = some c → ∀ n r, 0 < n → n ≤ c.currentSupply →
      c.returnOf n = some r → r ≤ c.reserveBalance ∧ ∀ a minReturn, a.curve = k →
        sellToCurve w.market w.tokens a n minReturn ≠ .error (.custom .insufficientReserve) := by
  intro hall
  have hfacts : ((execAll World.exec .init
      (openCurve 500000000000000000 2 1000000 ++ [buyTx 1, buyTx 1])).toOption.bind fun w =>
        (w.market.curves.lookup ⟨1, 3⟩).map fun c =>
          (c.currentSupply, c.returnOf 2, c.reserveBalance)) = some (2, some 1, 0) := by
    decide +kernel
  simp only [bind_eq_some_iff, map_eq_some_iff, toOption_eq_some, Prod.mk.injEq] at hfacts
  obtain ⟨w, hw, c, hc, hsupply, hreturn, hreserve⟩ := hfacts
  obtain ⟨hist, run⟩ := Run.execAll hw
  obtain ⟨hle, -⟩ := hall hist w run _ c hc 2 1 (by decide) hsupply.ge hreturn
  omega

/-! ## What backs a reserve -/

/-- The authority of the curve at `k` holds its reserve in the quote mint, which it does not sell. -/
def ReserveBacked (k : TrustPda) (tokens : Token.Ledger Address) (c : BondingCurve) : Prop :=
  c.assetMint ≠ c.quoteMint ∧ c.reserveBalance ≤ heldBy (.curveAuthority k) c.quoteMint tokens

section Backing

variable {w w' : World} {tx : WorldTx} {k : TrustPda} {c : BondingCurve}

theorem reserveBacked_step (hb : ∀ c ∈ w.market.curves.lookup k, ReserveBacked k w.tokens c)
    (h : w.exec tx = .ok w') : ∀ c ∈ w'.market.curves.lookup k, ReserveBacked k w'.tokens c := by
  -- the authority keeps what it holds unless it signs
  have hkeep : ∀ {signer minted}, Moves (Signs signer) minted w.tokens w'.tokens →
      signer ≠ some (.curveAuthority k) → ∀ c ∈ w.market.curves.lookup k,
        ReserveBacked k w'.tokens c := by
    intro signer minted hmoves hother c hc
    have hsigns : ¬ Signs signer (.curveAuthority k) := by
      rintro (⟨_, hwallet⟩ | hsigner)
      · cases hwallet
      · exact hother hsigner
    exact ⟨(hb c hc).1, (hb c hc).2.trans ((hmoves.keeps hsigns).held _)⟩
  intro c' hc'
  rcases World.market_step h with ⟨hnone, hsame⟩ | ⟨ix, -, hexec⟩
  · refine hkeep (World.moves h) (fun hsigner => ?_) c' (hsame ▸ hc')
    cases hix : tx.ix with
    | market => rw [hix] at hnone; cases hnone
    | fund ix | vesting ix => rw [hix] at hsigner; cases ix <;> cases hsigner
    | trust | role | capToken | budget | funding | token => rw [hix] at hsigner; cases hsigner
  cases ix with
  | createCurve a p =>
    obtain ⟨hopen, -⟩ := ok_of_fst hexec
    simp only [createCurve, bind_eq_ok, require_eq_ok, exists_punit, pure_eq_ok] at hopen
    obtain ⟨_, -, -, _, -, _, -, -, -, hmints, _, -, _, -, hopen⟩ := hopen
    rw [← hopen] at hc'
    rcases Accounts.lookup_insert_some hc' with ⟨-, rfl⟩ | ⟨-, hc⟩
    · exact ⟨hmints, Nat.zero_le _⟩
    · exact hkeep (exec_moves hexec) (by simp [MarketIx.authority]) c' hc
  | buyFromCurve a n maxCost =>
    obtain ⟨c, cost, _, hc, hvalid, -, -, -, h₁, h₂, hmarket⟩ := buyFromCurve_ok hexec
    rw [hmarket] at hc'
    rcases Accounts.lookup_insert_some hc' with ⟨rfl, rfl⟩ | ⟨hne, hc'⟩
    · obtain ⟨hmints, hle⟩ := hb c hc
      have hin := hvalid.quoteVault.pay_in h₁ Address.noConfusion
      have hout := Token.Ledger.heldBy_other_mint h₂ (.curveAuthority a.curve)
        (hvalid.assetMint ▸ hmints.symm)
      rw [hvalid.quoteMint] at hin
      exact ⟨hmints, show c.reserveBalance + cost ≤ heldBy _ c.quoteMint _ by omega⟩
    · exact hkeep (exec_moves hexec) (by simpa [MarketIx.authority] using hne.symm) c' hc'
  | sellToCurve a n minReturn =>
    obtain ⟨c, returned, _, hc, hvalid, -, -, -, -, h₁, h₂, hmarket⟩ := sellToCurve_ok hexec
    rw [hmarket] at hc'
    rcases Accounts.lookup_insert_some hc' with ⟨rfl, rfl⟩ | ⟨hne, hc'⟩
    · obtain ⟨hmints, hle⟩ := hb c hc
      have hin := Token.Ledger.heldBy_other_mint h₁ (.curveAuthority a.curve)
        (hvalid.assetMint ▸ hmints.symm)
      have hout := Token.Ledger.heldBy_pay_out h₂ (.curveAuthority a.curve)
      rw [hvalid.quoteMint] at hout
      exact ⟨hmints, show c.reserveBalance - returned ≤ heldBy _ c.quoteMint _ by omega⟩
    · exact hkeep (exec_moves hexec) (by simpa [MarketIx.authority] using hne.symm) c' hc'
  | _ =>
    exact hkeep (exec_moves hexec) (by simp [MarketIx.authority]) c'
      ((exec_framed hexec).curves MarketPart.noConfusion ▸ hc')

end Backing

end Aeqi.Market
