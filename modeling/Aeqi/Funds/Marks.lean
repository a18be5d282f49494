import Aeqi.Funds.Carry

/-!
# What a mark reports and what happens between marks

A mark reports the whole valuation of the vault. It is split into what the LPs own and the
carry, so the two always add up to the last report, with what was deposited since and without
what was redeemed or claimed since (`Balanced`).
-/

namespace Aeqi.Funds

open Aeqi.Lib Aeqi.Solana Option

/-! ## Flows -/

/-- What an instruction moves into or out of a fund, or reports about it. -/
inductive NavFlow
  | quiet
  | reported (newGrossNav : Nat)
  | deposited (amount : Nat)
  | redeemed (quoteOut : Nat)
  | carryClaimed (carry : Nat)

def Fund.flow (f : Fund) : FundIx → NavFlow
  | .updateNav _ _ newGrossNav => .reported newGrossNav
  | .deposit _ amount => .deposited amount
  | .redeem _ shares => .redeemed ((quoteOutOf f shares).getD 0)
  | .claimCarry _ => .carryClaimed f.accruedCarry
  | _ => .quiet

def FundState.flow (s : FundState) (k : TrustPda) (ix : FundIx) : NavFlow :=
  if ix.fund = some k then (s.funds.lookup k).elim .quiet (·.flow ix) else .quiet

def navFlow (k : TrustPda) (w : World) (tx : WorldTx) : NavFlow :=
  match tx.ix with
  | .fund ix => w.funds.flow k ix
  | _ => .quiet

def navFlows (k : TrustPda) (hist : List (World × WorldTx)) : List NavFlow :=
  hist.map fun e => navFlow k e.1 e.2

def lastReported : List NavFlow → Nat
  | [] => 0
  | .reported n :: _ => n
  | _ :: fs => lastReported fs

def depositedSince : List NavFlow → Nat
  | [] => 0
  | .reported _ :: _ => 0
  | .deposited n :: fs => n + depositedSince fs
  | _ :: fs => depositedSince fs

def redeemedSince : List NavFlow → Nat
  | [] => 0
  | .reported _ :: _ => 0
  | .redeemed n :: fs => n + redeemedSince fs
  | _ :: fs => redeemedSince fs

def claimedSince : List NavFlow → Nat
  | [] => 0
  | .reported _ :: _ => 0
  | .carryClaimed n :: fs => n + claimedSince fs
  | _ :: fs => claimedSince fs

/-! ## One instruction -/

/-- A fund as an instruction leaves it. -/
inductive Fund.Books (f : Fund) : NavFlow → Fund → Prop
  | quiet : f.Books .quiet f
  | reported {n : Nat} {f' : Fund} (hle : f.accruedCarry ≤ n)
      (hmark : markNav f (n - f.accruedCarry) = some f') : f.Books (.reported n) f'
  | deposited (amount shares : Nat) : f.Books (.deposited amount) (f.deposited amount shares)
  | redeemed {shares quoteOut : Nat} (hnav : quoteOut ≤ f.grossNav) :
      f.Books (.redeemed quoteOut) (f.redeemed shares quoteOut)
  | carryClaimed : f.Books (.carryClaimed f.accruedCarry) f.carryClaimed

section Exec

variable {s s' : FundState} {trusts : Accounts Pubkey Governance.Trust}
  {tokens tokens' : Token.Ledger Address} {ix : FundIx} {k : TrustPda} {f : Fund}

theorem FundState.flow_other (h : ix.fund ≠ some k) : s.flow k ix = .quiet := if_neg h

theorem FundState.flow_absent (hf : s.funds.lookup k = none) : s.flow k ix = .quiet := by
  simp [FundState.flow, hf]

theorem FundState.flow_own (h : ix.fund = some k) (hf : s.funds.lookup k = some f) :
    s.flow k ix = f.flow ix := by
  rw [FundState.flow, if_pos h, hf]
  rfl

theorem exec_books (hf : s.funds.lookup k = some f)
    (h : s.exec trusts tokens ix = .ok (s', tokens')) :
    ∃ f', s'.funds.lookup k = some f' ∧ f.Books (s.flow k ix) f' := by
  by_cases hk : ix.fund = some k
  · rw [FundState.flow_own hk hf]
    cases ix with
    | init trust payer => cases hk
    | createFund a fundId carryBps =>
      cases hk
      obtain ⟨h, -⟩ := ok_of_fst h
      obtain ⟨hfree, -⟩ := createFund_ok h
      rw [hf] at hfree
      cases hfree
    | deposit a amount =>
      cases hk
      obtain ⟨f₁, shares, hf₁, -, -, -, -, rfl⟩ := deposit_ok h
      obtain rfl : f = f₁ := some.inj (hf.symm.trans hf₁)
      exact ⟨_, AList.lookup_insert _, .deposited amount shares⟩
    | updateNav fund manager n =>
      cases hk
      obtain ⟨h, -⟩ := ok_of_fst h
      obtain ⟨f₁, f', hf₁, hle, hmark, rfl⟩ := updateNav_ok h
      obtain rfl : f = f₁ := some.inj (hf.symm.trans hf₁)
      exact ⟨f', AList.lookup_insert _, .reported hle hmark⟩
    | claimCarry a =>
      cases hk
      obtain ⟨f₁, hf₁, -, rfl⟩ := claimCarry_ok h
      obtain rfl : f = f₁ := some.inj (hf.symm.trans hf₁)
      exact ⟨_, AList.lookup_insert _, .carryClaimed⟩
    | redeem a shares =>
      cases hk
      obtain ⟨f₁, -, quoteOut, hf₁, -, -, -, -, hnav, hquote, -, rfl⟩ := redeem_ok h
      obtain rfl : f = f₁ := some.inj (hf.symm.trans hf₁)
      rw [Fund.flow, hquote]
      exact ⟨_, AList.lookup_insert _, .redeemed hnav⟩
  · rw [FundState.flow_other hk]
    exact ⟨f, (exec_other hk h).1.trans hf, .quiet⟩

theorem exec_opened (hfree : s.funds.lookup k = none)
    (h : s.exec trusts tokens ix = .ok (s', tokens')) (hf : s'.funds.lookup k = some f) :
    ∃ a fundId carryBps, carryBps ≤ 10000 ∧ f = .opened a fundId carryBps := by
  have hmove := exec_fund k h
  rw [FundState.event_absent hfree] at hmove
  cases hmove with
  | kept hsame _ =>
    rw [hsame, hfree] at hf
    cases hf
  | opened _ hbps hf' _ => exact ⟨_, _, _, hbps, some.inj (hf.symm.trans hf')⟩
  | carryClaimed hsome _ _ =>
    rw [hfree] at hsome
    cases hsome

end Exec

/-! ## The balance -/

structure Balanced (fs : List NavFlow) (f : Fund) : Prop where
  bps : f.carryBps ≤ 10000
  balance : f.grossNav + f.accruedCarry + redeemedSince fs + claimedSince fs =
    lastReported fs + depositedSince fs

inductive NavPhase (fs : List NavFlow) : Option Fund → Prop
  | absent (h : redeemedSince fs + claimedSince fs = lastReported fs + depositedSince fs) :
      NavPhase fs none
  | opened {f : Fund} (h : Balanced fs f) : NavPhase fs (some f)

section Balance

variable {fs : List NavFlow} {f f' : Fund} {flow : NavFlow} {n : Nat}

theorem marked_balance (hbps : f.carryBps ≤ 10000) (hle : f.accruedCarry ≤ n) :
    (f.marked (n - f.accruedCarry)).grossNav + (f.marked (n - f.accruedCarry)).accruedCarry = n := by
  have hcarry := carryOn_le_increase hbps (n - f.accruedCarry)
  show n - f.accruedCarry - f.carryOn (n - f.accruedCarry) +
    (f.accruedCarry + f.carryOn (n - f.accruedCarry)) = n
  omega

theorem Balanced.books (h : Balanced fs f) (hbooks : f.Books flow f') :
    Balanced (flow :: fs) f' ∧ f.highWaterMark ≤ f'.highWaterMark := by
  obtain ⟨hbps, hbalance⟩ := h
  cases hbooks with
  | quiet => exact ⟨⟨hbps, hbalance⟩, le_rfl⟩
  | reported hle hmark =>
    obtain rfl := markNav_ok hbps hmark
    exact ⟨⟨hbps, marked_balance hbps hle⟩, Nat.le_max_left _ _⟩
  | deposited amount shares =>
    refine ⟨⟨hbps, ?_⟩, le_rfl⟩
    show f.grossNav + amount + f.accruedCarry + redeemedSince fs + claimedSince fs =
      lastReported fs + (amount + depositedSince fs)
    omega
  | @redeemed shares quoteOut hnav =>
    refine ⟨⟨hbps, ?_⟩, le_rfl⟩
    show f.grossNav - quoteOut + f.accruedCarry + (quoteOut + redeemedSince fs) +
      claimedSince fs = lastReported fs + depositedSince fs
    omega
  | carryClaimed =>
    refine ⟨⟨hbps, ?_⟩, le_rfl⟩
    show f.grossNav + 0 + redeemedSince fs + (f.accruedCarry + claimedSince fs) =
      lastReported fs + depositedSince fs
    omega

theorem markNav_again (hbps : f.carryBps ≤ 10000) (hle : f.accruedCarry ≤ n)
    (hf' : f' = f.marked (n - f.accruedCarry)) :
    f'.accruedCarry ≤ n ∧ markNav f' (n - f'.accruedCarry) = some f' := by
  have hbalance := marked_balance hbps hle
  rw [← hf'] at hbalance
  have hnav : n - f'.accruedCarry = f'.grossNav := by omega
  have hmark : ¬ f'.highWaterMark < f'.grossNav := by
    rw [hf']
    exact Nat.not_lt.2 (Nat.le_max_right _ _)
  refine ⟨by omega, ?_⟩
  rw [markNav, hnav, if_neg hmark]

end Balance

section Run

variable {w w' : World} {tx : WorldTx} {hist hist' : List (World × WorldTx)} {k : TrustPda}
  {f : Fund}

theorem step_books (hf : w.funds.funds.lookup k = some f) (hstep : World.Step w tx w') :
    ∃ f', w'.funds.funds.lookup k = some f' ∧ f.Books (navFlow k w tx) f' := by
  unfold navFlow
  rcases World.fund_step hstep with ⟨ix, hix, hexec⟩ | ⟨hne, hsame⟩
  · rw [hix]
    exact exec_books hf hexec
  · rw [hsame]
    split
    · next ix hix => exact absurd hix (hne ix)
    · exact ⟨f, hf, .quiet⟩

theorem step_absent (hfree : w.funds.funds.lookup k = none) (hstep : World.Step w tx w') :
    navFlow k w tx = .quiet ∧ ∀ f, w'.funds.funds.lookup k = some f →
      ∃ a fundId carryBps, carryBps ≤ 10000 ∧ f = .opened a fundId carryBps := by
  unfold navFlow
  rcases World.fund_step hstep with ⟨ix, hix, hexec⟩ | ⟨hne, hsame⟩
  · rw [hix]
    exact ⟨FundState.flow_absent hfree, fun f hf => exec_opened hfree hexec hf⟩
  · rw [hsame, hfree]
    constructor
    · split
      · next ix hix => exact absurd hix (hne ix)
      · rfl
    · intro f hf
      cases hf

theorem NavPhase.of_run (run : Run World.Step .init hist w) :
    NavPhase (navFlows k hist) (w.funds.funds.lookup k) := by
  induction run with
  | nil => exact .absent rfl
  | @step hist w w' tx _ hstep ih =>
    rw [navFlows, List.map_cons]
    cases hlookup : w.funds.funds.lookup k with
    | some f =>
      rw [hlookup] at ih
      obtain ⟨f', hf', hbooks⟩ := step_books hlookup hstep
      cases ih with
      | opened h => exact hf' ▸ .opened (h.books hbooks).1
    | none =>
      rw [hlookup] at ih
      obtain ⟨hquiet, hopened⟩ := step_absent hlookup hstep
      rw [hquiet]
      cases ih with
      | absent hzero =>
        cases hlookup' : w'.funds.funds.lookup k with
        | none => exact .absent hzero
        | some f =>
          obtain ⟨a, -, carryBps, hbps, rfl⟩ := hopened f hlookup'
          refine .opened ⟨hbps, ?_⟩
          show 0 + 0 + redeemedSince (navFlows k hist) + claimedSince (navFlows k hist) = _
          rw [Nat.zero_add]
          exact hzero

theorem balanced_of_run (run : Run World.Step .init hist w)
    (hf : w.funds.funds.lookup k = some f) : Balanced (navFlows k hist) f := by
  have hphase : NavPhase (navFlows k hist) (w.funds.funds.lookup k) := .of_run run
  rw [hf] at hphase
  cases hphase with
  | opened h => exact h

theorem highWaterMark_mono {fs : List NavFlow} (h : Balanced fs f)
    (hf : w.funds.funds.lookup k = some f) (run : Run World.Step w hist' w') :
    ∃ fs' f', w'.funds.funds.lookup k = some f' ∧ Balanced fs' f' ∧
      f.highWaterMark ≤ f'.highWaterMark := by
  induction run with
  | nil => exact ⟨fs, f, hf, h, le_rfl⟩
  | step _ hstep ih =>
    obtain ⟨fs₁, f₁, hf₁, h₁, hle⟩ := ih
    obtain ⟨f', hf', hbooks⟩ := step_books hf₁ hstep
    obtain ⟨h', hle'⟩ := h₁.books hbooks
    exact ⟨_, f', hf', h', Nat.le_trans hle hle'⟩

theorem updateNav_again {s s' : FundState} {manager : Pubkey} {n : Nat}
    (hf : s.funds.lookup k = some f) (hbps : f.carryBps ≤ 10000)
    (h : updateNav s k manager n = .ok s') :
    (∃ f', s'.funds.lookup k = some f' ∧ f'.grossNav + f'.accruedCarry = n) ∧
      updateNav s' k manager n = .ok s' := by
  simp only [updateNav, bind_eq_ok, loadPda_eq_ok, okOr_eq_ok, checkedSub_eq_some,
    exists_punit, pure_eq_ok] at h ⊢
  obtain ⟨f₁, ⟨hf₁, hseeds⟩, hmanager, _, ⟨hle, rfl⟩, f', hmark, rfl⟩ := h
  obtain rfl : f = f₁ := some.inj (hf.symm.trans hf₁)
  have hmarked := markNav_ok hbps hmark
  obtain ⟨hle', hagain⟩ := markNav_again hbps hle hmarked
  constructor
  · refine ⟨f', AList.lookup_insert _, ?_⟩
    rw [hmarked]
    exact marked_balance hbps hle
  · refine ⟨f', ⟨AList.lookup_insert _, ?_⟩, ?_, _, ⟨hle', rfl⟩, f', hagain, ?_⟩
    · rw [hmarked]
      exact hseeds
    · rw [hmarked]
      exact hmanager
    · rw [AList.insert_insert]

theorem step_same {manager : Pubkey} {n : Nat} (hix : tx.ix = .fund (.updateNav k manager n))
    (h : updateNav w.funds k manager n = .ok w.funds) : World.Step w tx w := by
  have hexec : w.funds.exec w.trusts.trusts w.tokens (.updateNav k manager n) =
      .ok (w.funds, w.tokens) := by
    rw [FundState.exec, h]
    rfl
  show w.exec tx = .ok w
  rw [World.exec, hix]
  show (w.funds.exec w.trusts.trusts w.tokens (.updateNav k manager n)).mapError
    WorldError.fund >>= _ = _
  rw [hexec]
  rfl

/-- **NAV bookkeeping balances.** What the LPs own and the carry add up to the last report, with the
deposits and without the redemptions and the claimed carry since. -/
theorem nav_balances (run : Run World.Step .init hist w)
    (hf : w.funds.funds.lookup k = some f) :
    f.grossNav + f.accruedCarry + redeemedSince (navFlows k hist) + claimedSince (navFlows k hist) =
      lastReported (navFlows k hist) + depositedSince (navFlows k hist) ∧
    (∀ hist' w', Run World.Step w hist' w' → ∃ f', w'.funds.funds.lookup k = some f' ∧
      f.highWaterMark ≤ f'.highWaterMark) ∧
    (∀ tx manager n w', tx.ix = .fund (.updateNav k manager n) → World.Step w tx w' →
      (∃ f', w'.funds.funds.lookup k = some f' ∧ f'.grossNav + f'.accruedCarry = n) ∧
      ∀ tx', tx'.ix = tx.ix → World.Step w' tx' w') := by
  have hbalanced := balanced_of_run run hf
  refine ⟨hbalanced.balance, ?_, ?_⟩
  · intro hist' w' later
    obtain ⟨-, f', hf', -, hle⟩ := highWaterMark_mono hbalanced hf later
    exact ⟨f', hf', hle⟩
  · intro tx manager n w' hix hstep
    have hstepped := World.exec_stepped hstep
    rw [hix] at hstepped
    cases hstepped with
    | fund h =>
      obtain ⟨hupdate, rfl⟩ := ok_of_fst h
      obtain ⟨hreported, hagain⟩ := updateNav_again hf hbalanced.bps hupdate
      exact ⟨hreported, fun tx' hix' => step_same (hix'.trans hix) hagain⟩

end Run

/-- After a deposit of 1000, a mark of 1200 and a redemption of 100 shares, what is left and what
was redeemed since the mark add up to the mark, and the mark does not fall. -/
theorem redeemedFund_balance : ∃ hist w f, Run World.Step .init hist w ∧
    w.funds.funds.lookup ⟨1, 6⟩ = some f ∧
    f.grossNav + f.accruedCarry + redeemedSince (navFlows ⟨1, 6⟩ hist) +
        claimedSince (navFlows ⟨1, 6⟩ hist) =
      lastReported (navFlows ⟨1, 6⟩ hist) + depositedSince (navFlows ⟨1, 6⟩ hist) ∧
    redeemedSince (navFlows ⟨1, 6⟩ hist) = 96 ∧ lastReported (navFlows ⟨1, 6⟩ hist) = 1200 := by
  have hfacts : (traceAll World.exec [] .init
      (openFund ++ [depositTx 1000, markTx 1200, redeemTx 100])).toOption.map
      (fun t => (redeemedSince (navFlows ⟨1, 6⟩ t.1), lastReported (navFlows ⟨1, 6⟩ t.1),
        (t.2.funds.funds.lookup ⟨1, 6⟩).map (·.highWaterMark))) =
      some (96, 1200, some 960) := by decide +kernel
  simp only [Option.map_eq_some_iff, toOption_eq_some, Prod.mk.injEq] at hfacts
  obtain ⟨⟨hist, w⟩, htrace, hredeemed, hreported, f, hf, -⟩ := hfacts
  have run := Run.nil.traceAll htrace
  exact ⟨hist, w, f, run, hf, (nav_balances run hf).1, hredeemed, hreported⟩

end Aeqi.Funds
