import Aeqi.Market.Exits
import Aeqi.Market.Solvency

/-!
# What a budget is committed to

Activating a request compares its amount with what the budget has not spent, and only
`record_spend` advances that counter: two activations that fit one by one need not fit
together. A budget is never spent beyond its amount, and no activation alone exceeds what was
left; the activated requests stay within it in every run whose activations and spends find
room beside the ones before (`LeavesRoom`).
-/

namespace Aeqi.Funding

open Aeqi.Lib Aeqi.Lib.Accounts Aeqi.Solana Option
open Budgets (Budget BudgetState)
open Market (MarketState)

/-! ## Commitments -/

def RequestStatus.isCommitted : RequestStatus → Bool
  | .pending => false
  | .activated => true
  | .finalized => true
  | .cancelled => false

def FundingRequest.budget (r : FundingRequest) : TrustPda := ⟨r.trust, r.budgetId⟩

def FundingRequest.activatedWith (market : MarketState) (r : FundingRequest) : Nat :=
  match r.kind with
  | 0 => r.assetAmount
  | 1 => (market.curves.lookup ⟨r.trust, r.primitiveId⟩).elim 0 (·.maxSupply)
  | 2 => (market.exits.lookup ⟨r.trust, r.primitiveId⟩).elim 0 (·.exitQuote)
  | _ => 0

/-- What a request takes of the budget at `k`. -/
def FundingRequest.takes (market : MarketState) (k : TrustPda) (r : FundingRequest) : Nat :=
  if r.budget = k ∧ r.status.isCommitted then r.activatedWith market else 0

open FundingRequest (activatedWith takes)

def committedIn (k : TrustPda) (market : MarketState) (s : FundingState) : Nat :=
  total (fun _ r => r.takes market k) s.requests

/-- What the activated and finalized requests take of the budget at `k`. -/
def committed (k : TrustPda) (w : World) : Nat := committedIn k w.market w.funding

def spentOn (k : TrustPda) (w : World) : Nat := (w.budgets.budgets.lookup k).elim 0 (·.spent)

def amountOn (k : TrustPda) (w : World) : Nat := (w.budgets.budgets.lookup k).elim 0 (·.amount)

def FundingState.activation (s : FundingState) (ix : FundingIx) :
    Option (FundingRequest × Nat) := do
  let (a, _, _) ← ix.activation
  let r ← s.requests.lookup a.request
  pure (r, s.required ix)

def activation (w : World) (tx : WorldTx) : Option (FundingRequest × Nat) :=
  match tx.ix with
  | .funding ix => w.funding.activation ix
  | _ => none

/-- What a transaction activates on the budget at `k`. -/
def activates (k : TrustPda) (w : World) (tx : WorldTx) : Nat :=
  (activation w tx).elim 0 fun e => if e.1.budget = k then e.2 else 0

/-- What a transaction spends from the budget at `k`. -/
def spends (k : TrustPda) (tx : WorldTx) : Nat :=
  match tx.ix with
  | .budget (.recordSpend a n) => if a.budget = k then n else 0
  | _ => 0

/-- Whatever a transaction activates on a budget or spends from it fits beside what the
budget is committed to and has spent. -/
def LeavesRoom (k : TrustPda) (w : World) (tx : WorldTx) : Prop :=
  0 < activates k w tx + spends k tx →
    committed k w + spentOn k w + (activates k w tx + spends k tx) ≤ amountOn k w

instance (k : TrustPda) (w : World) (tx : WorldTx) : Decidable (LeavesRoom k w tx) := by
  unfold LeavesRoom
  infer_instance

/-! ## Budgets -/

section Budgets

variable {w w' : World} {tx : WorldTx} {k : TrustPda}

/-- How one transaction changes the budget at `k`, with what it spends. -/
inductive BudgetMoved (k : TrustPda) : Option Budget → Option Budget → Nat → Prop
  | kept (o : Option Budget) : BudgetMoved k o o 0
  | opened {b : Budget} (hseeds : b.seeds = k) (hspent : b.spent = 0) :
      BudgetMoved k none (some b) 0
  | charged {b : Budget} {n : Nat} (hle : b.spent + n ≤ b.amount) :
      BudgetMoved k (some b) (some (b.charged n)) n
  | frozen (b : Budget) (frozen : Bool) : BudgetMoved k (some b) (some { b with frozen }) 0

theorem setFrozen_moved {s s' : BudgetState} {budget : TrustPda} {grantor : Pubkey} {frozen : Bool}
    (k : TrustPda) (h : Budgets.setFrozen s budget grantor frozen = .ok s') :
    BudgetMoved k (s.budgets.lookup k) (s'.budgets.lookup k) 0 := by
  obtain ⟨b, hb, rfl⟩ := Budgets.setFrozen_ok h
  by_cases hk : k = budget
  · subst hk
    rw [hb, AList.lookup_insert]
    exact .frozen b frozen
  · rw [AList.lookup_insert_ne hk]
    exact .kept _

theorem budget_step (k : TrustPda) (h : w.exec tx = .ok w') :
    BudgetMoved k (w.budgets.budgets.lookup k) (w'.budgets.budgets.lookup k) (spends k tx) := by
  unfold spends
  rcases World.budget_step h with ⟨ix, hix, hexec⟩ | ⟨hne, hsame⟩
  · rw [hix]
    cases ix with
    | init trust payer =>
      rw [Budgets.init_ok hexec]
      exact .kept _
    | createBudget a p =>
      obtain ⟨hfree, _, hs⟩ := Budgets.createBudget_ok hexec
      rw [hs]
      by_cases hk : k = ⟨a.trust, p.budgetId⟩
      · subst hk
        rw [hfree, AList.lookup_insert]
        exact .opened rfl rfl
      · rw [AList.lookup_insert_ne hk]
        exact .kept _
    | recordSpend a n =>
      obtain ⟨b, hb, -, hle, hs⟩ := Budgets.recordSpend_ok hexec
      rw [hs]
      by_cases hk : a.budget = k
      · subst hk
        rw [hb, AList.lookup_insert]
        simp only
        exact .charged hle
      · rw [AList.lookup_insert_ne (Ne.symm hk)]
        simp only [if_neg hk]
        exact .kept _
    | freeze budget grantor | unfreeze budget grantor => exact setFrozen_moved k hexec
  · rw [hsame]
    split
    · next a n hix => exact absurd hix (hne _)
    · exact .kept _

/-- A budget is stored under its seeds and is spent within its amount. -/
structure BudgetWf (k : TrustPda) (b : Budget) : Prop where
  seeds : b.seeds = k
  spent : b.spent ≤ b.amount

variable {o o' : Option Budget} {n : Nat}

theorem BudgetMoved.wf (h : BudgetMoved k o o' n) (ho : ∀ b ∈ o, BudgetWf k b) :
    ∀ b ∈ o', BudgetWf k b := by
  cases h with
  | kept => exact ho
  | opened hseeds hspent =>
    rintro _ ⟨⟩
    exact ⟨hseeds, hspent ▸ Nat.zero_le _⟩
  | charged hle =>
    rintro _ ⟨⟩
    exact ⟨(ho _ rfl).seeds, hle⟩
  | frozen b frozen =>
    rintro _ ⟨⟩
    exact ⟨(ho _ rfl).seeds, (ho _ rfl).spent⟩

theorem BudgetMoved.spent (h : BudgetMoved k o o' n) :
    o'.elim 0 (·.spent) = o.elim 0 (·.spent) + n := by
  cases h with
  | kept => rfl
  | opened hseeds hspent => exact hspent
  | charged | frozen => rfl

theorem BudgetMoved.amount (h : BudgetMoved k o o' n) :
    o.elim 0 (·.amount) ≤ o'.elim 0 (·.amount) := by
  cases h with
  | kept => omega
  | opened => exact Nat.zero_le _
  | charged | frozen => exact le_refl _

end Budgets

/-! ## Requests -/

/-- The primitive of a request exists. -/
structure FundingRequest.Placed (market : MarketState) (r : FundingRequest) : Prop where
  curve : r.kind = 1 → (market.curves.lookup ⟨r.trust, r.primitiveId⟩).isSome
  exit : r.kind = 2 → (market.exits.lookup ⟨r.trust, r.primitiveId⟩).isSome

section Requests

variable {w w' : World} {tx : WorldTx} {k : TrustPda} {r : FundingRequest}

theorem curve_maxSupply (k : TrustPda) (h : w.exec tx = .ok w')
    (hsome : (w.market.curves.lookup k).isSome) :
    (w'.market.curves.lookup k).isSome ∧ (w'.market.curves.lookup k).elim 0 (·.maxSupply) =
        (w.market.curves.lookup k).elim 0 (·.maxSupply) := by
  have hmove := Market.curve_step k h
  obtain ⟨c, hc⟩ := isSome_iff_exists.1 hsome
  rw [hc] at hmove ⊢
  obtain ⟨c', hc', hterms⟩ := hmove.terms
  rw [hc', hterms]
  exact ⟨rfl, rfl⟩

theorem exit_exitQuote (k : TrustPda) (h : w.exec tx = .ok w')
    (hsome : (w.market.exits.lookup k).isSome) :
    (w'.market.exits.lookup k).isSome ∧ (w'.market.exits.lookup k).elim 0 (·.exitQuote) =
        (w.market.exits.lookup k).elim 0 (·.exitQuote) := by
  have hmove := Market.exit_step k h
  generalize w.market.exits.lookup k = o at hmove hsome
  generalize w'.market.exits.lookup k = o' at hmove
  generalize Market.exitClaim k w tx = claim at hmove
  cases hmove with
  | kept => exact ⟨hsome, rfl⟩
  | opened => cases hsome
  | settled | claimed => exact ⟨rfl, rfl⟩

theorem FundingRequest.Placed.step (hp : r.Placed w.market) (h : w.exec tx = .ok w') :
    r.Placed w'.market ∧ r.activatedWith w'.market = r.activatedWith w.market := by
  refine ⟨⟨fun hkind => ?_, fun hkind => ?_⟩, ?_⟩
  · exact (curve_maxSupply _ h (hp.curve hkind)).1
  · exact (exit_exitQuote _ h (hp.exit hkind)).1
  · unfold activatedWith
    split
    · rfl
    · next hkind => exact (curve_maxSupply _ h (hp.curve hkind)).2
    · next hkind => exact (exit_exitQuote _ h (hp.exit hkind)).2
    · rfl

inductive RequestsMoved (market : MarketState) (s s' : FundingState) :
    Option (FundingRequest × Nat) → Prop
  | kept (h : s'.requests = s.requests) : RequestsMoved market s s' none
  | opened {key : TrustPda} {r : FundingRequest} (hfree : s.requests.lookup key = none)
      (hpending : r.status = .pending) (h : s'.requests = s.requests.insert key r) :
      RequestsMoved market s s' none
  | restated {key : TrustPda} {r : FundingRequest} {status : RequestStatus}
      (hr : s.requests.lookup key = some r) (hsame : status.isCommitted = r.status.isCommitted)
      (h : s'.requests = s.requests.insert key { r with status }) : RequestsMoved market s s' none
  | activated {key : TrustPda} {r : FundingRequest} {id : Bytes32} {n : Nat}
      (hr : s.requests.lookup key = some r) (hpending : r.status = .pending)
      (hplaced : (r.activated id).Placed market)
      (hamount : (r.activated id).activatedWith market = n)
      (h : s'.requests = s.requests.insert key (r.activated id)) :
      RequestsMoved market s s' (some (r, n))

variable {s s' : FundingState} {market market' : MarketState}

theorem activated_amount {trusts : Accounts Pubkey Governance.Trust} {budgets : BudgetState}
    {tokens : Token.Ledger Address} {clock : Clock} {ix : FundingIx} {a : Activate} {kind : Nat}
    {id : Bytes32} (h : s.exec trusts budgets market tokens clock ix = .ok (s', market'))
    (ha : ix.activation = some (a, kind, id)) (hr : s.requests.lookup a.request = some r) :
    (r.activated id).Placed market' ∧ (r.activated id).activatedWith market' = s.required ix := by
  obtain ⟨r', mix, hr', -, htrust, -, hkind, -, hmix, hexec, -⟩ := activation_ok h ha
  obtain rfl : r = r' := some.inj (hr.symm.trans hr')
  cases ix with
  | activateCommitmentSale a' saleId overflowQuote durationSecs =>
    obtain ⟨rfl, rfl, rfl⟩ : a' = a ∧ 0 = kind ∧ saleId = id := by
      simpa [FundingIx.activation] using ha
    refine ⟨⟨fun hne => ?_, fun hne => ?_⟩, ?_⟩
    · exact absurd (hkind.symm.trans hne) (by decide)
    · exact absurd (hkind.symm.trans hne) (by decide)
    · simp [activatedWith, FundingRequest.activated, hkind, FundingState.required, hr]
  | activateBondingCurve a' assetMint quoteMint p =>
    obtain ⟨rfl, rfl, rfl⟩ : a' = a ∧ 1 = kind ∧ p.curveId = id := by
      simpa [FundingIx.activation] using ha
    cases hmix
    obtain ⟨hexec, -⟩ := ok_of_fst hexec
    obtain ⟨-, -, -, _, rfl⟩ := Market.createCurve_ok hexec
    refine ⟨⟨fun _ => ?_, fun hne => ?_⟩, ?_⟩
    · simp [FundingRequest.activated, htrust]
    · exact absurd (hkind.symm.trans hne) (by decide)
    · simp [activatedWith, FundingRequest.activated, hkind, htrust,
        FundingState.required, Market.BondingCurve.opened]
  | activateExit a' assetMint p =>
    obtain ⟨rfl, rfl, rfl⟩ : a' = a ∧ 2 = kind ∧ p.exitId = id := by
      simpa [FundingIx.activation] using ha
    cases hmix
    obtain ⟨hexec, -⟩ := ok_of_fst hexec
    obtain ⟨-, -, -, _, rfl⟩ := Market.createExit_ok hexec
    refine ⟨⟨fun hne => ?_, fun _ => ?_⟩, ?_⟩
    · exact absurd (hkind.symm.trans hne) (by decide)
    · simp [FundingRequest.activated, htrust]
    · simp [activatedWith, FundingRequest.activated, hkind, htrust,
        FundingState.required, Market.Exit.opened]
  | init | createFundingRequest | finalizeFundingRequest | cancelFundingRequest => cases ha

theorem exec_requests {trusts : Accounts Pubkey Governance.Trust} {budgets : BudgetState}
    {tokens : Token.Ledger Address} {clock : Clock} {ix : FundingIx}
    (h : s.exec trusts budgets market tokens clock ix = .ok (s', market')) :
    RequestsMoved market' s s' (s.activation ix) := by
  unfold FundingState.activation
  cases ha : ix.activation with
  | some activation =>
    obtain ⟨a, kind, id⟩ := activation
    obtain ⟨r, -, hr, -, -, hpending, -, -, -, -, rfl⟩ := activation_ok h ha
    obtain ⟨hplaced, hamount⟩ := activated_amount h ha hr
    simp only [hr, bind_eq_bind, bind_some]
    exact .activated hr hpending hplaced hamount rfl
  | none =>
    cases ix with
    | init trust payer =>
      obtain ⟨h, -⟩ := ok_of_fst h
      obtain rfl := init_ok h
      exact .kept rfl
    | createFundingRequest a p =>
      obtain ⟨h, -⟩ := ok_of_fst h
      obtain ⟨hfree, -, _, rfl⟩ := createFundingRequest_ok h
      exact .opened hfree rfl rfl
    | finalizeFundingRequest request creator | cancelFundingRequest request creator =>
      obtain ⟨h, -⟩ := ok_of_fst h
      obtain ⟨r, hr, hstatus, rfl⟩ := setStatus_ok h
      exact .restated hr (by rw [hstatus]; rfl) rfl
    | activateCommitmentSale | activateBondingCurve | activateExit => cases ha

theorem requests_step (h : w.exec tx = .ok w') :
    RequestsMoved w'.market w.funding w'.funding (activation w tx) := by
  unfold activation
  rcases World.funding_step h with ⟨ix, hix, hexec⟩ | ⟨hne, hsame⟩
  · rw [hix]
    exact exec_requests hexec
  · rw [hsame]
    split
    · next ix hix => exact absurd hix (hne ix)
    · exact .kept rfl

/-- An activated request has its primitive. -/
def AllPlaced (market : MarketState) (s : FundingState) : Prop :=
  ∀ key r, s.requests.lookup key = some r → r.status.isCommitted → r.Placed market

variable {activated : Option (FundingRequest × Nat)}

theorem RequestsMoved.placed (h : RequestsMoved market s s' activated)
    (hs : AllPlaced market s) : AllPlaced market s' := by
  intro key' r' hr' hcommitted
  cases h with
  | kept h =>
    rw [h] at hr'
    exact hs key' r' hr' hcommitted
  | @opened key r hfree hpending h =>
    rw [h] at hr'
    rcases lookup_insert_some hr' with ⟨rfl, rfl⟩ | ⟨-, hr'⟩
    · rw [hpending] at hcommitted
      cases hcommitted
    · exact hs key' r' hr' hcommitted
  | @restated key r status hr hsame h =>
    rw [h] at hr'
    rcases lookup_insert_some hr' with ⟨rfl, rfl⟩ | ⟨-, hr'⟩
    · have hplaced := hs key' r hr (hsame ▸ hcommitted)
      exact ⟨hplaced.curve, hplaced.exit⟩
    · exact hs key' r' hr' hcommitted
  | @activated key r id n hr hpending hplaced hamount h =>
    rw [h] at hr'
    rcases lookup_insert_some hr' with ⟨rfl, rfl⟩ | ⟨-, hr'⟩
    · exact hplaced
    · exact hs key' r' hr' hcommitted

theorem committedIn_insert {key : TrustPda} (h : s'.requests = s.requests.insert key r)
    (k : TrustPda) (market : MarketState) :
    committedIn k market s' + wt (fun _ r => r.takes market k) s.requests key =
      committedIn k market s + r.takes market k := by
  unfold committedIn
  rw [h]
  exact total_insert key r

theorem RequestsMoved.committed (h : RequestsMoved market s s' activated) (k : TrustPda) :
    committedIn k market s' = committedIn k market s +
      activated.elim 0 fun e => if e.1.budget = k then e.2 else 0 := by
  cases h with
  | kept h =>
    unfold committedIn
    rw [h]
    rfl
  | @opened key r hfree hpending h =>
    have hnone : r.takes market k = 0 := by
      simp [takes, hpending, RequestStatus.isCommitted]
    have hsum := committedIn_insert h k market
    rwa [wt_of_none hfree, hnone] at hsum
  | @restated key r status hr hsame h =>
    have htakes : ({ r with status } : FundingRequest).takes market k = r.takes market k := by
      unfold takes
      rw [hsame]
      rfl
    have hsum := committedIn_insert h k market
    rw [wt_of_some hr, htakes] at hsum
    exact Nat.add_right_cancel hsum
  | @activated key r id n hr hpending hplaced hamount h =>
    have hbefore : r.takes market k = 0 := by
      simp [takes, hpending, RequestStatus.isCommitted]
    have hafter : (r.activated id).takes market k = if r.budget = k then n else 0 := by
      unfold takes
      rw [hamount]
      by_cases hk : r.budget = k
      · rw [if_pos hk]
        exact if_pos ⟨hk, rfl⟩
      · rw [if_neg hk]
        exact if_neg fun hcond => hk hcond.1
    have hsum := committedIn_insert h k market
    rwa [wt_of_some hr, hbefore, hafter] at hsum

theorem committedIn_market (hs : AllPlaced w.market w.funding) (h : w.exec tx = .ok w')
    (k : TrustPda) : committedIn k w'.market w.funding = committedIn k w.market w.funding := by
  apply total_fun_congr
  intro key r hr
  unfold takes
  split
  · next hcond => exact ((hs key r hr hcond.2).step h).2
  · rfl

end Requests

/-! ## Steps -/

/-- What holds of budgets and requests in every reachable state. -/
structure Ready (w : World) : Prop where
  budgets : ∀ k, ∀ b ∈ w.budgets.budgets.lookup k, BudgetWf k b
  requests : AllPlaced w.market w.funding

section Step

variable {w w' : World} {tx : WorldTx} {k : TrustPda}

theorem Ready.step (hw : Ready w) (h : w.exec tx = .ok w') : Ready w' where
  budgets k := (budget_step k h).wf (hw.budgets k)
  requests := by
    apply (requests_step h).placed
    intro key r hr hcommitted
    exact ((hw.requests key r hr hcommitted).step h).1

theorem Ready.spent_le (hw : Ready w) (k : TrustPda) : spentOn k w ≤ amountOn k w := by
  unfold spentOn amountOn
  cases hb : w.budgets.budgets.lookup k with
  | none => exact le_refl _
  | some b => exact (hw.budgets k b hb).spent

theorem Ready.committed (hw : Ready w) (h : w.exec tx = .ok w') (k : TrustPda) :
    committed k w' = committed k w + activates k w tx := by
  unfold Funding.committed
  rw [(requests_step h).committed k, committedIn_market hw.requests h k]
  rfl

theorem activation_fits {r : FundingRequest} {n : Nat} (h : w.exec tx = .ok w')
    (ha : activation w tx = some (r, n)) :
    ∃ key b, w.budgets.budgets.lookup key = some b ∧ b.seeds = r.budget ∧
      (0 < n → b.spent + n ≤ b.amount) := by
  unfold activation at ha
  rcases World.funding_step h with ⟨ix, hix, hexec⟩ | ⟨hne, -⟩
  · rw [hix] at ha
    obtain ⟨⟨a, kind, id⟩, hact, r', hr', heq⟩ :
        ∃ a, ix.activation = some a ∧ ∃ r', w.funding.requests.lookup a.1.request = some r' ∧
          (r', w.funding.required ix) = (r, n) := by
      simpa [FundingState.activation, bind_eq_some_iff] using ha
    cases heq
    obtain ⟨r', -, hr, -, -, -, -, ⟨b, hb, hseeds, hroom⟩, -⟩ := activation_ok hexec hact
    obtain rfl : r = r' := some.inj (hr'.symm.trans hr)
    exact ⟨_, b, hb, hseeds, hroom⟩
  · split at ha
    · next ix hix => exact absurd hix (hne ix)
    · cases ha

theorem Ready.activates_le (hw : Ready w) (h : w.exec tx = .ok w') (k : TrustPda) :
    spentOn k w + activates k w tx ≤ amountOn k w := by
  unfold activates
  cases ha : activation w tx with
  | none => exact hw.spent_le k
  | some e =>
    obtain ⟨r, n⟩ := e
    obtain ⟨key, b, hb, hseeds, hroom⟩ := activation_fits h ha
    have hkey : key = r.budget := (hw.budgets _ b hb).seeds.symm.trans hseeds
    have hspent : spentOn key w = b.spent := by rw [spentOn, hb]; rfl
    have hamount : amountOn key w = b.amount := by rw [amountOn, hb]; rfl
    simp only [Option.elim]
    split
    · next hk =>
      rw [← hk, ← hkey, hspent, hamount]
      rcases Nat.eq_zero_or_pos n with rfl | hn
      · exact (hw.budgets _ b hb).spent
      · exact hroom hn
    · exact hw.spent_le k

end Step

/-! ## Runs -/

section Run

variable {hist : List (World × WorldTx)} {w : World} {k : TrustPda} {b : Budget}

theorem ready (run : Run World.Step .init hist w) : Ready w := by
  refine run.invariant ⟨fun _ _ => nofun, fun _ _ => nofun⟩ ?_
  intro t tx t' ht h
  exact ht.step h

theorem activations_fit (run : Run World.Step .init hist w) (k : TrustPda) :
    ∀ e ∈ hist, spentOn k e.1 + activates k e.1 e.2 ≤ amountOn k w := by
  induction run with
  | nil =>
    intro e he
    exact nomatch he
  | @step hist w w' tx run h ih =>
    have hmono : amountOn k w ≤ amountOn k w' := (budget_step k h).amount
    intro e he
    rcases List.mem_cons.1 he with rfl | he
    · exact Nat.le_trans ((ready run).activates_le h k) hmono
    · exact Nat.le_trans (ih e he) hmono

theorem committed_fit (run : Run World.Step .init hist w)
    (hroom : ∀ e ∈ hist, LeavesRoom k e.1 e.2) : committed k w + spentOn k w ≤ amountOn k w := by
  induction run with
  | nil => exact le_refl _
  | @step hist w w' tx run h ih =>
    have hbefore := ih fun e he => hroom e (List.mem_cons_of_mem _ he)
    have hleft : LeavesRoom k w tx := hroom _ List.mem_cons_self
    have hcommitted := (ready run).committed h k
    have hspent : spentOn k w' = spentOn k w + spends k tx := (budget_step k h).spent
    have hmono : amountOn k w ≤ amountOn k w' := (budget_step k h).amount
    unfold LeavesRoom at hleft
    omega

/-- **What a budget is committed to.** A budget is spent within its amount, and every activation on
it fits beside what was spent before. -/
theorem budget_capacity (run : Run World.Step .init hist w)
    (hb : w.budgets.budgets.lookup k = some b) :
    b.spent ≤ b.amount ∧ (∀ e ∈ hist, spentOn k e.1 + activates k e.1 e.2 ≤ b.amount) ∧
      ((∀ e ∈ hist, LeavesRoom k e.1 e.2) → committed k w + b.spent ≤ b.amount) := by
  have hspent : spentOn k w = b.spent := by rw [spentOn, hb]; rfl
  have hamount : amountOn k w = b.amount := by rw [amountOn, hb]; rfl
  refine ⟨((ready run).budgets k b hb).spent, ?_, fun hroom => ?_⟩
  · rw [← hamount]
    exact activations_fit run k
  · rw [← hspent, ← hamount]
    exact committed_fit run hroom

end Run

def openBudget : List WorldTx :=
  World.openMarket ++
  [{ ix := .budget (.init 1 10) },
   { ix := .budget (.createBudget ⟨1, 10⟩ ⟨5, 2, 100, 0, none⟩) },
   { ix := .funding (.init 1 10) }]

def openSale (id : Bytes32) (amount : Nat) : List WorldTx :=
  [{ ix := .funding (.createFundingRequest ⟨1, ⟨1, 5⟩, 11⟩ ⟨id, 0, 5, amount, 50⟩) },
   { ix := .funding (.activateCommitmentSale ⟨⟨1, id⟩, ⟨1, 5⟩, 1, 11⟩ id 50 10) }]

/-- Sales of forty and of sixty units leave room for each other. -/
theorem openSales_capacity : ∃ hist w, Run World.Step .init hist w ∧
    committed ⟨1, 5⟩ w = 100 ∧ (∀ e ∈ hist, LeavesRoom ⟨1, 5⟩ e.1 e.2) ∧
    ∃ b, w.budgets.budgets.lookup ⟨1, 5⟩ = some b ∧ committed ⟨1, 5⟩ w + b.spent ≤ b.amount := by
  have hgood : AllGood (LeavesRoom ⟨1, 5⟩) World.exec .init
      (openBudget ++ openSale 7 40 ++ openSale 8 60) := by decide +kernel
  obtain ⟨hist, w, hw, run⟩ := Run.of_allGood .nil hgood
  have hfacts : ((execAll World.exec .init
      (openBudget ++ openSale 7 40 ++ openSale 8 60)).toOption.map fun w =>
        (committed ⟨1, 5⟩ w, (w.budgets.budgets.lookup ⟨1, 5⟩).isSome)) =
      some (100, true) := by decide +kernel
  simp only [toOption_map_eq_some, hw, Except.ok.injEq, Prod.mk.injEq] at hfacts
  obtain ⟨_, rfl, hcommitted, hsome⟩ := hfacts
  obtain ⟨b, hb⟩ := isSome_iff_exists.1 hsome
  obtain ⟨run, hroom⟩ := Run.guarded_iff.1 run
  exact ⟨hist, w, run, hcommitted, hroom, b, hb, (budget_capacity run hb).2.2 hroom⟩

/-- Two sales of sixty units each fit into a budget of 100 one by one. -/
theorem not_budget_capacity : ¬ ∀ hist w, Run World.Step .init hist w →
    ∀ k b, w.budgets.budgets.lookup k = some b →
      committed k w + b.spent ≤ b.amount ∧ b.spent ≤ b.amount := by
  intro hall
  have hfacts : ((execAll World.exec .init
      (openBudget ++ openSale 7 60 ++ openSale 8 60)).toOption.map fun w =>
        (committed ⟨1, 5⟩ w, (w.budgets.budgets.lookup ⟨1, 5⟩).map (·.amount))) =
      some (120, some 100) := by decide +kernel
  simp only [map_eq_some_iff, toOption_eq_some, Prod.mk.injEq] at hfacts
  obtain ⟨w, hw, hcommitted, b, hb, hamount⟩ := hfacts
  obtain ⟨hist, run⟩ := Run.execAll hw
  have hle := (hall hist w run ⟨1, 5⟩ b hb).1
  omega

end Aeqi.Funding
