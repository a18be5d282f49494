import Aeqi.World.Steps

/-!
# Commitment sales

A sale collects commitments while it is active; once completed its record never changes
again, and a buyer turns a commitment into a share of the asset once. The shares are rounded
down, so together they are no more than the asset, in whatever order they are claimed.
-/

namespace Aeqi.Market

open Aeqi.Lib Aeqi.Lib.Accounts Aeqi.Solana

/-! ## Events of a sale -/

/-- What the buyers do on a sale. -/
inductive SaleEvent
  | quiet
  | committed (buyer : Pubkey) (amount : Nat)
  | claimed (buyer : Pubkey) (allocation : Nat)

def committedBy (b : Pubkey) : List SaleEvent → Nat
  | [] => 0
  | .committed b' n :: es => (if b' = b then n else 0) + committedBy b es
  | _ :: es => committedBy b es

def claimsOf (b : Pubkey) : List SaleEvent → Nat
  | [] => 0
  | .claimed b' _ :: es => (if b' = b then 1 else 0) + claimsOf b es
  | _ :: es => claimsOf b es

def paidTo (b : Pubkey) : List SaleEvent → Nat
  | [] => 0
  | .claimed b' n :: es => (if b' = b then n else 0) + paidTo b es
  | _ :: es => paidTo b es

/-- What all buyers were paid. -/
def allocated : List SaleEvent → Nat
  | [] => 0
  | .claimed _ n :: es => n + allocated es
  | _ :: es => allocated es

/-- What a claim of a buyer would pay. -/
def MarketState.allocation (s : MarketState) (k : TrustPda) (b : Pubkey) : Nat :=
  ((s.sales.lookup k).bind fun sale => allocationOf sale (commitmentOf s ⟨k, b⟩)).getD 0

def MarketState.saleEvent (s : MarketState) (k : TrustPda) : MarketIx → SaleEvent
  | .commitToSale a amount => if a.sale = k then .committed a.buyer amount else .quiet
  | .claimAllocation a => if a.sale = k then .claimed a.buyer (s.allocation k a.buyer) else .quiet
  | _ => .quiet

def saleEvent (k : TrustPda) (w : World) (tx : WorldTx) : SaleEvent :=
  (w.marketIx tx.ix).elim .quiet (w.market.saleEvent k)

def saleEvents (k : TrustPda) (hist : List (World × WorldTx)) : List SaleEvent :=
  hist.map fun e => saleEvent k e.1 e.2

/-! ## Moves of a sale -/

/-- The commitments of two states agree on the sale at `k`, but for one buyer. -/
def OtherCommitments (k : TrustPda) (b : Pubkey) (s s' : MarketState) : Prop :=
  ∀ b', b' ≠ b → s'.commitments.lookup ⟨k, b'⟩ = s.commitments.lookup ⟨k, b'⟩

def SameCommitments (k : TrustPda) (s s' : MarketState) : Prop :=
  ∀ b, s'.commitments.lookup ⟨k, b⟩ = s.commitments.lookup ⟨k, b⟩

/-- How one instruction changes the sale at `k` and its commitments. -/
inductive SaleMoved (k : TrustPda) (s s' : MarketState) : SaleEvent → Prop
  | kept (hsale : s'.sales.lookup k = s.sales.lookup k) (hsame : SameCommitments k s s') :
      SaleMoved k s s' .quiet
  | opened {clock : Clock} {a : CreateCommitmentSale} {p : SaleParams}
      (hfree : s.sales.lookup k = none) (hsale : s'.sales.lookup k = some (.opened clock a p))
      (hsame : SameCommitments k s s') : SaleMoved k s s' .quiet
  | committed {sale : CommitmentSale} {b : Pubkey} {n : Nat} (hsale : s.sales.lookup k = some sale)
      (hactive : sale.status = .active) (hcap : sale.proceedsCollected + n ≤ sale.overflowQuote)
      (hsale' : s'.sales.lookup k = some (sale.committed n))
      (hown : commitmentOf s' ⟨k, b⟩ = commitmentOf s ⟨k, b⟩ + n)
      (hother : OtherCommitments k b s s') : SaleMoved k s s' (.committed b n)
  | completed {sale : CommitmentSale} (hsale : s.sales.lookup k = some sale)
      (hactive : sale.status = .active) (hsale' : s'.sales.lookup k = some sale.completed)
      (hsame : SameCommitments k s s') : SaleMoved k s s' .quiet
  | claimed {sale : CommitmentSale} {b : Pubkey} {n : Nat} (hsale : s.sales.lookup k = some sale)
      (hcompleted : sale.status = .completed) (hpos : 0 < commitmentOf s ⟨k, b⟩)
      (hallocation : allocationOf sale (commitmentOf s ⟨k, b⟩) = some n)
      (hsale' : s'.sales.lookup k = some sale) (hown : commitmentOf s' ⟨k, b⟩ = 0)
      (hother : OtherCommitments k b s s') : SaleMoved k s s' (.claimed b n)

section Step

variable {s s' : MarketState} {k : TrustPda} {b : Pubkey}

variable {c : SaleCommitment} {p : CommitmentPda}

theorem commitmentOf_of_some (h : s.commitments.lookup p = some c) :
    commitmentOf s p = c.amount := by
  simp [commitmentOf, initIfNeeded, h]

theorem commitmentOf_congr (h : s'.commitments.lookup p = s.commitments.lookup p) :
    commitmentOf s' p = commitmentOf s p := by
  simp [commitmentOf, initIfNeeded, h]

theorem commitmentOf_insert (s : MarketState) (sales : Accounts TrustPda CommitmentSale)
    (p : CommitmentPda) (c : SaleCommitment) :
    commitmentOf { s with sales, commitments := s.commitments.insert p c } p = c.amount :=
  commitmentOf_of_some (AList.lookup_insert _)

theorem SameCommitments.insert (hne : p.sale ≠ k) (h : s'.commitments = s.commitments.insert p c) :
    SameCommitments k s s' := by
  intro b
  rw [h, AList.lookup_insert_ne]
  rintro rfl
  exact hne rfl

theorem OtherCommitments.insert (h : s'.commitments = s.commitments.insert ⟨k, b⟩ c) :
    OtherCommitments k b s s' := by
  intro b' hne
  rw [h, AList.lookup_insert_ne]
  rintro ⟨⟩
  exact hne rfl

theorem exec_sale {trusts : Accounts Pubkey Governance.Trust}
    {tokens tokens' : Token.Ledger Address} {clock : Clock} {ix : MarketIx} (k : TrustPda)
    (h : s.exec trusts tokens clock ix = .ok (s', tokens')) :
    SaleMoved k s s' (s.saleEvent k ix) := by
  have hframe := exec_framed h
  have hother : ix.part ≠ .sales → SaleMoved k s s' .quiet := fun hpart =>
    .kept (by rw [hframe.sales hpart]) fun b => by rw [hframe.commitments hpart]
  cases ix with
  | createCommitmentSale a p =>
    obtain ⟨h, -⟩ := ok_of_fst h
    obtain ⟨hfree, _, rfl⟩ := createCommitmentSale_ok h
    by_cases hk : k = ⟨a.trust, p.saleId⟩
    · subst hk
      exact .opened hfree (AList.lookup_insert _) fun _ => rfl
    · exact .kept (AList.lookup_insert_ne hk) fun _ => rfl
  | commitToSale a amount =>
    obtain ⟨sale, hsale, -, -, -, hactive, hcap, -, rfl⟩ := commitToSale_ok h
    rw [MarketState.saleEvent]
    by_cases hk : a.sale = k
    · subst hk
      rw [if_pos rfl]
      refine .committed hsale hactive hcap (AList.lookup_insert _) ?_ (.insert rfl)
      exact commitmentOf_insert s _ _ _
    · rw [if_neg hk]
      exact .kept (AList.lookup_insert_ne (Ne.symm hk)) (.insert hk rfl)
  | finalizeSale sale signer =>
    obtain ⟨h, -⟩ := ok_of_fst h
    obtain ⟨sale', hsale, hactive, rfl⟩ := finalizeSale_ok h
    by_cases hk : k = sale
    · subst hk
      exact .completed hsale hactive (AList.lookup_insert _) fun _ => rfl
    · exact .kept (AList.lookup_insert_ne hk) fun _ => rfl
  | claimAllocation a =>
    obtain ⟨sale, c, allocation, hsale, hc, hcompleted, hpos, hallocation, -, rfl⟩ :=
      claimAllocation_ok h
    rw [MarketState.saleEvent]
    by_cases hk : a.sale = k
    · subst hk
      rw [← commitmentOf_of_some hc] at hpos hallocation
      have hamount : s.allocation a.sale a.buyer = allocation := by
        simp [MarketState.allocation, hsale, hallocation]
      rw [if_pos rfl, hamount]
      refine .claimed hsale hcompleted hpos hallocation hsale ?_ (.insert rfl)
      exact commitmentOf_insert s _ _ _
    · rw [if_neg hk]
      exact .kept rfl (.insert hk rfl)
  | init | createCurve | buyFromCurve | sellToCurve | createExit | settleExit | claimProRata =>
    exact hother MarketPart.noConfusion

theorem sale_step {w w' : World} {tx : WorldTx} (k : TrustPda) (h : w.exec tx = .ok w') :
    SaleMoved k w.market w'.market (saleEvent k w tx) := by
  unfold saleEvent
  rcases World.market_step h with ⟨hnone, hsame⟩ | ⟨ix, hix, hexec⟩
  · rw [hnone, hsame]
    exact .kept rfl fun _ => rfl
  · rw [hix]
    exact exec_sale k hexec

end Step

/-! ## Sums over the commitments of a sale -/

section Sums

variable {s s' : MarketState} {k : TrustPda} {b : Pubkey} {g : Nat → Nat}

/-- What the commitments of the sale at `k` add up to under `g`. -/
def sumOn (k : TrustPda) (g : Nat → Nat) (s : MarketState) : Nat :=
  totalOn (·.sale = k) (fun c => g c.amount) s.commitments

theorem wt_commitment (hg : g 0 = 0) (p : CommitmentPda) :
    wt (fun _ c => g c.amount) s.commitments p = g (commitmentOf s p) := by
  unfold wt commitmentOf initIfNeeded
  cases s.commitments.lookup p with
  | none => exact hg.symm
  | some c => rfl

theorem sumOn_change (hg : g 0 = 0) (hother : OtherCommitments k b s s') :
    sumOn k g s' + g (commitmentOf s ⟨k, b⟩) = sumOn k g s + g (commitmentOf s' ⟨k, b⟩) := by
  rw [← wt_commitment hg, ← wt_commitment hg]
  refine totalOn_change rfl ?_
  rintro ⟨_, b'⟩ hne rfl
  exact hother b' fun hb => hne (by rw [hb])

theorem sumOn_same (g : Nat → Nat) (hsame : SameCommitments k s s') :
    sumOn k g s' = sumOn k g s := by
  apply totalOn_congr
  rintro ⟨_, b⟩ rfl
  exact hsame b

theorem sumOn_floor_le (k : TrustPda) (s : MarketState) (a c : Nat) :
    sumOn k (fun n => n * a / c) s ≤ sumOn k id s * a / c :=
  totalOn_floor_le _ _ s.commitments a c

end Sums

/-! ## Phases of a sale -/

/-- Before the first claim every commitment is what its buyer committed. -/
structure Unclaimed (k : TrustPda) (es : List SaleEvent) (s : MarketState) (collected : Nat) :
    Prop where
  sum : sumOn k id s = collected
  committed : ∀ b, commitmentOf s ⟨k, b⟩ = committedBy b es
  claims : ∀ b, claimsOf b es = 0
  paid : ∀ b, paidTo b es = 0
  allocated : allocated es = 0

/-- Once a sale is completed every buyer either has the commitment or was paid its share,
and what was paid leaves room for the shares of all commitments. -/
structure Claiming (k : TrustPda) (es : List SaleEvent) (s : MarketState)
    (sale : CommitmentSale) : Prop where
  buyer : ∀ b,
    (claimsOf b es = 0 ∧ paidTo b es = 0 ∧ commitmentOf s ⟨k, b⟩ = committedBy b es) ∨
    (claimsOf b es = 1 ∧ commitmentOf s ⟨k, b⟩ = 0 ∧
      paidTo b es = committedBy b es * sale.assetAmount / sale.commitmentsCollected)
  within : allocated es + sumOn k (fun n => n * sale.assetAmount / sale.commitmentsCollected) s ≤
    sale.assetAmount

inductive SalePhase (k : TrustPda) (es : List SaleEvent) (s : MarketState) :
    Option CommitmentSale → Prop
  | absent (h : Unclaimed k es s 0) : SalePhase k es s none
  | active {sale : CommitmentSale} (hstatus : sale.status = .active)
      (h : Unclaimed k es s sale.commitmentsCollected) : SalePhase k es s (some sale)
  | completed {sale : CommitmentSale} (hstatus : sale.status = .completed)
      (h : Claiming k es s sale) : SalePhase k es s (some sale)

/-- A sale records what was committed twice, and never more than it accepts. -/
structure CommitmentSale.Capped (sale : CommitmentSale) : Prop where
  equal : sale.proceedsCollected = sale.commitmentsCollected
  cap : sale.commitmentsCollected ≤ sale.overflowQuote

section Phase

variable {s s' : MarketState} {k : TrustPda} {b : Pubkey} {es : List SaleEvent} {n collected : Nat}
  {sale : CommitmentSale} {e : SaleEvent}

theorem Unclaimed.same (h : Unclaimed k es s collected) (hsame : SameCommitments k s s') :
    Unclaimed k (.quiet :: es) s' collected := by
  refine ⟨?_, fun b => ?_, h.claims, h.paid, h.allocated⟩
  · rw [sumOn_same id hsame, h.sum]
  · rw [commitmentOf_congr (hsame b), h.committed b]
    rfl

theorem Unclaimed.commit (h : Unclaimed k es s collected)
    (hown : commitmentOf s' ⟨k, b⟩ = commitmentOf s ⟨k, b⟩ + n)
    (hother : OtherCommitments k b s s') :
    Unclaimed k (.committed b n :: es) s' (collected + n) := by
  refine ⟨?_, fun b' => ?_, h.claims, h.paid, h.allocated⟩
  · have hsum := h.sum
    have hchange := sumOn_change (g := id) rfl hother
    simp only [id_eq] at hchange
    omega
  · rw [committedBy]
    by_cases hb : b = b'
    · subst hb
      rw [if_pos rfl, hown, h.committed b, Nat.add_comm]
    · rw [if_neg hb, Nat.zero_add, commitmentOf_congr (hother b' (Ne.symm hb)), h.committed b']

theorem Unclaimed.complete (h : Unclaimed k es s sale.commitmentsCollected) :
    Claiming k es s sale := by
  refine ⟨fun b => .inl ⟨h.claims b, h.paid b, h.committed b⟩, ?_⟩
  rw [h.allocated, Nat.zero_add]
  calc sumOn k (fun n => n * sale.assetAmount / sale.commitmentsCollected) s
      ≤ sumOn k id s * sale.assetAmount / sale.commitmentsCollected := sumOn_floor_le _ _ _ _
    _ = sale.commitmentsCollected * sale.assetAmount / sale.commitmentsCollected := by rw [h.sum]
    _ ≤ sale.assetAmount := Nat.div_le_of_le_mul (le_rfl)

theorem Claiming.same (h : Claiming k es s sale) (hsame : SameCommitments k s s') :
    Claiming k (.quiet :: es) s' sale := by
  refine ⟨fun b => ?_, ?_⟩
  · rw [commitmentOf_congr (hsame b)]
    exact h.buyer b
  · rw [sumOn_same _ hsame]
    exact h.within

theorem Claiming.claim (h : Claiming k es s sale) (hpos : 0 < commitmentOf s ⟨k, b⟩)
    (hallocation : allocationOf sale (commitmentOf s ⟨k, b⟩) = some n)
    (hown : commitmentOf s' ⟨k, b⟩ = 0) (hother : OtherCommitments k b s s') :
    Claiming k (.claimed b n :: es) s' sale := by
  obtain ⟨-, -, -, hn⟩ := allocationOf_eq_some.1 hallocation
  refine ⟨fun b' => ?_, ?_⟩
  · rw [claimsOf, paidTo]
    by_cases hb : b = b'
    · subst hb
      rcases h.buyer b with ⟨hclaims, hpaid, hcommitted⟩ | ⟨-, hzero, -⟩
      · rw [hcommitted] at hn
        exact .inr ⟨by rw [if_pos rfl, hclaims], hown, by rw [if_pos rfl, hpaid, ← hn]; rfl⟩
      · omega
    · rw [if_neg hb, if_neg hb, Nat.zero_add, Nat.zero_add,
        commitmentOf_congr (hother b' (Ne.symm hb))]
      exact h.buyer b'
  · have hwithin := h.within
    have hchange := sumOn_change
      (g := fun n => n * sale.assetAmount / sale.commitmentsCollected) (by simp) hother
    simp only [hown, Nat.zero_mul, Nat.zero_div] at hchange
    rw [allocated]
    omega

theorem SalePhase.step (h : SalePhase k es s (s.sales.lookup k)) (hmove : SaleMoved k s s' e) :
    SalePhase k (e :: es) s' (s'.sales.lookup k) := by
  cases hmove with
  | kept hsale hsame =>
    rw [hsale]
    generalize s.sales.lookup k = o at h
    cases h with
    | absent h => exact .absent (h.same hsame)
    | active hstatus h => exact .active hstatus (h.same hsame)
    | completed hstatus h => exact .completed hstatus (h.same hsame)
  | opened hfree hsale hsame =>
    rw [hfree] at h
    rw [hsale]
    cases h with
    | absent h => exact .active rfl (h.same hsame)
  | committed hsale hactive hcap hsale' hown hother =>
    rw [hsale] at h
    rw [hsale']
    cases h with
    | active hstatus h => exact .active hstatus (h.commit hown hother)
    | completed hstatus h => cases hactive.symm.trans hstatus
  | completed hsale hactive hsale' hsame =>
    rw [hsale] at h
    rw [hsale']
    cases h with
    | active hstatus h => exact .completed rfl (Unclaimed.complete (h.same hsame))
    | completed hstatus h => cases hactive.symm.trans hstatus
  | claimed hsale hcompleted hpos hallocation hsale' hown hother =>
    rw [hsale] at h
    rw [hsale']
    cases h with
    | active hstatus h => cases hcompleted.symm.trans hstatus
    | completed hstatus h => exact .completed hstatus (h.claim hpos hallocation hown hother)

theorem SaleMoved.capped (hmove : SaleMoved k s s' e)
    (h : ∀ sale ∈ s.sales.lookup k, sale.Capped) : ∀ sale ∈ s'.sales.lookup k, sale.Capped := by
  cases hmove with
  | kept hsale =>
    rw [hsale]
    exact h
  | opened hfree hsale =>
    rw [hsale]
    rintro _ ⟨⟩
    exact ⟨rfl, Nat.zero_le _⟩
  | @committed sale b n hsale hactive hcap hsale' =>
    rw [hsale']
    rintro _ ⟨⟩
    have hequal := (h sale hsale).equal
    refine ⟨?_, ?_⟩
    · simp [CommitmentSale.committed, hequal]
    · simp only [CommitmentSale.committed]
      omega
  | completed hsale hactive hsale' =>
    rw [hsale']
    rintro _ ⟨⟩
    exact ⟨(h _ hsale).equal, (h _ hsale).cap⟩
  | claimed hsale hcompleted hpos hallocation hsale' =>
    rw [hsale', ← hsale]
    exact h

theorem SaleMoved.frozen (hmove : SaleMoved k s s' e) (hsale : s.sales.lookup k = some sale)
    (hcompleted : sale.status = .completed) :
    s'.sales.lookup k = some sale ∧ ∀ b,
      s'.commitments.lookup ⟨k, b⟩ = s.commitments.lookup ⟨k, b⟩ ∨
        (∃ n, e = .claimed b n) ∧ commitmentOf s' ⟨k, b⟩ = 0 := by
  cases hmove with
  | kept hsame hcommit => exact ⟨hsame.trans hsale, fun b => .inl (hcommit b)⟩
  | opened hfree => cases hfree.symm.trans hsale
  | committed hsale' hactive | completed hsale' hactive =>
    cases hsale'.symm.trans hsale
    cases hactive.symm.trans hcompleted
  | @claimed _ b n hsale' _ hpos hallocation hsame hown hother =>
    cases hsale'.symm.trans hsale
    refine ⟨hsame, fun b' => ?_⟩
    by_cases hb : b' = b
    · subst hb
      exact .inr ⟨⟨n, rfl⟩, hown⟩
    · exact .inl (hother b' hb)

end Phase

/-! ## Runs -/

section Run

variable {hist : List (World × WorldTx)} {w : World} {k : TrustPda} {sale : CommitmentSale}

theorem SalePhase.of_run (run : Run World.Step .init hist w) :
    SalePhase k (saleEvents k hist) w.market (w.market.sales.lookup k) := by
  induction run with
  | nil => exact .absent ⟨rfl, fun _ => rfl, fun _ => rfl, fun _ => rfl, rfl⟩
  | step _ hstep ih => exact ih.step (sale_step k hstep)

theorem capped_of_run (run : Run World.Step .init hist w)
    (hsale : w.market.sales.lookup k = some sale) : sale.Capped :=
  run.invariant (P := fun w => ∀ sale ∈ w.market.sales.lookup k, sale.Capped)
    (fun sale h => by simp [World.init] at h) (fun _ _ _ hs h => (sale_step k h).capped hs)
    sale hsale

/-- **Allocations never exceed the sale**, and each buyer is paid at most once, a share that depends
on nothing but what the buyer committed. -/
theorem sale_allocations (run : Run World.Step .init hist w)
    (hsale : w.market.sales.lookup k = some sale) :
    (sale.proceedsCollected = sale.commitmentsCollected ∧
      sale.commitmentsCollected ≤ sale.overflowQuote) ∧
    (sale.status = .active → sumOn k id w.market = sale.commitmentsCollected) ∧
    (sale.status = .completed → ∀ tx w', w.exec tx = .ok w' →
      w'.market.sales.lookup k = some sale ∧ ∀ b,
        w'.market.commitments.lookup ⟨k, b⟩ = w.market.commitments.lookup ⟨k, b⟩ ∨
          (∃ n, saleEvent k w tx = .claimed b n) ∧ commitmentOf w'.market ⟨k, b⟩ = 0) ∧
    allocated (saleEvents k hist) ≤ sale.assetAmount ∧
    ∀ b, claimsOf b (saleEvents k hist) ≤ 1 ∧
      paidTo b (saleEvents k hist) = claimsOf b (saleEvents k hist) *
        (committedBy b (saleEvents k hist) * sale.assetAmount / sale.commitmentsCollected) := by
  have hcapped := capped_of_run run hsale
  have hphase : SalePhase k (saleEvents k hist) w.market (w.market.sales.lookup k) := .of_run run
  rw [hsale] at hphase
  refine ⟨⟨hcapped.equal, hcapped.cap⟩, ?_,
    fun hcompleted tx w' h => (sale_step k h).frozen hsale hcompleted, ?_⟩
  · intro hactive
    cases hphase with
    | active _ h => exact h.sum
    | completed hstatus _ => cases hactive.symm.trans hstatus
  · cases hphase with
    | active _ h =>
      refine ⟨h.allocated ▸ Nat.zero_le _, fun b => ?_⟩
      rw [h.claims b, h.paid b, Nat.zero_mul]
      omega
    | completed _ h =>
      refine ⟨Nat.le_trans (by omega) h.within, fun b => ?_⟩
      rcases h.buyer b with ⟨hclaims, hpaid, -⟩ | ⟨hclaims, -, hpaid⟩
      · rw [hclaims, hpaid, Nat.zero_mul]
        omega
      · rw [hclaims, hpaid, Nat.one_mul]
        omega

end Run

/-- Sale 4 of trust 1, for ten tokens of mint 1 of which `n` are in its vault, with quote of
mint 2 for two buyers. -/
def openSale (n : Nat) : List WorldTx :=
  World.openMarket ++
  [{ ix := .market (.createCommitmentSale ⟨1, 10⟩ ⟨4, 10, 6, 8, 100⟩) }] ++
  World.openAccount 21 1 (.saleAuthority ⟨1, 4⟩) n ++
  World.openAccount 22 2 (.saleAuthority ⟨1, 4⟩) 0 ++
  World.openAccount 31 1 (.wallet 11) 0 ++ World.openAccount 32 2 (.wallet 11) 5 ++
  World.openAccount 41 1 (.wallet 12) 0 ++ World.openAccount 42 2 (.wallet 12) 5

def commitTx (quoteMint vault ta buyer : Pubkey) (n : Nat) : WorldTx :=
  { ix := .market (.commitToSale
    ⟨⟨1, 4⟩, .wallet quoteMint, .wallet vault, .wallet ta, buyer⟩ n) }

def claimTx (ta buyer : Pubkey) : WorldTx :=
  { ix := .market (.claimAllocation ⟨⟨1, 4⟩, .wallet 1, .wallet 21, .wallet ta, buyer⟩) }

def completeTx : WorldTx := { ix := .market (.finalizeSale ⟨1, 4⟩ 10) }

/-- Two buyers commit six units in three transactions and claim eight and one of ten tokens. -/
theorem claimedSale_allocations : ∃ hist w sale, Run World.Step .init hist w ∧
    w.market.sales.lookup ⟨1, 4⟩ = some sale ∧ sale.status = .completed ∧
    sale.commitmentsCollected = 6 ∧ allocated (saleEvents ⟨1, 4⟩ hist) ≤ 10 ∧
    claimsOf 11 (saleEvents ⟨1, 4⟩ hist) ≤ 1 := by
  have hfacts : ((execAll World.exec .init (openSale 10 ++
      [commitTx 2 22 32 11 2, commitTx 2 22 42 12 1, commitTx 2 22 32 11 3, completeTx,
        claimTx 41 12, claimTx 31 11])).toOption.bind fun w =>
          (w.market.sales.lookup ⟨1, 4⟩).map fun sale =>
            (sale.status, sale.commitmentsCollected, sale.assetAmount)) =
      some (.completed, 6, 10) := by decide +kernel
  simp only [Option.bind_eq_some_iff, Option.map_eq_some_iff, toOption_eq_some,
    Prod.mk.injEq] at hfacts
  obtain ⟨w, hw, sale, hsale, hstatus, hcollected, hasset⟩ := hfacts
  obtain ⟨hist, run⟩ := Run.execAll hw
  obtain ⟨-, -, -, hwithin, hbuyer⟩ := sale_allocations run hsale
  exact ⟨hist, w, sale, run, hsale, hstatus, hcollected, hasset ▸ hwithin, (hbuyer 11).1⟩

end Aeqi.Market
