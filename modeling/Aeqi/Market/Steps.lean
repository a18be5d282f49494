import Aeqi.Market.Program

/-!
# aeqi_unifutures: what a successful instruction did

One lemma per handler of curves, sales and exits, as in `Aeqi.Unifutures.Steps`, and what
each of them leaves to the ledger: an authority that does not sign keeps what it holds.
-/

namespace Aeqi.Market

open Aeqi.Lib Aeqi.Solana
open Governance (Trust)
open Token (Ledger)
open Token.Ledger (Moves)

/-! ## Accounts after an instruction -/

namespace BondingCurve

/-- A curve as `create_curve` writes it. -/
def opened (a : CreateCurve) (p : CurveParams) : BondingCurve :=
  ⟨a.trust, p.curveId, a.creator, a.assetMint, a.quoteMint, p.curveType, p.startPrice.toNat,
    p.endPrice.toNat, p.maxSupply.toNat, 0, 0, p.reserveRatioPpm, 0⟩

variable (c : BondingCurve)

def bought (n cost : Nat) : BondingCurve :=
  { c with
    currentSupply := c.currentSupply + n
    reserveBalance := c.reserveBalance + cost
    proceedsCollected := c.proceedsCollected + cost }

def sold (n returned : Nat) : BondingCurve :=
  { c with
    currentSupply := c.currentSupply - n
    reserveBalance := c.reserveBalance - returned }

/-- What buying `n` tokens costs at a supply of `x`. -/
def costAt (x n : Nat) : Option Nat := do
  let ct ← CurveType.fromU8 c.curveType
  purchaseCost ct c.startPrice c.endPrice c.maxSupply x n

/-- What selling `n` tokens returns at a supply of `x`. -/
def returnAt (x n : Nat) : Option Nat := do
  let ct ← CurveType.fromU8 c.curveType
  saleReturn ct c.startPrice c.endPrice c.maxSupply x n c.reserveRatioPpm

/-- What buying `n` tokens costs now. -/
abbrev costOf (n : Nat) : Option Nat := c.costAt c.currentSupply n

/-- What selling `n` tokens returns now. -/
abbrev returnOf (n : Nat) : Option Nat := c.returnAt c.currentSupply n

theorem costAt_of_type {ct : CurveType} {x n : Nat} (h : CurveType.fromU8 c.curveType = some ct) :
    c.costAt x n = purchaseCost ct c.startPrice c.endPrice c.maxSupply x n := by
  rw [costAt, h]
  rfl

theorem returnAt_of_type {ct : CurveType} {x n : Nat} (h : CurveType.fromU8 c.curveType = some ct) :
    c.returnAt x n = saleReturn ct c.startPrice c.endPrice c.maxSupply x n c.reserveRatioPpm := by
  rw [returnAt, h]
  rfl

end BondingCurve

namespace CommitmentSale

/-- A sale as `create_commitment_sale` writes it. -/
def opened (clock : Clock) (a : CreateCommitmentSale) (p : SaleParams) : CommitmentSale :=
  ⟨a.trust, p.saleId, a.creator, p.assetAmount, p.targetQuote, p.overflowQuote, 0, 0, .active,
    clock.unixTimestamp, clock.unixTimestamp + p.durationSecs⟩

def committed (s : CommitmentSale) (amount : Nat) : CommitmentSale :=
  { s with
    proceedsCollected := s.proceedsCollected + amount
    commitmentsCollected := s.commitmentsCollected + amount }

def completed (s : CommitmentSale) : CommitmentSale := { s with status := .completed }

end CommitmentSale

namespace Exit

/-- An exit as `create_exit` writes it. -/
def opened (clock : Clock) (a : CreateExit) (p : ExitParams) : Exit :=
  ⟨a.trust, p.exitId, a.creator, a.assetMint, p.exitQuote, p.totalSupplySnapshot, 0,
    p.exitQuote, .active, clock.unixTimestamp, clock.unixTimestamp + p.durationSecs⟩

def settled (e : Exit) : Exit := { e with proceedsCollected := e.exitQuote }

def paid (e : Exit) (share : Nat) : Exit :=
  { e with remainingProceeds := e.remainingProceeds - share }

end Exit

/-! ## Pure parts -/

section Pure

variable {n r : Nat}

theorem allocationOf_eq_some {sale : CommitmentSale} :
    allocationOf sale n = some r ↔ n * sale.assetAmount < 2 ^ 128 ∧ sale.commitmentsCollected ≠ 0 ∧
      r < 2 ^ 64 ∧ n * sale.assetAmount / sale.commitmentsCollected = r :=
  checkedShare_eq_some

theorem shareOf_eq_some {e : Exit} :
    shareOf e n = some r ↔ n * e.exitQuote < 2 ^ 128 ∧ e.totalSupplySnapshot ≠ 0 ∧
      r < 2 ^ 64 ∧ n * e.exitQuote / e.totalSupplySnapshot = r :=
  checkedShare_eq_some

end Pure

/-! ## Handlers -/

section Handlers

variable {s s' : MarketState} {tokens tokens' : Ledger Address} {clock : Clock}

theorem init_ok {trusts : Accounts Pubkey Trust} {k payer : Pubkey}
    (h : init s trusts k payer = .ok s') :
    s' = { s with modules := s.modules.insert k ⟨k, 0, 0, 0, 0⟩ } := by
  simp only [init, bind_eq_ok, exists_punit, pure_eq_ok] at h
  obtain ⟨_, -, -, -, -, rfl⟩ := h
  rfl

theorem createCurve_ok {a : CreateCurve} {p : CurveParams} (h : createCurve s tokens a p = .ok s') :
    s.curves.lookup ⟨a.trust, p.curveId⟩ = none ∧ 0 < p.maxSupply.toNat ∧
      p.reserveRatioPpm ≤ 1000000 ∧ ∃ m, s' = { s with
        curves := s.curves.insert ⟨a.trust, p.curveId⟩ (.opened a p)
        modules := s.modules.insert a.trust m } := by
  simp only [createCurve, bind_eq_ok, requireFree_eq_ok, require_eq_ok, exists_punit, pure_eq_ok] at h
  obtain ⟨_, -, hfree, _, -, _, -, hmax, hppm, -, _, -, _, -, rfl⟩ := h
  exact ⟨hfree, hmax, hppm, _, rfl⟩

/-- The constraints that `BuyFromCurve` and `SellToCurve` share. -/
structure CurveAccounts.Valid (tokens : Ledger Address) (a : CurveAccounts) (c : BondingCurve) :
    Prop where
  seeds : a.curve = c.seeds
  assetMint : a.assetMint = c.assetMint
  quoteMint : a.quoteMint = c.quoteMint
  assetVault : Owned tokens a.curveAssetVault a.assetMint (.curveAuthority a.curve)
  quoteVault : Owned tokens a.curveQuoteVault a.quoteMint (.curveAuthority a.curve)

theorem checkCurveVaults_ok {a : CurveAccounts} {u : Unit} (h : checkCurveVaults tokens a = .ok u) :
    Owned tokens a.curveAssetVault a.assetMint (.curveAuthority a.curve) ∧
      Owned tokens a.curveQuoteVault a.quoteMint (.curveAuthority a.curve) := by
  simp only [checkCurveVaults, bind_eq_ok, checkOwned_eq_ok, exists_punit] at h
  obtain ⟨_, -, _, -, hasset, hquote⟩ := h
  exact ⟨hasset, hquote⟩

theorem checkCurveMints_ok {c : BondingCurve} {a : CurveAccounts} {u : Unit} :
    checkCurveMints c a = .ok u ↔ a.assetMint = c.assetMint ∧ a.quoteMint = c.quoteMint := by
  simp [checkCurveMints, bind_eq_ok]

theorem buyFromCurve_ok {a : BuyFromCurve} {n maxCost : Nat}
    (h : buyFromCurve s tokens a n maxCost = .ok (s', tokens')) :
    ∃ c cost t₁, s.curves.lookup a.curve = some c ∧ a.Valid tokens c ∧ 0 < n ∧
      c.currentSupply + n ≤ c.maxSupply ∧ c.costOf n = some cost ∧
      tokens.transfer a.userQuoteTa a.quoteMint a.curveQuoteVault (.wallet a.user) cost = .ok t₁ ∧
      t₁.transfer a.curveAssetVault a.assetMint a.userAssetTa (.curveAuthority a.curve) n =
        .ok tokens' ∧
      s' = { s with curves := s.curves.insert a.curve (c.bought n cost) } := by
  simp only [buyFromCurve, bind_eq_ok, loadPda_eq_ok, checkCurveMints_ok, require_eq_ok, okOr_eq_ok, checkedAdd_eq_some, tryInto_eq_some,
    invoke_eq_ok, exists_punit] at h
  obtain ⟨c, ⟨hc, hseeds⟩, hvaults, _, -, -, hn, ct, hct, ⟨hasset, hquote⟩, _, ⟨-, rfl⟩, hmax,
    cost, hcost, _, ⟨-, rfl⟩, -, t₁, h₁, _, h₂, _, ⟨-, rfl⟩, _, ⟨-, rfl⟩, rfl, rfl⟩ := h
  obtain ⟨hassetVault, hquoteVault⟩ := checkCurveVaults_ok hvaults
  have hcost' : c.costOf n = some cost := (c.costAt_of_type hct).trans hcost
  exact ⟨c, cost, t₁, hc, ⟨hseeds, hasset, hquote, hassetVault, hquoteVault⟩, hn, hmax, hcost',
    h₁, h₂, rfl⟩

theorem sellToCurve_ok {a : SellToCurve} {n minReturn : Nat}
    (h : sellToCurve s tokens a n minReturn = .ok (s', tokens')) :
    ∃ c returned t₁, s.curves.lookup a.curve = some c ∧ a.Valid tokens c ∧ 0 < n ∧
      n ≤ c.currentSupply ∧ c.returnOf n = some returned ∧ returned ≤ c.reserveBalance ∧
      tokens.transfer a.userAssetTa a.assetMint a.curveAssetVault (.wallet a.user) n = .ok t₁ ∧
      t₁.transfer a.curveQuoteVault a.quoteMint a.userQuoteTa (.curveAuthority a.curve)
        returned = .ok tokens' ∧
      s' = { s with curves := s.curves.insert a.curve (c.sold n returned) } := by
  simp only [sellToCurve, bind_eq_ok, loadPda_eq_ok, checkCurveMints_ok, require_eq_ok, okOr_eq_ok, checkedSub_eq_some, tryInto_eq_some,
    invoke_eq_ok, exists_punit] at h
  obtain ⟨c, ⟨hc, hseeds⟩, hvaults, -, _, -, hn, ct, hct, ⟨hasset, hquote⟩, hsupply, returned,
    hreturn, _, ⟨-, rfl⟩, -, hreserve, t₁, h₁, _, h₂, _, ⟨-, rfl⟩, _, ⟨-, rfl⟩, rfl, rfl⟩ := h
  obtain ⟨hassetVault, hquoteVault⟩ := checkCurveVaults_ok hvaults
  have hreturn' : c.returnOf n = some returned := (c.returnAt_of_type hct).trans hreturn
  exact ⟨c, returned, t₁, hc, ⟨hseeds, hasset, hquote, hassetVault, hquoteVault⟩, hn, hsupply,
    hreturn', hreserve, h₁, h₂, rfl⟩

theorem createCommitmentSale_ok {a : CreateCommitmentSale} {p : SaleParams}
    (h : createCommitmentSale s clock a p = .ok s') :
    s.sales.lookup ⟨a.trust, p.saleId⟩ = none ∧ ∃ m, s' = { s with
      sales := s.sales.insert ⟨a.trust, p.saleId⟩ (.opened clock a p)
      modules := s.modules.insert a.trust m } := by
  simp only [createCommitmentSale, bind_eq_ok, requireFree_eq_ok, okOr_eq_ok, checkedAddI64_eq_some, exists_punit, pure_eq_ok] at h
  obtain ⟨_, -, hfree, -, -, -, -, _, ⟨-, rfl⟩, _, -, rfl⟩ := h
  exact ⟨hfree, _, rfl⟩

def commitmentOf (s : MarketState) (k : CommitmentPda) : Nat :=
  (initIfNeeded s.commitments k .zeroed).amount

theorem commitToSale_ok {a : CommitToSale} {amount : Nat}
    (h : commitToSale s tokens clock a amount = .ok (s', tokens')) :
    ∃ sale, s.sales.lookup a.sale = some sale ∧ a.sale = sale.seeds ∧
      Owned tokens a.saleQuoteVault a.quoteMint (.saleAuthority a.sale) ∧ 0 < amount ∧
      sale.status = .active ∧ sale.proceedsCollected + amount ≤ sale.overflowQuote ∧
      tokens.transfer a.buyerQuoteTa a.quoteMint a.saleQuoteVault (.wallet a.buyer) amount =
        .ok tokens' ∧
      s' = { s with
        sales := s.sales.insert a.sale (sale.committed amount)
        commitments := s.commitments.insert ⟨a.sale, a.buyer⟩
          ⟨sale.trust, sale.saleId, a.buyer, commitmentOf s ⟨a.sale, a.buyer⟩ + amount⟩ } := by
  simp only [commitToSale, bind_eq_ok, loadPda_eq_ok, checkOwned_eq_ok,
    require_eq_ok, okOr_eq_ok, checkedAdd_eq_some, invoke_eq_ok, exists_punit] at h
  obtain ⟨sale, ⟨hsale, hseeds⟩, _, -, hvault, -, hamount, hactive, -, _, ⟨-, rfl⟩, hoverflow, _,
    hpay, _, ⟨-, rfl⟩, _, ⟨-, rfl⟩, rfl, rfl⟩ := h
  exact ⟨sale, hsale, hseeds, hvault, hamount, hactive, hoverflow, hpay, rfl⟩

theorem finalizeSale_ok {k : TrustPda} {signer : Pubkey}
    (h : finalizeSale s clock k signer = .ok s') :
    ∃ sale, s.sales.lookup k = some sale ∧ sale.status = .active ∧
      s' = { s with sales := s.sales.insert k sale.completed } := by
  simp only [finalizeSale, bind_eq_ok, loadPda_eq_ok, require_eq_ok, exists_punit, pure_eq_ok] at h
  obtain ⟨sale, ⟨hsale, -⟩, hactive, -, rfl⟩ := h
  exact ⟨sale, hsale, hactive, rfl⟩

theorem claimAllocation_ok {a : ClaimAllocation}
    (h : claimAllocation s tokens a = .ok (s', tokens')) :
    ∃ sale c allocation, s.sales.lookup a.sale = some sale ∧
      s.commitments.lookup ⟨a.sale, a.buyer⟩ = some c ∧ sale.status = .completed ∧ 0 < c.amount ∧
      allocationOf sale c.amount = some allocation ∧
      tokens.transfer a.saleAssetVault a.assetMint a.buyerAssetTa (.saleAuthority a.sale)
        allocation = .ok tokens' ∧
      s' = { s with
        commitments := s.commitments.insert ⟨a.sale, a.buyer⟩ { c with amount := 0 } } := by
  simp only [claimAllocation, bind_eq_ok, loadPda_eq_ok, load_eq_ok, require_eq_ok, okOr_eq_ok, invoke_eq_ok, exists_punit] at h
  obtain ⟨sale, ⟨hsale, -⟩, _, -, -, c, hc, _, -, hcompleted, -, hamount, allocation, hallocation,
    -, _, hpay, rfl, rfl⟩ := h
  exact ⟨sale, c, allocation, hsale, hc, hcompleted, hamount, hallocation, hpay, rfl⟩

theorem createExit_ok {a : CreateExit} {p : ExitParams}
    (h : createExit s tokens clock a p = .ok s') :
    s.exits.lookup ⟨a.trust, p.exitId⟩ = none ∧ 0 < p.totalSupplySnapshot ∧
      (∃ mint, tokens.mints.lookup a.assetMint = some mint ∧ p.totalSupplySnapshot = mint.supply) ∧
      ∃ m, s' = { s with
        exits := s.exits.insert ⟨a.trust, p.exitId⟩ (.opened clock a p)
        modules := s.modules.insert a.trust m } := by
  simp only [createExit, bind_eq_ok, requireFree_eq_ok, loadMint_eq_ok, require_eq_ok,
    okOr_eq_ok, checkedAddI64_eq_some, exists_punit, pure_eq_ok] at h
  obtain ⟨_, -, hfree, mint, hmint, -, hsnapshot, -, hsupply, _, ⟨-, rfl⟩, _, -, rfl⟩ := h
  exact ⟨hfree, hsnapshot, ⟨mint, hmint, hsupply⟩, _, rfl⟩

theorem settleExit_ok {a : SettleExit} (h : settleExit s tokens a = .ok (s', tokens')) :
    ∃ e, s.exits.lookup a.exit = some e ∧
      tokens.transfer a.creatorQuoteTa a.quoteMint a.exitQuoteVault (.wallet a.creator)
        e.exitQuote = .ok tokens' ∧
      s' = { s with exits := s.exits.insert a.exit e.settled } := by
  simp only [settleExit, bind_eq_ok, loadPda_eq_ok, invoke_eq_ok, exists_punit] at h
  obtain ⟨e, ⟨he, -⟩, _, -, -, -, -, -, -, _, hpay, rfl, rfl⟩ := h
  exact ⟨e, he, hpay, rfl⟩

theorem claimProRata_ok {a : ClaimProRata} {n : Nat}
    (h : claimProRata s tokens a n = .ok (s', tokens')) :
    ∃ e share t₁, s.exits.lookup a.exit = some e ∧ a.assetMint = e.assetMint ∧
      shareOf e n = some share ∧ share ≤ e.remainingProceeds ∧
      tokens.burn a.holderAssetTa a.assetMint (.wallet a.holder) n = .ok t₁ ∧
      t₁.transfer a.exitQuoteVault a.quoteMint a.holderQuoteTa (.exitAuthority a.exit) share =
        .ok tokens' ∧
      s' = { s with exits := s.exits.insert a.exit (e.paid share) } := by
  simp only [claimProRata, bind_eq_ok, loadPda_eq_ok, require_eq_ok, okOr_eq_ok, checkedSub_eq_some, invoke_eq_ok,
    exists_punit] at h
  obtain ⟨e, ⟨he, -⟩, hmint, _, -, _, -, -, -, _, -, -, -, -, share, hshare, -, hle, t₁, h₁, _,
    h₂, _, ⟨-, rfl⟩, rfl, rfl⟩ := h
  exact ⟨e, share, t₁, he, hmint, hshare, hle, h₁, h₂, rfl⟩

end Handlers

/-! ## The ledger -/

def MarketIx.authority : MarketIx → Option Address
  | .buyFromCurve a _ _ => some (.curveAuthority a.curve)
  | .sellToCurve a _ _ => some (.curveAuthority a.curve)
  | .claimAllocation a => some (.saleAuthority a.sale)
  | .claimProRata a _ => some (.exitAuthority a.exit)
  | _ => none

/-- The store of a primitive. -/
inductive MarketPart
  | modules
  | curves
  | sales
  | exits

/-- The primitive that an instruction is about. -/
def MarketIx.part : MarketIx → MarketPart
  | .init .. => .modules
  | .createCurve .. => .curves
  | .buyFromCurve .. => .curves
  | .sellToCurve .. => .curves
  | .createCommitmentSale .. => .sales
  | .commitToSale .. => .sales
  | .finalizeSale .. => .sales
  | .claimAllocation .. => .sales
  | .createExit .. => .exits
  | .settleExit .. => .exits
  | .claimProRata .. => .exits

/-- The primitives that an instruction is not about keep their accounts. -/
structure Framed (part : MarketPart) (s s' : MarketState) : Prop where
  curves : part ≠ .curves → s'.curves = s.curves
  sales : part ≠ .sales → s'.sales = s.sales
  commitments : part ≠ .sales → s'.commitments = s.commitments
  exits : part ≠ .exits → s'.exits = s.exits

section Exec

variable {s s' : MarketState} {trusts : Accounts Pubkey Trust} {tokens tokens' : Ledger Address}
  {clock : Clock} {ix : MarketIx}

theorem exec_moves (h : s.exec trusts tokens clock ix = .ok (s', tokens')) :
    Moves (Signs ix.authority) (fun _ => 0) tokens tokens' := by
  cases ix with
  | init trust payer | createCurve a p | createCommitmentSale a p | finalizeSale sale signer
  | createExit a p =>
    obtain ⟨-, rfl⟩ := ok_of_fst h
    exact .refl _
  | buyFromCurve a n maxCost =>
    obtain ⟨_, _, _, -, -, -, -, -, h₁, h₂, -⟩ := buyFromCurve_ok h
    exact .trans (.transfer h₁ (.inl ⟨_, rfl⟩)) (.transfer h₂ (.inr rfl))
  | sellToCurve a n minReturn =>
    obtain ⟨_, _, _, -, -, -, -, -, -, h₁, h₂, -⟩ := sellToCurve_ok h
    exact .trans (.transfer h₁ (.inl ⟨_, rfl⟩)) (.transfer h₂ (.inr rfl))
  | commitToSale a amount =>
    obtain ⟨_, -, -, -, -, -, -, hpay, -⟩ := commitToSale_ok h
    exact .transfer hpay (.inl ⟨_, rfl⟩)
  | claimAllocation a =>
    obtain ⟨_, _, _, -, -, -, -, -, hpay, -⟩ := claimAllocation_ok h
    exact .transfer hpay (.inr rfl)
  | settleExit a =>
    obtain ⟨_, -, hpay, -⟩ := settleExit_ok h
    exact .transfer hpay (.inl ⟨_, rfl⟩)
  | claimProRata a n =>
    obtain ⟨_, _, _, -, -, -, -, h₁, h₂, -⟩ := claimProRata_ok h
    exact .trans (.burn h₁ (.inl ⟨_, rfl⟩)) (.transfer h₂ (.inr rfl))

theorem exec_framed (h : s.exec trusts tokens clock ix = .ok (s', tokens')) :
    Framed ix.part s s' := by
  cases ix with
  | init trust payer =>
    obtain ⟨h, -⟩ := ok_of_fst h
    obtain rfl := init_ok h
    exact ⟨fun _ => rfl, fun _ => rfl, fun _ => rfl, fun _ => rfl⟩
  | createCurve a p =>
    obtain ⟨h, -⟩ := ok_of_fst h
    obtain ⟨-, -, -, _, rfl⟩ := createCurve_ok h
    exact ⟨fun hne => absurd rfl hne, fun _ => rfl, fun _ => rfl, fun _ => rfl⟩
  | buyFromCurve a n maxCost =>
    obtain ⟨_, _, _, -, -, -, -, -, -, -, rfl⟩ := buyFromCurve_ok h
    exact ⟨fun hne => absurd rfl hne, fun _ => rfl, fun _ => rfl, fun _ => rfl⟩
  | sellToCurve a n minReturn =>
    obtain ⟨_, _, _, -, -, -, -, -, -, -, -, rfl⟩ := sellToCurve_ok h
    exact ⟨fun hne => absurd rfl hne, fun _ => rfl, fun _ => rfl, fun _ => rfl⟩
  | createCommitmentSale a p =>
    obtain ⟨h, -⟩ := ok_of_fst h
    obtain ⟨-, _, rfl⟩ := createCommitmentSale_ok h
    exact ⟨fun _ => rfl, fun hne => absurd rfl hne, fun _ => rfl, fun _ => rfl⟩
  | commitToSale a amount =>
    obtain ⟨_, -, -, -, -, -, -, -, rfl⟩ := commitToSale_ok h
    exact ⟨fun _ => rfl, fun hne => absurd rfl hne, fun hne => absurd rfl hne, fun _ => rfl⟩
  | finalizeSale sale signer =>
    obtain ⟨h, -⟩ := ok_of_fst h
    obtain ⟨_, -, -, rfl⟩ := finalizeSale_ok h
    exact ⟨fun _ => rfl, fun hne => absurd rfl hne, fun _ => rfl, fun _ => rfl⟩
  | claimAllocation a =>
    obtain ⟨_, _, _, -, -, -, -, -, -, rfl⟩ := claimAllocation_ok h
    exact ⟨fun _ => rfl, fun _ => rfl, fun hne => absurd rfl hne, fun _ => rfl⟩
  | createExit a p =>
    obtain ⟨h, -⟩ := ok_of_fst h
    obtain ⟨-, -, -, _, rfl⟩ := createExit_ok h
    exact ⟨fun _ => rfl, fun _ => rfl, fun _ => rfl, fun hne => absurd rfl hne⟩
  | settleExit a =>
    obtain ⟨_, -, -, rfl⟩ := settleExit_ok h
    exact ⟨fun _ => rfl, fun _ => rfl, fun _ => rfl, fun hne => absurd rfl hne⟩
  | claimProRata a n =>
    obtain ⟨_, _, _, -, -, -, -, -, -, rfl⟩ := claimProRata_ok h
    exact ⟨fun _ => rfl, fun _ => rfl, fun _ => rfl, fun hne => absurd rfl hne⟩

end Exec

end Aeqi.Market
