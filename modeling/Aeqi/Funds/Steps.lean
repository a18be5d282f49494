import Aeqi.Funds.Program

/-!
# aeqi_fund: what a successful instruction did
-/

namespace Aeqi.Funds

open Aeqi.Lib Aeqi.Solana
open Governance (Trust)
open Token (Ledger)
open Token.Ledger (Moves)

namespace Fund

/-- A fund as `create_fund` writes it. -/
def opened (a : CreateFund) (fundId : Bytes32) (carryBps : Nat) : Fund :=
  ⟨a.trust, fundId, a.manager, a.quoteMint, 0, 0, 0, carryBps, 0⟩

variable (f : Fund)

def deposited (amount shares : Nat) : Fund :=
  { f with grossNav := f.grossNav + amount, totalShares := f.totalShares + shares }

def redeemed (shares quoteOut : Nat) : Fund :=
  { f with totalShares := f.totalShares - shares, grossNav := f.grossNav - quoteOut }

def carryClaimed : Fund := { f with accruedCarry := 0 }

/-- The carry that a mark to `lpNav` accrues; none on a mark below the high-water mark. -/
def carryOn (lpNav : Nat) : Nat := (lpNav - f.highWaterMark) * f.carryBps / 10000

/-- A fund after a mark to `lpNav`. -/
def marked (lpNav : Nat) : Fund :=
  { f with
    grossNav := lpNav - f.carryOn lpNav
    highWaterMark := max f.highWaterMark (lpNav - f.carryOn lpNav)
    accruedCarry := f.accruedCarry + f.carryOn lpNav }

end Fund

/-! ## Pure parts -/

section Pure

variable {f f' : Fund} {n q lpNav : Nat}

theorem sharesToIssue_eq_some : sharesToIssue f n = some q ↔
    ((f.grossNav = 0 ∨ f.totalShares = 0) ∧ n = q) ∨
      ((f.grossNav ≠ 0 ∧ f.totalShares ≠ 0) ∧ n * f.totalShares < 2 ^ 128 ∧
        n * f.totalShares / f.grossNav = q) := by
  unfold sharesToIssue
  split
  · next h =>
    simp only [Option.some.injEq]
    constructor
    · exact fun hq => .inl ⟨h, hq⟩
    · rintro (⟨-, hq⟩ | ⟨hne, -⟩)
      · exact hq
      · exact absurd h (not_or.2 hne)
  · next h =>
    rw [not_or] at h
    simp only [bind, Option.bind_eq_some_iff, checkedMul_eq_some, checkedDiv_eq_some]
    constructor
    · rintro ⟨_, ⟨hmul, rfl⟩, -, rfl⟩
      exact .inr ⟨h, hmul, rfl⟩
    · rintro (⟨h', -⟩ | ⟨-, hmul, rfl⟩)
      · exact absurd h' (not_or.2 h)
      · exact ⟨_, ⟨hmul, rfl⟩, h.1, rfl⟩

theorem quoteOutOf_eq_some : quoteOutOf f n = some q ↔
    n * f.grossNav < 2 ^ 128 ∧ f.totalShares ≠ 0 ∧ q < 2 ^ 64 ∧ n * f.grossNav / f.totalShares = q :=
  checkedShare_eq_some

theorem carryOn_le_increase (hbps : f.carryBps ≤ 10000) (lpNav : Nat) :
    f.carryOn lpNav ≤ lpNav - f.highWaterMark := by
  apply Nat.div_le_of_le_mul
  rw [Nat.mul_comm 10000]
  exact Nat.mul_le_mul_left _ hbps

theorem markNav_ok (hbps : f.carryBps ≤ 10000) (h : markNav f lpNav = some f') :
    f' = f.marked lpNav := by
  unfold markNav at h
  split at h
  · next hcross =>
    simp only [bind, Option.bind_eq_some_iff, checkedMul_eq_some, tryInto_eq_some,
      checkedAdd_eq_some, checkedSub_eq_some, Option.some.injEq] at h
    obtain ⟨_, ⟨-, rfl⟩, _, ⟨-, rfl⟩, _, ⟨-, rfl⟩, _, ⟨-, rfl⟩, rfl⟩ := h
    have hcarry := carryOn_le_increase hbps lpNav
    have hmark : f.highWaterMark ≤ lpNav - f.carryOn lpNav := by omega
    simp only [Fund.marked, Nat.max_eq_right hmark]
    rfl
  · next hbelow =>
    simp only [Option.some.injEq] at h
    subst h
    have hzero : f.carryOn lpNav = 0 := by
      simp [Fund.carryOn, Nat.sub_eq_zero_of_le (Nat.le_of_not_lt hbelow)]
    simp [Fund.marked, hzero, Nat.max_eq_left (Nat.le_of_not_lt hbelow)]

theorem markNav_totalShares (h : markNav f lpNav = some f') : f'.totalShares = f.totalShares := by
  unfold markNav at h
  split at h
  · simp only [bind, Option.bind_eq_some_iff, Option.some.injEq] at h
    obtain ⟨_, -, _, -, _, -, _, -, rfl⟩ := h
    rfl
  · simp only [Option.some.injEq] at h
    subst h
    rfl

end Pure

/-! ## Handlers -/

section Handlers

variable {s s' : FundState} {tokens tokens' : Ledger Address}

theorem init_ok {trusts : Accounts Pubkey Trust} {k payer : Pubkey}
    (h : init s trusts k payer = .ok s') :
    s' = { s with modules := s.modules.insert k ⟨k, 0⟩ } := by
  simp only [init, bind_eq_ok, exists_punit, pure_eq_ok] at h
  obtain ⟨_, -, -, -, -, rfl⟩ := h
  rfl

theorem createFund_ok {a : CreateFund} {fundId : Bytes32} {carryBps : Nat}
    (h : createFund s tokens a fundId carryBps = .ok s') :
    s.funds.lookup ⟨a.trust, fundId⟩ = none ∧ carryBps ≤ 10000 ∧ ∃ m, s' = { s with
      funds := s.funds.insert ⟨a.trust, fundId⟩ (.opened a fundId carryBps)
      modules := s.modules.insert a.trust m } := by
  simp only [createFund, bind_eq_ok, requireFree_eq_ok, require_eq_ok,
    exists_punit, pure_eq_ok] at h
  obtain ⟨_, -, hfree, _, -, hbps, _, -, rfl⟩ := h
  exact ⟨hfree, hbps, _, rfl⟩

def sharesOf (s : FundState) (k : LpSharePda) : Nat := (initIfNeeded s.lpShares k .zeroed).shares

theorem deposit_ok {a : FundDeposit} {amount : Nat}
    (h : deposit s tokens a amount = .ok (s', tokens')) :
    ∃ f shares, s.funds.lookup a.fund = some f ∧ 0 < amount ∧
      sharesToIssue f amount = some shares ∧ 0 < shares ∧
      tokens.transfer a.lpQuoteTa a.quoteMint a.fundQuoteVault (.wallet a.lp) amount = .ok tokens' ∧
      s' = { s with
        funds := s.funds.insert a.fund (f.deposited amount shares)
        lpShares := s.lpShares.insert ⟨a.fund, a.lp⟩
          ⟨f.trust, f.fundId, a.lp, sharesOf s ⟨a.fund, a.lp⟩ + shares⟩ } := by
  simp only [deposit, bind_eq_ok, loadPda_eq_ok, require_eq_ok,
    okOr_eq_ok, checkedAdd_eq_some, tryInto_eq_some, invoke_eq_ok, exists_punit] at h
  obtain ⟨f, ⟨hf, -⟩, _, -, -, -, hamount, -, _, hpay, shares, hshares, _, ⟨-, rfl⟩, hpos, _,
    ⟨-, rfl⟩, _, ⟨-, rfl⟩, _, ⟨-, rfl⟩, rfl, rfl⟩ := h
  exact ⟨f, shares, hf, hamount, hshares, hpos, hpay, rfl⟩

theorem updateNav_ok {k : TrustPda} {manager : Pubkey} {newGrossNav : Nat}
    (h : updateNav s k manager newGrossNav = .ok s') :
    ∃ f f', s.funds.lookup k = some f ∧ f.accruedCarry ≤ newGrossNav ∧
      markNav f (newGrossNav - f.accruedCarry) = some f' ∧
      s' = { s with funds := s.funds.insert k f' } := by
  simp only [updateNav, bind_eq_ok, loadPda_eq_ok, okOr_eq_ok, checkedSub_eq_some,
    exists_punit, pure_eq_ok] at h
  obtain ⟨f, ⟨hf, -⟩, -, _, ⟨hle, rfl⟩, f', hmark, rfl⟩ := h
  exact ⟨f, f', hf, hle, hmark, rfl⟩

theorem claimCarry_ok {a : ClaimCarry} (h : claimCarry s tokens a = .ok (s', tokens')) :
    ∃ f, s.funds.lookup a.fund = some f ∧
      tokens.transfer a.fundQuoteVault a.quoteMint a.managerQuoteTa (.fundAuthority a.fund)
        f.accruedCarry = .ok tokens' ∧
      s' = { s with funds := s.funds.insert a.fund f.carryClaimed } := by
  simp only [claimCarry, bind_eq_ok, loadPda_eq_ok, invoke_eq_ok, exists_punit] at h
  obtain ⟨f, ⟨hf, -⟩, _, -, -, _, -, -, -, -, _, hpay, rfl, rfl⟩ := h
  exact ⟨f, hf, hpay, rfl⟩

theorem redeem_ok {a : FundRedeem} {shares : Nat}
    (h : redeem s tokens a shares = .ok (s', tokens')) :
    ∃ f share quoteOut, s.funds.lookup a.fund = some f ∧
      s.lpShares.lookup ⟨a.fund, a.lp⟩ = some share ∧ 0 < shares ∧ shares ≤ share.shares ∧
      shares ≤ f.totalShares ∧ quoteOut ≤ f.grossNav ∧ quoteOutOf f shares = some quoteOut ∧
      tokens.transfer a.fundQuoteVault a.quoteMint a.lpQuoteTa (.fundAuthority a.fund) quoteOut =
        .ok tokens' ∧
      s' = { s with
        funds := s.funds.insert a.fund (f.redeemed shares quoteOut)
        lpShares := s.lpShares.insert ⟨a.fund, a.lp⟩
          { share with shares := share.shares - shares } } := by
  simp only [redeem, bind_eq_ok, loadPda_eq_ok, load_eq_ok, require_eq_ok, okOr_eq_ok, checkedSub_eq_some,
    invoke_eq_ok, exists_punit] at h
  obtain ⟨f, ⟨hf, -⟩, _, -, -, _, -, share, hshare, hpos, -, -, -, hle, quoteOut, hquote, -, _,
    hpay, _, ⟨-, rfl⟩, _, ⟨htotal, rfl⟩, _, ⟨hnav, rfl⟩, rfl, rfl⟩ := h
  exact ⟨f, share, quoteOut, hf, hshare, hpos, hle, htotal, hnav, hquote, hpay, rfl⟩

end Handlers

/-! ## The ledger -/

def FundIx.authority : FundIx → Option Address
  | .claimCarry a => some (.fundAuthority a.fund)
  | .redeem a _ => some (.fundAuthority a.fund)
  | _ => none

section Exec

variable {s s' : FundState} {trusts : Accounts Pubkey Trust} {tokens tokens' : Ledger Address}
  {ix : FundIx}

theorem exec_moves (h : s.exec trusts tokens ix = .ok (s', tokens')) :
    Moves (Signs ix.authority) (fun _ => 0) tokens tokens' := by
  cases ix with
  | init trust payer | createFund a fundId carryBps | updateNav fund manager newGrossNav =>
    obtain ⟨-, rfl⟩ := ok_of_fst h
    exact .refl _
  | deposit a amount =>
    obtain ⟨_, _, -, -, -, -, hpay, -⟩ := deposit_ok h
    exact .transfer hpay (.inl ⟨_, rfl⟩)
  | claimCarry a =>
    obtain ⟨_, -, hpay, -⟩ := claimCarry_ok h
    exact .transfer hpay (.inr rfl)
  | redeem a shares =>
    obtain ⟨_, _, _, -, -, -, -, -, -, -, hpay, -⟩ := redeem_ok h
    exact .transfer hpay (.inr rfl)

end Exec

end Aeqi.Funds
