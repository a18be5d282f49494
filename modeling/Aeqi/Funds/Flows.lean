import Aeqi.World.Steps

/-!
# What flows through a fund

The instructions on one fund as events: deposits, redemptions and marks, with the amounts
that the fund computes for them. `FundMoved` says what each of them leaves behind.
-/

namespace Aeqi.Funds

open Aeqi.Lib Aeqi.Solana

/-! ## Events -/

/-- A mark records the gain over book value, the carry that it accrues, and how far the NAV
was above the high-water mark. -/
inductive FundEvent
  | quiet
  | deposited (lp : Pubkey) (amount shares : Nat)
  | redeemed (lp : Pubkey) (shares quoteOut : Nat)
  | marked (gain carry above : Nat)
  deriving DecidableEq

def depositsIn : List FundEvent → Nat
  | [] => 0
  | .deposited _ amount _ :: es => amount + depositsIn es
  | _ :: es => depositsIn es

def gainsIn : List FundEvent → Nat
  | [] => 0
  | .marked gain _ _ :: es => gain + gainsIn es
  | _ :: es => gainsIn es

def carryIn : List FundEvent → Nat
  | [] => 0
  | .marked _ carry _ :: es => carry + carryIn es
  | _ :: es => carryIn es

def Fund.event (f : Fund) : FundIx → FundEvent
  | .deposit a amount => .deposited a.lp amount ((sharesToIssue f amount).getD 0)
  | .redeem a shares => .redeemed a.lp shares ((quoteOutOf f shares).getD 0)
  | .updateNav _ _ newGrossNav =>
    .marked (newGrossNav - (f.grossNav + f.accruedCarry)) (f.carryOn (newGrossNav - f.accruedCarry))
      (f.grossNav - f.highWaterMark)
  | _ => .quiet

def FundIx.fund : FundIx → Option TrustPda
  | .init _ _ => none
  | .createFund a fundId _ => some ⟨a.trust, fundId⟩
  | .deposit a _ => some a.fund
  | .updateNav fund _ _ => some fund
  | .claimCarry a => some a.fund
  | .redeem a _ => some a.fund

def FundState.event (s : FundState) (k : TrustPda) (ix : FundIx) : FundEvent :=
  if ix.fund = some k then (s.funds.lookup k).elim .quiet (·.event ix) else .quiet

def fundEvent (k : TrustPda) (w : World) (tx : WorldTx) : FundEvent :=
  match tx.ix with
  | .fund ix => w.funds.event k ix
  | _ => .quiet

def fundEvents (k : TrustPda) (hist : List (World × WorldTx)) : List FundEvent :=
  hist.map fun e => fundEvent k e.1 e.2

/-! ## Moves of a fund -/

/-- The share records of two states agree on the fund at `k`, but for one LP. -/
def OtherShares (k : TrustPda) (lp : Pubkey) (s s' : FundState) : Prop :=
  ∀ lp', lp' ≠ lp → s'.lpShares.lookup ⟨k, lp'⟩ = s.lpShares.lookup ⟨k, lp'⟩

def SameShares (k : TrustPda) (s s' : FundState) : Prop :=
  ∀ lp, s'.lpShares.lookup ⟨k, lp⟩ = s.lpShares.lookup ⟨k, lp⟩

/-- How one instruction changes the fund at `k` and its share records. -/
inductive FundMoved (k : TrustPda) (s s' : FundState) : FundEvent → Prop
  | kept (hf : s'.funds.lookup k = s.funds.lookup k) (hsame : SameShares k s s') :
      FundMoved k s s' .quiet
  | opened {a : CreateFund} {fundId : Bytes32} {carryBps : Nat} (hfree : s.funds.lookup k = none)
      (hbps : carryBps ≤ 10000) (hf' : s'.funds.lookup k = some (.opened a fundId carryBps))
      (hsame : SameShares k s s') : FundMoved k s s' .quiet
  | deposited {f : Fund} {lp : Pubkey} {amount shares : Nat} (hf : s.funds.lookup k = some f)
      (hamount : 0 < amount) (hissue : sharesToIssue f amount = some shares)
      (hf' : s'.funds.lookup k = some (f.deposited amount shares))
      (hown : sharesOf s' ⟨k, lp⟩ = sharesOf s ⟨k, lp⟩ + shares) (hother : OtherShares k lp s s') :
      FundMoved k s s' (.deposited lp amount shares)
  | redeemed {f : Fund} {lp : Pubkey} {shares quoteOut : Nat} (hf : s.funds.lookup k = some f)
      (hshares : shares ≤ f.totalShares) (hnav : quoteOut ≤ f.grossNav)
      (hquote : quoteOutOf f shares = some quoteOut)
      (hf' : s'.funds.lookup k = some (f.redeemed shares quoteOut))
      (hown : sharesOf s' ⟨k, lp⟩ + shares = sharesOf s ⟨k, lp⟩) (hother : OtherShares k lp s s') :
      FundMoved k s s' (.redeemed lp shares quoteOut)
  | marked {f f' : Fund} {lpNav : Nat} (hf : s.funds.lookup k = some f)
      (hmark : markNav f lpNav = some f') (hf' : s'.funds.lookup k = some f')
      (hsame : SameShares k s s') : FundMoved k s s'
        (.marked (lpNav - f.grossNav) (f.carryOn lpNav) (f.grossNav - f.highWaterMark))
  | carryClaimed {f : Fund} (hf : s.funds.lookup k = some f)
      (hf' : s'.funds.lookup k = some f.carryClaimed) (hsame : SameShares k s s') :
      FundMoved k s s' .quiet

section Step

variable {s s' : FundState} {k : TrustPda} {lp : Pubkey}

theorem sharesOf_of_some {r : LpShare} {p : LpSharePda} (h : s.lpShares.lookup p = some r) :
    sharesOf s p = r.shares := by
  simp [sharesOf, initIfNeeded, h]

theorem sharesOf_insert (s : FundState) (funds : Accounts TrustPda Fund) (p : LpSharePda)
    (r : LpShare) : sharesOf { s with funds, lpShares := s.lpShares.insert p r } p = r.shares :=
  sharesOf_of_some (AList.lookup_insert _)

theorem SameShares.insert {p : LpSharePda} {r : LpShare} (hne : p.fund ≠ k)
    (h : s'.lpShares = s.lpShares.insert p r) : SameShares k s s' := by
  intro lp
  rw [h, AList.lookup_insert_ne]
  rintro rfl
  exact hne rfl

theorem OtherShares.insert {r : LpShare} (h : s'.lpShares = s.lpShares.insert ⟨k, lp⟩ r) :
    OtherShares k lp s s' := by
  intro lp' hne
  rw [h, AList.lookup_insert_ne]
  rintro ⟨⟩
  exact hne rfl

theorem FundState.event_other {ix : FundIx} (h : ix.fund ≠ some k) : s.event k ix = .quiet :=
  if_neg h

theorem FundState.event_absent {ix : FundIx} (hf : s.funds.lookup k = none) :
    s.event k ix = .quiet := by
  simp [FundState.event, hf]

theorem FundState.event_own {ix : FundIx} {f : Fund} (h : ix.fund = some k)
    (hf : s.funds.lookup k = some f) : s.event k ix = f.event ix := by
  rw [FundState.event, if_pos h, hf]
  rfl

section Exec

variable {trusts : Accounts Pubkey Governance.Trust} {tokens tokens' : Token.Ledger Address}
  {ix : FundIx}

theorem exec_other (hk : ix.fund ≠ some k) (h : s.exec trusts tokens ix = .ok (s', tokens')) :
    s'.funds.lookup k = s.funds.lookup k ∧ SameShares k s s' := by
  have hne : ∀ {k'}, ix.fund = some k' → k ≠ k' := by
    rintro k' hk' rfl
    exact hk hk'
  cases ix with
  | init trust payer =>
    obtain ⟨h, -⟩ := ok_of_fst h
    obtain rfl := init_ok h
    exact ⟨rfl, fun _ => rfl⟩
  | createFund a fundId carryBps =>
    obtain ⟨h, -⟩ := ok_of_fst h
    obtain ⟨-, -, _, rfl⟩ := createFund_ok h
    exact ⟨AList.lookup_insert_ne (hne rfl), fun _ => rfl⟩
  | deposit a amount =>
    obtain ⟨f, -, -, -, -, -, -, rfl⟩ := deposit_ok h
    exact ⟨AList.lookup_insert_ne (hne rfl), .insert (hne rfl).symm rfl⟩
  | updateNav fund manager n =>
    obtain ⟨h, -⟩ := ok_of_fst h
    obtain ⟨f, -, -, -, -, rfl⟩ := updateNav_ok h
    exact ⟨AList.lookup_insert_ne (hne rfl), fun _ => rfl⟩
  | claimCarry a =>
    obtain ⟨f, -, -, rfl⟩ := claimCarry_ok h
    exact ⟨AList.lookup_insert_ne (hne rfl), fun _ => rfl⟩
  | redeem a shares =>
    obtain ⟨f, -, -, -, -, -, -, -, -, -, -, rfl⟩ := redeem_ok h
    exact ⟨AList.lookup_insert_ne (hne rfl), .insert (hne rfl).symm rfl⟩

theorem exec_own (hk : ix.fund = some k) (h : s.exec trusts tokens ix = .ok (s', tokens')) :
    FundMoved k s s' (s.event k ix) := by
  cases ix with
  | init trust payer => cases hk
  | createFund a fundId carryBps =>
    cases hk
    obtain ⟨h, -⟩ := ok_of_fst h
    obtain ⟨hfree, hbps, _, rfl⟩ := createFund_ok h
    rw [FundState.event_absent hfree]
    exact .opened hfree hbps (AList.lookup_insert _) fun _ => rfl
  | deposit a amount =>
    cases hk
    obtain ⟨f, shares, hf, hamount, hissue, -, -, rfl⟩ := deposit_ok h
    rw [FundState.event_own rfl hf, Fund.event, hissue]
    refine .deposited hf hamount hissue (AList.lookup_insert _) ?_ (.insert rfl)
    exact sharesOf_insert s _ _ _
  | updateNav fund manager n =>
    cases hk
    obtain ⟨h, -⟩ := ok_of_fst h
    obtain ⟨f, f', hf, -, hmark, rfl⟩ := updateNav_ok h
    rw [FundState.event_own rfl hf, Fund.event, Nat.add_comm f.grossNav, ← Nat.sub_sub]
    exact .marked hf hmark (AList.lookup_insert _) fun _ => rfl
  | claimCarry a =>
    cases hk
    obtain ⟨f, hf, -, rfl⟩ := claimCarry_ok h
    rw [FundState.event_own rfl hf]
    exact .carryClaimed hf (AList.lookup_insert _) fun _ => rfl
  | redeem a shares =>
    cases hk
    obtain ⟨f, share, quoteOut, hf, hshare, -, hle, htotal, hnav, hquote, -, rfl⟩ := redeem_ok h
    rw [FundState.event_own rfl hf, Fund.event, hquote]
    refine .redeemed hf htotal hnav hquote (AList.lookup_insert _) ?_ (.insert rfl)
    rw [sharesOf_insert, sharesOf_of_some hshare]
    exact Nat.sub_add_cancel hle

theorem exec_fund (k : TrustPda) (h : s.exec trusts tokens ix = .ok (s', tokens')) :
    FundMoved k s s' (s.event k ix) := by
  by_cases hk : ix.fund = some k
  · exact exec_own hk h
  · obtain ⟨hf, hsame⟩ := exec_other hk h
    rw [FundState.event_other hk]
    exact .kept hf hsame

end Exec

theorem fund_step {w w' : World} {tx : WorldTx} (k : TrustPda) (h : w.exec tx = .ok w') :
    FundMoved k w.funds w'.funds (fundEvent k w tx) := by
  unfold fundEvent
  rcases World.fund_step h with ⟨ix, hix, hexec⟩ | ⟨hne, hsame⟩
  · rw [hix]
    exact exec_fund k hexec
  · rw [hsame]
    split
    · next ix hix => exact absurd hix (hne ix)
    · exact .kept rfl fun _ => rfl

end Step

end Aeqi.Funds
