import Aeqi.Funds.Carry
import Aeqi.Lib.Shares

/-!
# Fairness of fund shares

The total of a fund is the sum of its share records. Shares are issued and redeemed rounded
down, so between marks a share never loses value, and a deposit that is redeemed at once
returns no more than was paid. The exception is a NAV that nobody owns: it goes to whoever
deposits first.
-/

namespace Aeqi.Funds

open Aeqi.Lib Aeqi.Lib.Accounts Aeqi.Lib.Shares Aeqi.Solana

/-- What the share records of the fund at `k` add up to. -/
def sharesOn (k : TrustPda) (s : FundState) : Nat :=
  totalOn (·.fund = k) (·.shares) s.lpShares

def totalSharesOf (o : Option Fund) : Nat := o.elim 0 (·.totalShares)

section Sums

variable {s s' : FundState} {k : TrustPda} {lp : Pubkey} {e : FundEvent}

theorem wt_shares (p : LpSharePda) : wt (fun _ r => r.shares) s.lpShares p = sharesOf s p := by
  unfold wt sharesOf initIfNeeded
  cases s.lpShares.lookup p <;> rfl

theorem sharesOn_change (hother : OtherShares k lp s s') :
    sharesOn k s' + sharesOf s ⟨k, lp⟩ = sharesOn k s + sharesOf s' ⟨k, lp⟩ := by
  rw [← wt_shares, ← wt_shares]
  refine totalOn_change rfl ?_
  rintro ⟨_, lp'⟩ hne rfl
  exact hother lp' fun he => hne (by rw [he])

theorem sharesOn_same (hsame : SameShares k s s') : sharesOn k s' = sharesOn k s := by
  apply totalOn_congr
  rintro ⟨_, lp⟩ rfl
  exact hsame lp

theorem FundMoved.shares (hmove : FundMoved k s s' e)
    (h : totalSharesOf (s.funds.lookup k) = sharesOn k s) :
    totalSharesOf (s'.funds.lookup k) = sharesOn k s' := by
  cases hmove with
  | kept hf hsame => rw [hf, h, sharesOn_same hsame]
  | opened hfree _ hf' hsame =>
    rw [hfree] at h
    rw [hf', sharesOn_same hsame, ← h]
    rfl
  | @deposited f lp amount shares hf _ _ hf' hown hother =>
    rw [hf] at h
    have hchange := sharesOn_change hother
    have htotal : f.totalShares = sharesOn k s := h
    rw [hf']
    show f.totalShares + shares = sharesOn k s'
    omega
  | @redeemed f lp shares quoteOut hf hshares _ _ hf' hown hother =>
    rw [hf] at h
    have hchange := sharesOn_change hother
    have htotal : f.totalShares = sharesOn k s := h
    rw [hf']
    show f.totalShares - shares = sharesOn k s'
    omega
  | marked hf hmark hf' hsame =>
    rw [hf] at h
    rw [hf', sharesOn_same hsame, ← h]
    exact markNav_totalShares hmark
  | carryClaimed hf hf' hsame =>
    rw [hf] at h
    rw [hf', sharesOn_same hsame, ← h]
    rfl

end Sums

/-! ## The value of a share -/

section Price

variable {f : Fund} {amount shares quoteOut : Nat}

theorem issued_le (hissue : sharesToIssue f amount = some shares) (hpos : 0 < f.totalShares) :
    f.grossNav * shares ≤ amount * f.totalShares := by
  rcases sharesToIssue_eq_some.1 hissue with ⟨hzero, -⟩ | ⟨-, -, hfloor⟩
  · have hnav : f.grossNav = 0 := by omega
    rw [hnav, Nat.zero_mul]
    omega
  · rw [← hfloor]
    exact Nat.mul_div_le _ _

theorem deposit_price_le (hissue : sharesToIssue f amount = some shares)
    (hpos : 0 < f.totalShares) :
    f.grossNav * (f.totalShares + shares) ≤ (f.grossNav + amount) * f.totalShares := by
  have hissued := issued_le hissue hpos
  calc f.grossNav * (f.totalShares + shares)
      = f.grossNav * f.totalShares + f.grossNav * shares := Nat.mul_add _ _ _
    _ ≤ f.grossNav * f.totalShares + amount * f.totalShares := Nat.add_le_add_left hissued _
    _ = (f.grossNav + amount) * f.totalShares := (Nat.add_mul _ _ _).symm

theorem redeem_price_le (hquote : quoteOutOf f shares = some quoteOut) :
    f.grossNav * (f.totalShares - shares) ≤ (f.grossNav - quoteOut) * f.totalShares := by
  obtain ⟨-, -, -, hfloor⟩ := quoteOutOf_eq_some.1 hquote
  rw [← hfloor]
  exact withdraw_le _ _ _

theorem round_trip_iff (hamount : 0 < amount) (hissue : sharesToIssue f amount = some shares)
    (hquote : quoteOutOf (f.deposited amount shares) shares = some quoteOut) :
    quoteOut ≤ amount ↔ 0 < f.totalShares ∨ f.grossNav = 0 := by
  obtain ⟨-, -, -, hfloor⟩ := quoteOutOf_eq_some.1 hquote
  have hout : shares * (f.grossNav + amount) / (f.totalShares + shares) = quoteOut := hfloor
  rcases Nat.eq_zero_or_pos f.totalShares with hempty | hpos
  · have hshares : shares = amount := by
      rcases sharesToIssue_eq_some.1 hissue with ⟨-, heq⟩ | ⟨⟨-, hne⟩, -⟩
      · exact heq.symm
      · exact absurd hempty hne
    rw [hshares, hempty, Nat.zero_add, Nat.mul_div_cancel_left _ hamount] at hout
    omega
  · refine ⟨fun _ => .inl hpos, fun _ => ?_⟩
    rw [← hout]
    exact round_trip_le (issued_le hissue hpos)

end Price

/-! ## Runs -/

section Run

variable {hist : List (World × WorldTx)} {w : World} {k : TrustPda} {f : Fund}

theorem shares_of_run (run : Run World.Step .init hist w) :
    totalSharesOf (w.funds.funds.lookup k) = sharesOn k w.funds :=
  run.invariant (P := fun w => totalSharesOf (w.funds.funds.lookup k) = sharesOn k w.funds) rfl
    fun _ _ _ hs h => (fund_step k h).shares hs

theorem FundMoved.price {s s' : FundState} {e : FundEvent} {f' : Fund}
    (hmove : FundMoved k s s' e) (hf : s.funds.lookup k = some f)
    (hf' : s'.funds.lookup k = some f') (hflow : ∀ gain carry above, e ≠ .marked gain carry above)
    (hpos : 0 < f.totalShares) : f.grossNav * f'.totalShares ≤ f'.grossNav * f.totalShares := by
  cases hmove with
  | kept hsame =>
    obtain rfl : f = f' := Option.some.inj (hf.symm.trans (hsame.symm.trans hf'))
    exact le_rfl
  | opened hfree => cases hfree.symm.trans hf
  | deposited hf₁ _ hissue hf₁' =>
    cases hf₁.symm.trans hf
    cases hf₁'.symm.trans hf'
    exact deposit_price_le hissue hpos
  | redeemed hf₁ _ _ hquote hf₁' =>
    cases hf₁.symm.trans hf
    cases hf₁'.symm.trans hf'
    exact redeem_price_le hquote
  | marked => exact absurd rfl (hflow _ _ _)
  | carryClaimed hf₁ hf₁' =>
    cases hf₁.symm.trans hf
    cases hf₁'.symm.trans hf'
    exact le_rfl

/-- **Fund shares are fair.** The total is the sum over all LPs, and whatever is no mark leaves the
value of a share no lower. -/
theorem fund_shares (run : Run World.Step .init hist w) (hf : w.funds.funds.lookup k = some f) :
    f.totalShares = sharesOn k w.funds ∧
    (∀ tx w' f', w.exec tx = .ok w' → w'.funds.funds.lookup k = some f' →
      (∀ gain carry above, fundEvent k w tx ≠ .marked gain carry above) → 0 < f.totalShares →
        f.grossNav * f'.totalShares ≤ f'.grossNav * f.totalShares) ∧
    ∀ tx tx' w₁ w₂ lp lp' amount shares quoteOut, w.exec tx = .ok w₁ → w₁.exec tx' = .ok w₂ →
      fundEvent k w tx = .deposited lp amount shares →
      fundEvent k w₁ tx' = .redeemed lp' shares quoteOut →
        (quoteOut ≤ amount ↔ 0 < f.totalShares ∨ f.grossNav = 0) := by
  have hshares := shares_of_run (k := k) run
  rw [hf] at hshares
  refine ⟨hshares, fun tx w' f' h hf' hflow hpos => (fund_step k h).price hf hf' hflow hpos, ?_⟩
  intro tx tx' w₁ w₂ lp lp' amount shares quoteOut h h' hdeposit hredeem
  have hin := fund_step k h
  have hout := fund_step k h'
  rw [hdeposit] at hin
  rw [hredeem] at hout
  cases hin with
  | deposited hf₁ hamount hissue hf₁' =>
    cases hf₁.symm.trans hf
    cases hout with
    | redeemed hf₂ _ _ hquote =>
      cases hf₁'.symm.trans hf₂
      exact round_trip_iff hamount hissue hquote

end Run

/-- After a gain the second deposit of ten units gets eight shares, which return nine. -/
theorem sharedFund_shares : ∃ w f w₁ w₂, execAll World.exec .init
      (openFund ++ [depositTx 100, markTx 140]) = .ok w ∧
    w.funds.funds.lookup ⟨1, 6⟩ = some f ∧ f.totalShares = sharesOn ⟨1, 6⟩ w.funds ∧
    w.exec (depositTx 10) = .ok w₁ ∧ w₁.exec (redeemTx 8) = .ok w₂ ∧
    (9 ≤ 10 ↔ 0 < f.totalShares ∨ f.grossNav = 0) := by
  have hfacts : ((execAll World.exec .init
      (openFund ++ [depositTx 100, markTx 140])).toOption.bind fun w =>
        (w.funds.funds.lookup ⟨1, 6⟩).bind fun _ => (w.exec (depositTx 10)).toOption.bind fun w₁ =>
          (w₁.exec (redeemTx 8)).toOption.map fun _ =>
            (fundEvent ⟨1, 6⟩ w (depositTx 10), fundEvent ⟨1, 6⟩ w₁ (redeemTx 8))) =
      some (.deposited 11 10 8, .redeemed 11 8 9) := by decide +kernel
  simp only [Option.bind_eq_some_iff, toOption_eq_some, toOption_map_eq_some,
    Prod.mk.injEq] at hfacts
  obtain ⟨w, hw, f, hf, w₁, hw₁, w₂, hw₂, hdeposit, hredeem⟩ := hfacts
  obtain ⟨hist, run⟩ := Run.execAll hw
  obtain ⟨hshares, -, htrip⟩ := fund_shares run hf
  exact ⟨w, f, w₁, w₂, hw, hf, hshares, hw₁, hw₂, htrip _ _ _ _ _ _ _ _ _ hw₁ hw₂ hdeposit hredeem⟩

/-- A fund without shares is marked to a hundred that lie in its vault; a deposit of ten is
redeemed for ninety. -/
theorem not_fund_round_trip : ¬ ∀ hist w, Run World.Step .init hist w →
    ∀ k tx tx' w₁ w₂ lp lp' amount shares quoteOut, w.exec tx = .ok w₁ → w₁.exec tx' = .ok w₂ →
      fundEvent k w tx = .deposited lp amount shares →
      fundEvent k w₁ tx' = .redeemed lp' shares quoteOut → quoteOut ≤ amount := by
  intro hall
  have hfacts : ((execAll World.exec .init (openFund ++
      [{ ix := .token (.mintTo (.wallet 2) (.wallet 22) 10 100) }, markTx 100])).toOption.bind
        fun w => (w.exec (depositTx 10)).toOption.bind fun w₁ =>
          (w₁.exec (redeemTx 10)).toOption.map fun _ =>
            (fundEvent ⟨1, 6⟩ w (depositTx 10), fundEvent ⟨1, 6⟩ w₁ (redeemTx 10))) =
      some (.deposited 11 10 10, .redeemed 11 10 90) := by decide +kernel
  simp only [Option.bind_eq_some_iff, toOption_eq_some, toOption_map_eq_some,
    Prod.mk.injEq] at hfacts
  obtain ⟨w, hw, w₁, hw₁, w₂, hw₂, hdeposit, hredeem⟩ := hfacts
  obtain ⟨hist, run⟩ := Run.execAll hw
  have hle := hall hist w run _ _ _ _ _ _ _ _ _ _ hw₁ hw₂ hdeposit hredeem
  omega

end Aeqi.Funds
