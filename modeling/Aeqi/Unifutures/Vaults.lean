import Aeqi.Unifutures.LpShares

/-!
# aeqi_unifutures: the recorded vaults

A pool records the vaults it was created with, but an instruction may name any token
account of the right mint that the pool's authority owns. What the recorded vaults
hold covers the reserves as long as everything that is paid in goes to them
(`PaysRecorded`); then a provider can always withdraw through them.
-/

namespace Aeqi.Unifutures

open Aeqi.Lib Aeqi.Solana Option
open Token (Ledger)
open Token.Ledger (heldBy Sound Keeps)

def LiquidityPool.vaultIn (p : LiquidityPool) : SwapDirection → Address
  | .baseToQuote => p.baseVault
  | .quoteToBase => p.quoteVault

/-- Whatever is paid into the pool at `k` is paid into its recorded vaults. -/
def PaysRecorded (k : PoolPda) (w : Dex) (tx : DexTx) : Prop :=
  match tx.ix with
  | .addLiquidity a _ _ _ => a.pool = k → ∀ p ∈ w.pools.lookup k,
      a.baseVault = p.baseVault ∧ a.quoteVault = p.quoteVault
  | .swapExactIn a direction _ _ => a.pool = k → ∀ p ∈ w.pools.lookup k,
      ∀ d ∈ SwapDirection.fromU8 direction, a.vaultIn d = p.vaultIn d
  | _ => True

instance (k : PoolPda) (w : Dex) (tx : DexTx) : Decidable (PaysRecorded k w tx) := by
  unfold PaysRecorded
  split <;> infer_instance

/-- The recorded vaults hold the reserves. -/
structure Backed (L : Ledger Address) (p : LiquidityPool) : Prop where
  base : p.baseReserve ≤ L.balance p.baseVault
  quote : p.quoteReserve ≤ L.balance p.quoteVault

/-! ## Balances of vaults -/

section Balance

variable {L L' : Ledger Address} {source mint dest authority a v owner k' : Address} {n : Nat}

theorem Owned.balance_keeps (ho : Owned L v k' owner) (h : Keeps owner L L') :
    L.balance v ≤ L'.balance v := by
  obtain ⟨acc, hacc, -, howner⟩ := ho
  obtain ⟨m, hle, hacc'⟩ := h.account hacc howner
  rw [Token.Ledger.balance_of_some hacc, Token.Ledger.balance_of_some hacc']
  exact hle

theorem Owned.balance_pay_out (ho : Owned L v k' owner)
    (h : L.transfer source mint dest authority n = .ok L') :
    L.balance v ≤ L'.balance v + if v = source then n else 0 := by
  obtain ⟨acc, hacc, -, -⟩ := ho
  obtain ⟨m, hle, hacc'⟩ := Token.Ledger.lookup_pay_out h hacc
  rw [Token.Ledger.balance_of_some hacc, Token.Ledger.balance_of_some hacc']
  exact hle

theorem Owned.balance_pay_in {pool : PoolPda} {user : Pubkey}
    (ho : Owned L dest mint (.poolAuthority pool))
    (h : L.transfer source mint dest (.wallet user) n = .ok L') :
    L.balance dest + n = L'.balance dest := by
  obtain ⟨acc, hacc, -, howner⟩ := ho
  have hne : Address.wallet user ≠ acc.owner := by
    rw [howner]
    exact Address.noConfusion
  have hacc' := Token.Ledger.lookup_pay_in h hacc hne
  rw [Token.Ledger.balance_of_some hacc, Token.Ledger.balance_of_some hacc']

theorem Owned.ne {o o' m' : Address} (ho : Owned L a mint o) (ho' : Owned L v m' o')
    (hne : mint ≠ m') : a ≠ v := by
  rintro rfl
  obtain ⟨acc, hacc, hmint, -⟩ := ho
  obtain ⟨acc', hacc', hmint', -⟩ := ho'
  obtain rfl : acc = acc' := some.inj (hacc.symm.trans hacc')
  exact hne (hmint.symm.trans hmint')

theorem Owned.burn (ho : Owned L a k' owner) (h : L.burn source mint authority n = .ok L') :
    Owned L' a k' owner := by
  obtain ⟨acc, hacc, hmint, howner⟩ := ho
  obtain ⟨m, hacc'⟩ := Token.Ledger.lookup_burn h hacc
  exact ⟨_, hacc', hmint, howner⟩

theorem Owned.exists_transfer {o : Address} (hs : Sound L) (hsrc : Owned L source mint authority)
    (hdst : Owned L dest mint o) (hle : n ≤ L.balance source) :
    ∃ L', L.transfer source mint dest authority n = .ok L' := by
  obtain ⟨src, hsrc, hk, hauth⟩ := hsrc
  obtain ⟨dst, hdst, hk', -⟩ := hdst
  rw [Token.Ledger.balance_of_some hsrc] at hle
  exact Token.Ledger.exists_transfer hs hsrc hdst hauth hk hk' hle

end Balance

namespace Backed

variable {L t₁ t₂ t₃ : Ledger Address} {k : PoolPda} {p : LiquidityPool}

theorem keeps (hb : Backed L p) (hp : PoolWf L k p) (h : Keeps (.poolAuthority k) L t₁) :
    Backed t₁ p :=
  ⟨Nat.le_trans hb.base (hp.baseVault.balance_keeps h),
    Nat.le_trans hb.quote (hp.quoteVault.balance_keeps h)⟩

theorem vault_ne {a : PoolAccounts} (hp : PoolWf L a.pool p) (hvalid : a.Valid L p) :
    p.baseVault ≠ a.quoteVault ∧ p.quoteVault ≠ a.baseVault :=
  ⟨hp.baseVault.ne hvalid.quoteVault (hvalid.quoteMint ▸ hp.apart),
    hp.quoteVault.ne hvalid.baseVault (hvalid.baseMint ▸ hp.apart.symm)⟩

theorem add {a : AddLiquidity} {quote : LiquidityQuote} (hb : Backed L p) (hp : PoolWf L a.pool p)
    (hvalid : a.Valid L p) (hrec : a.baseVault = p.baseVault ∧ a.quoteVault = p.quoteVault)
    (h₁ : L.transfer a.userBaseTa a.baseMint a.baseVault (.wallet a.user) quote.baseUsed = .ok t₁)
    (h₂ : t₁.transfer a.userQuoteTa a.quoteMint a.quoteVault (.wallet a.user) quote.quoteUsed =
      .ok t₂)
    (h₃ : t₂.mintTo (.lpMint a.pool) a.providerLpTa (.poolAuthority a.pool) quote.lpOut = .ok t₃) :
    Backed t₃ (p.deposited quote) := by
  have hkeep₁ : Keeps (.poolAuthority a.pool) L t₁ := .transfer h₁ Address.noConfusion
  have hkeep₂ : Keeps (.poolAuthority a.pool) t₁ t₂ := .transfer h₂ Address.noConfusion
  have hkeep₃ : Keeps (.poolAuthority a.pool) t₂ t₃ := .mintTo h₃
  have hp₁ := hp.keeps hkeep₁
  have hp₂ := hp₁.keeps hkeep₂
  have hbase := hvalid.baseVault.balance_pay_in h₁
  have hquote := (hvalid.quoteVault.keeps hkeep₁).balance_pay_in h₂
  rw [hrec.1] at hbase
  rw [hrec.2] at hquote
  constructor
  · calc p.baseReserve + quote.baseUsed ≤ L.balance p.baseVault + quote.baseUsed :=
          Nat.add_le_add_right hb.base _
      _ = t₁.balance p.baseVault := hbase
      _ ≤ t₃.balance p.baseVault := hp₁.baseVault.balance_keeps (hkeep₂.trans hkeep₃)
  · calc p.quoteReserve + quote.quoteUsed ≤ t₁.balance p.quoteVault + quote.quoteUsed :=
          Nat.add_le_add_right (hb.keeps hp hkeep₁).quote _
      _ = t₂.balance p.quoteVault := hquote
      _ ≤ t₃.balance p.quoteVault := hp₂.quoteVault.balance_keeps hkeep₃

theorem remove {a : RemoveLiquidity} {l : Nat} {out : Nat × Nat} (hb : Backed L p)
    (hp : PoolWf L a.pool p) (hvalid : a.Valid L p)
    (h₁ : L.burn a.providerLpTa (.lpMint a.pool) (.wallet a.user) l = .ok t₁)
    (h₂ : t₁.transfer a.baseVault a.baseMint a.userBaseTa (.poolAuthority a.pool) out.1 = .ok t₂)
    (h₃ : t₂.transfer a.quoteVault a.quoteMint a.userQuoteTa (.poolAuthority a.pool) out.2 =
      .ok t₃) : Backed t₃ (p.withdrawn l out) := by
  have hkeep : Keeps (.poolAuthority a.pool) L t₁ := .burn h₁ Address.noConfusion
  have hp₁ := hp.keeps hkeep
  have hb₁ := hb.keeps hp hkeep
  obtain ⟨hbase, hquote⟩ := vault_ne hp hvalid
  have hbase₂ := hp₁.baseVault.balance_pay_out h₂
  have hbase₃ := (hp₁.baseVault.transfer h₂).balance_pay_out h₃
  have hquote₂ := hp₁.quoteVault.balance_pay_out h₂
  have hquote₃ := (hp₁.quoteVault.transfer h₂).balance_pay_out h₃
  rw [if_neg hbase] at hbase₃
  rw [if_neg hquote] at hquote₂
  have hb' := hb₁.base
  have hq' := hb₁.quote
  constructor
  · show p.baseReserve - out.1 ≤ t₃.balance p.baseVault
    split at hbase₂ <;> omega
  · show p.quoteReserve - out.2 ≤ t₃.balance p.quoteVault
    split at hquote₃ <;> omega

theorem swap {a : SwapExactIn} {n : Nat} {d : SwapDirection} {quote : SwapQuote}
    (hb : Backed L p) (hp : PoolWf L a.pool p) (hvalid : a.Valid L p)
    (hrec : a.vaultIn d = p.vaultIn d)
    (h₁ : L.transfer (a.payFrom d) (a.mintIn d) (a.vaultIn d) (.wallet a.user) n = .ok t₁)
    (h₂ : t₁.transfer (a.vaultOut d) (a.mintOut d) (a.payTo d) (.poolAuthority a.pool)
      quote.amountOut = .ok t₂) : Backed t₂ (p.traded n quote.amountOut d) := by
  have hkeep : Keeps (.poolAuthority a.pool) L t₁ := .transfer h₁ Address.noConfusion
  have hp₁ := hp.keeps hkeep
  have hb₁ := hb.keeps hp hkeep
  obtain ⟨hbase, hquote⟩ := vault_ne hp hvalid
  have hbase₂ := hp₁.baseVault.balance_pay_out h₂
  have hquote₂ := hp₁.quoteVault.balance_pay_out h₂
  have hb₀ := hb.base
  have hq₀ := hb.quote
  have hb' := hb₁.base
  have hq' := hb₁.quote
  cases d with
  | baseToQuote =>
    have hin := hvalid.baseVault.balance_pay_in h₁
    simp only [PoolAccounts.vaultIn, LiquidityPool.vaultIn] at hrec
    rw [hrec] at hin
    rw [PoolAccounts.vaultOut, if_neg hbase] at hbase₂
    constructor
    · show p.baseReserve + n ≤ t₂.balance p.baseVault
      omega
    · show p.quoteReserve - quote.amountOut ≤ t₂.balance p.quoteVault
      split at hquote₂ <;> omega
  | quoteToBase =>
    have hin := hvalid.quoteVault.balance_pay_in h₁
    simp only [PoolAccounts.vaultIn, LiquidityPool.vaultIn] at hrec
    rw [hrec] at hin
    rw [PoolAccounts.vaultOut, if_neg hquote] at hquote₂
    constructor
    · show p.baseReserve - quote.amountOut ≤ t₂.balance p.baseVault
      split at hbase₂ <;> omega
    · show p.quoteReserve + n ≤ t₂.balance p.quoteVault
      omega

end Backed

/-! ## Runs -/

section Run

variable {w w' : Dex} {tx : DexTx} {k : PoolPda} {p : LiquidityPool}

theorem backed_step (hwf : Wf w) (hall : ∀ p, w.pools.lookup k = some p → Backed w.tokens p)
    (hrec : PaysRecorded k w tx) (h : w.exec tx = .ok w') :
    ∀ p, w'.pools.lookup k = some p → Backed w'.tokens p := by
  obtain ⟨-, hkeep⟩ := tokens_step hwf.sound h
  have hother : tx.ix.pool ≠ some k → w'.pools.lookup k = w.pools.lookup k →
      ∀ p, w'.pools.lookup k = some p → Backed w'.tokens p := by
    intro hne hsame p hp
    rw [hsame] at hp
    exact (hall p hp).keeps (hwf.pool hp) (hkeep k hne)
  -- an instruction on a pool rewrites that pool only
  have hwrote : ∀ {k₁ p₁}, tx.ix.pool = some k₁ → w'.pools = w.pools.insert k₁ p₁ →
      (k = k₁ → Backed w'.tokens p₁) → ∀ p, w'.pools.lookup k = some p → Backed w'.tokens p := by
    intro k₁ p₁ hpool hpools hown p hp
    have hp' := hp
    rw [hpools] at hp'
    rcases Accounts.lookup_insert_some hp' with ⟨rfl, rfl⟩ | ⟨hne, -⟩
    · exact hown rfl
    · refine hother ?_ ?_ p hp
      · rw [hpool]
        exact fun heq => hne (some.inj heq).symm
      · rw [hpools, AList.lookup_insert_ne hne]
  unfold Dex.exec at h
  cases hix : tx.ix with
  | init trust payer =>
    rw [hix] at h
    obtain ⟨hpools, -⟩ := init_ok h
    exact hother (by simp [hix, DexIx.pool]) (by rw [hpools])
  | createLiquidityPool a poolId feeBps =>
    rw [hix] at h
    obtain ⟨-, -, t₃, -, -, -, -, -, -, rfl⟩ := createLiquidityPool_ok h
    intro p hp
    rcases Accounts.lookup_insert_some hp with ⟨-, rfl⟩ | ⟨hk, -⟩
    · exact ⟨Nat.zero_le _, Nat.zero_le _⟩
    · exact hother (by simp [hix, DexIx.pool]) (AList.lookup_insert_ne hk) p hp
  | addLiquidity a b q m =>
    rw [hix] at h
    obtain ⟨p₁, quote, t₁, t₂, t₃, hp₁, hvalid, -, h₁, h₂, h₃, rfl⟩ := addLiquidity_ok h
    refine hwrote (by rw [hix]; rfl) rfl ?_
    rintro rfl
    simp only [PaysRecorded, hix] at hrec
    exact (hall p₁ hp₁).add (hwf.pool hp₁) hvalid (hrec trivial p₁ hp₁) h₁ h₂ h₃
  | removeLiquidity a l mb mq =>
    rw [hix] at h
    obtain ⟨p₁, out, t₁, t₂, t₃, hp₁, hvalid, -, h₁, h₂, h₃, rfl⟩ := removeLiquidity_ok h
    refine hwrote (by rw [hix]; rfl) rfl ?_
    rintro rfl
    exact (hall p₁ hp₁).remove (hwf.pool hp₁) hvalid h₁ h₂ h₃
  | swapExactIn a direction n m =>
    rw [hix] at h
    obtain ⟨p₁, d, quote, t₁, t₂, hp₁, hvalid, hd, -, h₁, h₂, rfl⟩ := swapExactIn_ok h
    refine hwrote (by rw [hix]; rfl) rfl ?_
    rintro rfl
    simp only [PaysRecorded, hix] at hrec
    exact (hall p₁ hp₁).swap (hwf.pool hp₁) hvalid (hrec trivial p₁ hp₁ d hd) h₁ h₂
  | token ix =>
    rw [hix] at h
    simp only [bind_eq_ok, pure_eq_ok] at h
    obtain ⟨_, -, rfl⟩ := h
    exact hother (by simp [hix, DexIx.pool]) rfl

theorem PoolWf.exists_quote {L : Ledger Address} {l : Nat} (hs : Sound L) (hp : PoolWf L k p)
    (hl : 0 < l) (hle : l ≤ p.lpSupply) (hfits : l < 2 ^ 64) :
    ∃ out, quoteRemoveLiquidity l p.baseReserve p.quoteReserve p.lpSupply = some out ∧
      out.1 ≤ p.baseReserve ∧ out.2 ≤ p.quoteReserve := by
  have hside : ∀ {R mint v}, Owned L v mint (.poolAuthority k) →
      R ≤ heldBy (.poolAuthority k) mint L →
      l * R / p.lpSupply ≤ R ∧ l * R < 2 ^ 128 ∧ l * R / p.lpSupply < 2 ^ 64 := by
    rintro R mint v ⟨acc, hacc, hmint, -⟩ hR
    have hissued := hs.issued_lt ⟨acc, hacc, hmint⟩
    have hheld := Token.Ledger.heldBy_le_issued L (.poolAuthority k) mint
    have hRfits : R < 2 ^ 64 := by omega
    have hout : l * R / p.lpSupply ≤ R := Nat.div_le_of_le_mul (Nat.mul_le_mul_right R hle)
    have hprod : l * R < 2 ^ 64 * 2 ^ 64 :=
      Nat.mul_lt_mul_of_lt_of_le hfits hRfits.le (by omega)
    exact ⟨hout, by omega, by omega⟩
  obtain ⟨hbase, hbaseFits⟩ := hside hp.baseVault hp.base
  obtain ⟨hquote, hquoteFits⟩ := hside hp.quoteVault hp.quote
  exact ⟨_, quoteRemoveLiquidity_some.2 ⟨hl, hle, hbaseFits, hquoteFits, rfl⟩, hbase, hquote⟩

theorem Backed.exists_remove {a : RemoveLiquidity} {l : Nat} (hwf : Wf w)
    (hp : w.pools.lookup a.pool = some p) (hb : Backed w.tokens p) (hvalid : a.Valid w.tokens p)
    (hrec : a.baseVault = p.baseVault ∧ a.quoteVault = p.quoteVault)
    (hlp : Owned w.tokens a.providerLpTa (.lpMint a.pool) (.wallet a.user))
    (hl : 0 < l) (hle : l ≤ p.lpSupply) (hheld : l ≤ w.tokens.balance a.providerLpTa) :
    ∃ w', removeLiquidity w a l 0 0 = .ok w' := by
  have hpool := hwf.pool hp
  have hlp' := hlp
  obtain ⟨acc, hacc, hmint, howner⟩ := hlp'
  rw [Token.Ledger.balance_of_some hacc] at hheld
  have hfits : l < 2 ^ 64 := by
    have hissued := hwf.sound.issued_lt ⟨acc, hacc, hmint⟩
    have hamount := Token.Ledger.amount_le_issued hacc hmint
    omega
  obtain ⟨out, hquote, hbaseOut, hquoteOut⟩ := hpool.exists_quote hwf.sound hl hle hfits
  -- burn the shares
  obtain ⟨t₁, h₁⟩ := Token.Ledger.exists_burn hwf.sound hacc howner hmint hheld
  have hs₁ := hwf.sound.burn h₁
  have hkeep : Keeps (.poolAuthority a.pool) w.tokens t₁ := .burn h₁ Address.noConfusion
  have hpool₁ := hpool.keeps hkeep
  have hb₁ := hb.keeps hpool hkeep
  -- pay the base side
  have hbaseHeld : out.1 ≤ t₁.balance a.baseVault := by
    rw [hrec.1]
    exact Nat.le_trans hbaseOut hb₁.base
  obtain ⟨t₂, h₂⟩ :=
    (hvalid.baseVault.burn h₁).exists_transfer hs₁ (hvalid.userBase.burn h₁) hbaseHeld
  have hs₂ := hs₁.transfer h₂
  -- pay the quote side, whose vault the first payment left alone
  have hquoteHeld : out.2 ≤ t₂.balance a.quoteVault := by
    have hsame := hpool₁.quoteVault.balance_pay_out h₂
    rw [if_neg (Backed.vault_ne hpool hvalid).2] at hsame
    rw [hrec.2]
    exact Nat.le_trans hquoteOut (Nat.le_trans hb₁.quote hsame)
  obtain ⟨t₃, h₃⟩ := ((hvalid.quoteVault.burn h₁).transfer h₂).exists_transfer hs₂
    ((hvalid.userQuote.burn h₁).transfer h₂) hquoteHeld
  have hlpMint : ∃ m, w.tokens.mints.lookup (.lpMint a.pool) = some m := by
    rw [← hmint]
    exact hwf.sound.minted hacc
  exact ⟨_, removeLiquidity_eq_ok.2 ⟨p, out, t₁, t₂, t₃, hp, hvalid,
    ⟨⟨hlpMint, hlp⟩, hpool.lpMint.symm⟩, hl, hquote, ⟨Nat.zero_le _, Nat.zero_le _⟩, h₁, h₂, h₃,
    ⟨hbaseOut, hquoteOut, hle⟩, rfl⟩⟩

/-- **The recorded vaults hold the reserves** in every run whose payments into a pool go to its
recorded vaults. -/
theorem vaults_backed {hist : List (Dex × DexTx)}
    (run : Run (Guarded (PaysRecorded k) (okStep Dex.exec)) .init hist w)
    (hp : w.pools.lookup k = some p) :
    p.baseReserve ≤ w.tokens.balance p.baseVault ∧
    p.quoteReserve ≤ w.tokens.balance p.quoteVault ∧
    ∀ (a : RemoveLiquidity) l, a.pool = k → a.Valid w.tokens p →
      a.baseVault = p.baseVault → a.quoteVault = p.quoteVault →
      Owned w.tokens a.providerLpTa (.lpMint k) (.wallet a.user) →
      0 < l → l ≤ p.lpSupply → l ≤ w.tokens.balance a.providerLpTa →
        ∃ w', removeLiquidity w a l 0 0 = .ok w' := by
  have hinv : Wf w ∧ ∀ p, w.pools.lookup k = some p → Backed w.tokens p :=
    run.invariant (P := fun w => Wf w ∧ ∀ p, w.pools.lookup k = some p → Backed w.tokens p)
      ⟨.init, fun p hp => by simp [Dex.init] at hp⟩
      fun _ _ _ hinv h => ⟨hinv.1.step h.2, backed_step hinv.1 hinv.2 h.1 h.2⟩
  obtain ⟨hwf, hall⟩ := hinv
  have hb := hall p hp
  refine ⟨hb.base, hb.quote, ?_⟩
  intro a l hk hvalid hbase hquote hlp hl hle hheld
  subst hk
  exact hb.exists_remove hwf hp hvalid ⟨hbase, hquote⟩ hlp hl hle hheld

end Run

/-- After a deposit and two swaps through the recorded vaults all ten shares can be
withdrawn. -/
theorem tradedPool_backed : ∃ w p, execAll Dex.exec .init tradedPool = .ok w ∧
    w.pools.lookup ⟨1, 3⟩ = some p ∧ p.baseReserve = 15 ∧ 15 ≤ w.tokens.balance p.baseVault ∧
    ∃ w', removeLiquidity w ⟨account9, .wallet 13⟩ 10 0 0 = .ok w' := by
  have hgood : AllGood (PaysRecorded ⟨1, 3⟩) Dex.exec .init tradedPool := by decide +kernel
  obtain ⟨hist, w, hw, run⟩ := Run.of_allGood .nil hgood
  -- the checks of the instruction pass, and account 9 holds all shares
  have hfacts : ((execAll Dex.exec .init tradedPool).toOption.bind fun w =>
      (loadPool w ⟨1, 3⟩).toOption.bind fun p =>
        (checkPoolAccounts w.tokens account9).toOption.bind fun _ =>
          (checkPoolMints p account9).toOption.bind fun _ =>
            (checkLpAccount w.tokens ⟨1, 3⟩ (.wallet 13) 9).toOption.map fun _ =>
              (p.lpSupply, p.baseReserve, p.baseVault, p.quoteVault,
                w.tokens.balance (.wallet 13))) =
      some (10, 15, account9.baseVault, account9.quoteVault, 10) := by decide +kernel
  simp only [Option.bind_eq_some_iff, toOption_eq_some, toOption_map_eq_some, hw,
    Except.ok.injEq, loadPool_ok, checkPoolAccounts_ok, checkPoolMints_ok, checkLpAccount_ok,
    Prod.mk.injEq] at hfacts
  obtain ⟨_, rfl, p, ⟨hp, hseeds⟩, _, ⟨hminted, ⟨huserBase, huserQuote⟩, hvaultBase, hvaultQuote⟩,
    _, ⟨hbaseMint, hquoteMint⟩, _, ⟨-, hlp⟩, hsupply, hreserve, hbase, hquote, hheld⟩ := hfacts
  have hvalid : account9.Valid w.tokens p := ⟨hseeds, hminted, hbaseMint, hquoteMint,
    huserBase, huserQuote, hvaultBase, hvaultQuote⟩
  obtain ⟨hbacked, -, hremove⟩ := vaults_backed run hp
  exact ⟨w, p, hw, hp, hreserve, hreserve ▸ hbacked,
    hremove ⟨account9, .wallet 13⟩ 10 rfl hvalid hbase.symm hquote.symm hlp (by decide)
      hsupply.ge hheld.ge⟩

/-- Two more token accounts of the authority of pool 3, and a deposit into these. -/
def strayPool : List DexTx := openPool ++
  [{ ix := .token (.initializeAccount 21 (.wallet 1) (.poolAuthority ⟨1, 3⟩)) },
   { ix := .token (.initializeAccount 22 (.wallet 2) (.poolAuthority ⟨1, 3⟩)) },
   { ix := .addLiquidity ⟨{ account9 with baseVault := .wallet 21, quoteVault := .wallet 22 },
      .wallet 13⟩ 10 10 0 }]

/-- After a deposit into other accounts of the authority the recorded vaults are empty. -/
theorem not_vaults_backed : ¬ ∀ hist w, Run (okStep Dex.exec) .init hist w →
    ∀ k p, w.pools.lookup k = some p → p.baseReserve ≤ w.tokens.balance p.baseVault ∧
      p.quoteReserve ≤ w.tokens.balance p.quoteVault := by
  intro hall
  have hfacts : ((execAll Dex.exec .init strayPool).toOption.bind fun w =>
      (w.pools.lookup ⟨1, 3⟩).map fun p => (p.baseReserve, w.tokens.balance p.baseVault)) =
      some (10, 0) := by decide +kernel
  simp only [Option.bind_eq_some_iff, Option.map_eq_some_iff, toOption_eq_some,
    Prod.mk.injEq] at hfacts
  obtain ⟨w, hw, p, hp, hreserve, hvault⟩ := hfacts
  obtain ⟨hist, run⟩ := Run.execAll hw
  obtain ⟨hbacked, -⟩ := hall hist w run _ p hp
  omega

end Aeqi.Unifutures
