import Aeqi.World.Steps

/-!
# The supply cap of the cap table

The module of a trust is opened, configured from the config slot once, and given its mint
once; the slot may be rewritten at any time but is never read again. The mint stays with the
authority of the module, so its supply grows only where the cap is checked.
-/

namespace Aeqi.CapToken

open Aeqi.Lib Aeqi.Solana Option
open Token (Ledger)

/-! ## The module -/

/-- How often an instruction records a mint for trust `t`. -/
def CapTokenIx.records (t : Pubkey) : CapTokenIx → Nat
  | .createMint a _ => if a.trust = t then 1 else 0
  | _ => 0

/-- How often a transaction records a mint for trust `t`. -/
def recorded (t : Pubkey) (_ : World) (tx : WorldTx) : Nat :=
  match tx.ix with
  | .capToken ix => ix.records t
  | _ => 0

/-- How one instruction changes the module of trust `t`. -/
inductive ModuleMoved (t : Pubkey) (tokens tokens' : Ledger Address) :
    Option TokenModuleState → Option TokenModuleState → Nat → Prop
  | kept (o : Option TokenModuleState) : ModuleMoved t tokens tokens' o o 0
  | opened : ModuleMoved t tokens tokens' none (some (.opened t)) 0
  | configured {m : TokenModuleState} {cfg : TokenInitConfig}
      (hinit : m.initialized = .initialized) :
      ModuleMoved t tokens tokens' (some m) (some (m.configured cfg)) 0
  | minted {m : TokenModuleState} (hfinal : m.initialized = .finalized)
      (hmint : m.mint = defaultMint)
      (hcreate : tokens.initializeMint (.tokenMint t) (.tokenAuthority t) = .ok tokens') :
      ModuleMoved t tokens tokens' (some m) (some (m.minted t)) 1

section Step

variable {w w' : World} {tx : WorldTx} {t : Pubkey}

theorem exec_module {s s' : TokenState} {trusts : Trusts.TrustState}
    {tokens tokens' : Ledger Address} {ix : CapTokenIx} (t : Pubkey)
    (h : s.exec trusts tokens ix = .ok (s', tokens')) :
    ModuleMoved t tokens tokens' (s.modules.lookup t) (s'.modules.lookup t) (ix.records t) := by
  cases ix with
  | init trust payer =>
    obtain ⟨hinit, -⟩ := ok_of_fst h
    obtain ⟨hfree, rfl⟩ := init_ok hinit
    by_cases hk : t = trust
    · subst hk
      rw [hfree, AList.lookup_insert]
      exact .opened
    · rw [AList.lookup_insert_ne hk]
      exact .kept _
  | finalize trust =>
    obtain ⟨hfinalize, -⟩ := ok_of_fst h
    obtain ⟨m, -, hm, hinit, rfl⟩ := finalize_ok hfinalize
    by_cases hk : t = trust
    · subst hk
      rw [hm, AList.lookup_insert]
      exact .configured hinit
    · rw [AList.lookup_insert_ne hk]
      exact .kept _
  | createMint a decimals =>
    obtain ⟨m, hm, hfinal, hmint, hcreate, rfl⟩ := createMint_ok h
    rw [CapTokenIx.records]
    by_cases hk : a.trust = t
    · subst hk
      rw [hm, AList.lookup_insert, if_pos rfl]
      exact .minted hfinal hmint hcreate
    · rw [AList.lookup_insert_ne (Ne.symm hk), if_neg hk]
      exact .kept _
  | mintTokens a amount | burnTokens a amount =>
    obtain ⟨-, rfl⟩ := ok_of_snd h
    exact .kept _

theorem module_step (t : Pubkey) (h : w.exec tx = .ok w') :
    ModuleMoved t w.tokens w'.tokens (w.capToken.modules.lookup t)
      (w'.capToken.modules.lookup t) (recorded t w tx) := by
  unfold recorded
  rcases World.capToken_step h with ⟨ix, hix, hexec⟩ | ⟨hne, hsame⟩
  · rw [hix]
    exact exec_module t hexec
  · rw [hsame]
    split
    · next ix hix => exact absurd hix (hne ix)
    · exact .kept _

/-! ## The mint -/

/-- A transaction that mints of the mint of trust `t` passes the check of the cap: no other
key can mint there. -/
theorem minted_step {mint : Token.Mint Address} (h : w.exec tx = .ok w')
    (hmint : w.tokens.mints.lookup (.tokenMint t) = some mint)
    (hauthority : mint.authority = some (.tokenAuthority t)) :
    tx.ix.minted (.tokenMint t) = 0 ∨ ∃ m, w.capToken.modules.lookup t = some m ∧
      (0 < m.maxSupplyCap → mint.supply + tx.ix.minted (.tokenMint t) ≤ m.maxSupplyCap) := by
  replace h := World.exec_stepped h
  generalize tx.ix = ix at h
  cases h with
  | @capToken ix _ _ h =>
    cases ix with
    | mintTokens a amount =>
      obtain ⟨h, -⟩ := ok_of_snd h
      obtain ⟨m, mint', hm, -, -, hmint', hcap, -⟩ := mintTokens_ok h
      by_cases hk : a.trust = t
      · subst hk
        obtain rfl : mint = mint' := some.inj (hmint.symm.trans hmint')
        refine .inr ⟨m, hm, ?_⟩
        rw [WorldIx.minted, CapTokenIx.minted, if_pos rfl]
        exact hcap
      · refine .inl (if_neg fun heq => hk ?_)
        exact Address.tokenMint.inj heq
    | init | finalize | createMint | burnTokens => exact .inl rfl
  | @token ix _ h =>
    cases ix with
    | mintTo k dest authority amount =>
      by_cases hk : k = .tokenMint t
      · subst hk
        obtain ⟨mint', _, hmint', -, hkey, -⟩ := Token.Ledger.mintTo_ok h
        obtain rfl : mint = mint' := some.inj (hmint.symm.trans hmint')
        rw [hauthority] at hkey
        cases hkey
      · exact .inl (if_neg hk)
    | initializeMint | initializeAccount | createAssociated | transfer | burn => exact .inl rfl
  | trust | role | market | fund | vesting | budget | funding => exact .inl rfl

/-! ## Phases -/

def WithinCap (m : TokenModuleState) (mint : Token.Mint Address) : Prop :=
  0 < m.maxSupplyCap → mint.supply ≤ m.maxSupplyCap

/-- `CapPhase t tokens n o`: where the module `o` of trust `t` is after `n` mints were
recorded. -/
inductive CapPhase (t : Pubkey) (tokens : Ledger Address) : Nat → Option TokenModuleState → Prop
  | absent : CapPhase t tokens 0 none
  | unissued {m : TokenModuleState} (hmint : m.mint = defaultMint) : CapPhase t tokens 0 (some m)
  | issued {m : TokenModuleState} {mint : Token.Mint Address} (hfinal : m.initialized = .finalized)
      (hmint : m.mint = .tokenMint t) (hacc : tokens.mints.lookup (.tokenMint t) = some mint)
      (hauthority : mint.authority = some (.tokenAuthority t)) (hcap : WithinCap m mint) :
      CapPhase t tokens 1 (some m)

theorem CapPhase.kept {n : Nat} (hphase : CapPhase t w.tokens n (w.capToken.modules.lookup t))
    (h : w.exec tx = .ok w') : CapPhase t w'.tokens n (w.capToken.modules.lookup t) := by
  generalize hm : w.capToken.modules.lookup t = o at hphase
  cases hphase with
  | absent => exact .absent
  | unissued hmint => exact .unissued hmint
  | @issued m mint hfinal hmint hacc hauthority hcap =>
    obtain ⟨supply, hle, hacc'⟩ := (World.moves h).issues _ mint hacc
    refine .issued hfinal hmint hacc' hauthority fun hpos => ?_
    rcases minted_step h hacc hauthority with hzero | ⟨m', hm', hroom⟩
    · rw [hzero] at hle
      exact Nat.le_trans hle (hcap hpos)
    · obtain rfl : m = m' := some.inj (hm.symm.trans hm')
      exact Nat.le_trans hle (hroom hpos)

theorem CapPhase.moved {tokens tokens' : Ledger Address} {o o' : Option TokenModuleState}
    {n n' : Nat} (hphase : CapPhase t tokens n o) (hkept : CapPhase t tokens' n o)
    (hmove : ModuleMoved t tokens tokens' o o' n') : CapPhase t tokens' (n' + n) o' := by
  cases hmove with
  | kept =>
    rw [Nat.zero_add]
    exact hkept
  | opened =>
    cases hphase with
    | absent => exact .unissued rfl
  | configured hinit =>
    cases hphase with
    | unissued hmint => exact .unissued hmint
    | issued hfinal =>
      rw [hfinal] at hinit
      cases hinit
  | minted hfinal hmint hcreate =>
    cases hphase with
    | unissued =>
      obtain ⟨-, rfl⟩ := Token.Ledger.initializeMint_ok hcreate
      exact .issued hfinal rfl (AList.lookup_insert _) rfl fun _ => Nat.zero_le _
    | issued _ hmint' =>
      rw [hmint'] at hmint
      cases hmint

end Step

/-! ## Finalized modules -/

/-- What a finalized module keeps. -/
structure TokenModuleState.Fixed (m m' : TokenModuleState) : Prop where
  final : m'.initialized = .finalized
  decimals : m'.decimals = m.decimals
  cap : m'.maxSupplyCap = m.maxSupplyCap
  mint : m.mint ≠ defaultMint → m'.mint = m.mint

namespace TokenModuleState.Fixed

variable {m m' m'' : TokenModuleState}

theorem refl (hfinal : m.initialized = .finalized) : m.Fixed m :=
  ⟨hfinal, rfl, rfl, fun _ => rfl⟩

theorem trans (h : m.Fixed m') (h' : m'.Fixed m'') : m.Fixed m'' where
  final := h'.final
  decimals := h'.decimals.trans h.decimals
  cap := h'.cap.trans h.cap
  mint hne := by
    have hmint := h.mint hne
    rw [h'.mint (hmint ▸ hne), hmint]

end TokenModuleState.Fixed

theorem ModuleMoved.fixed {t : Pubkey} {tokens tokens' : Ledger Address} {m : TokenModuleState}
    {o' : Option TokenModuleState} {n : Nat} (hmove : ModuleMoved t tokens tokens' (some m) o' n)
    (hfinal : m.initialized = .finalized) : ∃ m', o' = some m' ∧ m.Fixed m' := by
  cases hmove with
  | kept => exact ⟨m, rfl, .refl hfinal⟩
  | configured hinit =>
    rw [hfinal] at hinit
    cases hinit
  | minted _ hmint =>
    exact ⟨_, rfl, hfinal, rfl, rfl, fun hne => absurd hmint hne⟩

/-! ## Runs -/

section Run

variable {hist : List (World × WorldTx)} {w : World} {t : Pubkey} {m : TokenModuleState}

theorem capPhase (run : Run World.Step .init hist w) (t : Pubkey) :
    CapPhase t w.tokens (sumOver (recorded t) hist) (w.capToken.modules.lookup t) := by
  induction run with
  | nil => exact .absent
  | step _ h ih => exact ih.moved (ih.kept h) (module_step t h)

theorem fixed_run {w₀ : World} (run : Run World.Step w₀ hist w)
    (hm : w₀.capToken.modules.lookup t = some m) (hfinal : m.initialized = .finalized) :
    ∃ m', w.capToken.modules.lookup t = some m' ∧ m.Fixed m' := by
  induction run with
  | nil => exact ⟨m, hm, .refl hfinal⟩
  | step _ h ih =>
    obtain ⟨m₁, hm₁, hfixed⟩ := ih
    have hmove := module_step t h
    rw [hm₁] at hmove
    obtain ⟨m', hm', hfixed'⟩ := hmove.fixed hfixed.final
    exact ⟨m', hm', hfixed.trans hfixed'⟩

/-- **The supply cap holds** in every run: a trust records at most one mint, its supply is
within the cap, and a finalized module keeps its decimals, its cap and its mint. -/
theorem supply_cap (run : Run World.Step .init hist w)
    (hm : w.capToken.modules.lookup t = some m) :
    sumOver (recorded t) hist ≤ 1 ∧
    (m.mint ≠ defaultMint → ∃ mint, w.tokens.mints.lookup m.mint = some mint ∧
      (0 < m.maxSupplyCap → mint.supply ≤ m.maxSupplyCap)) ∧
    (m.initialized = .finalized → ∀ hist' w', Run World.Step w hist' w' →
      ∃ m', w'.capToken.modules.lookup t = some m' ∧ m.Fixed m') := by
  have hphase := capPhase run t
  rw [hm] at hphase
  refine ⟨?_, fun hne => ?_, fun hfinal hist' w' run' => fixed_run run' hm hfinal⟩
  · generalize sumOver (recorded t) hist = n at hphase
    cases hphase with
    | unissued => omega
    | issued => exact le_rfl
  · generalize sumOver (recorded t) hist = n at hphase
    cases hphase with
    | unissued hmint => exact absurd hmint hne
    | issued hfinal hmint hacc hauthority hcap => exact ⟨_, hmint ▸ hacc, hcap⟩

end Run

def configTx (cap : BitVec 8) : WorldTx :=
  { ix := .trust (.setBytesConfig 1 10 tokenConfigKey (6#8 :: cap :: List.replicate 7 0#8) 255#8) }

/-- Trust 1 issues a hundred units under a cap of a hundred. After the module was finalized
the slot is written once more. -/
def issueCapped : List WorldTx :=
  [{ ix := .trust (.initializeTrust 1 10) },
   { ix := .capToken (.init 1 10) },
   configTx 100#8,
   { ix := .capToken (.finalize 1) },
   configTx 200#8,
   { ix := .capToken (.createMint ⟨1, .token2022⟩ 6) },
   { ix := .token (.initializeAccount 21 (.tokenMint 1) (.wallet 11)) },
   { ix := .capToken (.mintTokens ⟨1, .wallet 21, 10, .token2022⟩ 100) }]

theorem issueCapped_supply_cap : ∃ w m mint, execAll World.exec .init issueCapped = .ok w ∧
    w.capToken.modules.lookup 1 = some m ∧ m.maxSupplyCap = 100 ∧
    w.tokens.mints.lookup m.mint = some mint ∧ mint.supply ≤ m.maxSupplyCap := by
  have hfacts : ((execAll World.exec .init issueCapped).toOption.bind fun w =>
      (w.capToken.modules.lookup 1).map fun m =>
        (m.maxSupplyCap, decide (m.mint = defaultMint))) = some (100, false) := by decide +kernel
  simp only [Option.bind_eq_some_iff, Option.map_eq_some_iff, toOption_eq_some, Prod.mk.injEq,
    decide_eq_false_iff_not] at hfacts
  obtain ⟨w, hw, m, hm, hcap, hne⟩ := hfacts
  obtain ⟨hist, run⟩ := Run.execAll hw
  obtain ⟨mint, hmint, hle⟩ := (supply_cap run hm).2.1 hne
  refine ⟨w, m, mint, hw, hm, hcap, hmint, hle ?_⟩
  rw [hcap]
  omega

end Aeqi.CapToken
