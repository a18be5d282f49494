import Aeqi.Lib.Result
import Aeqi.Lib.Accounts

/-!
# A ledger of fungible tokens

Mints and token accounts at addresses of any type, moved as the plain token program
moves them: no transfer fees, no freezing, no delegates. `held p` is what the
accounts with a property of owner and mint hold together; it only leaves the
accounts of an owner that signs (`Keeps`), and what all accounts of a mint hold is
the supply of the mint (`Sound`), so no balance is ever too large for 64 bits.
-/

namespace Aeqi.Lib.Token

open Accounts Option
open AList (lookup_insert_ne)

structure Mint (A : Type) where
  authority : Option A
  supply : Nat

structure Account (A : Type) where
  mint : A
  owner : A
  amount : Nat
  deriving DecidableEq

structure Ledger (A : Type) where
  mints : Accounts A (Mint A) := ∅
  accounts : Accounts A (Account A) := ∅

inductive Error
  | uninitialized
  | alreadyInUse
  | ownerMismatch
  | mintMismatch
  | insufficientFunds
  | overflow

variable {A : Type} [DecidableEq A]

namespace Ledger

/-! ## Operations -/

def mint (L : Ledger A) (k : A) : Except Error (Mint A) := okOr (L.mints.lookup k) .uninitialized

def account (L : Ledger A) (a : A) : Except Error (Account A) :=
  okOr (L.accounts.lookup a) .uninitialized

def requireFree (L : Ledger A) (a : A) : Except Error Unit :=
  require ((L.mints.lookup a).isNone ∧ (L.accounts.lookup a).isNone) .alreadyInUse

def initializeMint (L : Ledger A) (k : A) (authority : A) : Except Error (Ledger A) := do
  L.requireFree k
  pure { L with mints := L.mints.insert k ⟨some authority, 0⟩ }

def initializeAccount (L : Ledger A) (a k owner : A) : Except Error (Ledger A) := do
  L.requireFree a
  let _ ← L.mint k
  pure { L with accounts := L.accounts.insert a ⟨k, owner, 0⟩ }

/-- A transfer to the source itself only passes the checks. -/
def transfer (L : Ledger A) (source k dest authority : A) (amount : Nat) :
    Except Error (Ledger A) := do
  let src ← L.account source
  let dst ← L.account dest
  require (src.owner = authority) .ownerMismatch
  require (src.mint = k ∧ dst.mint = k) .mintMismatch
  require (amount ≤ src.amount) .insufficientFunds
  if source = dest then
    pure L
  else do
    let received ← okOr (checkedAdd 64 dst.amount amount) .overflow
    pure { L with
      accounts := (L.accounts.insert source { src with amount := src.amount - amount }).insert dest
        { dst with amount := received } }

def mintTo (L : Ledger A) (k dest authority : A) (amount : Nat) : Except Error (Ledger A) := do
  let m ← L.mint k
  let dst ← L.account dest
  require (m.authority = some authority) .ownerMismatch
  require (dst.mint = k) .mintMismatch
  let supply ← okOr (checkedAdd 64 m.supply amount) .overflow
  let received ← okOr (checkedAdd 64 dst.amount amount) .overflow
  pure {
    mints := L.mints.insert k { m with supply }
    accounts := L.accounts.insert dest { dst with amount := received } }

def burn (L : Ledger A) (source k authority : A) (amount : Nat) : Except Error (Ledger A) := do
  let m ← L.mint k
  let src ← L.account source
  require (src.owner = authority) .ownerMismatch
  require (src.mint = k) .mintMismatch
  let rest ← okOr (checkedSub src.amount amount) .insufficientFunds
  let supply ← okOr (checkedSub m.supply amount) .overflow
  pure {
    mints := L.mints.insert k { m with supply }
    accounts := L.accounts.insert source { src with amount := rest } }

/-! ## What is held -/

def balance (L : Ledger A) (a : A) : Nat := wt (fun _ acc => acc.amount) L.accounts a

/-- What the accounts with a property of owner and mint hold together. -/
def held (p : A → A → Prop) [∀ o k, Decidable (p o k)] (L : Ledger A) : Nat :=
  total (fun _ acc => if p acc.owner acc.mint then acc.amount else 0) L.accounts

/-- What an owner holds of a mint. -/
abbrev heldBy (o k : A) (L : Ledger A) : Nat := held (fun o' k' => o' = o ∧ k' = k) L

/-- What all accounts of a mint hold. -/
abbrev issued (k : A) (L : Ledger A) : Nat := held (fun _ k' => k' = k) L

section Held

variable {p : A → A → Prop} [∀ o k, Decidable (p o k)] {L : Ledger A} {a b k o : A}
  {acc acc' : Account A}

theorem balance_of_some (h : L.accounts.lookup a = some acc) : L.balance a = acc.amount :=
  wt_of_some h

theorem heldBy_le_issued (L : Ledger A) (o k : A) : heldBy o k L ≤ issued k L := by
  apply total_mono
  intro _ acc _
  by_cases hk : acc.mint = k
  · by_cases ho : acc.owner = o <;> simp [ho]
  · simp [hk]

theorem heldBy_eq_zero (h : ∀ a acc, L.accounts.lookup a = some acc → acc.owner = o → acc.mint ≠ k) :
    heldBy o k L = 0 := by
  refine total_eq_zero_iff.2 fun a => ?_
  cases ha : L.accounts.lookup a with
  | none => exact wt_of_none ha
  | some acc => exact (wt_of_some ha).trans (if_neg fun hp => h a acc ha hp.1 hp.2)

theorem amount_le_issued (h : L.accounts.lookup a = some acc) (hk : acc.mint = k) :
    acc.amount ≤ issued k L := by
  have hle := wt_le_total (f := fun _ acc => if acc.mint = k then acc.amount else 0)
    (s := L.accounts) a
  rwa [wt_of_some h, if_pos hk] at hle

theorem held_insert (mints : Accounts A (Mint A)) (h : L.accounts.lookup a = some acc) (n : Nat) :
    held p ⟨mints, L.accounts.insert a { acc with amount := n }⟩ +
        (if p acc.owner acc.mint then acc.amount else 0) =
      held p L + if p acc.owner acc.mint then n else 0 := by
  have htotal := total_insert (f := fun _ acc => if p acc.owner acc.mint then acc.amount else 0)
    (s := L.accounts) a { acc with amount := n }
  rwa [wt_of_some h] at htotal

theorem amount_add_le_issued (hne : b ≠ a) (ha : L.accounts.lookup a = some acc)
    (hb : L.accounts.lookup b = some acc') (hk : acc.mint = k) (hk' : acc'.mint = k) :
    acc.amount + acc'.amount ≤ issued k L := by
  have hinsert : issued k ⟨L.mints, L.accounts.insert a { acc with amount := 0 }⟩ + acc.amount =
      issued k L := by
    have h := held_insert (p := fun _ k' => k' = k) L.mints ha 0
    simpa only [if_pos hk, Nat.add_zero] using h
  have hb' : (L.accounts.insert a { acc with amount := 0 }).lookup b = some acc' := by
    rw [lookup_insert_ne hne, hb]
  have hle := amount_le_issued (L := ⟨L.mints, L.accounts.insert a { acc with amount := 0 }⟩)
    hb' hk'
  omega

end Held

/-! ## What an operation did -/

section Operations

variable {p : A → A → Prop} [∀ o k, Decidable (p o k)] {L L' : Ledger A}
  {source k dest authority owner : A} {n : Nat}

@[simp] theorem mint_eq_ok {m : Mint A} : L.mint k = .ok m ↔ L.mints.lookup k = some m := okOr_eq_ok

@[simp] theorem account_eq_ok {a : A} {acc : Account A} :
    L.account a = .ok acc ↔ L.accounts.lookup a = some acc := okOr_eq_ok

@[simp] theorem requireFree_eq_ok {a : A} {u : Unit} :
    L.requireFree a = .ok u ↔ L.mints.lookup a = none ∧ L.accounts.lookup a = none := by
  simp [requireFree]

theorem initializeMint_ok (h : L.initializeMint k authority = .ok L') :
    L.mints.lookup k = none ∧ L' = { L with mints := L.mints.insert k ⟨some authority, 0⟩ } := by
  simp only [initializeMint, bind_eq_ok, requireFree_eq_ok, exists_punit, pure_eq_ok] at h
  exact ⟨h.1.1, h.2.symm⟩

theorem initializeAccount_ok {a : A} (h : L.initializeAccount a k owner = .ok L') :
    L.accounts.lookup a = none ∧ (∃ m, L.mints.lookup k = some m) ∧
      L' = { L with accounts := L.accounts.insert a ⟨k, owner, 0⟩ } := by
  simp only [initializeAccount, bind_eq_ok, requireFree_eq_ok, exists_punit, mint_eq_ok,
    pure_eq_ok] at h
  obtain ⟨⟨-, hfree⟩, m, hm, rfl⟩ := h
  exact ⟨hfree, ⟨m, hm⟩, rfl⟩

theorem transfer_eq_ok : L.transfer source k dest authority n = .ok L' ↔
    ∃ src dst, L.accounts.lookup source = some src ∧ L.accounts.lookup dest = some dst ∧
      src.owner = authority ∧ src.mint = k ∧ dst.mint = k ∧ n ≤ src.amount ∧
      (source ≠ dest → dst.amount + n < 2 ^ 64) ∧
      L' = if source = dest then L else { L with
        accounts := (L.accounts.insert source { src with amount := src.amount - n }).insert dest
          { dst with amount := dst.amount + n } } := by
  simp only [transfer, bind_eq_ok, account_eq_ok, require_eq_ok, exists_punit]
  by_cases hself : source = dest
  · simp only [if_pos hself, pure_eq_ok]
    constructor
    · rintro ⟨src, hsrc, dst, hdst, hauth, ⟨hk, hk'⟩, hle, rfl⟩
      exact ⟨src, dst, hsrc, hdst, hauth, hk, hk', hle, fun hne => absurd hself hne, rfl⟩
    · rintro ⟨src, dst, hsrc, hdst, hauth, hk, hk', hle, -, rfl⟩
      exact ⟨src, hsrc, dst, hdst, hauth, ⟨hk, hk'⟩, hle, rfl⟩
  · simp only [if_neg hself, bind_eq_ok, okOr_eq_ok, checkedAdd_eq_some, pure_eq_ok]
    constructor
    · rintro ⟨src, hsrc, dst, hdst, hauth, ⟨hk, hk'⟩, hle, _, ⟨hroom, rfl⟩, rfl⟩
      exact ⟨src, dst, hsrc, hdst, hauth, hk, hk', hle, fun _ => hroom, rfl⟩
    · rintro ⟨src, dst, hsrc, hdst, hauth, hk, hk', hle, hroom, rfl⟩
      exact ⟨src, hsrc, dst, hdst, hauth, ⟨hk, hk'⟩, hle, _, ⟨hroom hself, rfl⟩, rfl⟩

theorem mintTo_ok (h : L.mintTo k dest authority n = .ok L') :
    ∃ m dst, L.mints.lookup k = some m ∧ L.accounts.lookup dest = some dst ∧
      m.authority = some authority ∧ dst.mint = k ∧ m.supply + n < 2 ^ 64 ∧
      L' = ⟨L.mints.insert k { m with supply := m.supply + n },
        L.accounts.insert dest { dst with amount := dst.amount + n }⟩ := by
  simp only [mintTo, bind_eq_ok, mint_eq_ok, account_eq_ok, require_eq_ok, exists_punit,
    okOr_eq_ok, checkedAdd_eq_some, pure_eq_ok] at h
  obtain ⟨m, hm, dst, hdst, hauth, hk, _, ⟨hsupply, rfl⟩, _, ⟨-, rfl⟩, rfl⟩ := h
  exact ⟨m, dst, hm, hdst, hauth, hk, hsupply, rfl⟩

theorem burn_eq_ok : L.burn source k authority n = .ok L' ↔
    ∃ m src, L.mints.lookup k = some m ∧ L.accounts.lookup source = some src ∧
      src.owner = authority ∧ src.mint = k ∧ n ≤ src.amount ∧ n ≤ m.supply ∧
      L' = ⟨L.mints.insert k { m with supply := m.supply - n },
        L.accounts.insert source { src with amount := src.amount - n }⟩ := by
  simp only [burn, bind_eq_ok, mint_eq_ok, account_eq_ok, require_eq_ok, exists_punit,
    okOr_eq_ok, checkedSub_eq_some, pure_eq_ok]
  constructor
  · rintro ⟨m, hm, src, hsrc, hauth, hk, _, ⟨hle, rfl⟩, _, ⟨hle', rfl⟩, rfl⟩
    exact ⟨m, src, hm, hsrc, hauth, hk, hle, hle', rfl⟩
  · rintro ⟨m, src, hm, hsrc, hauth, hk, hle, hle', rfl⟩
    exact ⟨m, hm, src, hsrc, hauth, hk, _, ⟨hle, rfl⟩, _, ⟨hle', rfl⟩, rfl⟩

theorem mints_transfer (h : L.transfer source k dest authority n = .ok L') : L'.mints = L.mints := by
  obtain ⟨_, _, -, -, -, -, -, -, -, rfl⟩ := transfer_eq_ok.1 h
  split <;> rfl

theorem mint_burn {m : Mint A} (h : L.burn source k authority n = .ok L')
    (hm : L.mints.lookup k = some m) :
    n ≤ m.supply ∧ L'.mints.lookup k = some { m with supply := m.supply - n } := by
  obtain ⟨m', _, hm', -, -, -, -, hle, rfl⟩ := burn_eq_ok.1 h
  obtain rfl : m = m' := some.inj (hm.symm.trans hm')
  exact ⟨hle, AList.lookup_insert _⟩

theorem held_transfer (h : L.transfer source k dest authority n = .ok L') :
    ∃ dst, L.accounts.lookup dest = some dst ∧ dst.mint = k ∧
      held p L' + (if p authority k then n else 0) = held p L + if p dst.owner k then n else 0 := by
  obtain ⟨src, ⟨k', owner', received⟩, hsrc, hdst, rfl, rfl, hk', hle, -, rfl⟩ := transfer_eq_ok.1 h
  obtain rfl : k' = src.mint := hk'
  refine ⟨_, hdst, rfl, ?_⟩
  split
  · next hself =>
    subst hself
    have hsame := some.inj (hsrc.symm.trans hdst)
    obtain rfl : src.owner = owner' := congrArg Account.owner hsame
    rfl
  · next hself =>
    have hdst' : (L.accounts.insert source { src with amount := src.amount - n }).lookup dest =
        some ⟨src.mint, owner', received⟩ := by
      rw [lookup_insert_ne fun he => hself he.symm, hdst]
    have hout := held_insert (p := p) L.mints hsrc (src.amount - n)
    have hin := held_insert (L := ⟨L.mints, L.accounts.insert source
      { src with amount := src.amount - n }⟩) (p := p) L.mints hdst' (received + n)
    by_cases hp : p src.owner src.mint <;> by_cases hp' : p owner' src.mint <;>
      simp only [hp, hp', if_true, if_false] at hout hin ⊢ <;> omega

theorem held_mintTo (h : L.mintTo k dest authority n = .ok L') :
    ∃ dst, L.accounts.lookup dest = some dst ∧ dst.mint = k ∧
      held p L' = held p L + if p dst.owner k then n else 0 := by
  obtain ⟨m, dst, -, hdst, -, rfl, -, rfl⟩ := mintTo_ok h
  refine ⟨dst, hdst, rfl, ?_⟩
  have hin := held_insert (p := p) (L.mints.insert dst.mint { m with supply := m.supply + n })
    hdst (dst.amount + n)
  by_cases hp : p dst.owner dst.mint <;> simp only [hp, if_true, if_false] at hin ⊢ <;> omega

theorem heldBy_transfer (h : L.transfer source k dest authority n = .ok L') (o k' : A) :
    ∃ dst, L.accounts.lookup dest = some dst ∧ dst.mint = k ∧
      heldBy o k' L' + (if authority = o ∧ k = k' then n else 0) =
        heldBy o k' L + if dst.owner = o ∧ k = k' then n else 0 :=
  held_transfer h

theorem heldBy_mintTo (h : L.mintTo k dest authority n = .ok L') (o k' : A) :
    ∃ dst, L.accounts.lookup dest = some dst ∧ dst.mint = k ∧
      heldBy o k' L' = heldBy o k' L + if dst.owner = o ∧ k = k' then n else 0 :=
  held_mintTo h

theorem held_burn (h : L.burn source k authority n = .ok L') :
    held p L' + (if p authority k then n else 0) = held p L := by
  obtain ⟨m, src, -, hsrc, rfl, rfl, hle, -, rfl⟩ := burn_eq_ok.1 h
  have hout := held_insert (p := p) (L.mints.insert src.mint { m with supply := m.supply - n })
    hsrc (src.amount - n)
  by_cases hp : p src.owner src.mint <;> simp only [hp, if_true, if_false] at hout ⊢ <;> omega

theorem held_initializeAccount {a : A} (h : L.initializeAccount a k owner = .ok L') :
    held p L' = held p L := by
  obtain ⟨hfree, -, rfl⟩ := initializeAccount_ok h
  have hinsert := total_insert (f := fun _ acc => if p acc.owner acc.mint then acc.amount else 0)
    (s := L.accounts) a ⟨k, owner, 0⟩
  rw [wt_of_none hfree, ite_self] at hinsert
  exact hinsert

end Operations

/-! ## Soundness -/

/-- Every account is of a mint, and the supply of a mint is what its accounts hold. -/
structure Sound (L : Ledger A) : Prop where
  minted : ∀ {a acc}, L.accounts.lookup a = some acc → ∃ m, L.mints.lookup acc.mint = some m
  supply : ∀ {k m}, L.mints.lookup k = some m → issued k L = m.supply ∧ m.supply < 2 ^ 64

namespace Sound

variable {L L' : Ledger A} {source k dest authority owner a : A} {n : Nat}

theorem empty : Sound ({} : Ledger A) :=
  ⟨fun h => by simp at h, fun h => by simp at h⟩

theorem issued_lt (hs : Sound L) (ha : ∃ acc, L.accounts.lookup a = some acc ∧ acc.mint = k) :
    issued k L < 2 ^ 64 := by
  obtain ⟨acc, ha, rfl⟩ := ha
  obtain ⟨m, hm⟩ := hs.minted ha
  obtain ⟨hissued, hlt⟩ := hs.supply hm
  rwa [hissued]

theorem minted_insert (hs : Sound L) {acc : Account A} (ha : L.accounts.lookup a = some acc)
    (acc' : Account A) (hk : acc'.mint = acc.mint) :
    ∀ {b accb}, (L.accounts.insert a acc').lookup b = some accb →
      ∃ m, L.mints.lookup accb.mint = some m := by
  intro b accb hb
  rcases lookup_insert_some hb with ⟨-, rfl⟩ | ⟨-, hb⟩
  · rw [hk]
    exact hs.minted ha
  · exact hs.minted hb

theorem initializeMint (hs : Sound L) (h : L.initializeMint k authority = .ok L') : Sound L' := by
  obtain ⟨hfree, rfl⟩ := initializeMint_ok h
  have hnew : ∀ {k' m}, L.mints.lookup k' = some m → k' ≠ k := by
    rintro k' m hm rfl
    rw [hfree] at hm
    cases hm
  refine ⟨fun {a acc} ha => ?_, fun {k' m} hm => ?_⟩
  · obtain ⟨m, hm⟩ := hs.minted ha
    exact ⟨m, by rw [lookup_insert_ne (hnew hm), hm]⟩
  · rcases lookup_insert_some hm with ⟨rfl, rfl⟩ | ⟨-, hm⟩
    · refine ⟨total_eq_zero_iff.2 fun a => ?_, Nat.two_pow_pos 64⟩
      cases ha : L.accounts.lookup a with
      | none => exact wt_of_none ha
      | some acc =>
        obtain ⟨m, hm⟩ := hs.minted ha
        exact (wt_of_some ha).trans (if_neg (hnew hm))
    · exact hs.supply hm

theorem initializeAccount (hs : Sound L) (h : L.initializeAccount a k owner = .ok L') :
    Sound L' := by
  have hheld : ∀ k', issued k' L' = issued k' L := fun k' => held_initializeAccount h
  obtain ⟨-, hk, rfl⟩ := initializeAccount_ok h
  refine ⟨fun {b acc} hb => ?_, fun {k' m} hm => ?_⟩
  · rcases lookup_insert_some hb with ⟨-, rfl⟩ | ⟨-, hb⟩
    · exact hk
    · exact hs.minted hb
  · rw [hheld]
    exact hs.supply hm

theorem transfer (hs : Sound L) (h : L.transfer source k dest authority n = .ok L') :
    Sound L' := by
  have hheld : ∀ k', issued k' L' = issued k' L := by
    intro k'
    obtain ⟨-, -, -, hmove⟩ := held_transfer (p := fun _ k₁ => k₁ = k') h
    exact Nat.add_right_cancel hmove
  obtain ⟨src, dst, hsrc, hdst, rfl, -, -, -, -, rfl⟩ := transfer_eq_ok.1 h
  split at hheld
  · next hself =>
    rwa [if_pos hself]
  · next hself =>
    rw [if_neg hself]
    refine ⟨fun {b acc} hb => ?_, fun {k' m} hm => ?_⟩
    · rcases lookup_insert_some hb with ⟨-, rfl⟩ | ⟨-, hb⟩
      · have hd := hs.minted hdst
        exact hd
      · exact hs.minted_insert hsrc { src with amount := src.amount - n } rfl hb
    · rw [hheld]
      exact hs.supply hm

theorem mintTo (hs : Sound L) (h : L.mintTo k dest authority n = .ok L') : Sound L' := by
  have hheld : ∀ k', issued k' L' = issued k' L + if k = k' then n else 0 := by
    intro k'
    obtain ⟨-, -, -, hmove⟩ := held_mintTo (p := fun _ k₁ => k₁ = k') h
    exact hmove
  obtain ⟨m₀, dst, hm₀, hdst, -, rfl, hlt, rfl⟩ := mintTo_ok h
  refine ⟨fun {b acc} hb => ?_, fun {k' m} hm => ?_⟩
  · obtain ⟨m, hm⟩ := hs.minted_insert hdst { dst with amount := dst.amount + n } rfl hb
    by_cases hk : acc.mint = dst.mint
    · exact ⟨_, by rw [hk, AList.lookup_insert]⟩
    · exact ⟨m, by rw [lookup_insert_ne hk, hm]⟩
  · rw [hheld]
    rcases lookup_insert_some hm with ⟨hk, rfl⟩ | ⟨hk, hm⟩
    · obtain ⟨hissued, -⟩ := hs.supply hm₀
      rw [hk, if_pos rfl, hissued]
      exact ⟨rfl, hlt⟩
    · rw [if_neg fun he => hk he.symm]
      exact hs.supply hm

theorem burn (hs : Sound L) (h : L.burn source k authority n = .ok L') : Sound L' := by
  have hheld : ∀ k', issued k' L' + (if k = k' then n else 0) = issued k' L :=
    fun k' => held_burn (p := fun _ k₁ => k₁ = k') h
  obtain ⟨m₀, src, hm₀, hsrc, rfl, rfl, -, -, rfl⟩ := burn_eq_ok.1 h
  refine ⟨fun {b acc} hb => ?_, fun {k' m} hm => ?_⟩
  · obtain ⟨m, hm⟩ := hs.minted_insert hsrc { src with amount := src.amount - n } rfl hb
    by_cases hk : acc.mint = src.mint
    · exact ⟨_, by rw [hk, AList.lookup_insert]⟩
    · exact ⟨m, by rw [lookup_insert_ne hk, hm]⟩
  · have hsum := hheld k'
    rcases lookup_insert_some hm with ⟨hk, rfl⟩ | ⟨hk, hm⟩
    · obtain ⟨hissued, hlt⟩ := hs.supply hm₀
      rw [hk, if_pos rfl] at hsum
      rw [hk]
      exact ⟨show _ = m₀.supply - n by omega, show m₀.supply - n < 2 ^ 64 by omega⟩
    · rw [if_neg fun he => hk he.symm, Nat.add_zero] at hsum
      rw [hsum]
      exact hs.supply hm

end Sound

/-! ## Frames -/

/-- An owner keeps what it holds of every mint, and every account of its own. -/
structure Keeps (o : A) (L L' : Ledger A) : Prop where
  held : ∀ k, heldBy o k L ≤ heldBy o k L'
  account : ∀ {a acc}, L.accounts.lookup a = some acc → acc.owner = o →
    ∃ n, acc.amount ≤ n ∧ L'.accounts.lookup a = some { acc with amount := n }

namespace Keeps

variable {L L' L'' : Ledger A} {source k dest authority owner a o : A} {n : Nat}

theorem refl (o : A) (L : Ledger A) : Keeps o L L :=
  ⟨fun _ => le_rfl, fun {_ acc} ha _ => ⟨acc.amount, le_rfl, ha⟩⟩

theorem trans (h : Keeps o L L') (h' : Keeps o L' L'') : Keeps o L L'' := by
  refine ⟨fun k => Nat.le_trans (h.held k) (h'.held k), fun ha ho => ?_⟩
  obtain ⟨n, hn, ha'⟩ := h.account ha ho
  obtain ⟨n', hn', ha''⟩ := h'.account ha' ho
  exact ⟨n', Nat.le_trans hn hn', ha''⟩

theorem initializeMint (h : L.initializeMint k authority = .ok L') : Keeps o L L' := by
  obtain ⟨-, rfl⟩ := initializeMint_ok h
  exact ⟨fun _ => le_rfl, fun {_ acc} ha _ => ⟨acc.amount, le_rfl, ha⟩⟩

theorem initializeAccount (h : L.initializeAccount a k owner = .ok L') : Keeps o L L' := by
  refine ⟨fun _ => (held_initializeAccount h).ge, fun {b acc} hb _ => ?_⟩
  obtain ⟨hfree, -, rfl⟩ := initializeAccount_ok h
  have hne : b ≠ a := by
    rintro rfl
    rw [hfree] at hb
    cases hb
  exact ⟨acc.amount, le_rfl, by rw [lookup_insert_ne hne, hb]⟩

theorem transfer (h : L.transfer source k dest authority n = .ok L') (hne : authority ≠ o) :
    Keeps o L L' := by
  refine ⟨fun k' => ?_, fun {b acc} hb ho => ?_⟩
  · obtain ⟨dst, -, -, hmove⟩ := heldBy_transfer h o k'
    rw [if_neg fun he => hne he.1] at hmove
    omega
  · obtain ⟨src, dst, hsrc, hdst, hauth, -, -, -, -, rfl⟩ := transfer_eq_ok.1 h
    split
    · exact ⟨acc.amount, le_rfl, hb⟩
    · have hbs : b ≠ source := by
        rintro rfl
        rw [hb, Option.some.injEq] at hsrc
        exact hne (by rw [← hauth, ← hsrc, ho])
      by_cases hbd : b = dest
      · subst hbd
        obtain rfl : acc = dst := some.inj (hb.symm.trans hdst)
        exact ⟨acc.amount + n, Nat.le_add_right _ _, AList.lookup_insert _⟩
      · exact ⟨acc.amount, le_rfl, by
          rw [lookup_insert_ne hbd, lookup_insert_ne hbs, hb]⟩

theorem mintTo (h : L.mintTo k dest authority n = .ok L') : Keeps o L L' := by
  refine ⟨fun k' => ?_, fun {b acc} hb _ => ?_⟩
  · obtain ⟨dst, -, -, hmove⟩ := heldBy_mintTo h o k'
    omega
  · obtain ⟨m, dst, -, hdst, -, -, -, rfl⟩ := mintTo_ok h
    by_cases hbd : b = dest
    · subst hbd
      obtain rfl : acc = dst := some.inj (hb.symm.trans hdst)
      exact ⟨acc.amount + n, Nat.le_add_right _ _, AList.lookup_insert _⟩
    · exact ⟨acc.amount, le_rfl, by rw [lookup_insert_ne hbd, hb]⟩

theorem burn (h : L.burn source k authority n = .ok L') (hne : authority ≠ o) :
    Keeps o L L' := by
  refine ⟨fun k' => ?_, fun {b acc} hb ho => ?_⟩
  · have hmove := held_burn (p := fun o' k₁ => o' = o ∧ k₁ = k') h
    rw [if_neg fun he => hne he.1] at hmove
    exact hmove.ge
  · obtain ⟨m, src, -, hsrc, hauth, -, -, -, rfl⟩ := burn_eq_ok.1 h
    have hbs : b ≠ source := by
      rintro rfl
      rw [hb, Option.some.injEq] at hsrc
      exact hne (by rw [← hauth, ← hsrc, ho])
    exact ⟨acc.amount, le_rfl, by rw [lookup_insert_ne hbs, hb]⟩

end Keeps

/-! ## Moves

What a sequence of operations can have done: only signers lose tokens, a mint stays with
its authority, and its supply grows by no more than what was minted. -/

/-- The mint at `k` keeps its authority, and its supply grows by at most `n`. -/
def Issues (k : A) (n : Nat) (L L' : Ledger A) : Prop :=
  ∀ m, L.mints.lookup k = some m →
    ∃ supply, supply ≤ m.supply + n ∧ L'.mints.lookup k = some { m with supply }

/-- Operations signed by `signs` that minted at most `minted k` of each mint `k`. -/
structure Moves (signs : A → Prop) (minted : A → Nat) (L L' : Ledger A) : Prop where
  keeps : ∀ {o}, ¬ signs o → Keeps o L L'
  sound : Sound L → Sound L'
  issues : ∀ k, Issues k (minted k) L L'

section Moves

variable {L L' L'' : Ledger A} {source k dest authority owner a : A} {n n' : Nat}
  {signs : A → Prop} {minted : A → Nat}

namespace Issues

theorem refl (k : A) (n : Nat) (L : Ledger A) : Issues k n L L :=
  fun m hm => ⟨m.supply, Nat.le_add_right _ _, hm⟩

theorem trans (h : Issues k n L L') (h' : Issues k n' L' L'') : Issues k (n + n') L L'' := by
  intro m hm
  obtain ⟨supply, hle, hm'⟩ := h m hm
  obtain ⟨supply', hle', hm''⟩ := h' _ hm'
  refine ⟨supply', ?_, hm''⟩
  have hle' : supply' ≤ supply + n' := hle'
  omega

theorem initializeMint (h : L.initializeMint a authority = .ok L') : Issues k n L L' := by
  intro m hm
  obtain ⟨hfree, rfl⟩ := initializeMint_ok h
  have hne : k ≠ a := by
    rintro rfl
    rw [hfree] at hm
    cases hm
  exact ⟨m.supply, Nat.le_add_right _ _, by rw [lookup_insert_ne hne, hm]⟩

theorem initializeAccount (h : L.initializeAccount a dest owner = .ok L') : Issues k n L L' := by
  obtain ⟨-, -, rfl⟩ := initializeAccount_ok h
  exact fun m hm => ⟨m.supply, Nat.le_add_right _ _, hm⟩

theorem transfer {mint : A} (h : L.transfer source mint dest authority n' = .ok L') :
    Issues k n L L' := by
  obtain ⟨_, _, -, -, -, -, -, -, -, rfl⟩ := transfer_eq_ok.1 h
  intro m hm
  refine ⟨m.supply, Nat.le_add_right _ _, ?_⟩
  split
  · exact hm
  · exact hm

theorem mintTo {mint : A} (h : L.mintTo mint dest authority n' = .ok L')
    (hn : k = mint → n' ≤ n) : Issues k n L L' := by
  intro m hm
  obtain ⟨m', _, hm', -, -, -, -, rfl⟩ := mintTo_ok h
  by_cases hk : k = mint
  · subst hk
    obtain rfl : m = m' := some.inj (hm.symm.trans hm')
    exact ⟨_, Nat.add_le_add_left (hn rfl) _, AList.lookup_insert _⟩
  · exact ⟨m.supply, Nat.le_add_right _ _, by rw [lookup_insert_ne hk, hm]⟩

theorem burn {mint : A} (h : L.burn source mint authority n' = .ok L') : Issues k n L L' := by
  intro m hm
  obtain ⟨m', _, hm', -, -, -, -, -, rfl⟩ := burn_eq_ok.1 h
  by_cases hk : k = mint
  · subst hk
    obtain rfl : m = m' := some.inj (hm.symm.trans hm')
    refine ⟨_, ?_, AList.lookup_insert _⟩
    omega
  · exact ⟨m.supply, Nat.le_add_right _ _, by rw [lookup_insert_ne hk, hm]⟩

end Issues

namespace Moves

theorem refl (L : Ledger A) : Moves signs minted L L :=
  ⟨fun _ => .refl _ L, id, fun k => .refl k _ L⟩

theorem trans (h : Moves signs (fun _ => 0) L L') (h' : Moves signs minted L' L'') :
    Moves signs minted L L'' := by
  refine ⟨fun ho => (h.keeps ho).trans (h'.keeps ho), fun hs => h'.sound (h.sound hs), ?_⟩
  intro k
  have hissues := (h.issues k).trans (h'.issues k)
  rwa [Nat.zero_add] at hissues

theorem initializeMint (h : L.initializeMint k authority = .ok L') : Moves signs minted L L' :=
  ⟨fun _ => .initializeMint h, fun hs => hs.initializeMint h, fun _ => .initializeMint h⟩

theorem initializeAccount (h : L.initializeAccount a k owner = .ok L') :
    Moves signs minted L L' :=
  ⟨fun _ => .initializeAccount h, fun hs => hs.initializeAccount h, fun _ => .initializeAccount h⟩

theorem transfer (h : L.transfer source k dest authority n = .ok L') (hsign : signs authority) :
    Moves signs minted L L' := by
  refine ⟨fun {o} ho => .transfer h ?_, fun hs => hs.transfer h, fun _ => .transfer h⟩
  rintro rfl
  exact ho hsign

theorem mintTo (h : L.mintTo k dest authority n = .ok L') (hn : n ≤ minted k) :
    Moves signs minted L L' := by
  refine ⟨fun _ => .mintTo h, fun hs => hs.mintTo h, fun k' => .mintTo h ?_⟩
  rintro rfl
  exact hn

theorem burn (h : L.burn source k authority n = .ok L') (hsign : signs authority) :
    Moves signs minted L L' := by
  refine ⟨fun {o} ho => .burn h ?_, fun hs => hs.burn h, fun _ => .burn h⟩
  rintro rfl
  exact ho hsign

end Moves

end Moves

/-! ## Paying in and out

A transfer into an account of an owner that does not sign it, and a transfer out of
its accounts. -/

section Pay

variable {L L' : Ledger A} {source k dest authority a : A} {n : Nat} {acc dst : Account A}

theorem heldBy_pay_in (h : L.transfer source k dest authority n = .ok L')
    (hdst : L.accounts.lookup dest = some dst) (hne : authority ≠ dst.owner) :
    heldBy dst.owner k L + n = heldBy dst.owner k L' := by
  obtain ⟨dst', hdst', -, hmove⟩ := heldBy_transfer h dst.owner k
  obtain rfl : dst = dst' := some.inj (hdst.symm.trans hdst')
  rw [if_neg fun he => hne he.1, if_pos ⟨rfl, rfl⟩] at hmove
  exact hmove.symm

theorem lookup_pay_in (h : L.transfer source k dest authority n = .ok L')
    (hdst : L.accounts.lookup dest = some dst) (hne : authority ≠ dst.owner) :
    L'.accounts.lookup dest = some { dst with amount := dst.amount + n } := by
  obtain ⟨src, dst', hsrc, hdst', hauth, -, -, -, -, rfl⟩ := transfer_eq_ok.1 h
  obtain rfl : dst = dst' := some.inj (hdst.symm.trans hdst')
  split
  · next hself =>
    subst hself
    obtain rfl : src = dst := some.inj (hsrc.symm.trans hdst)
    exact absurd hauth.symm hne
  · exact AList.lookup_insert _

theorem heldBy_pay_out (h : L.transfer source k dest authority n = .ok L') (o : A) :
    heldBy o k L ≤ heldBy o k L' + n := by
  obtain ⟨dst, -, -, hmove⟩ := heldBy_transfer h o k
  split at hmove <;> omega

theorem heldBy_other_mint {k' : A} (h : L.transfer source k dest authority n = .ok L') (o : A)
    (hne : k' ≠ k) : heldBy o k' L' = heldBy o k' L := by
  obtain ⟨dst, -, -, hmove⟩ := heldBy_transfer h o k'
  rwa [if_neg fun he => hne he.2.symm, if_neg fun he => hne he.2.symm] at hmove

theorem lookup_pay_out (h : L.transfer source k dest authority n = .ok L')
    (ha : L.accounts.lookup a = some acc) :
    ∃ m, acc.amount ≤ (m + if a = source then n else 0) ∧
      L'.accounts.lookup a = some { acc with amount := m } := by
  obtain ⟨src, dst, hsrc, hdst, -, -, -, -, -, hL⟩ := transfer_eq_ok.1 h
  by_cases hself : source = dest
  · rw [if_pos hself] at hL
    subst hL
    exact ⟨acc.amount, Nat.le_add_right _ _, ha⟩
  · rw [if_neg hself] at hL
    subst hL
    by_cases had : a = dest
    · subst had
      obtain rfl : acc = dst := some.inj (ha.symm.trans hdst)
      refine ⟨acc.amount + n, ?_, AList.lookup_insert _⟩
      omega
    · by_cases has : a = source
      · subst has
        obtain rfl : acc = src := some.inj (ha.symm.trans hsrc)
        refine ⟨acc.amount - n, ?_, ?_⟩
        · rw [if_pos rfl]
          omega
        · rw [lookup_insert_ne had]
          exact AList.lookup_insert _
      · refine ⟨acc.amount, Nat.le_add_right _ _, ?_⟩
        rw [lookup_insert_ne had, lookup_insert_ne has, ha]

theorem lookup_burn (h : L.burn source k authority n = .ok L')
    (ha : L.accounts.lookup a = some acc) :
    ∃ m, L'.accounts.lookup a = some { acc with amount := m } := by
  obtain ⟨m, src, -, hsrc, -, -, -, -, rfl⟩ := burn_eq_ok.1 h
  by_cases has : a = source
  · subst has
    obtain rfl : acc = src := some.inj (ha.symm.trans hsrc)
    exact ⟨_, AList.lookup_insert _⟩
  · exact ⟨acc.amount, by rw [lookup_insert_ne has, ha]⟩

theorem exists_transfer (hs : Sound L) {src : Account A} (hsrc : L.accounts.lookup source = some src)
    (hdst : L.accounts.lookup dest = some dst) (hauth : src.owner = authority) (hk : src.mint = k)
    (hk' : dst.mint = k) (hle : n ≤ src.amount) :
    ∃ L', L.transfer source k dest authority n = .ok L' := by
  refine ⟨_, transfer_eq_ok.2 ⟨src, dst, hsrc, hdst, hauth, hk, hk', hle, fun hself => ?_, rfl⟩⟩
  have hsum := amount_add_le_issued hself.symm hsrc hdst hk hk'
  have hlt := hs.issued_lt ⟨src, hsrc, hk⟩
  omega

theorem exists_burn (hs : Sound L) {src : Account A} (hsrc : L.accounts.lookup source = some src)
    (hauth : src.owner = authority) (hk : src.mint = k) (hle : n ≤ src.amount) :
    ∃ L', L.burn source k authority n = .ok L' := by
  obtain ⟨m, hm⟩ := hs.minted hsrc
  rw [hk] at hm
  have hsupply : n ≤ m.supply := by
    rw [← (hs.supply hm).1]
    exact Nat.le_trans hle (amount_le_issued hsrc hk)
  exact ⟨_, burn_eq_ok.2 ⟨m, src, hm, hsrc, hauth, hk, hle, hsupply, rfl⟩⟩

end Pay

end Ledger

end Aeqi.Lib.Token
