import Aeqi.Lib.Token
import Aeqi.Solana.Anchor

/-!
# Addresses on the shared ledger

The capital programs keep their vaults in one ledger of the token program. A vault is any
token account of the right mint whose owner is an authority that a program derives; the
authority signs inside that program's handlers only, so what it holds is safe from what
everybody can do in the token program with a key of their own (`execToken_moves`).
-/

namespace Aeqi.Solana

open Aeqi.Lib
open Token (Ledger)
open Token.Ledger (Moves)

/-- The seeds `[b"..", trust, id]` of an account that belongs to a trust. -/
structure TrustPda where
  trust : Pubkey
  id : Bytes32
  deriving DecidableEq

/-- Mints, token accounts and their owners. Only a `wallet` signs transactions. -/
inductive Address
  | wallet (key : Pubkey)
  | curveAuthority (curve : TrustPda)
  | saleAuthority (sale : TrustPda)
  | exitAuthority (exit : TrustPda)
  | fundAuthority (fund : TrustPda)
  | vestingVaultAuthority (trust : Pubkey)
  | tokenAuthority (trust : Pubkey)
  | tokenMint (trust : Pubkey)
  | associated (owner mint : Address)
  deriving DecidableEq

/-! ## Constraints -/

section Constraints

variable {ε V : Type}

/-- `seeds = [b"..", account.trust, account.id]`: the account repeats its own seeds. -/
def loadPda (s : Accounts TrustPda V) (seeds : V → TrustPda) (k : TrustPda) :
    Except (TxError ε) V := do
  let v ← load s k
  require (k = seeds v) (.anchor .constraintSeeds)
  pure v

/-- `InterfaceAccount<Mint>`. -/
def loadMint (tokens : Ledger Address) (mint : Address) :
    Except (TxError ε) (Token.Mint Address) :=
  okOr (tokens.mints.lookup mint) (.anchor .accountNotInitialized)

/-- `InterfaceAccount<TokenAccount>` with `token::mint = mint`. -/
def loadTokenAccount (tokens : Ledger Address) (a mint : Address) :
    Except (TxError ε) (Token.Account Address) := do
  let acc ← okOr (tokens.accounts.lookup a) (.anchor .accountNotInitialized)
  require (acc.mint = mint) (.anchor .constraintTokenMint)
  pure acc

/-- `token::mint = mint, token::authority = owner`. -/
def checkOwned (tokens : Ledger Address) (a mint owner : Address) : Except (TxError ε) Unit := do
  let acc ← loadTokenAccount tokens a mint
  require (acc.owner = owner) (.anchor .constraintTokenOwner)

def invoke (x : Except Token.Error (Ledger Address)) : Except (TxError ε) (Ledger Address) :=
  x.mapError fun _ => .anchor .tokenProgram

def Owned (tokens : Ledger Address) (a mint owner : Address) : Prop :=
  ∃ acc, tokens.accounts.lookup a = some acc ∧ acc.mint = mint ∧ acc.owner = owner

variable {tokens tokens' : Ledger Address} {a mint owner source dest authority : Address}
  {k : TrustPda} {n : Nat}

@[simp] theorem loadPda_eq_ok {s : Accounts TrustPda V} {seeds : V → TrustPda} {v : V} :
    (loadPda s seeds k : Except (TxError ε) V) = .ok v ↔ s.lookup k = some v ∧ k = seeds v := by
  simp only [loadPda, bind_eq_ok, load_eq_ok, require_eq_ok, exists_punit, pure_eq_ok]
  constructor
  · rintro ⟨_, hv, hk, rfl⟩
    exact ⟨hv, hk⟩
  · rintro ⟨hv, hk⟩
    exact ⟨v, hv, hk, rfl⟩

@[simp] theorem loadMint_eq_ok {m : Token.Mint Address} :
    (loadMint tokens mint : Except (TxError ε) _) = .ok m ↔ tokens.mints.lookup mint = some m :=
  okOr_eq_ok

@[simp] theorem loadTokenAccount_eq_ok {acc : Token.Account Address} :
    (loadTokenAccount tokens a mint : Except (TxError ε) _) = .ok acc ↔
      tokens.accounts.lookup a = some acc ∧ acc.mint = mint := by
  simp only [loadTokenAccount, bind_eq_ok, okOr_eq_ok, require_eq_ok, exists_punit, pure_eq_ok]
  constructor
  · rintro ⟨_, ha, hm, rfl⟩
    exact ⟨ha, hm⟩
  · rintro ⟨ha, hm⟩
    exact ⟨acc, ha, hm, rfl⟩

@[simp] theorem checkOwned_eq_ok {u : Unit} :
    (checkOwned tokens a mint owner : Except (TxError ε) Unit) = .ok u ↔ Owned tokens a mint owner := by
  simp [checkOwned, bind_eq_ok, Owned, and_assoc]

@[simp] theorem invoke_eq_ok {x : Except Token.Error (Ledger Address)} :
    (invoke x : Except (TxError ε) _) = .ok tokens ↔ x = .ok tokens := mapError_eq_ok

/-! The constraints fail with errors of the framework, never with a program's own. -/

section Custom

variable {e : ε}

@[simp] theorem loadPda_ne_custom {s : Accounts TrustPda V} {seeds : V → TrustPda} :
    (loadPda s seeds k : Except (TxError ε) V) = .error (.custom e) ↔ False := by
  simp only [loadPda, bind_eq_error]
  simp

@[simp] theorem loadMint_ne_custom :
    (loadMint tokens mint : Except (TxError ε) _) = .error (.custom e) ↔ False := by
  simp [loadMint]

@[simp] theorem loadTokenAccount_ne_custom :
    (loadTokenAccount tokens a mint : Except (TxError ε) _) = .error (.custom e) ↔ False := by
  simp only [loadTokenAccount, bind_eq_error]
  simp

@[simp] theorem checkOwned_ne_custom :
    (checkOwned tokens a mint owner : Except (TxError ε) Unit) = .error (.custom e) ↔ False := by
  simp only [checkOwned, bind_eq_error]
  simp

@[simp] theorem invoke_ne_custom {x : Except Token.Error (Ledger Address)} :
    (invoke x : Except (TxError ε) _) = .error (.custom e) ↔ False := by
  simp [invoke, mapError_eq_error]

end Custom

theorem Owned.pay_in (ho : Owned tokens dest mint owner)
    (h : tokens.transfer source mint dest authority n = .ok tokens') (hne : authority ≠ owner) :
    Token.Ledger.heldBy owner mint tokens + n = Token.Ledger.heldBy owner mint tokens' := by
  obtain ⟨acc, hacc, -, rfl⟩ := ho
  exact Token.Ledger.heldBy_pay_in h hacc hne

end Constraints

/-! ## The token program in everybody's hands -/

/-- What a key can do in the token program by itself. -/
inductive TokenIx
  | initializeMint (key authority : Pubkey)
  | initializeAccount (key : Pubkey) (mint owner : Address)
  | createAssociated (mint owner : Address)
  | mintTo (mint dest : Address) (authority : Pubkey) (amount : Nat)
  | transfer (source mint dest : Address) (authority : Pubkey) (amount : Nat)
  | burn (source mint : Address) (authority : Pubkey) (amount : Nat)

def execToken (tokens : Ledger Address) : TokenIx → Except Token.Error (Ledger Address)
  | .initializeMint key authority => tokens.initializeMint (.wallet key) (.wallet authority)
  | .initializeAccount key mint owner => tokens.initializeAccount (.wallet key) mint owner
  | .createAssociated mint owner => tokens.initializeAccount (.associated owner mint) mint owner
  | .mintTo mint dest authority amount => tokens.mintTo mint dest (.wallet authority) amount
  | .transfer source mint dest authority amount =>
    tokens.transfer source mint dest (.wallet authority) amount
  | .burn source mint authority amount => tokens.burn source mint (.wallet authority) amount

def Signs (authority : Option Address) (o : Address) : Prop :=
  (∃ key, o = .wallet key) ∨ authority = some o

def TokenIx.minted : TokenIx → Address → Nat
  | .mintTo mint _ _ amount, k => if mint = k then amount else 0
  | _, _ => 0

theorem execToken_moves {tokens tokens' : Ledger Address} {ix : TokenIx}
    (h : execToken tokens ix = .ok tokens') : Moves (Signs none) ix.minted tokens tokens' := by
  cases ix with
  | initializeMint key authority => exact .initializeMint h
  | initializeAccount key mint owner | createAssociated mint owner => exact .initializeAccount h
  | mintTo mint dest authority amount => exact .mintTo h (if_pos rfl).ge
  | transfer source mint dest authority amount => exact .transfer h (.inl ⟨authority, rfl⟩)
  | burn source mint authority amount => exact .burn h (.inl ⟨authority, rfl⟩)

end Aeqi.Solana
