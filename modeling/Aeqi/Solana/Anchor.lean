import Aeqi.Lib.Accounts
import Aeqi.Lib.Result

/-!
# The runtime the programs share

Keys, the clock, the errors a transaction can end with, and the ways an Anchor
account constraint reads an account.

An address slot whose key is fixed by a `seeds = [...]` constraint is no choice
of the caller, so it is not an input of the modelled instruction: the key is
derived where the constraint derives it. A program-derived address *is* its
tuple of seeds. A store holds the accounts of one type, so reading an account of
the wrong type fails like reading an absent one.

Every account field of an instruction is an independent copy, read in struct
order and written back in struct order when the handler returns.
-/

namespace Aeqi.Solana

open Aeqi.Lib

/-- A 32-byte public key; `Pubkey::default()` is `0`. -/
abbrev Pubkey := BitVec 256

abbrev Bytes32 := BitVec 256

abbrev Bytes64 := BitVec 512

structure Clock where
  slot : Nat
  unixTimestamp : Int

/-- Errors raised by the framework before or after a handler runs. -/
inductive AnchorError
  | accountNotInitialized
  | accountAlreadyInUse
  | constraintHasOne
  | constraintSeeds
  | constraintTokenMint
  | constraintTokenOwner
  | tokenProgram
  deriving DecidableEq

/-- How a transaction fails: in the framework, or with a program's own error. -/
inductive TxError (ε : Type)
  | anchor (e : AnchorError)
  | custom (e : ε)
  deriving DecidableEq

section Accounts

variable {ε K V : Type} [DecidableEq K] {s : Accounts K V} {k : K} {v : V}

/-- `Account<T>`: the account must exist. -/
def load (s : Accounts K V) (k : K) : Except (TxError ε) V :=
  okOr (s.lookup k) (.anchor .accountNotInitialized)

def loadOption (s : Accounts K V) : Option K → Except (TxError ε) (Option V)
  | none => .ok none
  | some k => some <$> load s k

/-- `init`: the account must not exist yet. -/
def requireFree (s : Accounts K V) (k : K) : Except (TxError ε) Unit :=
  require ((s.lookup k).isNone = true) (.anchor .accountAlreadyInUse)

/-- `init_if_needed`: an absent account starts out zeroed. -/
def initIfNeeded (s : Accounts K V) (k : K) (zeroed : V) : V := (s.lookup k).getD zeroed

@[simp] theorem load_eq_ok : (load s k : Except (TxError ε) V) = .ok v ↔ s.lookup k = some v :=
  okOr_eq_ok

@[simp] theorem requireFree_eq_ok {u : Unit} :
    (requireFree s k : Except (TxError ε) Unit) = .ok u ↔ s.lookup k = none := by
  simp [requireFree]

@[simp] theorem load_ne_custom {e : ε} : (load s k : Except (TxError ε) V) = .error (.custom e) ↔
    False := by
  simp [load]

@[simp] theorem loadOption_eq_some {o : Option K} :
    (loadOption s o : Except (TxError ε) (Option V)) = .ok (some v) ↔
      ∃ k, o = some k ∧ s.lookup k = some v := by
  cases o with
  | none => simp [loadOption]
  | some k => cases h : s.lookup k <;> simp [loadOption, load, okOr, h]

end Accounts

end Aeqi.Solana

/-!
## Account data as bytes

The pieces of the borsh encoding that programs write and read by hand: integers are
little-endian, a key is its 32 bytes with the most significant one first.
-/

namespace Aeqi.Solana

open List

abbrev Bytes := List (BitVec 8)

/-- `n.to_le_bytes()` for an integer of `w` bytes. -/
def leBytes : (w n : Nat) → Bytes
  | 0, _ => []
  | w + 1, n => BitVec.ofNat 8 n :: leBytes w (n / 256)

/-- `from_le_bytes`. -/
def ofLeBytes : Bytes → Nat
  | [] => 0
  | b :: bytes => b.toNat + 256 * ofLeBytes bytes

def keyBytes (key : Bytes32) : Bytes := (leBytes 32 key.toNat).reverse

def ofKeyBytes (bytes : Bytes) : Bytes32 := BitVec.ofNat 256 (ofLeBytes bytes.reverse)

/-- `data[start..stop]`. -/
def slice (data : Bytes) (start stop : Nat) : Bytes := (data.take stop).drop start

def overwrite (data bytes : Bytes) : Bytes := bytes ++ data.drop bytes.length

/-! ## Reading what was written -/

section Bytes

variable {bytes front middle back : Bytes} {w n start stop : Nat}

@[simp] theorem length_leBytes (w n : Nat) : (leBytes w n).length = w := by
  induction w generalizing n with
  | zero => rfl
  | succ w ih => rw [leBytes, length_cons, ih]

theorem ofLeBytes_lt (bytes : Bytes) : ofLeBytes bytes < 256 ^ bytes.length := by
  induction bytes with
  | nil => exact Nat.zero_lt_one
  | cons b bytes ih =>
    rw [ofLeBytes, length_cons]
    omega

theorem ofLeBytes_leBytes (h : n < 256 ^ w) : ofLeBytes (leBytes w n) = n := by
  induction w generalizing n with
  | zero =>
    exact (Nat.lt_one_iff.1 h).symm
  | succ w ih =>
    have hrest : n / 256 < 256 ^ w := by
      omega
    rw [leBytes, ofLeBytes, ih hrest]
    exact Nat.mod_add_div n 256

theorem leBytes_ofLeBytes (h : bytes.length = w) : leBytes w (ofLeBytes bytes) = bytes := by
  induction bytes generalizing w with
  | nil =>
    subst h
    rfl
  | cons b bytes ih =>
    subst h
    have hlow : BitVec.ofNat 8 (ofLeBytes (b :: bytes)) = b := by
      apply BitVec.eq_of_toNat_eq
      rw [BitVec.toNat_ofNat, ofLeBytes]
      omega
    have hhigh : ofLeBytes (b :: bytes) / 256 = ofLeBytes bytes := by
      rw [ofLeBytes]
      omega
    rw [length_cons, leBytes, hlow, hhigh, ih rfl]

@[simp] theorem length_keyBytes (key : Bytes32) : (keyBytes key).length = 32 := by
  rw [keyBytes, length_reverse, length_leBytes]

theorem ofKeyBytes_keyBytes (key : Bytes32) : ofKeyBytes (keyBytes key) = key := by
  have hkey : key.toNat < 256 ^ 32 := key.isLt
  rw [ofKeyBytes, keyBytes, reverse_reverse, ofLeBytes_leBytes hkey, BitVec.ofNat_toNat,
    BitVec.setWidth_eq]

theorem keyBytes_ofKeyBytes (h : bytes.length = 32) : keyBytes (ofKeyBytes bytes) = bytes := by
  have hlength : bytes.reverse.length = 32 := by rw [length_reverse, h]
  have hlt : ofLeBytes bytes.reverse < 2 ^ 256 := by
    have hlt := ofLeBytes_lt bytes.reverse
    rw [hlength] at hlt
    exact hlt
  rw [keyBytes, ofKeyBytes, BitVec.toNat_ofNat, Nat.mod_eq_of_lt hlt, leBytes_ofLeBytes hlength,
    reverse_reverse]

theorem slice_append (hstart : front.length = start) (hstop : start + middle.length = stop) :
    slice (front ++ (middle ++ back)) start stop = middle := by
  subst hstart hstop
  rw [slice, take_length_add_append, drop_left, take_left]

theorem length_slice (hstop : stop ≤ bytes.length) :
    (slice bytes start stop).length = stop - start := by
  rw [slice, length_drop, length_take, Nat.min_eq_left hstop]

theorem slice_append_drop (h : start ≤ stop) :
    slice bytes start stop ++ bytes.drop stop = bytes.drop start := by
  have hdrop : bytes.drop stop = (bytes.drop start).drop (stop - start) := by
    rw [drop_drop, Nat.add_sub_cancel' h]
  rw [slice, drop_take, hdrop, take_append_drop]

end Bytes

end Aeqi.Solana
