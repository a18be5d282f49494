import Aeqi.CapToken.Program

/-!
# The config slot, decoded by hand

`aeqi_token` reads the account of a bytes config with offsets of its own. They are those of the
borsh layout: what the trust program stores is decoded to its four fields, whatever lies behind
it in the account, and whatever is decoded was laid out that way.
-/

namespace Aeqi

open Lib Solana List
open Trusts (BytesConfig maxBytesConfig)

def Trusts.BytesConfig.borsh (cfg : BytesConfig) : Bytes :=
  keyBytes cfg.trust ++ keyBytes cfg.key ++ leBytes 4 cfg.value.length ++ cfg.value ++ [cfg.bump]

theorem Trusts.BytesConfig.serialize_eq (cfg : BytesConfig) :
    cfg.serialize = Trusts.bytesConfigDiscriminator ++ cfg.borsh := by
  simp [BytesConfig.serialize, BytesConfig.borsh]

namespace CapToken

/-! ## Reads in bounds -/

/-- `data[start..stop]`, and `none` where that panics. -/
def sliceAt (data : Bytes) (start stop : Nat) : Option Bytes :=
  if start ≤ stop ∧ stop ≤ data.length then some (slice data start stop) else none

def checked {α : Type} (x : Except TokenTxError α) : ExceptT TokenTxError Option α :=
  .mk (some x)

/-- `decode_bytes_config_account` with every read of the data made where it stands. -/
def readBytesConfigAccount (data : Bytes) : ExceptT TokenTxError Option BytesConfig := do
  let discriminatorLen := 8
  let pubkeyLen := 32
  let keyLen := 32
  let vecLenPrefix := 4
  let fixedPrefix := discriminatorLen + pubkeyLen + keyLen + vecLenPrefix
  checked (require (fixedPrefix < data.length) (.custom .invalidConfig))
  let trust ← sliceAt data discriminatorLen (discriminatorLen + pubkeyLen)
  let keyStart := discriminatorLen + pubkeyLen
  let key ← sliceAt data keyStart (keyStart + keyLen)
  let lenStart := keyStart + keyLen
  let valueLen ← sliceAt data lenStart (lenStart + vecLenPrefix)
  let valueStart := lenStart + vecLenPrefix
  let valueEnd ← checked
    (okOr (checkedAdd 64 valueStart (ofLeBytes valueLen)) (.custom .invalidConfig))
  checked (require (valueEnd < data.length) (.custom .invalidConfig))
  let value ← sliceAt data valueStart valueEnd
  let bump ← (data[valueEnd]? : Option (BitVec 8))
  pure { trust := ofKeyBytes trust, key := ofKeyBytes key, value, bump }

section Decode

variable {data disc rest : Bytes} {cfg : BytesConfig} {start stop : Nat}

theorem sliceAt_of_le (h : start ≤ stop) (h' : stop ≤ data.length) :
    sliceAt data start stop = some (slice data start stop) := if_pos ⟨h, h'⟩

/-- The length prefix of an account. -/
def valueLenOf (data : Bytes) : Nat := ofLeBytes (slice data 72 76)

theorem valueLenOf_lt (h : 76 ≤ data.length) : valueLenOf data < 2 ^ 32 := by
  have hlt := ofLeBytes_lt (slice data 72 76)
  rw [length_slice h] at hlt
  exact hlt

def fieldsOf (data : Bytes) : BytesConfig where
  trust := ofKeyBytes (slice data 8 40)
  key := ofKeyBytes (slice data 40 72)
  value := slice data 76 (76 + valueLenOf data)
  bump := data.getD (76 + valueLenOf data) 0

theorem decode_eq_ok : decodeBytesConfigAccount data = .ok cfg ↔
    76 + valueLenOf data < data.length ∧ fieldsOf data = cfg := by
  simp only [decodeBytesConfigAccount, bind_eq_ok, require_eq_ok, exists_punit, okOr_eq_ok,
    checkedAdd_eq_some, pure_eq_ok]
  constructor
  · rintro ⟨-, _, ⟨-, rfl⟩, hend, rfl⟩
    exact ⟨hend, rfl⟩
  · rintro ⟨hend, rfl⟩
    have hfixed : 76 < data.length := Nat.lt_of_le_of_lt (by omega) hend
    have hlen := valueLenOf_lt (Nat.le_of_lt hfixed)
    refine ⟨hfixed, _, ⟨?_, rfl⟩, hend, rfl⟩
    show 76 + valueLenOf data < 2 ^ 64
    omega

theorem checked_ok_bind {α β : Type} {a : α} {f : α → ExceptT TokenTxError Option β} :
    checked (.ok a) >>= f = f a := rfl

theorem read_bind {α β : Type} {a : α} {f : α → ExceptT TokenTxError Option β} :
    (liftM (some a) : ExceptT TokenTxError Option α) >>= f = f a := rfl

theorem read_eq_decode (data : Bytes) :
    readBytesConfigAccount data = checked (decodeBytesConfigAccount data) := by
  unfold readBytesConfigAccount decodeBytesConfigAccount
  by_cases hfixed : 8 + 32 + 32 + 4 < data.length
  · have hlen := valueLenOf_lt (Nat.le_of_lt hfixed)
    have hfits : checkedAdd 64 (8 + 32 + 32 + 4)
        (ofLeBytes (slice data (8 + 32 + 32) (8 + 32 + 32 + 4))) = some (76 + valueLenOf data) :=
      checkedAdd_eq_some.2 ⟨show 76 + valueLenOf data < 2 ^ 64 by omega, rfl⟩
    have htrust : sliceAt data 8 (8 + 32) = some (slice data 8 (8 + 32)) :=
      sliceAt_of_le (by decide) (by omega)
    have hkey : sliceAt data (8 + 32) (8 + 32 + 32) =
        some (slice data (8 + 32) (8 + 32 + 32)) := sliceAt_of_le (by decide) (by omega)
    have hlength : sliceAt data (8 + 32 + 32) (8 + 32 + 32 + 4) =
        some (slice data (8 + 32 + 32) (8 + 32 + 32 + 4)) :=
      sliceAt_of_le (by decide) (by omega)
    simp only [require, if_pos hfixed, htrust, hkey, hlength, hfits, okOr, checked_ok_bind,
      read_bind]
    by_cases hend : 76 + valueLenOf data < data.length
    · have hvalue : sliceAt data (8 + 32 + 32 + 4) (76 + valueLenOf data) =
          some (slice data (8 + 32 + 32 + 4) (76 + valueLenOf data)) :=
        sliceAt_of_le (by omega) (by omega)
      have hbump : data[76 + valueLenOf data]? = some (data.getD (76 + valueLenOf data) 0) := by
        rw [getD_eq_getElem _ _ hend, getElem?_eq_getElem hend]
      simp only [hvalue, hbump, bind, Except.bind, if_pos hend]
      rfl
    · simp only [bind, Except.bind, if_neg hend]
      rfl
  · simp only [require, if_neg hfixed]
    rfl

theorem borsh_fieldsOf (h : 76 + valueLenOf data < data.length) :
    (fieldsOf data).borsh <+: data.drop 8 := by
  have htrust : keyBytes (fieldsOf data).trust = slice data 8 40 :=
    keyBytes_ofKeyBytes (length_slice (by omega))
  have hkey : keyBytes (fieldsOf data).key = slice data 40 72 :=
    keyBytes_ofKeyBytes (length_slice (by omega))
  have hvalue : (fieldsOf data).value.length = valueLenOf data := by
    show (slice data 76 (76 + valueLenOf data)).length = _
    rw [length_slice (by omega), Nat.add_sub_cancel_left]
  have hlen : leBytes 4 (fieldsOf data).value.length = slice data 72 76 := by
    rw [hvalue]
    exact leBytes_ofLeBytes (length_slice (by omega))
  have hbump : [(fieldsOf data).bump] ++ data.drop (76 + valueLenOf data + 1) =
      data.drop (76 + valueLenOf data) := by
    rw [drop_eq_getElem_cons h]
    show data.getD _ 0 :: data.drop _ = _
    rw [getD_eq_getElem _ _ h]
  refine ⟨data.drop (76 + valueLenOf data + 1), ?_⟩
  rw [BytesConfig.borsh, htrust, hkey, hlen, append_assoc _ [_], hbump]
  show slice data 8 40 ++ slice data 40 72 ++ slice data 72 76 ++
    slice data 76 (76 + valueLenOf data) ++ data.drop (76 + valueLenOf data) = data.drop 8
  simp only [append_assoc]
  rw [slice_append_drop (by omega), slice_append_drop (by omega), slice_append_drop (by omega),
    slice_append_drop (by omega)]

theorem decode_borsh (hdisc : disc.length = 8) (hvalue : cfg.value.length < 2 ^ 32) :
    decodeBytesConfigAccount (disc ++ cfg.borsh ++ rest) = .ok cfg := by
  generalize hdata : disc ++ cfg.borsh ++ rest = data
  have htrust : slice data 8 40 = keyBytes cfg.trust := by
    have hsplit : data = disc ++ (keyBytes cfg.trust ++ (keyBytes cfg.key ++
        leBytes 4 cfg.value.length ++ cfg.value ++ cfg.bump :: rest)) := by
      simp [← hdata, BytesConfig.borsh]
    rw [hsplit]
    exact slice_append hdisc (by simp)
  have hkey : slice data 40 72 = keyBytes cfg.key := by
    have hsplit : data = disc ++ keyBytes cfg.trust ++ (keyBytes cfg.key ++
        (leBytes 4 cfg.value.length ++ cfg.value ++ cfg.bump :: rest)) := by
      simp [← hdata, BytesConfig.borsh]
    rw [hsplit]
    exact slice_append (by simp [hdisc]) (by simp)
  have hprefix : slice data 72 76 = leBytes 4 cfg.value.length := by
    have hsplit : data = disc ++ keyBytes cfg.trust ++ keyBytes cfg.key ++
        (leBytes 4 cfg.value.length ++ (cfg.value ++ cfg.bump :: rest)) := by
      simp [← hdata, BytesConfig.borsh]
    rw [hsplit]
    exact slice_append (by simp [hdisc]) (by simp)
  have hsplit : data = disc ++ keyBytes cfg.trust ++ keyBytes cfg.key ++
      leBytes 4 cfg.value.length ++ (cfg.value ++ cfg.bump :: rest) := by
    simp [← hdata, BytesConfig.borsh]
  have hfront : (disc ++ keyBytes cfg.trust ++ keyBytes cfg.key ++
      leBytes 4 cfg.value.length).length = 76 := by simp [hdisc]
  have hlen : valueLenOf data = cfg.value.length := by
    rw [valueLenOf, hprefix]
    exact ofLeBytes_leBytes hvalue
  have hval : slice data 76 (76 + cfg.value.length) = cfg.value := by
    rw [hsplit]
    exact slice_append hfront rfl
  have hbump : data[76 + cfg.value.length]? = some cfg.bump := by
    rw [hsplit, getElem?_append_right (by omega), hfront, Nat.add_sub_cancel_left,
      getElem?_append_right (le_rfl), Nat.sub_self]
    rfl
  rw [decode_eq_ok, fieldsOf, htrust, hkey, hlen, hval, List.getD, hbump, ofKeyBytes_keyBytes,
    ofKeyBytes_keyBytes]
  exact ⟨(List.getElem?_eq_some_iff.1 hbump).1, rfl⟩

end Decode

/-- **The hand-written decoder inverts the layout** that borsh gives a stored config, with any
padding behind it, and never reads out of bounds. -/
theorem decoder_inverts_layout :
    (∀ (disc : Bytes) (cfg : BytesConfig) (padding : Nat), disc.length = 8 →
      cfg.value.length ≤ maxBytesConfig →
      decodeBytesConfigAccount (disc ++ cfg.borsh ++ List.replicate padding 0) = .ok cfg) ∧
    (∀ s k authority key value bump s',
      Trusts.setBytesConfig s k authority key value bump = .ok s' →
      ∃ data, s'.bytesConfigs.lookup ⟨k, key⟩ = some data ∧
        decodeBytesConfigAccount data = .ok ⟨k, key, value, bump⟩) ∧
    ∀ data, readBytesConfigAccount data = checked (decodeBytesConfigAccount data) ∧
      ∀ cfg, decodeBytesConfigAccount data = .ok cfg → cfg.borsh <+: data.drop 8 := by
  have hsmall : ∀ {n : Nat}, n ≤ maxBytesConfig → n < 2 ^ 32 := fun h =>
    Nat.lt_of_le_of_lt h (by decide)
  refine ⟨fun disc cfg padding hdisc hvalue => decode_borsh hdisc (hsmall hvalue), ?_, ?_⟩
  · intro s k authority key value bump s' h
    simp only [Trusts.setBytesConfig, bind_eq_ok, require_eq_ok, exists_punit] at h
    obtain ⟨_, -, hvalue, _, -, rfl⟩ := h
    refine ⟨_, AList.lookup_insert _, ?_⟩
    rw [BytesConfig.serialize_eq]
    exact decode_borsh rfl (hsmall hvalue)
  · intro data
    refine ⟨read_eq_decode data, fun cfg h => ?_⟩
    obtain ⟨hend, rfl⟩ := decode_eq_ok.1 h
    exact borsh_fieldsOf hend

/-- An empty value in an account with ten spare bytes. -/
theorem emptyConfig_decoded : decodeBytesConfigAccount (Trusts.bytesConfigDiscriminator ++
    (⟨1, 2, [], 255⟩ : BytesConfig).borsh ++ List.replicate 10 0) = .ok ⟨1, 2, [], 255⟩ :=
  decoder_inverts_layout.1 Trusts.bytesConfigDiscriminator ⟨1, 2, [], 255⟩ 10 rfl (by decide)

end CapToken

end Aeqi
