import Aeqi.Lib.Scanning
import Aeqi.Lib.Text

/-!
# Secrets in the bodies of ideas

`redact_secrets` of `aeqi-ideas`. It works on bytes; the bytes of a character outside ASCII are
none that a secret is made of, so characters stand for them here.
-/

namespace Aeqi.Ideas

open Aeqi.Lib List Option
open Char (isAlphanum isDigit)

def REDACTION : List Char := "[REDACTED]".toList

def isTokenByte (b : Char) : Bool := b.isAlphanum || b = '_' || b = '-'

def isBearerByte (b : Char) : Bool := b.isAlphanum || b = '_' || b = '-' || b = '.' || b = '='

def isUpperOrDigit (b : Char) : Bool := b.isUpper || b.isDigit

def runLength (p : Char → Bool) (s : List Char) : Nat := (s.takeWhile p).length

def matchTelegramToken (s : List Char) : Option Nat :=
  let digits := runLength isDigit s
  if ¬ (8 ≤ digits ∧ digits ≤ 10) then none
  else if s[digits]? ≠ some ':' then none
  else
    let start := digits + 1
    let suffix := runLength isTokenByte (s.drop start)
    if suffix < 30 then none else some (start + suffix)

def matchHeader (headers : List String) (width : Nat) (byte : Char → Bool) (least : Nat)
    (s : List Char) : Option Nat :=
  if ¬ headers.any (fun header => s.take width = header.toList) then none
  else
    let n := width + runLength byte (s.drop width)
    if n - width < least then none else some n

def matchSkKey (s : List Char) : Option Nat :=
  if byteLength s < 23 then none else matchHeader ["sk-"] 3 isTokenByte 20 s

def matchBearerToken (s : List Char) : Option Nat :=
  if byteLength s < 8 then none else matchHeader ["Bearer "] 7 isBearerByte 20 s

/-- Exactly so many bytes behind the header. -/
def matchAwsAccessKey (s : List Char) : Option Nat :=
  if byteLength s < 20 then none
  else if s.take 4 ≠ "AKIA".toList then none
  else if ¬ ((s.drop 4).take 16).all isUpperOrDigit ∨ ((s.drop 4).take 16).length < 16 then none
  else some 20

def matchGithubToken (s : List Char) : Option Nat :=
  if byteLength s < 40 then none
  else matchHeader ["ghp_", "gho_", "ghs_", "ghu_", "ghr_"] 4 isTokenByte 36 s

def matchSecret (s : List Char) : Option Nat :=
  matchTelegramToken s <|> matchSkKey s <|> matchBearerToken s <|> matchAwsAccessKey s <|>
    matchGithubToken s

/-! ## Heads -/

def Headed (headers : List String) (byte : Char → Bool) (least : Nat) (p : List Char) : Prop :=
  ∃ header ∈ headers, ∃ body, p = header.toList ++ body ∧ body.length = least ∧
    ∀ b ∈ body, byte b

def TelegramHead (p : List Char) : Prop :=
  ∃ digits body, p = digits ++ ':' :: body ∧ 8 ≤ digits.length ∧ digits.length ≤ 10 ∧
    (∀ b ∈ digits, b.isDigit) ∧ body.length = 30 ∧ ∀ b ∈ body, isTokenByte b

def SecretHead (p : List Char) : Prop :=
  TelegramHead p ∨ Headed ["sk-"] isTokenByte 20 p ∨ Headed ["Bearer "] isBearerByte 20 p ∨
    Headed ["AKIA"] isUpperOrDigit 16 p ∨
      Headed ["ghp_", "gho_", "ghs_", "ghu_", "ghr_"] isTokenByte 36 p

section Heads

variable {s : List Char}

theorem length_le_byteLength (s : List Char) : s.length ≤ byteLength s := by
  induction s with
  | nil => exact le_rfl
  | cons c s ih =>
    have hc : 1 ≤ c.utf8Size := c.utf8Size_pos
    have hcons : byteLength (c :: s) = c.utf8Size + byteLength s := by simp [byteLength]
    rw [length_cons]
    omega

theorem runLength_le (p : Char → Bool) (s : List Char) : runLength p s ≤ s.length :=
  (List.takeWhile_prefix p).length_le

theorem le_runLength_iff {p : Char → Bool} {n : Nat} :
    n ≤ runLength p s ↔ ∃ body, body.length = n ∧ (∀ b ∈ body, p b) ∧ body <+: s := by
  constructor
  · intro h
    refine ⟨(s.takeWhile p).take n, length_take_of_le h, fun b hb => ?_, ?_⟩
    · exact mem_takeWhile_imp (mem_of_mem_take hb)
    · exact (List.take_prefix n _).trans (List.takeWhile_prefix p)
  · rintro ⟨body, rfl, hbody, -, rfl⟩
    rw [runLength, takeWhile_append_of_pos hbody, List.length_append]
    omega

section Header

variable {headers : List String} {width least n : Nat} {byte : Char → Bool}

theorem matchHeader_eq_some : matchHeader headers width byte least s = some n ↔
    (∃ header ∈ headers, s.take width = header.toList) ∧ least ≤ runLength byte (s.drop width) ∧
      width + runLength byte (s.drop width) = n := by
  unfold matchHeader
  simp

theorem matchHeader_isSome (hwidth : ∀ header ∈ headers, header.toList.length = width) :
    (matchHeader headers width byte least s).isSome ↔ ∃ p, Headed headers byte least p ∧ p <+: s := by
  rw [isSome_iff_exists]
  constructor
  · rintro ⟨n, hn⟩
    obtain ⟨⟨header, hmem, htake⟩, hleast, -⟩ := matchHeader_eq_some.mp hn
    obtain ⟨body, hlength, hbody, rest, hrest⟩ := le_runLength_iff.mp hleast
    refine ⟨_, ⟨header, hmem, body, rfl, hlength, hbody⟩, rest, ?_⟩
    rw [← htake, List.append_assoc, hrest, take_append_drop]
  · rintro ⟨p, ⟨header, hmem, body, rfl, hlength, hbody⟩, rest, rfl⟩
    have hdrop : (header.toList ++ body ++ rest).drop width = body ++ rest := by
      rw [List.append_assoc, ← hwidth header hmem, drop_left]
    have htake : (header.toList ++ body ++ rest).take width = header.toList := by
      rw [List.append_assoc, ← hwidth header hmem, take_left]
    refine ⟨_, matchHeader_eq_some.mpr ⟨⟨header, hmem, htake⟩, ?_, rfl⟩⟩
    rw [hdrop]
    exact le_runLength_iff.mpr ⟨body, hlength, hbody, prefix_append _ _⟩

theorem matchHeader_le (h : matchHeader headers width byte least s = some n)
    (hwidth : ∀ header ∈ headers, header.toList.length = width) :
    width + least ≤ n ∧ n ≤ s.length := by
  obtain ⟨⟨header, hmem, htake⟩, hleast, rfl⟩ := matchHeader_eq_some.mp h
  have hrun := runLength_le byte (s.drop width)
  have hlength := congrArg List.length htake
  rw [hwidth header hmem, length_take] at hlength
  rw [length_drop] at hrun
  omega

theorem headed_length {p : List Char} (hwidth : ∀ header ∈ headers, header.toList.length = width)
    (h : Headed headers byte least p) : p.length = width + least := by
  obtain ⟨header, hmem, body, rfl, hlength, -⟩ := h
  rw [List.length_append, hlength, hwidth header hmem]

theorem guarded_isSome {f : List Char → Option Nat} {m : Nat} {head : List Char → Prop}
    (hf : (f s).isSome ↔ ∃ p, head p ∧ p <+: s) (hm : ∀ p, head p → m ≤ p.length) :
    (if byteLength s < m then none else f s).isSome ↔ ∃ p, head p ∧ p <+: s := by
  split
  · refine ⟨nofun, ?_⟩
    rintro ⟨p, hp, hprefix⟩
    have h₁ := hm p hp
    have h₂ := hprefix.length_le
    have h₃ := length_le_byteLength s
    omega
  · exact hf

theorem guarded_eq_some {f : List Char → Option Nat} {m : Nat}
    (h : (if byteLength s < m then none else f s) = some n) : f s = some n := by
  split at h
  · cases h
  · exact h

end Header

section Telegram

variable {n : Nat}

theorem matchTelegramToken_eq_some : matchTelegramToken s = some n ↔
    (8 ≤ runLength isDigit s ∧ runLength isDigit s ≤ 10) ∧ s[runLength isDigit s]? = some ':' ∧
        30 ≤ runLength isTokenByte (s.drop (runLength isDigit s + 1)) ∧ runLength isDigit s + 1 +
            runLength isTokenByte (s.drop (runLength isDigit s + 1)) = n := by
  unfold matchTelegramToken
  simp

theorem matchTelegramToken_isSome :
    (matchTelegramToken s).isSome ↔ ∃ p, TelegramHead p ∧ p <+: s := by
  rw [isSome_iff_exists]
  constructor
  · rintro ⟨n, hn⟩
    obtain ⟨⟨hmin, hmax⟩, hcolon, hsuffix, -⟩ := matchTelegramToken_eq_some.mp hn
    obtain ⟨body, hlength, hbody, rest, hrest⟩ := le_runLength_iff.mp hsuffix
    refine ⟨_, ⟨s.takeWhile isDigit, body, rfl, hmin, hmax,
      fun b hb => mem_takeWhile_imp hb, hlength, hbody⟩, rest, ?_⟩
    obtain ⟨hlt, hget⟩ := List.getElem?_eq_some_iff.mp hcolon
    have hdrop : s.drop (runLength isDigit s) = ':' :: (body ++ rest) := by
      rw [drop_eq_getElem_cons hlt, hget, hrest]
    have htake : s.takeWhile isDigit = s.take (runLength isDigit s) :=
      prefix_iff_eq_take.mp (List.takeWhile_prefix _)
    rw [htake, List.append_assoc, cons_append, ← hdrop, take_append_drop]
  · rintro ⟨p, ⟨digits, body, rfl, hmin, hmax, hdigits, hlength, hbody⟩, rest, rfl⟩
    have hs : digits ++ ':' :: body ++ rest = digits ++ ':' :: (body ++ rest) := by simp
    have hrun : runLength isDigit (digits ++ ':' :: (body ++ rest)) = digits.length := by
      rw [runLength, takeWhile_append_of_pos hdigits, takeWhile_cons_of_neg (by decide), append_nil]
    rw [hs]
    refine ⟨_, matchTelegramToken_eq_some.mpr ⟨?_, ?_, ?_, rfl⟩⟩
    · rw [hrun]
      exact ⟨hmin, hmax⟩
    · rw [hrun, getElem?_append_right (by omega), Nat.sub_self]
      rfl
    · rw [hrun, drop_append, drop_of_length_le (by omega), Nat.add_sub_cancel_left]
      exact le_runLength_iff.mpr ⟨body, hlength, hbody, prefix_append _ _⟩

theorem matchTelegramToken_le (h : matchTelegramToken s = some n) : 39 ≤ n ∧ n ≤ s.length := by
  obtain ⟨⟨hmin, -⟩, hcolon, hsuffix, rfl⟩ := matchTelegramToken_eq_some.mp h
  obtain ⟨-, -⟩ := List.getElem?_eq_some_iff.mp hcolon
  have hrun := runLength_le isTokenByte (s.drop (runLength isDigit s + 1))
  rw [length_drop] at hrun
  omega

end Telegram

section Aws

variable {n : Nat}

theorem matchAwsAccessKey_eq_some : matchAwsAccessKey s = some n ↔ 20 ≤ byteLength s ∧
    s.take 4 = "AKIA".toList ∧ (((s.drop 4).take 16).all isUpperOrDigit ∧
      16 ≤ ((s.drop 4).take 16).length) ∧ 20 = n := by
  unfold matchAwsAccessKey
  simp only [ite_none_left_eq_some, not_or, not_not, Option.some.injEq, Nat.not_lt]

theorem matchAwsAccessKey_isSome :
    (matchAwsAccessKey s).isSome ↔ ∃ p, Headed ["AKIA"] isUpperOrDigit 16 p ∧ p <+: s := by
  rw [isSome_iff_exists]
  constructor
  · rintro ⟨n, hn⟩
    obtain ⟨-, htake, ⟨hall, hlength⟩, -⟩ := matchAwsAccessKey_eq_some.mp hn
    refine ⟨s.take 4 ++ (s.drop 4).take 16, ⟨"AKIA", mem_singleton_self _, _, by rw [htake],
      ?_, List.all_eq_true.mp hall⟩, (s.drop 4).drop 16, ?_⟩
    · exact Nat.le_antisymm (length_take_le _ _) hlength
    · rw [List.append_assoc, take_append_drop, take_append_drop]
  · rintro ⟨p, ⟨header, hmem, body, rfl, hlength, hbody⟩, rest, rfl⟩
    obtain rfl := mem_singleton.mp hmem
    have hdrop : ("AKIA".toList ++ body ++ rest).drop 4 = body ++ rest := by
      rfl
    have htake : (body ++ rest).take 16 = body := by rw [← hlength, take_left]
    refine ⟨20, matchAwsAccessKey_eq_some.mpr ⟨?_, ?_, ?_, rfl⟩⟩
    · refine Nat.le_trans ?_ (length_le_byteLength _)
      simp [hlength]
    · rfl
    · rw [hdrop, htake, hlength]
      exact ⟨List.all_eq_true.mpr hbody, le_rfl⟩

theorem matchAwsAccessKey_le (h : matchAwsAccessKey s = some n) : 20 ≤ n ∧ n ≤ s.length := by
  obtain ⟨-, -, ⟨-, hlength⟩, rfl⟩ := matchAwsAccessKey_eq_some.mp h
  rw [length_take, length_drop] at hlength
  omega

end Aws

theorem matchSkKey_isSome :
    (matchSkKey s).isSome ↔ ∃ p, Headed ["sk-"] isTokenByte 20 p ∧ p <+: s :=
  guarded_isSome (matchHeader_isSome (by decide)) fun _ hp => (headed_length (by decide) hp).ge

theorem matchBearerToken_isSome :
    (matchBearerToken s).isSome ↔ ∃ p, Headed ["Bearer "] isBearerByte 20 p ∧ p <+: s :=
  guarded_isSome (matchHeader_isSome (by decide)) fun p hp => by
    have hlength : p.length = 7 + 20 := headed_length (by decide) hp
    omega

theorem matchGithubToken_isSome : (matchGithubToken s).isSome ↔
    ∃ p, Headed ["ghp_", "gho_", "ghs_", "ghu_", "ghr_"] isTokenByte 36 p ∧ p <+: s :=
  guarded_isSome (matchHeader_isSome (by decide)) fun _ hp => (headed_length (by decide) hp).ge

theorem matchSecret_isSome : (matchSecret s).isSome ↔ ∃ p, SecretHead p ∧ p <+: s := by
  have horElse (a b : Option Nat) : (a <|> b).isSome ↔ a.isSome ∨ b.isSome := by
    cases a <;> simp
  rw [matchSecret, horElse, horElse, horElse, horElse, matchTelegramToken_isSome,
    matchSkKey_isSome, matchBearerToken_isSome, matchAwsAccessKey_isSome, matchGithubToken_isSome]
  simp [SecretHead, or_and_right, exists_or]

theorem matchSecret_cases {n : Nat} (h : matchSecret s = some n) : matchTelegramToken s = some n ∨
    matchSkKey s = some n ∨ matchBearerToken s = some n ∨ matchAwsAccessKey s = some n ∨
      matchGithubToken s = some n := by
  have horElse {a b : Option Nat} (h : (a <|> b) = some n) : a = some n ∨ b = some n := by
    cases a with
    | none => exact .inr h
    | some m => exact .inl h
  exact (horElse h).imp_right fun h => (horElse h).imp_right fun h =>
    (horElse h).imp_right horElse

theorem matchSecret_le {n : Nat} (h : matchSecret s = some n) : 20 ≤ n ∧ n ≤ s.length := by
  rcases matchSecret_cases h with h | h | h | h | h
  · exact (matchTelegramToken_le h).imp_left fun hmin => by omega
  · exact (matchHeader_le (guarded_eq_some h) (by decide)).imp_left fun hmin => by omega
  · exact (matchHeader_le (guarded_eq_some h) (by decide)).imp_left fun hmin => by omega
  · exact matchAwsAccessKey_le h
  · exact (matchHeader_le (guarded_eq_some h) (by decide)).imp_left fun hmin => by omega

def isSecretByte (b : Char) : Bool := isBearerByte b || b = ':' || b = ' '

theorem bearer_of_token {b : Char} (h : isTokenByte b) : isBearerByte b := by
  simp only [isTokenByte, isBearerByte, Bool.or_eq_true, decide_eq_true_eq] at h ⊢
  tauto

theorem bearer_of_upper {b : Char} (h : isUpperOrDigit b) : isBearerByte b := by
  have halpha : b.isAlpha = (b.isUpper || b.isLower) := rfl
  simp only [isUpperOrDigit, isBearerByte, isAlphanum, halpha, Bool.or_eq_true] at h ⊢
  tauto

theorem secret_of_bearer {b : Char} (h : isBearerByte b) : isSecretByte b := by
  simp [isSecretByte, h]

theorem secret_of_digit {b : Char} (h : b.isDigit) : isSecretByte b := by
  simp [isSecretByte, isBearerByte, isAlphanum, h]

def EndsInToken (p : List Char) : Prop :=
  ∃ header body, p = header ++ body ∧ (∀ b ∈ header, isSecretByte b) ∧ 16 ≤ body.length ∧
    ∀ b ∈ body, isBearerByte b

variable {p : List Char}

theorem Headed.endsInToken {headers : List String} {byte : Char → Bool} {least : Nat}
     (h : Headed headers byte least p)
    (hheaders : headers.all fun header => header.toList.all isSecretByte)
    (hbyte : ∀ b, byte b → isBearerByte b) (hleast : 16 ≤ least) : EndsInToken p := by
  obtain ⟨header, hmem, body, rfl, rfl, hbody⟩ := h
  have hheader : header.toList.all isSecretByte := List.all_eq_true.mp hheaders header hmem
  exact ⟨header.toList, body, rfl, List.all_eq_true.mp hheader, hleast,
    fun b hb => hbyte b (hbody b hb)⟩

theorem SecretHead.endsInToken (h : SecretHead p) : EndsInToken p := by
  rcases h with h | h | h | h | h
  · obtain ⟨digits, body, rfl, -, -, hdigits, hlength, hbody⟩ := h
    refine ⟨digits ++ [':'], body, by simp, fun b hb => ?_, by omega,
      fun b hb => bearer_of_token (hbody b hb)⟩
    rcases mem_append.mp hb with hb | hb
    · exact secret_of_digit (hdigits b hb)
    · rw [mem_singleton.mp hb]
      decide
  · exact h.endsInToken (by decide) (fun _ => bearer_of_token) (by decide)
  · exact h.endsInToken (by decide) (fun _ hb => hb) (by decide)
  · exact h.endsInToken (by decide) (fun _ => bearer_of_upper) (by decide)
  · exact h.endsInToken (by decide) (fun _ => bearer_of_token) (by decide)

theorem SecretHead.bytes (h : SecretHead p) : ∀ b ∈ p, isSecretByte b := by
  obtain ⟨header, body, rfl, hheader, -, hbody⟩ := h.endsInToken
  intro b hb
  exact (mem_append.mp hb).elim (hheader b) fun hb => secret_of_bearer (hbody b hb)

theorem SecretHead.length (h : SecretHead p) : 20 ≤ p.length := by
  rcases h with h | h | h | h | h
  · obtain ⟨-, body, rfl, -, -, -, hlength, -⟩ := h
    rw [List.length_append, length_cons]
    omega
  · have hlength : p.length = 3 + 20 := headed_length (by decide) h
    omega
  · have hlength : p.length = 7 + 20 := headed_length (by decide) h
    omega
  · have hlength : p.length = 4 + 16 := headed_length (by decide) h
    omega
  · have hlength : p.length = 4 + 36 := headed_length (by decide) h
    omega

end Heads

/-! ## Redaction -/

def secrets : Scanner Char where
  find := matchSecret
  mark := REDACTION
  head := SecretHead
  found := fun _ => matchSecret_isSome
  shrinks := fun h => ⟨Nat.lt_of_lt_of_le (by decide) (matchSecret_le h).1, (matchSecret_le h).2⟩
  short := fun h => Nat.lt_of_lt_of_le (by decide) h.length

def redactSecrets (input : String) : String := String.ofList (secrets.replaceAll input.toList)

def Clean (text : String) : Prop := redactSecrets text = text

instance Clean.decidable (text : String) : Decidable (Clean text) :=
  inferInstanceAs (Decidable (_ = _))

theorem clean_iff {text : String} : Clean text ↔ secrets.Clean text.toList := by
  rw [Clean, redactSecrets, ← Scanner.replaceAll_eq_self_iff]
  constructor
  · intro h
    have htoList := congrArg String.toList h
    rwa [String.toList_ofList] at htoList
  · intro h
    rw [h, String.ofList_toList]

theorem secrets_stop {b : Char} (h : isSecretByte b = false) : secrets.Stop b := fun _ hp hb =>
  Bool.false_ne_true (h.symm.trans (SecretHead.bytes hp b hb))

theorem clean_redactSecrets (input : String) : Clean (redactSecrets input) := by
  rw [clean_iff, redactSecrets, String.toList_ofList]
  have hopen : secrets.Stop '[' := secrets_stop (by decide)
  have hclose : secrets.Stop ']' := secrets_stop (by decide)
  have hmark : secrets.mark = '[' :: ("REDACTED".toList ++ [']']) := by decide
  exact Scanner.clean_replaceAll hopen hclose hmark

example : redactSecrets "key=sk-abc123XYZ456def789GHI012" = "key=[REDACTED]" := by
  decide +kernel

/-! ## The scan by bytes -/

section Bytes

variable {s : List Char} {n : Nat}

theorem size_of_secret {b : Char} (h : isSecretByte b) : b.utf8Size = 1 := by
  rw [Char.utf8Size_eq_one_iff, UInt32.le_iff_toNat_le]
  unfold isSecretByte isBearerByte at h
  delta isAlphanum Char.isAlpha Char.isUpper Char.isLower at h
  simp only [isDigit, Bool.or_eq_true, Bool.and_eq_true, decide_eq_true_eq] at h
  rcases h with (((((((h | h) | h) | rfl) | rfl) | rfl) | rfl) | rfl) | rfl
  case inl.inl.inl.inl.inl.inl.inl.inl => exact h.2.trans (by decide)
  case inl.inl.inl.inl.inl.inl.inl.inr => exact h.2.trans (by decide)
  case inl.inl.inl.inl.inl.inl.inr => exact h.2.trans (by decide)
  all_goals decide

def Covers (n : Nat) (s : List Char) : Prop := ∀ b ∈ s.take n, isSecretByte b

theorem covers_run {header : List Char} {byte : Char → Bool} {k : Nat} (hk : s.take k = header)
    (hheader : ∀ b ∈ header, isSecretByte b) (hbyte : ∀ b, byte b → isSecretByte b) :
    Covers (k + runLength byte (s.drop k)) s := by
  have hrun : (s.drop k).take (runLength byte (s.drop k)) = (s.drop k).takeWhile byte :=
    (prefix_iff_eq_take.mp (List.takeWhile_prefix byte)).symm
  unfold Covers
  rw [take_add, hk, hrun]
  intro b hb
  exact (mem_append.mp hb).elim (hheader b) fun hb => hbyte b (mem_takeWhile_imp hb)

theorem matchHeader_covers {headers : List String} {width least : Nat} {byte : Char → Bool}
    (hheaders : headers.all fun header => header.toList.all isSecretByte)
    (hbyte : ∀ b, byte b → isBearerByte b) (h : matchHeader headers width byte least s = some n) :
    Covers n s := by
  obtain ⟨⟨header, hmem, htake⟩, -, rfl⟩ := matchHeader_eq_some.mp h
  exact covers_run htake (List.all_eq_true.mp (List.all_eq_true.mp hheaders header hmem))
    fun b hb => secret_of_bearer (hbyte b hb)

theorem matchTelegramToken_covers (h : matchTelegramToken s = some n) : Covers n s := by
  obtain ⟨-, hcolon, -, rfl⟩ := matchTelegramToken_eq_some.mp h
  refine covers_run rfl (fun b hb => ?_) fun _ hb => secret_of_bearer (bearer_of_token hb)
  rw [take_add_one, hcolon] at hb
  rcases mem_append.mp hb with hb | hb
  · rw [runLength, ← prefix_iff_eq_take.mp (List.takeWhile_prefix _)] at hb
    exact secret_of_digit (mem_takeWhile_imp hb)
  · rw [← some.inj (mem_toList.mp hb)]
    decide

theorem matchAwsAccessKey_covers (h : matchAwsAccessKey s = some n) : Covers n s := by
  obtain ⟨-, htake, ⟨hall, -⟩, rfl⟩ := matchAwsAccessKey_eq_some.mp h
  intro b hb
  rw [show 20 = 4 + 16 from rfl, take_add, htake] at hb
  rcases mem_append.mp hb with hb | hb
  · exact List.all_eq_true.mp (by decide : "AKIA".toList.all isSecretByte) b hb
  · exact secret_of_bearer (bearer_of_upper (List.all_eq_true.mp hall b hb))

theorem matchSecret_covers (h : matchSecret s = some n) : Covers n s := by
  rcases matchSecret_cases h with h | h | h | h | h
  · exact matchTelegramToken_covers h
  · exact matchHeader_covers (by decide) (fun _ => bearer_of_token) (guarded_eq_some h)
  · exact matchHeader_covers (by decide) (fun _ hb => hb) (guarded_eq_some h)
  · exact matchAwsAccessKey_covers h
  · exact matchHeader_covers (by decide) (fun _ => bearer_of_token) (guarded_eq_some h)
end Bytes

/-- The loop, with the bytes that it goes on behind; inside a character the text cannot be
sliced. -/
def redactFrom : Nat → List Char → Option (List Char)
  | _, [] => some []
  | skip, c :: s =>
    if skip = 0 then
      match matchSecret (c :: s) with
      | some n =>
        if c.utf8Size ≤ n then (redactFrom (n - c.utf8Size) s).map (REDACTION ++ ·) else none
      | none => (redactFrom 0 s).map (c :: ·)
    else if c.utf8Size ≤ skip then redactFrom (skip - c.utf8Size) s
    else none

theorem redactFrom_eq {skip : Nat} {s : List Char} (h : Covers skip s) :
    redactFrom skip s = some (secrets.replaceFrom skip s) := by
  induction s generalizing skip with
  | nil => cases skip <;> rfl
  | cons c s ih =>
    have hone {n : Nat} (hn : Covers (n + 1) (c :: s)) : c.utf8Size = 1 ∧ Covers n s :=
      ⟨size_of_secret (hn c mem_cons_self), fun b hb => hn b (mem_cons_of_mem c hb)⟩
    cases skip with
    | succ skip =>
      obtain ⟨hc, hrest⟩ := hone h
      rw [redactFrom, hc]
      exact ih hrest
    | zero =>
      rw [redactFrom, Scanner.replaceFrom]
      cases hfind : secrets.find (c :: s) with
      | none =>
        have hnone : matchSecret (c :: s) = none := hfind
        rw [hnone, ih fun b hb => absurd hb not_mem_nil]
        rfl
      | some n =>
        have hsome : matchSecret (c :: s) = some n := hfind
        have hmin := (matchSecret_le hsome).1
        obtain ⟨n, rfl⟩ : ∃ m, n = m + 1 := ⟨n - 1, by omega⟩
        obtain ⟨hc, hrest⟩ := hone (matchSecret_covers hsome)
        rw [hsome, hc]
        dsimp only
        rw [Nat.add_sub_cancel, ih hrest]
        rfl

/-- `redact_secrets` returns, without panicking, a text in which nothing is matched; it leaves alone
what it has returned, and any text in which nothing is matched. -/
theorem redactSecrets_complete (input : String) :
    redactFrom 0 input.toList = some (redactSecrets input).toList ∧
      (∀ s, s <:+ (redactSecrets input).toList → matchSecret s = none) ∧
        redactSecrets (redactSecrets input) = redactSecrets input ∧
          ((∀ s, s <:+ input.toList → matchSecret s = none) → redactSecrets input = input) := by
  have hclean : Clean (redactSecrets input) := clean_redactSecrets input
  refine ⟨?_, clean_iff.mp hclean, hclean, fun h => clean_iff.mpr h⟩
  rw [redactSecrets, String.toList_ofList]
  exact redactFrom_eq nofun

/-! ## The seam of a merge -/

/-- No run of elements with the property has `k` elements, after `n` of them. -/
def ShortRuns (p : Char → Bool) (k : Nat) : Nat → List Char → Prop
  | n, [] => n < k
  | n, b :: s => if p b then ShortRuns p k (n + 1) s else n < k ∧ ShortRuns p k 0 s

section ShortRuns

variable {p : Char → Bool} {k n : Nat} {s t body : List Char} {b : Char}

theorem shortRuns_append (hlength : n + body.length < k) (hb : p b = false)
    (hs : ShortRuns p k 0 s) : ShortRuns p k n (body ++ b :: s) := by
  induction body generalizing n with
  | nil => simpa [ShortRuns, hb, hs] using hlength
  | cons c body ih =>
    rw [length_cons] at hlength
    rw [cons_append, ShortRuns]
    split
    · exact ih (by omega)
    · exact ⟨by omega, ih (by omega)⟩

theorem shortRuns_short (hlength : n + s.length < k) : ShortRuns p k n s := by
  induction s generalizing n with
  | nil => exact hlength
  | cons c s ih =>
    rw [length_cons] at hlength
    rw [ShortRuns]
    split
    · exact ih (by omega)
    · exact ⟨by omega, ih (by omega)⟩

theorem ShortRuns.lt (h : ShortRuns p k n s) : n < k := by
  induction s generalizing n with
  | nil => exact h
  | cons c s ih =>
    rw [ShortRuns] at h
    split at h
    · exact Nat.lt_of_succ_lt (ih h)
    · exact h.1

theorem ShortRuns.prefix_lt (h : ShortRuns p k n (body ++ t)) (hbody : ∀ b ∈ body, p b) :
    n + body.length < k := by
  induction body generalizing n with
  | nil => exact h.lt
  | cons c body ih =>
    obtain ⟨hc, hbody⟩ := forall_mem_cons.mp hbody
    rw [cons_append, ShortRuns, if_pos hc] at h
    have hrest := ih h hbody
    rw [length_cons]
    omega

theorem ShortRuns.drop (h : ShortRuns p k n (s ++ t)) : ∃ m, ShortRuns p k m t := by
  induction s generalizing n with
  | nil => exact ⟨n, h⟩
  | cons c s ih =>
    rw [cons_append, ShortRuns] at h
    split at h
    · exact ih h
    · exact ih h.2

theorem clean_of_shortRuns (h : ShortRuns isBearerByte 16 0 s) : secrets.Clean s := by
  rintro t ⟨before, rfl⟩
  refine Scanner.find_eq_none.mpr ?_
  rintro q hq ⟨rest, rfl⟩
  obtain ⟨header, body, rfl, -, hlength, hbody⟩ := SecretHead.endsInToken hq
  obtain ⟨m, hm⟩ : ∃ m, ShortRuns isBearerByte 16 m (body ++ rest) := by
    rw [List.append_assoc, ← List.append_assoc] at h
    exact h.drop
  have hlt := hm.prefix_lt hbody
  omega

end ShortRuns

/-- A moment of the clock. -/
structure Instant where
  year : Fin 10000
  month : Fin 100
  day : Fin 100
  hour : Fin 100
  minute : Fin 100
  second : Fin 100
  nano : Fin 1000000000
deriving DecidableEq

def digits (width n : Nat) : List Char :=
  (List.range width).reverse.map fun k => Char.ofNat (48 + n / 10 ^ k % 10)

/-- As many digits of the second as are needed, by threes. -/
def fraction (nano : Nat) : List Char :=
  if nano = 0 then []
  else if nano % 1000000 = 0 then '.' :: digits 3 (nano / 1000000)
  else if nano % 1000 = 0 then '.' :: digits 6 (nano / 1000)
  else '.' :: digits 9 nano

def Instant.date (t : Instant) : List Char :=
  digits 4 t.year ++ '-' :: (digits 2 t.month ++ '-' :: (digits 2 t.day ++ 'T' :: digits 2 t.hour))

/-- `to_rfc3339`, in UTC. -/
def Instant.toRfc3339 (t : Instant) : List Char :=
  t.date ++ ':' :: (digits 2 t.minute ++ ':' :: (digits 2 t.second ++ fraction t.nano ++
    "+00:00".toList))

/-- The body that `dispatch_merge` writes. -/
def mergedContent (existing : String) (ts : Instant) (content : String) : String :=
  existing ++ "\n\n--- merged at " ++ String.ofList ts.toRfc3339 ++ " ---\n" ++ content

theorem length_digits (width n : Nat) : (digits width n).length = width := by simp [digits]

theorem length_fraction (nano : Nat) : (fraction nano).length ≤ 10 := by
  unfold fraction
  split_ifs <;> simp [length_digits]

theorem length_date (t : Instant) : t.date.length = 13 := by simp [Instant.date, length_digits]

theorem clean_mergeLine (t : Instant) :
    secrets.Clean ("--- merged at ".toList ++ (t.toRfc3339 ++ " ---".toList)) := by
  have hblank : isBearerByte ' ' = false := by decide
  have hcolon : isBearerByte ':' = false := by decide
  have hplus : isBearerByte '+' = false := by decide
  have hzone : ShortRuns isBearerByte 16 0 ("00".toList ++ ':' :: ("00".toList ++ " ---".toList)) :=
    shortRuns_append (by decide) hcolon (shortRuns_short (by decide))
  have hsecond : ShortRuns isBearerByte 16 0 ((digits 2 t.second ++ fraction t.nano) ++
      '+' :: ("00".toList ++ ':' :: ("00".toList ++ " ---".toList))) := by
    refine shortRuns_append ?_ hplus hzone
    have hfraction := length_fraction t.nano
    rw [List.length_append, length_digits]
    omega
  have hminute : ShortRuns isBearerByte 16 0 (digits 2 t.minute ++ ':' :: _) :=
    shortRuns_append (by rw [length_digits]; decide) hcolon hsecond
  have hdate : ShortRuns isBearerByte 16 0 (t.date ++ ':' :: _) :=
    shortRuns_append (by rw [length_date]; decide) hcolon hminute
  have hat : ShortRuns isBearerByte 16 0 ("at".toList ++ ' ' :: _) :=
    shortRuns_append (by decide) hblank hdate
  have hmerged : ShortRuns isBearerByte 16 0 ("merged".toList ++ ' ' :: _) :=
    shortRuns_append (by decide) hblank hat
  have hline : ShortRuns isBearerByte 16 0 ("---".toList ++ ' ' :: _) :=
    shortRuns_append (by decide) hblank hmerged
  refine clean_of_shortRuns ?_
  simpa [Instant.toRfc3339] using hline

theorem clean_mergedContent {existing content : String} (ts : Instant) (h : Clean existing)
    (h' : Clean content) : Clean (mergedContent existing ts content) := by
  rw [clean_iff] at h h' ⊢
  have hnewline : secrets.Stop '\n' := secrets_stop (by decide)
  have hbelow := Scanner.clean_append (clean_mergeLine ts) hnewline h'
  have hall := Scanner.clean_append h hnewline ((Scanner.clean_stop hnewline).mpr hbelow)
  have htext : (mergedContent existing ts content).toList = existing.toList ++ '\n' :: ('\n' ::
      (("--- merged at ".toList ++ (ts.toRfc3339 ++ " ---".toList)) ++ '\n' ::
        content.toList)) := by
    simp [mergedContent]
  rw [htext]
  exact hall

end Aeqi.Ideas
