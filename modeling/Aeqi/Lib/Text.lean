import Mathlib.Algebra.GroupWithZero.Nat
import Mathlib.Data.List.DropRight
import Mathlib.Tactic.Ring

/-!
# Texts

SQLite's `LIKE`: `%` stands for any text and `_` for any one character; other characters match
up to the case of ASCII letters. Slices of a text by bytes, which fail inside a character, and
trimming, as Rust has them.
-/

namespace Aeqi.Lib

open List

/-- Pairs of texts are the keys of several tables; lists of them are searched. -/
instance lawfulBEqPair : LawfulBEq (String × String) := inferInstance

/-! ## `LIKE` -/

def likeChar (p c : Char) : Bool := p = '_' || p.toLower = c.toLower

def likeChars : List Char → List Char → Bool
  | [], text => text.isEmpty
  | p :: pattern, text =>
    if p = '%' then text.tails.any fun rest => likeChars pattern rest
    else
      match text with
      | [] => false
      | c :: rest => likeChar p c && likeChars pattern rest

/-- `text LIKE pattern`. -/
def like (text pattern : String) : Bool := likeChars pattern.toList text.toList

/-! ## White space -/

/-- `char::is_whitespace`. -/
def isWhitespace (c : Char) : Bool :=
  (0x9 ≤ c.toNat ∧ c.toNat ≤ 0xd) ∨ (0x2000 ≤ c.toNat ∧ c.toNat ≤ 0x200a) ∨
    c.toNat ∈ [0x20, 0x85, 0xa0, 0x1680, 0x2028, 0x2029, 0x202f, 0x205f, 0x3000]

def trimStart (text : List Char) : List Char := text.dropWhile isWhitespace

def trim (text : List Char) : List Char := (trimStart (trimStart text).reverse).reverse

theorem trim_eq (text : List Char) : trim text = (trimStart text).rdropWhile isWhitespace := rfl

theorem trim_trim (text : List Char) : trim (trim text) = trim text := by
  have hstart : trimStart (trim text) = trim text := by
    refine dropWhile_eq_self_iff.2 fun hlen => ?_
    have hinit : trim text <+: trimStart text := rdropWhile_prefix _ _
    rw [hinit.getElem hlen]
    exact dropWhile_get_zero_not _ _ (hlen.trans_le hinit.length_le)
  rw [trim_eq (trim text), hstart]
  exact rdropWhile_idempotent _ _

theorem toLower_cases (c : Char) :
    c.toLower = c ∨ 65 ≤ c.toNat ∧ c.toNat ≤ 90 ∧ c.toLower.toNat = c.toNat + 32 := by
  unfold Char.toLower
  split
  · next h =>
    have hA : 65 ≤ c.toNat := h.1
    have hZ : c.toNat ≤ 90 := h.2
    refine .inr ⟨hA, hZ, ?_⟩
    change (c.toNat + 32) % 2 ^ 32 = c.toNat + 32
    omega
  · exact .inl rfl

theorem isWhitespace_toLower (c : Char) : isWhitespace c.toLower = isWhitespace c := by
  rcases toLower_cases c with hsame | ⟨hA, hZ, hnat⟩
  · rw [hsame]
  · unfold isWhitespace
    rw [hnat]
    have hcode : c.toNat + 32 ∉ [0x20, 0x85, 0xa0, 0x1680, 0x2028, 0x2029, 0x202f, 0x205f, 0x3000] ∧
        c.toNat ∉ [0x20, 0x85, 0xa0, 0x1680, 0x2028, 0x2029, 0x202f, 0x205f, 0x3000] := by
      simp only [mem_cons, not_mem_nil, or_false]
      omega
    simp only [hcode.1, hcode.2, or_false]
    rw [decide_eq_decide]
    omega

theorem trim_map_toLower (text : List Char) :
    trim (text.map Char.toLower) = (trim text).map Char.toLower := by
  have hstart (text : List Char) :
      trimStart (text.map Char.toLower) = (trimStart text).map Char.toLower := by
    have hcomp : isWhitespace ∘ Char.toLower = isWhitespace := funext isWhitespace_toLower
    rw [trimStart, dropWhile_map, hcomp]
    rfl
  rw [trim, hstart, ← map_reverse, hstart, ← map_reverse]
  rfl

/-! ## Bytes -/

def byteLength (text : List Char) : Nat := (text.map Char.utf8Size).sum

/-- `&text[..text.len().min(max)]`, if this is not inside a character. -/
def sliceTo : Nat → List Char → Option (List Char)
  | _, [] => some []
  | max, c :: text =>
    if max = 0 then some []
    else if max < c.utf8Size then none
    else (sliceTo (max - c.utf8Size) text).map (c :: ·)

end Aeqi.Lib

/-!
## JSON values

An object is the list of its fields. Their order carries no meaning, and nothing here depends on it:
fields are looked up, put in and taken out by their keys.
-/

namespace Aeqi.Lib

inductive Json
  | null
  | bool (b : Bool)
  | num (literal : String)
  | str (s : String)
  | arr (xs : List Json)
  | obj (fields : List (String × Json))

namespace Json

abbrev Fields := List (String × Json)

namespace Fields

variable (m : Fields)

def get (key : String) : Option Json := (m.find? (·.1 = key)).map (·.2)

def remove (key : String) : Fields := m.filter (·.1 ≠ key)

def insert (key : String) (value : Json) : Fields := (key, value) :: m.remove key

variable {m} {key key' : String} {value : Json}

theorem get_remove_self : (m.remove key).get key = none := by
  simp only [get, remove, Option.map_eq_none_iff, List.find?_eq_none, List.mem_filter]
  rintro e ⟨-, hne⟩ heq
  exact of_decide_eq_true hne (of_decide_eq_true heq)

theorem get_remove_of_ne (h : key' ≠ key) : (m.remove key).get key' = m.get key' := by
  unfold get remove
  rw [List.find?_filter]
  congr 2
  funext e
  by_cases he : e.1 = key'
  · simp [he, h]
  · simp [he]

theorem get_insert_of_ne (h : key' ≠ key) : (m.insert key value).get key' = m.get key' := by
  have htail : (m.remove key).get key' = m.get key' := get_remove_of_ne h
  rw [← htail]
  simp [get, insert, Ne.symm h]

end Fields

/-- A field of an object. -/
def field : Json → String → Option Json
  | .obj m, key => Fields.get m key
  | _, _ => none

/-- `as_bool`. -/
def asBool : Json → Option Bool
  | .bool b => some b
  | _ => none

end Json

end Aeqi.Lib

/-!
## Lossy decoding of UTF-8

`String::from_utf8_lossy`: what is not UTF-8 is replaced, one U+FFFD for each longest prefix of a
character that breaks off. A text that has been encoded is decoded as it was.
-/

namespace Aeqi.Lib.Utf8

/-- The character that the bytes start with. -/
def decodeChar? (bytes : List UInt8) : Option Char := bytes.toByteArray.utf8DecodeChar? 0

def isContinuation (b : UInt8) : Bool := 0x80 ≤ b ∧ b ≤ 0xBF

/-- The second bytes that may follow a first one of three or four bytes. -/
def secondFits (first b : UInt8) : Bool :=
  if first = 0xE0 then 0xA0 ≤ b ∧ b ≤ 0xBF
  else if first = 0xED then 0x80 ≤ b ∧ b ≤ 0x9F
  else if first = 0xF0 then 0x90 ≤ b ∧ b ≤ 0xBF
  else if first = 0xF4 then 0x80 ≤ b ∧ b ≤ 0x8F
  else isContinuation b

/-- How many bytes after the first belong to a character that breaks off. -/
def brokenTail (first : UInt8) (bytes : List UInt8) : Nat :=
  if 0xE0 ≤ first ∧ first ≤ 0xEF then
    if (bytes.head?.any (secondFits first)) then 1 else 0
  else if 0xF0 ≤ first ∧ first ≤ 0xF4 then
    if (bytes.head?.any (secondFits first)) then
      if (bytes.tail.head?.any isContinuation) then 2 else 1
    else 0
  else 0

def replacement : Char := '\uFFFD'

/-- The first `skip` bytes belong to what has been decoded already. -/
def lossyFrom : Nat → List UInt8 → List Char
  | _, [] => []
  | skip + 1, _ :: bytes => lossyFrom skip bytes
  | 0, b :: bytes =>
    match decodeChar? (b :: bytes) with
    | some c => c :: lossyFrom (c.utf8Size - 1) bytes
    | none => replacement :: lossyFrom (brokenTail b bytes) bytes

def fromUtf8Lossy (bytes : List UInt8) : List Char := lossyFrom 0 bytes

def encode (text : List Char) : List UInt8 := text.flatMap String.utf8EncodeChar

variable {text text' : List Char} {c : Char} {bytes skipped : List UInt8}

theorem encode_append : encode (text ++ text') = encode text ++ encode text' :=
  List.flatMap_append

theorem lossyFrom_skip : lossyFrom skipped.length (skipped ++ bytes) = lossyFrom 0 bytes := by
  induction skipped with
  | nil => rfl
  | cons b skipped ih => exact ih

theorem decodeChar?_encode : decodeChar? (String.utf8EncodeChar c ++ bytes) = some c := by
  unfold decodeChar?
  rw [List.toByteArray_append]
  exact ByteArray.utf8DecodeChar?_utf8EncodeChar_append

theorem fromUtf8Lossy_encodeChar :
    fromUtf8Lossy (String.utf8EncodeChar c ++ bytes) = c :: fromUtf8Lossy bytes := by
  have hlength : (String.utf8EncodeChar c).length = c.utf8Size := String.length_utf8EncodeChar c
  have hdecode := @decodeChar?_encode c bytes
  cases hc : String.utf8EncodeChar c with
  | nil =>
    rw [hc] at hlength
    have hpos := c.utf8Size_pos
    rw [← hlength] at hpos
    cases hpos
  | cons b rest =>
    rw [hc] at hdecode hlength
    have hskip : c.utf8Size - 1 = rest.length := by
      rw [← hlength]
      rfl
    unfold fromUtf8Lossy
    rw [List.cons_append] at hdecode ⊢
    rw [lossyFrom, hdecode]
    exact congrArg (c :: ·) (hskip ▸ lossyFrom_skip)

theorem fromUtf8Lossy_encode : fromUtf8Lossy (encode text) = text := by
  induction text with
  | nil => rfl
  | cons c text ih =>
    have hstep : encode (c :: text) = String.utf8EncodeChar c ++ encode text := List.flatMap_cons
    rw [hstep, fromUtf8Lossy_encodeChar, ih]

end Aeqi.Lib.Utf8

/-!
## Cutting a text at a byte

A slice of a UTF-8 text by bytes is a text again exactly when it ends at the boundary of a
character: at the first byte of one, or at the end of the text.
-/

namespace Aeqi.Lib

open List Option

open Utf8 (encode encode_append)

/-- `is_char_boundary`: the byte there is the first one of a character, or the text ends there. -/
def isCharBoundary (text : List Char) (index : Nat) : Bool :=
  match (encode text)[index]? with
  | some b => decide b.IsUTF8FirstByte
  | none => decide (index = (encode text).length)

section Boundaries

variable {text front : List Char} {c : Char} {index max : Nat}

theorem encode_cons : encode (c :: text) = String.utf8EncodeChar c ++ encode text :=
  flatMap_cons

theorem byteLength_cons : byteLength (c :: text) = c.utf8Size + byteLength text := rfl

theorem isCharBoundary_inside (hpos : 0 < index) (hlt : index < c.utf8Size) :
    isCharBoundary (c :: text) index = false := by
  have hlength : index < (String.utf8EncodeChar c).length := by
    rw [String.length_utf8EncodeChar]
    exact hlt
  unfold isCharBoundary
  rw [encode_cons, getElem?_append_left hlength, getElem?_eq_getElem hlength]
  apply decide_eq_false
  rw [UInt8.isUTF8FirstByte_getElem_utf8EncodeChar]
  omega

theorem isCharBoundary_cons (hle : c.utf8Size ≤ index) :
    isCharBoundary (c :: text) index = isCharBoundary text (index - c.utf8Size) := by
  have hlength : (String.utf8EncodeChar c).length = c.utf8Size := String.length_utf8EncodeChar c
  unfold isCharBoundary
  rw [encode_cons, getElem?_append_right (hlength ▸ hle), List.length_append, hlength]
  have hend : (index = c.utf8Size + (encode text).length) =
      (index - c.utf8Size = (encode text).length) := by
    apply propext
    omega
  simp [hend]

theorem isCharBoundary_zero : isCharBoundary text 0 = true := by
  cases text with
  | nil => rfl
  | cons c text =>
    have hlength : 0 < (String.utf8EncodeChar c).length := by
      rw [String.length_utf8EncodeChar]
      exact c.utf8Size_pos
    unfold isCharBoundary
    rw [encode_cons, getElem?_append_left hlength, getElem?_eq_getElem hlength]
    exact decide_eq_true (UInt8.isUTF8FirstByte_getElem_utf8EncodeChar.2 rfl)

theorem isCharBoundary_iff :
    isCharBoundary text index = true ↔ ∃ front, front <+: text ∧ byteLength front = index := by
  induction text generalizing index with
  | nil =>
    simp only [prefix_nil]
    constructor
    · intro h
      have hindex : index = 0 := of_decide_eq_true h
      exact ⟨[], rfl, hindex.symm⟩
    · rintro ⟨-, rfl, rfl⟩
      rfl
  | cons c text ih =>
    rcases Nat.eq_zero_or_pos index with rfl | hpos
    · simp only [isCharBoundary_zero, true_iff]
      exact ⟨[], nil_prefix, rfl⟩
    · rcases Nat.lt_or_ge index c.utf8Size with hlt | hle
      · rw [isCharBoundary_inside hpos hlt]
        simp only [Bool.false_eq_true, false_iff]
        rintro ⟨front, hfront, hlength⟩
        cases front with
        | nil => exact hpos.ne hlength
        | cons d front =>
          obtain ⟨rfl, -⟩ := cons_prefix_cons.1 hfront
          rw [byteLength_cons] at hlength
          omega
      · rw [isCharBoundary_cons hle, ih]
        constructor
        · rintro ⟨front, hfront, hlength⟩
          exact ⟨c :: front, cons_prefix_cons.2 ⟨rfl, hfront⟩, by rw [byteLength_cons]; omega⟩
        · rintro ⟨front, hfront, hlength⟩
          cases front with
          | nil => exact absurd hlength hpos.ne
          | cons d front =>
            obtain ⟨rfl, hrest⟩ := cons_prefix_cons.1 hfront
            rw [byteLength_cons] at hlength
            exact ⟨front, hrest, by omega⟩

/-! ## Slices -/

theorem front_of_sliceTo (h : sliceTo max text = some front) : front <+: text := by
  induction text generalizing max front with
  | nil =>
    cases max with
    | zero | succ max => cases h; exact prefix_rfl
  | cons c text ih =>
    rw [sliceTo] at h
    split at h
    · cases h
      exact nil_prefix
    · split at h
      · cases h
      · obtain ⟨rest, hrest, rfl⟩ := map_eq_some_iff.1 h
        exact cons_prefix_cons.2 ⟨rfl, ih hrest⟩

theorem sliceTo_isSome : (sliceTo max text).isSome = true ↔
    byteLength text ≤ max ∨ isCharBoundary text max = true := by
  induction text generalizing max with
  | nil =>
    exact iff_of_true rfl (.inl (Nat.zero_le _))
  | cons c text ih =>
    rw [sliceTo, byteLength_cons]
    split
    next hzero =>
      subst hzero
      exact iff_of_true rfl (.inr isCharBoundary_zero)
    next hzero =>
      split
      next hlt =>
        rw [isCharBoundary_inside (by omega) hlt]
        simp only [isSome_none, Bool.false_eq_true, or_false, false_iff]
        omega
      next hle =>
        have hbytes : byteLength text ≤ max - c.utf8Size ↔ c.utf8Size + byteLength text ≤ max := by
          omega
        rw [isSome_map, ih, isCharBoundary_cons (by omega), hbytes]

theorem sliceTo_eq_none : sliceTo max text = none ↔
    ¬ (byteLength text ≤ max ∨ isCharBoundary text max = true) := by
  rw [← sliceTo_isSome, Bool.not_eq_true, isSome_eq_false_iff, isNone_iff_eq_none]

/-! ## Indices of characters -/

/-- `char_indices`, from a byte on. -/
def charIndices : Nat → List Char → List (Nat × Char)
  | _, [] => []
  | start, c :: text => (start, c) :: charIndices (start + c.utf8Size) text

/-- `&text[index..]`. -/
def sliceFrom : Nat → List Char → Option (List Char)
  | 0, text => some text
  | _, [] => none
  | index, c :: text => if index < c.utf8Size then none else sliceFrom (index - c.utf8Size) text

/-- Where the last character ends that begins before a byte. -/
def endBefore (size : Nat) (text : List Char) : Nat :=
  (((charIndices 0 text).takeWhile (·.1 < size)).getLast?.map fun x => x.1 + x.2.utf8Size).getD 0

/-- Where the first character begins that has at most so many bytes from there on. -/
def startWithin (size : Nat) (text : List Char) : Nat :=
  (((charIndices 0 text).reverse.takeWhile (byteLength text - ·.1 ≤ size)).getLast?.map
    (·.1)).getD (byteLength text)

variable {rest : List Char} {l l' : List (Nat × Char)} {start size : Nat}

theorem byteLength_append : byteLength (front ++ rest) = byteLength front + byteLength rest := by
  simp [byteLength]

theorem sliceTo_append : sliceTo (byteLength front) (front ++ rest) = some front := by
  induction front with
  | nil => cases rest <;> rfl
  | cons c front ih =>
    have hpos := c.utf8Size_pos
    rw [byteLength_cons, cons_append, sliceTo, if_neg (by omega), if_neg (by omega),
      Nat.add_sub_cancel_left, ih, map_some]

theorem sliceFrom_append : sliceFrom (byteLength front) (front ++ rest) = some rest := by
  induction front with
  | nil => cases rest <;> rfl
  | cons c front ih =>
    have hpos := c.utf8Size_pos
    rw [byteLength_cons, cons_append, sliceFrom, if_neg (by omega), Nat.add_sub_cancel_left, ih]
    omega

theorem charIndices_concat : charIndices start (front ++ [c]) =
    charIndices start front ++ [(start + byteLength front, c)] := by
  induction front generalizing start with
  | nil => rfl
  | cons d front ih => simp [charIndices, ih, byteLength_cons, Nat.add_assoc]

theorem split_charIndices (h : charIndices start text = l ++ l') :
    ∃ front rest, text = front ++ rest ∧ l = charIndices start front ∧
      l' = charIndices (start + byteLength front) rest := by
  induction l generalizing start text with
  | nil => exact ⟨[], text, rfl, rfl, h.symm⟩
  | cons x l ih =>
    cases text with
    | nil => cases h
    | cons c text =>
      obtain ⟨rfl, htail⟩ := cons.inj h
      obtain ⟨front, rest, rfl, rfl, rfl⟩ := ih htail
      exact ⟨c :: front, rest, rfl, rfl, by rw [byteLength_cons, Nat.add_assoc]⟩

theorem endBefore_eq (size : Nat) (text : List Char) :
    ∃ front rest, text = front ++ rest ∧ endBefore size text = byteLength front ∧
      ∀ init c, front = init ++ [c] → byteLength init < size := by
  obtain ⟨front, rest, htext, hfront, -⟩ :=
    split_charIndices (takeWhile_append_dropWhile (p := (·.1 < size)) (l := charIndices 0 text)).symm
  refine ⟨front, rest, htext, ?_, ?_⟩
  · rw [endBefore, hfront]
    rcases eq_nil_or_concat' front with rfl | ⟨init, c, rfl⟩
    · rfl
    · simp [charIndices_concat, byteLength]
  · rintro init c rfl
    have hmem : (0 + byteLength init, c) ∈ (charIndices 0 text).takeWhile (·.1 < size) := by
      rw [hfront, charIndices_concat]
      exact mem_append_right _ mem_cons_self
    simpa using mem_takeWhile_imp hmem

theorem startWithin_eq (size : Nat) (text : List Char) :
    ∃ front rest, text = front ++ rest ∧ startWithin size text = byteLength front ∧
      byteLength rest ≤ size := by
  have hsplit := takeWhile_append_dropWhile (p := (byteLength text - ·.1 ≤ size))
    (l := (charIndices 0 text).reverse)
  rw [← reverse_inj, reverse_append, reverse_reverse] at hsplit
  obtain ⟨front, rest, htext, -, hrest⟩ := split_charIndices hsplit.symm
  refine ⟨front, rest, htext, ?_⟩
  rw [startWithin, ← head?_reverse, hrest]
  cases rest with
  | nil => simp [charIndices, htext, byteLength]
  | cons c rest =>
    have hmem : (0 + byteLength front, c) ∈ (charIndices 0 text).reverse.takeWhile
        (byteLength text - ·.1 ≤ size) := by
      rw [← mem_reverse, hrest]
      exact mem_cons_self
    have hsize := mem_takeWhile_imp hmem
    rw [htext, byteLength_append] at hsize
    simp only [decide_eq_true_eq] at hsize
    exact ⟨by simp [charIndices], by omega⟩

theorem sliceFrom_of_boundary (h : isCharBoundary text index = true) :
    (sliceFrom index text).isSome = true := by
  obtain ⟨front, ⟨rest, rfl⟩, rfl⟩ := isCharBoundary_iff.1 h
  rw [sliceFrom_append]
  rfl

end Boundaries

end Aeqi.Lib

/-!
## Numbers in a text

`str::parse` of the integer types: a sign where the type has one or for a plus, digits, and a value
that fits. What is written for a number is read as the number.
-/

namespace Aeqi.Lib

/-- Digits, and at least one. -/
def parseDigits (text : List Char) : Option Nat :=
  if text ≠ [] ∧ text.all Char.isDigit then some (Nat.ofDigitChars 10 text 0) else none

def withoutPlus : List Char → List Char
  | '+' :: rest => rest
  | text => text

def parseUnsigned (bits : Nat) (text : List Char) : Option Nat :=
  (parseDigits (withoutPlus text)).filter (· < 2 ^ bits)

def parseSigned (bits : Nat) : List Char → Option Int
  | '-' :: digits => ((parseDigits digits).filter (· ≤ 2 ^ (bits - 1))).map fun n => -(n : Int)
  | text => ((parseDigits (withoutPlus text)).filter (· < 2 ^ (bits - 1))).map Int.ofNat

theorem parseDigits_eq_some {text : List Char} {n : Nat} (h : parseDigits text = some n) :
    text ≠ [] ∧ ∀ c ∈ text, c.isDigit = true := by
  unfold parseDigits at h
  split at h
  · next hdigits => exact ⟨hdigits.1, List.all_eq_true.1 hdigits.2⟩
  · cases h

theorem parseSigned_of_digits {text : List Char} {n : Nat} (bits : Nat)
    (h : parseDigits text = some n) :
    parseSigned bits text = if n < 2 ^ (bits - 1) then some (n : Int) else none := by
  obtain ⟨-, hdigits⟩ := parseDigits_eq_some h
  have hplus : withoutPlus text = text := by
    unfold withoutPlus
    split
    · exact nomatch (hdigits '+' List.mem_cons_self)
    · rfl
  unfold parseSigned
  split
  · exact nomatch (hdigits '-' List.mem_cons_self)
  · rw [hplus, h]
    by_cases hlt : n < 2 ^ (bits - 1)
    · simp [Option.filter]
    · simp [Option.filter]

section Written

variable {n bits : Nat}

theorem parseDigits_toDigits : parseDigits (Nat.toDigits 10 n) = some n := by
  have hdigits : (Nat.toDigits 10 n).all Char.isDigit = true := by
    rw [List.all_eq_true]
    exact fun c hc => Nat.isDigit_of_mem_toDigits (by decide) (by decide) hc
  unfold parseDigits
  rw [if_pos ⟨by simp, hdigits⟩]
  simp

theorem withoutPlus_toDigits : withoutPlus (Nat.toDigits 10 n) = Nat.toDigits 10 n := by
  unfold withoutPlus
  split
  next rest hplus =>
    have hmem : '+' ∈ Nat.toDigits 10 n := by rw [hplus]; exact List.mem_cons_self
    exact nomatch (Nat.isDigit_of_mem_toDigits (by decide) (by decide) hmem)
  next => rfl

theorem parseUnsigned_toDigits (h : n < 2 ^ bits) :
    parseUnsigned bits (Nat.toDigits 10 n) = some n := by
  unfold parseUnsigned
  rw [withoutPlus_toDigits, parseDigits_toDigits]
  exact if_pos (decide_eq_true h)

end Written

end Aeqi.Lib
