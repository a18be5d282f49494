import Aeqi.Lib.Text

/-!
# A text that is decoded in pieces

The bytes of a text come in pieces, and each piece is decoded alone. A cut inside a character
leaves replacement characters for it. What is left of a text is what is left of its parts put
together, as bytes that begin a character are told from those that do not.
-/

namespace Aeqi.Lib.Utf8

open List Option
open String (length_utf8EncodeChar utf8EncodeChar)

/-! ## The bytes that begin a character -/

variable {b : UInt8} {p q bytes : List UInt8} {c : Char} {skip : Nat}

theorem uint8_cases {P : UInt8 → Prop} (h : ∀ n : Fin 256, P (UInt8.ofNat n)) (b : UInt8) : P b := by
  have hb := h ⟨b.toNat, b.toNat_lt⟩
  rwa [UInt8.ofNat_toNat] at hb

theorem not_first_of_isContinuation (h : isContinuation b = true) : ¬ b.IsUTF8FirstByte := by
  revert h
  exact uint8_cases (P := fun b => isContinuation b = true → ¬ b.IsUTF8FirstByte)
    (by decide +kernel) b

theorem isContinuation_of_secondFits {first : UInt8} (h : secondFits first b = true) :
    isContinuation b = true := by
  have hrange : ∀ lo hi : UInt8, 0x80 ≤ lo → hi ≤ 0xBF → decide (lo ≤ b ∧ b ≤ hi) = true →
      isContinuation b = true := by
    intro lo hi hlo hhi h
    obtain ⟨hle, hge⟩ := of_decide_eq_true h
    exact decide_eq_true ⟨UInt8.le_trans hlo hle, UInt8.le_trans hge hhi⟩
  unfold secondFits at h
  split at h
  · exact hrange 0xA0 0xBF (by decide) (by decide) h
  · split at h
    · exact hrange 0x80 0x9F (by decide) (by decide) h
    · split at h
      · exact hrange 0x90 0xBF (by decide) (by decide) h
      · split at h
        · exact hrange 0x80 0x8F (by decide) (by decide) h
        · exact h

theorem brokenTail_of_not_first (h : ¬ b.IsUTF8FirstByte) : brokenTail b bytes = 0 := by
  have hlead : ¬ (0xE0 ≤ b ∧ b ≤ 0xEF) ∧ ¬ (0xF0 ≤ b ∧ b ≤ 0xF4) := by
    revert h
    exact uint8_cases (P := fun b => ¬ b.IsUTF8FirstByte →
      ¬ (0xE0 ≤ b ∧ b ≤ 0xEF) ∧ ¬ (0xF0 ≤ b ∧ b ≤ 0xF4)) (by decide +kernel) b
  unfold brokenTail
  rw [if_neg hlead.1, if_neg hlead.2]

theorem encodeChar_first {rest : List UInt8} (h : utf8EncodeChar c = b :: rest) :
    b.IsUTF8FirstByte ∧ ∀ b' ∈ rest, ¬ b'.IsUTF8FirstByte := by
  have hbyte : ∀ i (hi : i < (b :: rest).length), (b :: rest)[i].IsUTF8FirstByte ↔ i = 0 := by
    intro i hi
    have heq := @UInt8.isUTF8FirstByte_getElem_utf8EncodeChar c i (by rw [h]; exact hi)
    simpa only [h] using heq
  refine ⟨(hbyte 0 (Nat.succ_pos _)).2 rfl, fun b' hb' => ?_⟩
  obtain ⟨i, hi, rfl⟩ := getElem_of_mem hb'
  have hiff := hbyte (i + 1) (Nat.succ_lt_succ hi)
  exact fun hfirst => Nat.succ_ne_zero i (hiff.1 hfirst)

/-! ## Decoding pieces -/

/-- The bytes begin a character, if there are any. -/
def Starts (bytes : List UInt8) : Prop := ∀ b ∈ bytes.head?, b.IsUTF8FirstByte

theorem starts_encode (text : List Char) : Starts (encode text) := by
  intro b hb
  cases text with
  | nil => cases hb
  | cons c text =>
    cases hc : utf8EncodeChar c with
    | nil =>
      have hlength := length_utf8EncodeChar c
      rw [hc] at hlength
      exact absurd hlength.symm (Nat.ne_of_gt c.utf8Size_pos)
    | cons b' rest =>
      have hstep : encode (c :: text) = utf8EncodeChar c ++ encode text := flatMap_cons
      rw [hstep, hc] at hb
      cases hb
      exact (encodeChar_first hc).1

theorem decodeChar?_eq_some : decodeChar? bytes = some c ↔ utf8EncodeChar c <+: bytes := by
  constructor
  · intro h
    obtain ⟨rest, hrest⟩ := ByteArray.exists_of_utf8DecodeChar?_eq_some h
    refine ⟨rest.data.toList, ?_⟩
    have hlist := congrArg (fun b => b.data.toList) hrest
    simpa using hlist.symm
  · rintro ⟨-, rfl⟩
    exact decodeChar?_encode

theorem lossyFrom_eq : lossyFrom skip bytes = fromUtf8Lossy (bytes.drop skip) := by
  induction skip generalizing bytes with
  | zero => rfl
  | succ skip ih =>
    cases bytes with
    | nil => rfl
    | cons b bytes => exact ih

theorem lossy_some (h : decodeChar? (b :: bytes) = some c) :
    fromUtf8Lossy (b :: bytes) = c :: fromUtf8Lossy (bytes.drop (c.utf8Size - 1)) := by
  unfold fromUtf8Lossy
  rw [lossyFrom, h]
  exact congrArg (c :: ·) lossyFrom_eq

theorem lossy_none (h : decodeChar? (b :: bytes) = none) :
    fromUtf8Lossy (b :: bytes) = replacement :: fromUtf8Lossy (bytes.drop (brokenTail b bytes)) := by
  unfold fromUtf8Lossy
  rw [lossyFrom, h]
  exact congrArg (replacement :: ·) lossyFrom_eq

theorem head_not_secondFits {first : UInt8} (hq : Starts q) :
    q.head?.any (secondFits first) = false := by
  cases hhead : q.head? with
  | none => rfl
  | some b =>
    have hfirst := hq b (by rw [hhead]; rfl)
    rw [Bool.eq_false_iff]
    exact fun h => not_first_of_isContinuation (isContinuation_of_secondFits h) hfirst

theorem head_not_isContinuation (hq : Starts q) : q.head?.any isContinuation = false := by
  cases hhead : q.head? with
  | none => rfl
  | some b =>
    have hfirst := hq b (by rw [hhead]; rfl)
    rw [Bool.eq_false_iff]
    exact fun h => not_first_of_isContinuation h hfirst

theorem brokenTail_append (hq : Starts q) : brokenTail b (p ++ q) = brokenTail b p := by
  unfold brokenTail
  cases p with
  | nil =>
    rw [nil_append, head_not_secondFits hq]
    rfl
  | cons x p =>
    cases p with
    | nil =>
      have htail : ([x] ++ q).tail.head?.any isContinuation = false := head_not_isContinuation hq
      rw [htail]
      rfl
    | cons y p => rfl

theorem brokenTail_le : brokenTail b p ≤ p.length := by
  unfold brokenTail
  cases p with
  | nil => simp
  | cons x p =>
    cases p with
    | nil =>
      simp only [tail_cons, head?_nil, any_none, Bool.false_eq_true, if_false,
        List.length_singleton]
      split_ifs <;> omega
    | cons y p =>
      simp only [length_cons]
      split_ifs <;> omega

theorem decodeChar?_append (hq : Starts q) :
    decodeChar? (b :: p ++ q) = decodeChar? (b :: p) := by
  refine Option.ext fun c => ?_
  rw [decodeChar?_eq_some, decodeChar?_eq_some]
  constructor
  · intro h
    -- the encoding ends before `q`, as it has no second first byte
    rcases Nat.lt_or_ge (b :: p).length (utf8EncodeChar c).length with hlt | hle
    · obtain ⟨rest, hrest⟩ := h
      have hq0 : 0 < q.length := by
        have hlen := congrArg List.length hrest
        simp only [List.length_append] at hlen
        omega
      have hbyte : (utf8EncodeChar c)[(b :: p).length] = q[0] := by
        have hget : (utf8EncodeChar c ++ rest)[(b :: p).length]? =
            (b :: p ++ q)[(b :: p).length]? := by rw [hrest]
        rw [getElem?_append_left hlt, getElem?_append_right (le_rfl),
          Nat.sub_self, getElem?_eq_getElem hlt, getElem?_eq_getElem hq0] at hget
        exact some.inj hget
      have hfirst : q[0].IsUTF8FirstByte := by
        refine hq _ ?_
        rw [head?_eq_getElem?, getElem?_eq_getElem hq0]
        rfl
      rw [← hbyte, UInt8.isUTF8FirstByte_getElem_utf8EncodeChar] at hfirst
      exact absurd hfirst (Nat.succ_ne_zero _)
    · exact prefix_of_prefix_length_le h (prefix_append _ _) hle
  · intro h
    exact h.trans (prefix_append _ _)

theorem fromUtf8Lossy_append (hq : Starts q) :
    fromUtf8Lossy (p ++ q) = fromUtf8Lossy p ++ fromUtf8Lossy q := by
  induction hlen : p.length using Nat.strong_induction_on generalizing p with
  | _ n ih =>
    subst hlen
    cases p with
    | nil => rfl
    | cons b p =>
      have hdecode : decodeChar? (b :: (p ++ q)) = decodeChar? (b :: p) := decodeChar?_append hq
      rw [cons_append]
      cases hc : decodeChar? (b :: p) with
      | some c =>
        have hsize : c.utf8Size - 1 ≤ p.length := by
          have hle := (decodeChar?_eq_some.1 hc).length_le
          rw [length_utf8EncodeChar, length_cons] at hle
          omega
        rw [lossy_some hc, lossy_some (hdecode.trans hc), drop_append_of_le_length hsize,
          cons_append, ih (p.drop (c.utf8Size - 1)).length
            (by rw [length_drop, length_cons]; omega) rfl]
      | none =>
        rw [lossy_none hc, lossy_none (hdecode.trans hc), brokenTail_append hq,
          drop_append_of_le_length brokenTail_le, cons_append,
          ih (p.drop (brokenTail b p)).length (by rw [length_drop, length_cons]; omega) rfl]

theorem decodeChar?_of_not_first (h : ¬ b.IsUTF8FirstByte) : decodeChar? (b :: bytes) = none := by
  refine eq_none_iff_forall_ne_some.2 fun c hc => h ?_
  obtain ⟨rest, hrest⟩ := decodeChar?_eq_some.1 hc
  cases henc : utf8EncodeChar c with
  | nil =>
    have hlength := length_utf8EncodeChar c
    rw [henc] at hlength
    exact absurd hlength.symm (Nat.ne_of_gt c.utf8Size_pos)
  | cons b' more =>
    rw [henc] at hrest
    exact head_eq_of_cons_eq hrest ▸ (encodeChar_first henc).1

theorem lossy_of_not_first (h : ∀ b ∈ bytes, ¬ b.IsUTF8FirstByte) :
    fromUtf8Lossy bytes = List.replicate bytes.length replacement := by
  induction bytes with
  | nil => rfl
  | cons b bytes ih =>
    have hb := h b mem_cons_self
    rw [lossy_none (decodeChar?_of_not_first hb), brokenTail_of_not_first hb, drop_zero,
      ih fun b' hb' => h b' (mem_cons_of_mem _ hb'), length_cons, replicate_succ]

theorem lossy_of_part {part more before : List UInt8}
    (h : utf8EncodeChar c = before ++ part ++ more) (hproper : before ++ more ≠ []) :
    ∀ x ∈ fromUtf8Lossy part, x = replacement := by
  cases part with
  | nil => exact nofun
  | cons b part =>
    cases before with
    | nil =>
      rw [nil_append, cons_append] at h
      obtain ⟨-, hrest⟩ := encodeChar_first h
      have hnone : decodeChar? (b :: part) = none := by
        refine eq_none_iff_forall_ne_some.2 fun c' hc' => hproper ?_
        -- the characters are the same, so nothing is missing
        have hlong : decodeChar? (b :: (part ++ more)) = some c' := by
          rw [decodeChar?_eq_some] at hc' ⊢
          exact hc'.trans (prefix_append _ _)
        have hwhole : decodeChar? (b :: (part ++ more)) = some c :=
          decodeChar?_eq_some.2 (h ▸ prefix_rfl)
        rw [hwhole] at hlong
        cases hlong
        have hle := (decodeChar?_eq_some.1 hc').length_le
        rw [h, length_cons, length_cons, List.length_append] at hle
        rw [nil_append]
        exact eq_nil_of_length_eq_zero (by omega)
      rw [lossy_none hnone, lossy_of_not_first fun b' hb' => hrest b'
        (mem_append_left _ (mem_of_mem_drop hb'))]
      intro x hx
      rcases mem_cons.1 hx with rfl | hx
      · rfl
      · exact eq_of_mem_replicate hx
    | cons b' before =>
      obtain ⟨-, hrest⟩ := encodeChar_first h
      rw [lossy_of_not_first fun x hx => hrest x
        (mem_append_left _ (mem_append_right _ hx))]
      exact fun x hx => eq_of_mem_replicate hx

/-! ## Texts in pieces -/

def decodePieces (pieces : List (List UInt8)) : List Char := pieces.flatMap fromUtf8Lossy

/-- What a text may become when its bytes come in pieces. -/
def Garbled (text text' : List Char) : Prop :=
  ∃ pieces : List (List UInt8), pieces.flatten = encode text ∧ text' = decodePieces pieces

section

variable {pieces : List (List UInt8)} {text u v w : List Char}

theorem decodePieces_split (h : pieces.flatten = p ++ q) (hq : Starts q) :
    ∃ ps qs, ps.flatten = p ∧ qs.flatten = q ∧
      decodePieces pieces = decodePieces ps ++ decodePieces qs := by
  induction pieces generalizing p with
  | nil =>
    obtain ⟨rfl, rfl⟩ := append_eq_nil_iff.1 h.symm
    exact ⟨[], [], rfl, rfl, rfl⟩
  | cons piece pieces ih =>
    rcases append_eq_append_iff.1 h with ⟨rest, hp, hrest⟩ | ⟨rest, hpiece, hrest⟩
    · obtain ⟨ps, qs, hps, hqs, hdecode⟩ := ih hrest
      refine ⟨piece :: ps, qs, by rw [flatten_cons, hps, hp], hqs, ?_⟩
      unfold decodePieces at hdecode ⊢
      rw [flatMap_cons, flatMap_cons, hdecode, List.append_assoc]
    · refine ⟨[p], rest :: pieces, by simp, by rw [flatten_cons, hrest], ?_⟩
      have hstarts : Starts rest := by
        intro b hb
        refine hq b ?_
        rw [hrest]
        cases rest with
        | nil => cases hb
        | cons b' rest => exact hb
      unfold decodePieces
      rw [flatMap_cons, flatMap_cons, hpiece, fromUtf8Lossy_append hstarts,
        flatMap_cons, flatMap_nil, append_nil, List.append_assoc]

theorem Garbled.refl : Garbled text text :=
  ⟨[encode text], by simp, by simp [decodePieces, fromUtf8Lossy_encode]⟩

theorem garbled_nil : Garbled [] w ↔ w = [] := by
  constructor
  · rintro ⟨pieces, hpieces, rfl⟩
    refine flatMap_eq_nil_iff.2 fun piece hpiece => ?_
    rw [flatten_eq_nil_iff.1 hpieces piece hpiece]
    rfl
  · rintro rfl
    exact Garbled.refl

theorem garbled_append :
    Garbled (u ++ v) w ↔ ∃ u' v', w = u' ++ v' ∧ Garbled u u' ∧ Garbled v v' := by
  constructor
  · rintro ⟨pieces, hpieces, rfl⟩
    rw [encode_append] at hpieces
    obtain ⟨ps, qs, hps, hqs, hdecode⟩ := decodePieces_split hpieces (starts_encode v)
    exact ⟨_, _, hdecode, ⟨ps, hps, rfl⟩, ⟨qs, hqs, rfl⟩⟩
  · rintro ⟨_, _, rfl, ⟨ps, hps, rfl⟩, ⟨qs, hqs, rfl⟩⟩
    refine ⟨ps ++ qs, by rw [flatten_append, hps, hqs, encode_append], ?_⟩
    unfold decodePieces
    rw [flatMap_append]

theorem encode_singleton : encode [c] = utf8EncodeChar c := by
  unfold encode
  rw [flatMap_singleton]

theorem decodePieces_of_flatten_nil (h : pieces.flatten = []) : decodePieces pieces = [] :=
  flatMap_eq_nil_iff.2 fun piece hpiece => by
    rw [flatten_eq_nil_iff.1 h piece hpiece]
    rfl

theorem parts_of_encode (h : pieces.flatten = encode [c]) {piece : List UInt8}
    (hpiece : piece ∈ pieces) :
    ∃ s t, pieces = s ++ piece :: t ∧ encode [c] = s.flatten ++ piece ++ t.flatten := by
  obtain ⟨s, t, hst⟩ := append_of_mem hpiece
  refine ⟨s, t, hst, ?_⟩
  rw [← h, hst, flatten_append, flatten_cons, List.append_assoc]

theorem decodePieces_of_whole (h : pieces.flatten = encode [c]) (hwhole : encode [c] ∈ pieces) :
    decodePieces pieces = [c] := by
  obtain ⟨s, t, hst, hencode⟩ := parts_of_encode h hwhole
  have hlen := congrArg List.length hencode
  simp only [List.length_append] at hlen
  have hs : s.flatten = [] := eq_nil_of_length_eq_zero (by omega)
  have ht : t.flatten = [] := eq_nil_of_length_eq_zero (by omega)
  rw [hst]
  unfold decodePieces
  rw [flatMap_append, flatMap_cons, fromUtf8Lossy_encode]
  exact congrArg₂ (fun a b => a ++ ([c] ++ b)) (decodePieces_of_flatten_nil hs)
    (decodePieces_of_flatten_nil ht)

theorem fromUtf8Lossy_eq_nil : fromUtf8Lossy bytes = [] ↔ bytes = [] := by
  cases bytes with
  | nil => simp [fromUtf8Lossy, lossyFrom]
  | cons b bytes =>
    cases hc : decodeChar? (b :: bytes) with
    | some c => simp [lossy_some hc]
    | none => simp [lossy_none hc]

theorem encodeChar_ne_nil : utf8EncodeChar c ≠ [] := by
  intro hnil
  have hlength := length_utf8EncodeChar c
  rw [hnil] at hlength
  exact absurd hlength.symm (Nat.ne_of_gt c.utf8Size_pos)

theorem garbled_singleton (h : Garbled [c] w) : w = [c] ∨ w ≠ [] ∧ ∀ x ∈ w, x = replacement := by
  obtain ⟨pieces, hpieces, rfl⟩ := h
  by_cases hwhole : encode [c] ∈ pieces
  · exact .inl (decodePieces_of_whole hpieces hwhole)
  · right
    constructor
    · intro hnil
      have hempty : pieces.flatten = [] := flatten_eq_nil_iff.2 fun piece hpiece =>
        fromUtf8Lossy_eq_nil.1 (flatMap_eq_nil_iff.1 hnil piece hpiece)
      rw [hpieces, encode_singleton] at hempty
      exact encodeChar_ne_nil hempty
    · intro x hx
      obtain ⟨piece, hpiece, hx⟩ := mem_flatMap.1 hx
      obtain ⟨s, t, -, hencode⟩ := parts_of_encode hpieces hpiece
      refine lossy_of_part (encode_singleton.symm.trans hencode) (fun hnil => hwhole ?_) x hx
      obtain ⟨hs, ht⟩ := append_eq_nil_iff.1 hnil
      rw [hencode, hs, ht, append_nil]
      exact hpiece

theorem garbled_ascii (hc : c.utf8Size = 1) : Garbled [c] w ↔ w = [c] := by
  constructor
  · rintro ⟨pieces, hpieces, rfl⟩
    refine decodePieces_of_whole hpieces ?_
    obtain ⟨b, hb⟩ : ∃ b, encode [c] = [b] := by
      rw [encode_singleton]
      exact length_eq_one_iff.1 ((length_utf8EncodeChar c).trans hc)
    have hmem : b ∈ pieces.flatten := by
      rw [hpieces, hb]
      exact mem_singleton_self b
    obtain ⟨piece, hpiece, hbpiece⟩ := mem_flatten.1 hmem
    obtain ⟨s, t, -, hencode⟩ := parts_of_encode hpieces hpiece
    have hlen := congrArg List.length hencode
    rw [hb] at hlen
    simp only [List.length_append, List.length_singleton] at hlen
    have hpos := length_pos_of_mem hbpiece
    obtain ⟨b', hb'⟩ := length_eq_one_iff.1 (show piece.length = 1 by omega)
    rw [hb'] at hbpiece hpiece
    rw [hb, mem_singleton.1 hbpiece]
    exact hpiece
  · rintro rfl
    exact Garbled.refl

/-! ### Characters of one byte -/

def Ascii (text : List Char) : Prop := ∀ c ∈ text, c.utf8Size = 1

theorem ascii_of_all (h : text.all (·.utf8Size = 1) = true) : Ascii text := fun c hc =>
  of_decide_eq_true (List.all_eq_true.1 h c hc)

theorem garbled_of_ascii (h : Ascii text) : Garbled text w ↔ w = text := by
  induction text generalizing w with
  | nil => exact garbled_nil
  | cons c text ih =>
    have htext : Ascii text := fun c' hc' => h c' (mem_cons_of_mem _ hc')
    rw [← singleton_append, garbled_append]
    simp only [garbled_ascii (h c mem_cons_self), ih htext]
    constructor
    · rintro ⟨_, _, rfl, rfl, rfl⟩
      rfl
    · rintro rfl
      exact ⟨_, _, rfl, rfl, rfl⟩

theorem garbled_head (hc : c.utf8Size = 1) (h : Garbled text (c :: w)) :
    ∃ text', text = c :: text' ∧ Garbled text' w := by
  cases text with
  | nil => cases garbled_nil.1 h
  | cons c' text =>
    rw [← singleton_append, garbled_append] at h
    obtain ⟨u, v, heq, hu, hv⟩ := h
    rcases garbled_singleton hu with rfl | ⟨hne, hreplaced⟩
    · cases heq
      exact ⟨text, rfl, hv⟩
    · obtain ⟨x, u, rfl⟩ := exists_cons_of_ne_nil hne
      have hx : c = replacement := (head_eq_of_cons_eq heq).trans (hreplaced x mem_cons_self)
      rw [hx] at hc
      exact nomatch hc

theorem garbled_prefix (hu : Ascii u) (h : Garbled text (u ++ w)) :
    ∃ text', text = u ++ text' ∧ Garbled text' w := by
  induction u generalizing text with
  | nil => exact ⟨text, rfl, h⟩
  | cons c u ih =>
    obtain ⟨text', rfl, htext'⟩ := garbled_head (hu c mem_cons_self) h
    obtain ⟨text'', rfl, htext''⟩ := ih (fun c' hc' => hu c' (mem_cons_of_mem _ hc')) htext'
    exact ⟨text'', rfl, htext''⟩

theorem garbled_eq_ascii (hw : Ascii w) (h : Garbled text w) : text = w := by
  rw [← append_nil w] at h
  obtain ⟨text', rfl, hnil⟩ := garbled_prefix hw h
  obtain ⟨pieces, hpieces, hdecode⟩ := hnil
  have hempty : pieces.flatten = [] := flatten_eq_nil_iff.2 fun piece hpiece =>
    fromUtf8Lossy_eq_nil.1 (flatMap_eq_nil_iff.1 hdecode.symm piece hpiece)
  rw [hpieces] at hempty
  cases text' with
  | nil => rw [append_nil]
  | cons c text' =>
    exact absurd (append_eq_nil_iff.1 (flatMap_cons.symm.trans hempty)).1 encodeChar_ne_nil

theorem mem_of_garbled (hc : c.utf8Size = 1) (h : Garbled text w) : c ∈ w ↔ c ∈ text := by
  induction text generalizing w with
  | nil => rw [garbled_nil.1 h]
  | cons c' text ih =>
    rw [← singleton_append, garbled_append] at h
    obtain ⟨u, v, rfl, hu, hv⟩ := h
    rw [mem_append, ih hv, mem_cons]
    refine or_congr_left ?_
    rcases garbled_singleton hu with rfl | ⟨-, hreplaced⟩
    · exact mem_singleton
    · have hne : c ≠ replacement := by
        rintro rfl
        exact nomatch hc
      constructor
      · exact fun hmem => absurd (hreplaced c hmem) hne
      · rintro rfl
        rw [(garbled_ascii hc).1 hu]
        exact mem_singleton_self c

end

end Aeqi.Lib.Utf8
