import Aeqi.Lib.Cuts

/-!
# The SSE transport (`sse.rs`)

The reader task takes chunks of bytes, each of them a text on its own or left out, cuts the text at
line breaks and forwards the data of the lines before an empty one. Forwarding does not fail here.
-/

namespace Aeqi.Mcp.Sse

open Aeqi.Lib Aeqi.Lib.Utf8 List

/-! ## The reader -/

/-- `std::str::from_utf8` -/
def fromUtf8 (bytes : List UInt8) : Option (List Char) :=
  if encode (fromUtf8Lossy bytes) = bytes then some (fromUtf8Lossy bytes) else none

structure Events where
  current : List Char := []
  sent : List (List Char) := []

def trimmed (line : List Char) : List Char := line.rdropWhile (· = '\r')

/-- `strip_prefix("data:")` and `trim_start` -/
def payload (line : List Char) : Option (List Char) :=
  if "data:".toList.isPrefixOf line then some (trimStart (line.drop 5)) else none

def Events.read (e : Events) (line : List Char) : Events :=
  if trimmed line = [] then
    if e.current = [] then e else { current := [], sent := e.sent ++ [e.current] }
  else
    match payload (trimmed line) with
    | some data =>
      { e with current := (if e.current = [] then [] else e.current ++ ['\n']) ++ data }
    | none => e

structure Reader where
  buf : List Char := []
  events : Events := {}

/-- The buffer has no line break between two chunks, so the lines are found one character after
the other. -/
def Reader.push (r : Reader) (c : Char) : Reader :=
  if c = '\n' then { buf := [], events := r.events.read r.buf } else { r with buf := r.buf ++ [c] }

def Reader.chunk (r : Reader) (bytes : List UInt8) : Reader :=
  match fromUtf8 bytes with
  | some text => text.foldl Reader.push r
  | none => r

def forwarded (chunks : List (List UInt8)) : List (List Char) :=
  (chunks.foldl Reader.chunk {}).events.sent

/-! ## The messages of a body -/

def lines (text : List Char) : List (List Char) := (text.splitOn '\n').dropLast

def payloads (block : List (List Char)) : List (List Char) :=
  block.filterMap fun line => payload (trimmed line)

def blocksOf (lines : List (List Char)) : List (List (List Char)) :=
  ((lines.splitOnP fun line => trimmed line = []).dropLast).map payloads

def blocks (text : List Char) : List (List (List Char)) := blocksOf (lines text)

def message (block : List (List Char)) : List (List Char) :=
  if block = [] then [] else [['\n'].intercalate block]

def messages (text : List Char) : List (List Char) := (blocks text).flatMap message

/-- However the body is cut, its messages are forwarded. -/
def Survives (text : List Char) : Prop :=
  ∀ chunks : List (List UInt8), chunks.flatten = encode text → [] ∉ chunks →
    forwarded chunks = messages text

/-- What is left of a text when parts with a character of more than one byte are dropped. -/
inductive Drops : List Char → List Char → Prop
  | nil : Drops [] []
  | keep {text rest c} : Drops text rest → Drops (c :: text) (c :: rest)
  | drop {part text rest} : (∃ c ∈ part, 1 < c.utf8Size) → Drops text rest →
      Drops (part ++ text) rest

/-! ## Reading a text -/

section Reading

variable {e : Events} {line text : List Char} {before rest block : List (List Char)}

theorem foldl_push (h : '\n' ∉ line) : (text.foldl Reader.push ⟨line, e⟩).events =
    (lines (line ++ text)).foldl Events.read e := by
  induction text generalizing line e with
  | nil => simp [lines, splitOn_eq_singleton h]
  | cons c text ih =>
    rw [foldl_cons, Reader.push]
    split
    · next hc =>
      subst hc
      have hcut : lines (line ++ '\n' :: text) = line :: lines text := by
        rw [lines, splitOn_append_cons_self_of_not_mem h,
          dropLast_cons_of_ne_nil (splitOn_ne_nil _ _), lines]
      rw [hcut]
      exact ih not_mem_nil
    · next hc =>
      have hline : '\n' ∉ line ++ [c] := by simp [h, Ne.symm hc]
      simpa using @ih e (line ++ [c]) hline

/-- The payloads of a block as they are collected: empty ones at its start leave no trace. -/
def event (block : List (List Char)) : List Char :=
  ['\n'].intercalate (block.dropWhile (· = []))

theorem intercalate_concat {data : List Char} (h : block ≠ []) :
    ['\n'].intercalate (block ++ [data]) = ['\n'].intercalate block ++ ['\n'] ++ data := by
  induction block with
  | nil => exact absurd rfl h
  | cons p block ih =>
    cases block with
    | nil => simp
    | cons q block =>
      have hrest := ih (cons_ne_nil q block)
      rw [cons_append] at hrest
      simp [hrest]

theorem event_eq_nil : event block = [] ↔ block.dropWhile (· = []) = [] := by
  unfold event
  refine ⟨fun h => ?_, fun h => by rw [h]; rfl⟩
  cases hd : block.dropWhile (· = []) with
  | nil => rfl
  | cons p rest =>
    have hp : p ≠ [] := by
      have hhead := head_dropWhile_not (fun p : List Char => decide (p = []))
        (by rw [hd]; simp : block.dropWhile (· = []) ≠ [])
      simpa [hd] using hhead
    cases rest <;> simp_all

theorem event_concat {data : List Char} : event (block ++ [data]) =
    (if event block = [] then [] else event block ++ ['\n']) ++ data := by
  simp only [event_eq_nil]
  induction block with
  | nil => cases data <;> simp [event]
  | cons p block ih =>
    by_cases hp : p = []
    · simpa [event, hp] using ih
    · simpa [event, hp] using @intercalate_concat (p :: block) data (by simp)

theorem foldl_read (h : ∀ line ∈ before, trimmed line ≠ []) (sent : List (List Char)) :
    (rest.foldl Events.read ⟨event (payloads before), sent⟩).sent =
      sent ++ (blocksOf (before ++ rest)).flatMap fun block =>
        message (block.dropWhile (· = [])) := by
  induction rest generalizing before sent with
  | nil =>
    have hone : before.splitOnP (fun line => trimmed line = []) = [before] :=
      splitOnP_eq_singleton (by simpa using h)
    simp [blocksOf, hone]
  | cons line rest ih =>
    rw [foldl_cons, Events.read]
    split
    · next hline =>
      have hcut : blocksOf (before ++ line :: rest) = payloads before :: blocksOf rest := by
        rw [blocksOf, splitOnP_append_cons_of_forall_mem (by simpa using h) line
          (by simpa using hline), dropLast_cons_of_ne_nil (splitOnP_ne_nil _ _)]
        rfl
      rw [hcut, flatMap_cons, ← List.append_assoc]
      split
      · next hnil =>
        rw [message, if_pos (event_eq_nil.1 hnil), append_nil]
        have hnone : event (payloads before) = event (payloads []) := hnil
        rw [hnone]
        exact @ih [] (nofun) sent
      · next hne =>
        rw [message, if_neg (mt event_eq_nil.2 hne)]
        exact @ih [] (nofun) _
    · next hline =>
      have hmore : ∀ l ∈ before ++ [line], trimmed l ≠ [] := by
        simpa [or_imp, forall_and] using ⟨h, hline⟩
      have hnext := ih hmore sent
      rw [List.append_assoc, singleton_append] at hnext
      rw [← hnext]
      cases hdata : payload (trimmed line) with
      | none => simp [payloads, hdata]
      | some data =>
        have hpayloads : payloads (before ++ [line]) = payloads before ++ [data] := by
          simp [payloads, hdata]
        simp [hpayloads, event_concat]

end Reading

/-! ## Empty payloads -/

section Blocks

variable {block : List (List Char)}

def size : List (List Char) → Nat
  | [] => 0
  | m :: sent => m.length + 1 + size sent

theorem size_append {more : List (List Char)} : size (block ++ more) = size block + size more := by
  induction block with
  | nil => simp [size]
  | cons p block ih => simp [size, ih, Nat.add_assoc]

theorem size_intercalate {p : List Char} :
    (['\n'].intercalate (p :: block)).length + 1 = size (p :: block) := by
  induction block generalizing p with
  | nil => simp [size]
  | cons q block ih =>
    have hrest := @ih q
    simp [size] at hrest ⊢
    omega

theorem size_message : size (message block) = size block := by
  cases block with
  | nil => rfl
  | cons p block => exact size_intercalate

theorem size_dropWhile_le : size (block.dropWhile (· = [])) ≤ size block := by
  induction block with
  | nil => simp
  | cons p block ih =>
    by_cases hp : p = [] <;> simp [hp, size]
    omega

theorem head_of_size (h : size (block.dropWhile (· = [])) = size block) :
    block.head? ≠ some [] := by
  cases block with
  | nil => simp
  | cons p block =>
    have hle := @size_dropWhile_le block
    by_cases hp : p = [] <;> simp [hp, size] at h ⊢
    omega

theorem size_messages {blocks : List (List (List Char))} :
    size (blocks.flatMap fun block => message (block.dropWhile (· = []))) ≤
        size (blocks.flatMap message) ∧
      (size (blocks.flatMap fun block => message (block.dropWhile (· = []))) =
        size (blocks.flatMap message) → ∀ block ∈ blocks, block.head? ≠ some []) := by
  induction blocks with
  | nil => simp
  | cons block blocks ih =>
    have hle := @size_dropWhile_le block
    simp only [flatMap_cons, size_append, size_message, forall_mem_cons]
    exact ⟨by omega, fun heq => ⟨head_of_size (by omega), ih.2 (by omega)⟩⟩

theorem messages_iff {blocks : List (List (List Char))} :
    (blocks.flatMap fun block => message (block.dropWhile (· = []))) = blocks.flatMap message ↔
      ∀ block ∈ blocks, block.head? ≠ some [] := by
  refine ⟨fun h => size_messages.2 (congrArg size h), fun h => ?_⟩
  refine flatMap_congr fun block hblock => ?_
  cases block with
  | nil => rfl
  | cons p block =>
    have hp : p ≠ [] := fun hp => h _ hblock (by rw [hp]; rfl)
    rw [dropWhile_cons_of_neg (by simpa using hp)]

end Blocks

/-! ## Cut texts -/

section Cuts

variable {text : List Char} {bytes p q : List UInt8} {c : Char}

theorem fromUtf8_encode : fromUtf8 (encode text) = some text := by
  rw [fromUtf8, fromUtf8Lossy_encode, if_pos rfl]

theorem fromUtf8_eq_some : fromUtf8 bytes = some text ↔ bytes = encode text := by
  refine ⟨fun h => ?_, fun h => h ▸ fromUtf8_encode⟩
  unfold fromUtf8 at h
  split at h
  · next hvalid => rw [← Option.some.inj h, hvalid]
  · cases h

theorem encodeChar_ascii (h : c.utf8Size = 1) : ∀ b ∈ String.utf8EncodeChar c, b < 0x80 := by
  have hval : c.val.toNat ≤ 127 := UInt32.le_iff_toNat_le.1 (Char.utf8Size_eq_one_iff.1 h)
  rw [String.utf8EncodeChar_eq_singleton h]
  simp only [mem_singleton, forall_eq]
  change c.val.toNat % 256 < 128
  omega

theorem ascii_valid (h : ∀ b ∈ bytes, b < 0x80) : ∃ text, bytes = encode text := by
  induction bytes with
  | nil => exact ⟨[], rfl⟩
  | cons b bytes ih =>
    obtain ⟨text, htext⟩ := ih fun b' hb' => h b' (mem_cons_of_mem _ hb')
    have hone : b < 0x80 → String.utf8EncodeChar (Char.ofNat b.toNat) = [b] :=
      uint8_cases (P := fun b => b < 0x80 → String.utf8EncodeChar (Char.ofNat b.toNat) = [b])
        (by decide +kernel) b
    refine ⟨Char.ofNat b.toNat :: text, ?_⟩
    rw [encode_cons, hone (h b mem_cons_self), htext, singleton_append]

theorem encode_tail {front : List Char} (h : encode front ++ q = encode text) :
    ∃ rest, text = front ++ rest ∧ q = encode rest := by
  have hlossy : fromUtf8Lossy (encode front ++ q) = front ++ fromUtf8Lossy q := by
    clear h
    induction front with
    | nil => rfl
    | cons c front ih =>
      rw [encode_cons, List.append_assoc, fromUtf8Lossy_encodeChar, ih, cons_append]
  have htext := hlossy
  rw [h, fromUtf8Lossy_encode] at htext
  refine ⟨_, htext, ?_⟩
  rw [htext, encode_append] at h
  exact append_cancel_left h

theorem length_encode : (encode text).length = byteLength text := by
  induction text with
  | nil => rfl
  | cons c text ih =>
    rw [encode_cons, List.length_append, String.length_utf8EncodeChar, ih, byteLength_cons]

theorem encode_front (h : p ++ q = encode text) (hq : Starts q) : ∃ front, p = encode front := by
  have hbound : isCharBoundary text p.length = true := by
    rw [isCharBoundary, ← h, getElem?_append_right le_rfl, Nat.sub_self]
    cases q with
    | nil => simp
    | cons b q => exact decide_eq_true (hq b rfl)
  obtain ⟨front, ⟨rest, rfl⟩, hlength⟩ := isCharBoundary_iff.1 hbound
  rw [encode_append] at h
  exact ⟨front, (append_inj h (by rw [length_encode, hlength])).1⟩

theorem halves {part : List Char} (h : ∃ c ∈ part, 1 < c.utf8Size) :
    ∃ p q, p ++ q = encode part ∧ fromUtf8 p = none ∧ fromUtf8 q = none := by
  obtain ⟨c, hc, hsize⟩ := h
  obtain ⟨a, b, rfl⟩ := append_of_mem hc
  have hlength := String.length_utf8EncodeChar c
  obtain ⟨first, second, rest, hbytes⟩ :
      ∃ first second rest, String.utf8EncodeChar c = first :: second :: rest := by
    match String.utf8EncodeChar c, hlength with
    | first :: second :: rest, _ => exact ⟨first, second, rest, rfl⟩
    | [_], hlength => simp at hlength; omega
    | [], hlength => simp at hlength; omega
  have hwhole : encode a ++ [first] ++ (second :: rest ++ encode b) = encode (a ++ c :: b) := by
    rw [encode_append, encode_cons, hbytes]
    simp
  have hsecond (text : List Char) : second :: rest ++ encode b ≠ encode text := fun htext =>
    (encodeChar_first hbytes).2 second mem_cons_self (starts_encode text second (htext ▸ rfl))
  refine ⟨_, _, hwhole, ?_, ?_⟩ <;> rw [Option.eq_none_iff_forall_ne_some] <;> intro text htext <;>
    rw [fromUtf8_eq_some] at htext
  · rw [htext] at hwhole
    obtain ⟨more, -, hmore⟩ := encode_tail hwhole
    exact hsecond more hmore
  · exact hsecond text htext

def taken (chunks : List (List UInt8)) : List Char := chunks.flatMap fun c => (fromUtf8 c).getD []

theorem forwarded_eq {chunks : List (List UInt8)} : forwarded chunks =
    (blocks (taken chunks)).flatMap fun block => message (block.dropWhile (· = [])) := by
  have hfold (r : Reader) :
      chunks.foldl Reader.chunk r = (taken chunks).foldl Reader.push r := by
    induction chunks generalizing r with
    | nil => rfl
    | cons bytes chunks ih =>
      have htaken : taken (bytes :: chunks) = (fromUtf8 bytes).getD [] ++ taken chunks :=
        flatMap_cons
      rw [foldl_cons, ih, htaken, foldl_append, Reader.chunk]
      cases fromUtf8 bytes <;> rfl
  rw [forwarded, hfold]
  have hpush : ((taken chunks).foldl Reader.push {}).events = _ := foldl_push not_mem_nil
  rw [hpush]
  have hread := @foldl_read [] (lines (taken chunks)) (nofun) []
  rwa [nil_append] at hread

theorem chunks_of_drops {rest : List Char} (h : Drops text rest) :
    ∃ chunks : List (List UInt8), chunks.flatten = encode text ∧ [] ∉ chunks ∧ taken chunks = rest := by
  induction h with
  | nil => exact ⟨[], rfl, not_mem_nil, rfl⟩
  | @keep text rest c h ih =>
    obtain ⟨chunks, hflatten, hne, htaken⟩ := ih
    refine ⟨encode [c] :: chunks, ?_, ?_, ?_⟩
    · rw [flatten_cons, hflatten, ← encode_append, singleton_append]
    · rw [mem_cons, not_or]
      refine ⟨fun hnil => ?_, hne⟩
      rw [encode_singleton] at hnil
      exact encodeChar_ne_nil hnil.symm
    · rw [taken, flatMap_cons, fromUtf8_encode, ← htaken]
      rfl
  | @drop part text rest hpart h ih =>
    obtain ⟨chunks, hflatten, hne, htaken⟩ := ih
    obtain ⟨p, q, hpq, hp, hq⟩ := halves hpart
    have hnil {bytes} (hbytes : fromUtf8 bytes = none) : [] ≠ bytes := by
      rintro rfl
      cases hbytes
    refine ⟨p :: q :: chunks, ?_, ?_, ?_⟩
    · rw [flatten_cons, flatten_cons, hflatten, encode_append, ← hpq, List.append_assoc]
    · simp [hnil hp, hnil hq, hne]
    · rw [taken, flatMap_cons, flatMap_cons, hp, hq, ← htaken]
      rfl

theorem keeps {front rest w : List Char} (h : Drops rest w) :
    Drops (front ++ rest) (front ++ w) := by
  induction front with
  | nil => exact h
  | cons c front ih => exact .keep ih

theorem drops_encode {part rest w : List Char}
    (hp : encode part = [] ∨ ∃ b ∈ encode part, ¬ b < 0x80) (h : Drops rest w) :
    Drops (part ++ rest) w := by
  cases part with
  | nil => exact h
  | cons c part =>
    rcases hp with hnil | ⟨b, hb, hwide⟩
    · rw [encode_cons, append_eq_nil_iff] at hnil
      exact absurd hnil.1 encodeChar_ne_nil
    · obtain ⟨d, hd, hb⟩ := mem_flatMap.1 hb
      refine .drop ⟨d, hd, ?_⟩ h
      have hpos := d.utf8Size_pos
      have hone : d.utf8Size ≠ 1 := fun hone => hwide (encodeChar_ascii hone b hb)
      omega

/-- What is dropped has a character of more bytes; `p` has been dropped before these chunks. -/
theorem drops_of_chunks {chunks : List (List UInt8)} (h : p ++ chunks.flatten = encode text)
    (hp : p = [] ∨ ∃ b ∈ p, ¬ b < 0x80) : Drops text (taken chunks) := by
  induction chunks generalizing p text with
  | nil =>
    rw [flatten_nil, append_nil] at h
    rw [h] at hp
    exact append_nil text ▸ drops_encode hp .nil
  | cons bytes chunks ih =>
    have htaken : taken (bytes :: chunks) = (fromUtf8 bytes).getD [] ++ taken chunks :=
      flatMap_cons
    rw [htaken]
    cases hbytes : fromUtf8 bytes with
    | none =>
      have hwide : ∃ b ∈ bytes, ¬ b < 0x80 := by
        by_contra hascii
        push Not at hascii
        obtain ⟨x, hx⟩ := ascii_valid hascii
        rw [fromUtf8_eq_some.2 hx] at hbytes
        cases hbytes
      obtain ⟨b, hb, hwide⟩ := hwide
      exact ih ((List.append_assoc _ _ _).trans h) (.inr ⟨b, mem_append_right p hb, hwide⟩)
    | some x =>
      obtain rfl := fromUtf8_eq_some.1 hbytes
      cases x with
      | nil => exact ih h hp
      | cons c x =>
        have hstarts : Starts (encode (c :: x) ++ chunks.flatten) := fun b hb => by
          refine starts_encode (c :: x) b ?_
          rwa [head?_append_of_ne_nil] at hb
          rw [encode_cons]
          simp
        obtain ⟨part, rfl⟩ := encode_front h hstarts
        obtain ⟨later, rfl, hlater⟩ := encode_tail h
        obtain ⟨rest, rfl, hrest⟩ := encode_tail hlater
        exact drops_encode hp (keeps (ih (p := []) hrest (.inl rfl)))

/-! ## Whether the messages survive -/

theorem drops_refl : Drops text text := by
  have hkeeps := @keeps text [] [] .nil
  rwa [append_nil] at hkeeps

theorem survives_iff_drops : Survives text ↔ ∀ w, Drops text w →
    ((blocks w).flatMap fun block => message (block.dropWhile (· = []))) = messages text := by
  constructor
  · intro h w hw
    obtain ⟨chunks, hflatten, hne, rfl⟩ := chunks_of_drops hw
    rw [← forwarded_eq]
    exact h chunks hflatten hne
  · intro h chunks hflatten hne
    rw [forwarded_eq]
    exact h _ (drops_of_chunks hflatten (.inl rfl))

/-- Messages survive in ASCII, if no block starts with an empty payload, and else where there is
nothing to forward. -/
theorem survives_iff : Survives text ↔ (∀ block ∈ blocks text, block.head? ≠ some []) ∧
    ((∀ c ∈ text, c.utf8Size = 1) ∨
      ∀ w, Drops text w → ∀ block ∈ blocks w, ∀ data ∈ block, data = []) := by
  have hsilent (w : List Char) :
      ((blocks w).flatMap fun block => message (block.dropWhile (· = []))) = [] ↔
        ∀ block ∈ blocks w, ∀ data ∈ block, data = [] := by
    simp [message]
  rw [survives_iff_drops]
  constructor
  · intro h
    refine ⟨messages_iff.1 (h text drops_refl), ?_⟩
    by_cases hascii : ∀ c ∈ text, c.utf8Size = 1
    · exact .inl hascii
    · right
      push Not at hascii
      obtain ⟨c, hc, hwide⟩ := hascii
      have hpos := c.utf8Size_pos
      have hnone := h [] (append_nil text ▸ .drop ⟨c, hc, by omega⟩ .nil)
      intro w hw
      rw [← hsilent, h w hw, ← hnone]
      rfl
  · rintro ⟨hgood, hascii | hnone⟩ w hw
    · have hsame : w = text := by
        clear hgood
        induction hw with
        | nil => rfl
        | keep hw ih => rw [ih fun c hc => hascii c (mem_cons_of_mem _ hc)]
        | drop hpart hw ih =>
          obtain ⟨c, hc, hwide⟩ := hpart
          have hone := hascii c (mem_append_left _ hc)
          omega
      rw [hsame]
      exact messages_iff.2 hgood
    · rw [(hsilent w).2 (hnone w hw), messages, ← messages_iff.2 hgood]
      exact ((hsilent text).2 (hnone text drops_refl)).symm

/-- The body `data: a`, `: é`, an empty line, `data: b` and another, cut inside the é. -/
def sampleChunks : List (List UInt8) :=
  [encode "data: a\n".toList, encode ": ".toList ++ [0xC3], 0xA9 :: encode "\n\n".toList,
    encode "data: b\n\n".toList]

/-- Two events are glued together. -/
theorem events_glued :
    forwarded sampleChunks = ["a\nb".toList] ∧ ¬ Survives "data: a\n: é\n\ndata: b\n\n".toList := by
  have hglued : forwarded sampleChunks = ["a\nb".toList] := by decide +kernel
  refine ⟨hglued, fun h => ?_⟩
  have htwo := h sampleChunks (by decide +kernel) (by decide +kernel)
  rw [hglued] at htwo
  exact absurd htwo (by decide +kernel)

end Cuts

end Aeqi.Mcp.Sse
