import Aeqi.Agent.Compacted
import Aeqi.Agent.Excerpts
import Mathlib.Algebra.Order.BigOperators.Group.List
import Mathlib.Data.List.Forall2
import Mathlib.Data.String.Basic

/-!
# What the stages remove and shorten

`snip_compact` finds a round by where it begins and removes as many messages from where the window
begins. `context_collapse` takes 2000 bytes for long and cuts previews of 1000 characters, so that
a text of wide characters grows; it counts the bytes of a system message as one text, which the
estimate counts part by part. `microcompact` knows results by the ids of their uses alone.
-/

namespace Aeqi.Agent

open Aeqi.Lib List
open String (utf8Len)
open ContentPart (chars cleared clears collapsed tokens)

/-! ## Snip -/

section Snip

variable {messages : List Message} {preserveHead preserveTail : Nat}

/-- The messages before the first assistant message behind the head. -/
def oldestFront (preserveHead : Nat) (messages : List Message) : List Message :=
  (messages.drop preserveHead).takeWhile (·.role ≠ .assistant)

/-- The first assistant message behind the head and all tool messages that follow it. -/
def oldestRound (preserveHead : Nat) (messages : List Message) : List Message :=
  firstRound (messages.drop preserveHead)

/-- Nothing is removed, or the oldest round, which is outside the tail and at most half of the
window. -/
def SnipsOldestRound (messages : List Message) (preserveHead preserveTail : Nat) : Prop :=
  let round := oldestRound preserveHead messages
  let start := preserveHead + (oldestFront preserveHead messages).length
  snipCompact messages preserveHead preserveTail = (0, messages) ∨
    start + round.length + preserveTail ≤ messages.length ∧
    2 * round.length ≤ messages.length - preserveTail - preserveHead ∧
    snipCompact messages preserveHead preserveTail = (estimateTokensFromMessages round,
      messages.take start ++ messages.drop (start + round.length))

/-- A round that the window of at least two messages has ends before the tail, is at most half of
the window, and begins with it or gives the messages before it back at its end. -/
def OldestRoundFirst (messages : List Message) (preserveHead preserveTail : Nat) : Prop :=
  let round := oldestRound preserveHead messages
  let front := oldestFront preserveHead messages
  2 ≤ messages.length - preserveTail - preserveHead →
    preserveHead + front.length + preserveTail < messages.length → round ≠ [] →
      preserveHead + front.length + round.length + preserveTail ≤ messages.length ∧
      2 * round.length ≤ messages.length - preserveTail - preserveHead ∧
      (front ++ round).drop round.length = front

theorem firstRound_take (l : List Message) (k : Nat) : firstRound (l.take k) =
    (firstRound l).take (k - (l.takeWhile (·.role ≠ .assistant)).length) := by
  induction l generalizing k with
  | nil => simp [firstRound]
  | cons m rest ih =>
    cases k with
    | zero => simp [firstRound]
    | succ k =>
      by_cases hm : m.role = .assistant
      · simp [firstRound, hm, take_takeWhile]
      · simp [firstRound, hm, ih]

theorem front_round_prefix (l : List Message) :
    l.takeWhile (·.role ≠ .assistant) ++ firstRound l <+: l := by
  induction l with
  | nil => simp [firstRound]
  | cons m rest ih =>
    by_cases hm : m.role = .assistant
    · simpa [firstRound, hm] using takeWhile_prefix _
    · simpa [firstRound, hm] using ih

theorem snipCompact_of_window (h : 2 ≤ messages.length - preserveTail - preserveHead) :
    snipCompact messages preserveHead preserveTail =
      let round := (oldestRound preserveHead messages).take
        (messages.length - preserveTail - preserveHead - (oldestFront preserveHead messages).length)
      (estimateTokensFromMessages round,
        messages.take preserveHead ++ messages.drop (preserveHead + round.length)) := by
  have hround : firstRound ((messages.take (messages.length - preserveTail)).drop preserveHead) =
      (oldestRound preserveHead messages).take (messages.length - preserveTail - preserveHead -
        (oldestFront preserveHead messages).length) := by
    rw [drop_take, firstRound_take]
    rfl
  unfold snipCompact
  rw [if_neg (by omega)]
  dsimp only
  rw [if_neg (by omega), if_pos (by omega), hround]
  split
  · rfl
  · rename_i hnone
    rw [Nat.eq_zero_of_not_pos hnone, Nat.add_zero, take_append_drop]

theorem snipCompact_of_narrow (h : messages.length - preserveTail - preserveHead < 2) :
    snipCompact messages preserveHead preserveTail = (0, messages) := by
  unfold snipCompact
  split
  · rfl
  · dsimp only
    rw [if_neg (by omega), if_neg (by omega)]
    rfl

/-- The oldest round is what `snip_compact` removes if the window begins with it, and only then, up
to equal messages. -/
theorem snipsOldestRound_iff : SnipsOldestRound messages preserveHead preserveTail ↔
    OldestRoundFirst messages preserveHead preserveTail := by
  unfold SnipsOldestRound OldestRoundFirst
  rcases Nat.lt_or_ge (messages.length - preserveTail - preserveHead) 2 with hnarrow | hwindow
  · exact iff_of_true (.inl (snipCompact_of_narrow hnarrow))
      fun hwindow => absurd hwindow (by omega)
  rw [snipCompact_of_window hwindow]
  obtain ⟨after, hafter⟩ := front_round_prefix (messages.drop preserveHead)
  change oldestFront preserveHead messages ++ oldestRound preserveHead messages ++ after = _
    at hafter
  have hhead : (messages.take preserveHead).length = preserveHead := length_take_of_le (by omega)
  have hmessages := take_append_drop preserveHead messages
  rw [← hafter] at hmessages
  generalize messages.take preserveHead = head at *
  generalize oldestFront preserveHead messages = front at *
  generalize oldestRound preserveHead messages = round at *
  dsimp only
  by_cases hin : preserveHead + front.length + preserveTail < messages.length ∧ round ≠ []
  · have hround : 0 < round.length := length_pos_of_ne_nil hin.2
    -- as something is drained, the list does not stay as it is
    rw [or_iff_right (fun h => ?_)]
    · simp only [hwindow, hin.1, hin.2, forall_const, ne_eq, not_false_eq_true]
      refine and_congr_right fun hfits => and_congr_right fun _ => ?_
      have hdrop (k : Nat) :
          messages.drop (preserveHead + k) = (front ++ round ++ after).drop k := by
        rw [← drop_drop, ← hafter]
      have htake : messages.take (preserveHead + front.length) = head ++ front := by
        rw [← hmessages, ← hhead, ← length_append, append_assoc, ← append_assoc]
        exact take_left
      rw [take_of_length_le (by omega), hdrop, Nat.add_assoc, hdrop, htake,
        drop_append_of_le_length (by simp)]
      simp
    · have hshort := congrArg (fun r => r.2.length) h
      simp only [length_append, length_drop, length_take] at hshort
      omega
  · have hnone : round.take (messages.length - preserveTail - preserveHead - front.length) = [] := by
      rw [take_eq_nil_iff]
      by_contra h
      exact hin ⟨by omega, fun hround => h (.inr hround)⟩
    rw [hnone]
    refine iff_of_true (.inl ?_) fun _ hlt hround => absurd ⟨hlt, hround⟩ hin
    rw [length_nil, Nat.add_zero, ← hafter, hmessages]
    rfl

/-- A question in front of the round goes in its place. -/
theorem not_snipsOldestRound : ¬ SnipsOldestRound [⟨.user, .text "go"⟩, ⟨.user, .text "also"⟩,
    ⟨.assistant, .text "done"⟩, ⟨.user, .text "thanks"⟩] 1 1 := by
  unfold SnipsOldestRound
  decide +kernel

end Snip

/-! ## Clearing -/

section Clearing

variable {lower : String → String} {messages : List Message} {preserveTail keepRecent : Nat}

/-- The part is as it was, or the cleared result of a use that is not among the recent ones. -/
def ContentPart.MayClear (ids recent : List String) (old new : ContentPart) : Prop :=
  new = old ∨
    match old with
    | .toolResult id _ isError =>
      new = .toolResult id MICROCOMPACT_CLEARED isError ∧ id ∈ ids ∧ id ∉ recent
    | _ => False

def Message.MayClear (ids recent : List String) (old new : Message) : Prop :=
  new.role = old.role ∧
    match old.content, new.content with
    | .parts parts, .parts parts' => List.Forall₂ (ContentPart.MayClear ids recent) parts parts'
    | content, content' => content' = content

structure ClearsOldResults (micro : List Message → Nat × List Message) (ids : List String)
    (messages : List Message) (preserveTail keepRecent : Nat) : Prop where
  before : List.Forall₂ (Message.MayClear ids (ids.rtake keepRecent))
    (messages.rdrop preserveTail) ((micro messages).2.rdrop preserveTail)
  tail : (micro messages).2.rtake preserveTail = messages.rtake preserveTail
  again : (micro (micro messages).2).2 = (micro messages).2

/-- Where an older use has the id of a recent one, its results are cleared already. -/
def RecentApart (lower : String → String) (messages : List Message)
    (preserveTail keepRecent : Nat) : Prop :=
  ∀ m ∈ messages.rdrop preserveTail, m.role = .tool →
    ∀ parts, m.content = .parts parts → ∀ id content isError,
      .toolResult id content isError ∈ parts →
        id ∈ (usesBeforeTail lower messages preserveTail).rdrop keepRecent →
          id ∈ (usesBeforeTail lower messages preserveTail).rtake keepRecent →
            content = MICROCOMPACT_CLEARED

theorem cleared_cleared (clearSet : List String) (m : Message) :
    (m.cleared clearSet).cleared clearSet = m.cleared clearSet := by
  have hpart (p : ContentPart) : (p.cleared clearSet).cleared clearSet = p.cleared clearSet := by
    cases p with
    | toolResult id content isError =>
      by_cases hp : (ContentPart.toolResult id content isError).clears clearSet = true
      · simp [cleared] at hp ⊢
        simp [hp]
      · simp [cleared, hp]
    | _ => rfl
  obtain ⟨role, content⟩ := m
  by_cases hrole : role = .tool
  · cases content with
    | text t => simp [Message.cleared]
    | parts parts => simp [Message.cleared, hrole, hpart]
  · simp [Message.cleared, hrole]

theorem cleared_compactableIds (clearSet : List String) (m : Message) :
    (m.cleared clearSet).compactableIds lower = m.compactableIds lower := by
  obtain ⟨-, content⟩ := m
  unfold Message.cleared
  split
  · rfl
  · cases content with
    | text t => rfl
    | parts parts =>
      refine filterMap_parts (fun p => ?_) parts
      cases p with
      | toolResult id content isError =>
        exact (apply_ite (ContentPart.compactableId lower) _ _ _).trans (ite_self _)
      | _ => rfl

theorem mayClear_part {ids recent clearSet : List String} (hold : clearSet ⊆ ids)
    (p : ContentPart) : p.MayClear ids recent (p.cleared clearSet) ↔
      ∀ id content isError, p = .toolResult id content isError → id ∈ clearSet → id ∈ recent →
        content = MICROCOMPACT_CLEARED := by
  unfold ContentPart.MayClear
  cases p with
  | toolResult id content isError =>
    by_cases hclears : (ContentPart.toolResult id content isError).clears clearSet = true
    · have hid : id ∈ clearSet ∧ content ≠ MICROCOMPACT_CLEARED := by
        simpa [clears] using hclears
      simp [cleared, hclears, hid, hid.2.symm, hold hid.1]
    · have hid : id ∈ clearSet → content = MICROCOMPACT_CLEARED := by
        simpa [clears] using hclears
      simp only [cleared, hclears]
      simpa using fun h _ => hid h
  | text t | toolUse id name input => simp [cleared]

theorem mayClear_message {ids recent clearSet : List String} (hold : clearSet ⊆ ids)
    (m : Message) : m.MayClear ids recent (m.cleared clearSet) ↔
      (m.role = .tool → ∀ parts, m.content = .parts parts → ∀ id content isError,
        .toolResult id content isError ∈ parts → id ∈ clearSet → id ∈ recent →
          content = MICROCOMPACT_CLEARED) := by
  have hrefl (p : ContentPart) : p.MayClear ids recent p := .inl rfl
  obtain ⟨role, content⟩ := m
  unfold Message.MayClear Message.cleared
  by_cases hrole : role = .tool
  · cases content with
    | text t => simp
    | parts parts =>
      simp only [hrole, ne_eq, not_true_eq_false, ↓reduceIte, true_and,
        forall₂_map_right_iff, forall₂_same, mayClear_part hold]
      constructor
      · rintro h - _ ⟨⟩ id content isError hmem
        exact h _ hmem id content isError rfl
      · rintro h _ hmem id content isError rfl
        exact h trivial parts rfl id content isError hmem
  · cases content with
    | text t => simp
    | parts parts => simp [hrole, hrefl]

theorem clearsOldResults_iff : ClearsOldResults (microcompact lower · preserveTail keepRecent)
    (usesBeforeTail lower messages preserveTail) messages preserveTail keepRecent ↔
      RecentApart lower messages preserveTail keepRecent := by
  have hmicro := microcompact_eq lower messages preserveTail keepRecent
  set ids := usesBeforeTail lower messages preserveTail with hids
  set new := (microcompact lower messages preserveTail keepRecent).2 with hnew
  have hbefore : new.rdrop preserveTail =
      (messages.rdrop preserveTail).map (·.cleared (ids.rdrop keepRecent)) := by
    rw [hmicro]
    exact take_left' (by simp)
  have htail : new.rtake preserveTail = messages.rtake preserveTail := by
    rw [hmicro]
    exact drop_left' (by simp)
  have huses : usesBeforeTail lower new preserveTail = ids := by
    change (new.rdrop preserveTail).flatMap _ = _
    rw [hbefore, flatMap_map]
    simp only [cleared_compactableIds]
    rfl
  have hagain : (microcompact lower new preserveTail keepRecent).2 = new := by
    rw [microcompact_eq, huses]
    change (new.rdrop preserveTail).map _ ++ new.rtake preserveTail = new
    rw [hbefore, htail, map_map, hmicro]
    simp only [Function.comp_def, cleared_cleared]
    rfl
  have hold : ids.rdrop keepRecent ⊆ ids := take_subset _ _
  constructor
  · intro h m hm
    have hcleared := h.before
    rw [hbefore, forall₂_map_right_iff, forall₂_same] at hcleared
    exact (mayClear_message hold m).1 (hcleared m hm)
  · refine fun h => ⟨?_, htail, hagain⟩
    rw [hbefore, forall₂_map_right_iff, forall₂_same]
    exact fun m hm => (mayClear_message hold m).2 (h m hm)

end Clearing

/-! ## Previews -/

section Previews

variable {text : String}

/-- The bytes of a preview: twice 500 characters, the line between them and its number. -/
def previewBytes (text : String) : Nat :=
  utf8Len (text.toList.take 500) + utf8Len (text.toList.drop (text.toList.length - 500)) + 30 +
    (Nat.toDigits 10 (text.utf8ByteSize - 1000)).length

/-- A text of more than 2000 bytes gets a preview that is short, or exactly as long as the text. -/
def Collapsible (text : String) : Prop :=
  2000 < text.utf8ByteSize → previewBytes text ≤ 2000 ∨ previewBytes text = text.utf8ByteSize

theorem utf8Len_le (l : List Char) : utf8Len l ≤ 4 * l.length := by
  induction l with
  | nil => simp
  | cons c l ih =>
    have hc := c.utf8Size_le_four
    simp only [String.utf8Len_cons, length_cons]
    omega

/-- The text between head and tail. -/
def collapseMark (n : Nat) : List Char :=
  "\n\n[... ".toList ++ Nat.toDigits 10 n ++ " chars collapsed ...]\n\n".toList

theorem collapseText_toList (h : 2000 < text.utf8ByteSize) : (collapseText text).toList =
    text.toList.take 500 ++ collapseMark (text.utf8ByteSize - 1000) ++
      text.toList.drop (text.toList.length - 500) := by
  unfold collapseText collapseMark
  rw [if_pos h]
  simp [take_reverse]

theorem utf8Len_eq (text : List Char) : utf8Len text = byteLength text := by
  induction text with
  | nil => rfl
  | cons c text ih => rw [String.utf8Len_cons, byteLength_cons, ih, Nat.add_comm]

theorem utf8Len_collapseMark (n : Nat) :
    utf8Len (collapseMark n) = 30 + (Nat.toDigits 10 n).length := by
  have hfront : utf8Len "\n\n[... ".toList = 7 := by decide +kernel
  have hback : utf8Len " chars collapsed ...]\n\n".toList = 23 := by decide +kernel
  unfold collapseMark
  rw [String.utf8Len_append, String.utf8Len_append, utf8Len_eq (Nat.toDigits 10 n),
    byteLength_toDigits]
  omega

theorem collapseMark_inj {m n : Nat} (h : collapseMark m = collapseMark n) : m = n := by
  have hdigits := append_cancel_left (append_cancel_right h)
  have hvalue := congrArg (fun digits => Nat.ofDigitChars 10 digits 0) hdigits
  simpa using hvalue

/-- The bytes of a text once it is collapsed. -/
def shownBytes (text : String) : Nat :=
  if 2000 < text.utf8ByteSize then previewBytes text else text.utf8ByteSize

theorem collapseText_bytes (text : String) :
    (collapseText text).utf8ByteSize = shownBytes text := by
  unfold shownBytes
  split
  · rename_i h
    rw [← String.utf8Len_toList, collapseText_toList h, String.utf8Len_append, String.utf8Len_append,
      utf8Len_collapseMark]
    unfold previewBytes
    omega
  · rename_i h
    rw [collapseText, if_neg h]

theorem collapse_collapse : collapseText (collapseText text) = collapseText text ↔ Collapsible text := by
  unfold Collapsible
  by_cases h : 2000 < text.utf8ByteSize
  · have hbytes : (collapseText text).utf8ByteSize = previewBytes text :=
      (collapseText_bytes text).trans (if_pos h)
    rw [← hbytes]
    have hchars : 500 < text.toList.length := by
      have hle := utf8Len_le text.toList
      rw [String.utf8Len_toList] at hle
      omega
    have htext := collapseText_toList h
    by_cases hshort : (collapseText text).utf8ByteSize ≤ 2000
    · have hself : collapseText (collapseText text) = collapseText text := if_neg (by omega)
      simp [hself, hshort]
    · simp only [h, hshort, false_or, forall_const]
      rw [← String.toList_inj, collapseText_toList (by omega)]
      have hfront : (collapseText text).toList.take 500 = text.toList.take 500 := by
        rw [htext, append_assoc]
        exact take_left' (by simp; omega)
      have hback : (collapseText text).toList.drop ((collapseText text).toList.length - 500) =
          text.toList.drop (text.toList.length - 500) := by
        rw [htext]
        exact drop_left' (by simp; omega)
      rw [hfront, hback, htext]
      constructor
      · intro heq
        have hmark := collapseMark_inj (append_cancel_left (append_cancel_right heq))
        omega
      · intro heq
        rw [heq]
  · have hself : collapseText text = text := if_neg h
    simp [hself, h]

theorem Collapsible.shown_le (h : Collapsible text) : shownBytes text ≤ text.utf8ByteSize := by
  unfold shownBytes
  split
  · rename_i hlong
    rcases h hlong with hle | heq
    · omega
    · exact heq.le
  · exact le_rfl

end Previews

/-! ## Collapse -/

section Collapse

variable {messages : List Message} {preserveHead preserveTail : Nat}

def ContentPart.resultText : ContentPart → Option String
  | .toolResult _ content _ => some content
  | _ => none

/-- The texts of a message that the collapse may shorten. -/
def Message.resultTexts (m : Message) : List String :=
  if m.role ≠ .tool then []
  else
    match m.content with
    | .text t => [t]
    | .parts parts => parts.filterMap ContentPart.resultText

theorem collapsed_collapsed (m : Message) :
    m.collapsed.collapsed = m.collapsed ↔ ∀ text ∈ m.resultTexts, Collapsible text := by
  obtain ⟨role, content⟩ := m
  by_cases hrole : role = .tool
  · cases content with
    | text t => simp [Message.collapsed, Message.resultTexts, hrole, collapse_collapse]
    | parts parts =>
      have hpart (p : ContentPart) : p.collapsed.collapsed = p.collapsed ↔
          ∀ text, p.resultText = some text → Collapsible text := by
        cases p <;> simp [collapsed, ContentPart.resultText, collapse_collapse]
      simp only [Message.collapsed, Message.resultTexts, hrole, ne_eq, not_true_eq_false,
        ↓reduceIte, map_map, Message.mk.injEq, MessageContent.parts.injEq, true_and,
        map_inj_left, Function.comp_apply, hpart, mem_filterMap]
      constructor
      · rintro h text ⟨p, hp, htext⟩
        exact h p hp text htext
      · exact fun h p hp text htext => h text ⟨p, hp, htext⟩
  · simp [Message.collapsed, Message.resultTexts, hrole]

theorem collapsed_chars {m : Message} (h : ∀ text ∈ m.resultTexts, Collapsible text) :
    m.collapsed.chars ≤ m.chars := by
  obtain ⟨role, content⟩ := m
  by_cases hrole : role = .tool
  · cases content with
    | text t =>
      simp only [Message.resultTexts, hrole, ne_eq, not_true_eq_false, ↓reduceIte,
        mem_singleton, forall_eq] at h
      simpa [Message.collapsed, Message.chars, hrole, collapseText_bytes] using h.shown_le
    | parts parts =>
      simp only [Message.resultTexts, hrole, ne_eq, not_true_eq_false, ↓reduceIte,
        mem_filterMap, forall_exists_index, and_imp] at h
      simp only [Message.collapsed, Message.chars, hrole, ne_eq, not_true_eq_false, ↓reduceIte,
        map_map]
      refine sum_le_sum fun p hp => ?_
      cases p with
      | toolResult id content isError =>
        simpa [collapsed, chars, collapseText_bytes] using
          (h content _ hp rfl).shown_le
      | _ => exact le_rfl
  · simp [Message.collapsed, hrole]

/-! What is counted as freed, and what is left, in bytes of the texts. -/

def Message.countedFreed (m : Message) : Nat :=
  (m.resultTexts.map fun t =>
    asU32 ((t.utf8ByteSize - shownBytes t) / CHARS_PER_TOKEN)).sum

def ContentPart.tokensLeft : ContentPart → Nat
  | .toolResult _ content _ => shownBytes content / CHARS_PER_TOKEN_STRUCTURED
  | p => p.tokens

def Message.tokensLeft (m : Message) : Nat :=
  if m.role ≠ .tool then m.tokens
  else
    match m.content with
    | .text t => shownBytes t / CHARS_PER_TOKEN
    | .parts parts => (parts.map ContentPart.tokensLeft).sum

theorem collapseFreed_eq (m : Message) : m.collapseFreed = m.countedFreed := by
  obtain ⟨role, content⟩ := m
  unfold Message.collapseFreed Message.countedFreed Message.resultTexts
  by_cases hrole : role = .tool
  · cases content with
    | text t => simp [hrole, collapseSaved, collapseText_bytes]
    | parts parts =>
      simp only [hrole, ne_eq, not_true_eq_false, ↓reduceIte]
      induction parts with
      | nil => rfl
      | cons p parts ih =>
        cases p <;> simp [ContentPart.collapseFreed, ContentPart.resultText, ih, collapseSaved,
          collapseText_bytes, filterMap_cons]
  · simp [hrole]

theorem collapsed_tokens (m : Message) : m.collapsed.tokens = m.tokensLeft := by
  obtain ⟨role, content⟩ := m
  unfold Message.collapsed Message.tokensLeft
  by_cases hrole : role = .tool
  · cases content with
    | text t => simp [hrole, Message.tokens, collapseText_bytes]
    | parts parts =>
      have hpart (p : ContentPart) : p.collapsed.tokens = p.tokensLeft := by
        cases p with
        | toolResult id content isError =>
          simp [collapsed, tokens, ContentPart.tokensLeft, collapseText_bytes]
        | _ => rfl
      simp [hrole, Message.tokens, hpart, Function.comp_def]
  · simp [hrole]

theorem removeStale_eq (preserveTail : Nat) (l : List Message) :
    removeStale preserveTail l =
      ((((l.take (l.length - preserveTail)).filter (·.role = .system)).map
          fun m => asU32 (m.chars / CHARS_PER_TOKEN)).sum,
        (l.take (l.length - preserveTail)).filter (·.role ≠ .system) ++
          l.drop (l.length - preserveTail)) := by
  induction l with
  | nil => simp [removeStale]
  | cons m rest ih =>
    rw [removeStale]
    split
    · rename_i hshort
      simp [Nat.sub_eq_zero_of_le hshort]
    · have hlength : rest.length + 1 - preserveTail = rest.length - preserveTail + 1 := by omega
      rw [ih]
      by_cases hm : m.role = .system <;> simp [hm, hlength]

def stale (w : List Message) : List Message := w.filter (·.role = .system)

def kept (w : List Message) : List Message := w.filter (·.role ≠ .system)

theorem contextCollapse_split (head w tail : List Message) :
    contextCollapse (head ++ (w ++ tail)) head.length tail.length =
      (asU32 (((stale w).map fun m => asU32 (m.chars / CHARS_PER_TOKEN)).sum +
        ((kept w).map Message.collapseFreed).sum),
      head ++ ((kept w).map Message.collapsed ++ tail)) := by
  unfold contextCollapse
  have hlength : (w ++ tail).length - tail.length = w.length := by simp
  cases w with
  | nil => simp [asU32, stale, kept]
  | cons m w =>
    rw [if_neg (by simp only [length_append, length_cons]; omega)]
    simp only [drop_left', removeStale_eq, hlength]
    simp [stale, kept]

/-- The messages without the system messages of the window. -/
def withoutStale (messages : List Message) (preserveHead preserveTail : Nat) : List Message :=
  if messages.length ≤ preserveHead + preserveTail then messages
  else
    messages.take preserveHead ++ (kept (window preserveHead preserveTail messages) ++
      messages.drop (messages.length - preserveTail))

structure CollapseShrinks (collapse : List Message → Nat × List Message) (messages : List Message)
    (preserveHead preserveTail : Nat) : Prop where
  head : (collapse messages).2.take preserveHead = messages.take preserveHead
  tail : (collapse messages).2.rtake preserveTail = messages.rtake preserveTail
  shorter : List.Forall₂ (fun new old => new.chars ≤ old.chars) (collapse messages).2
    (withoutStale messages preserveHead preserveTail)
  counted : (collapse messages).1 + estimateTokensFromMessages (collapse messages).2 ≤
    estimateTokensFromMessages messages
  again : (collapse (collapse messages).2).2 = (collapse messages).2

/-- Nothing is counted twice: a quarter of all bytes of the system messages that go, and of those
that the long results lose, is covered by what the estimate had for them. -/
def CountCovered (messages : List Message) (preserveHead preserveTail : Nat) : Prop :=
  let w := window preserveHead preserveTail messages
  let total := (messages.map Message.tokens).sum
  asU32 (((stale w).map fun m => asU32 (m.chars / CHARS_PER_TOKEN)).sum +
      ((kept w).map Message.countedFreed).sum) +
    asU32 (total - (w.map Message.tokens).sum + ((kept w).map Message.tokensLeft).sum) ≤
      asU32 total

/-- Whatever is shortened is shortened to a short text. -/
def PreviewsShort (messages : List Message) (preserveHead preserveTail : Nat) : Prop :=
  ∀ m ∈ kept (window preserveHead preserveTail messages), ∀ text ∈ m.resultTexts,
    Collapsible text

/-- A list with a window, in parts. -/
theorem exists_window (h : preserveHead + preserveTail < messages.length) :
    ∃ head w tail, messages = head ++ (w ++ tail) ∧ head.length = preserveHead ∧
      tail.length = preserveTail := by
  refine ⟨messages.take preserveHead, (messages.drop preserveHead).rdrop preserveTail,
    (messages.drop preserveHead).rtake preserveTail, ?_, ?_, ?_⟩
  · rw [rdrop, rtake, take_append_drop, take_append_drop]
  · rw [length_take]
    omega
  · rw [rtake, length_drop, length_drop]
    omega

variable {head w tail : List Message}

theorem take_window : (head ++ (w ++ tail)).take ((head ++ (w ++ tail)).length - tail.length) =
    head ++ w := by
  rw [← append_assoc]
  exact rdrop_append_length

theorem drop_window : (head ++ (w ++ tail)).drop ((head ++ (w ++ tail)).length - tail.length) =
    tail := by
  rw [← append_assoc, length_append, Nat.add_sub_cancel, drop_left]

theorem collapseShrinks_split (hw : w ≠ []) (hmessages : messages = head ++ (w ++ tail)) :
    CollapseShrinks (contextCollapse · head.length tail.length) messages head.length tail.length ↔
      PreviewsShort messages head.length tail.length ∧
      CountCovered messages head.length tail.length := by
  have hcut : messages.rdrop tail.length = head ++ w := hmessages ▸ take_window
  have htail : messages.rtake tail.length = tail := hmessages ▸ drop_window
  have hwindow : window head.length tail.length messages = w := by
    rw [window, ← rdrop, hcut, drop_left]
  have hkept : kept ((kept w).map Message.collapsed) = (kept w).map Message.collapsed := by
    refine filter_eq_self.2 fun m' hm' => ?_
    obtain ⟨m, hm, rfl⟩ := mem_map.1 hm'
    have hrole : m.collapsed.role = m.role := congrArg Turn.role (collapsed_turn m)
    rw [hrole]
    exact (mem_filter.1 hm).2
  have hcollapse := contextCollapse_split head w tail
  rw [← hmessages] at hcollapse
  have hagain : (contextCollapse (head ++ ((kept w).map Message.collapsed ++ tail)) head.length
      tail.length).2 = head ++ ((kept w).map Message.collapsed ++ tail) ↔
        PreviewsShort messages head.length tail.length := by
    rw [contextCollapse_split, hkept, append_cancel_left_eq, append_cancel_right_eq, map_map,
      map_inj_left, PreviewsShort, hwindow]
    exact forall₂_congr fun m _ => collapsed_collapsed m
  have hcounted : (contextCollapse messages head.length tail.length).1 +
      estimateTokensFromMessages (contextCollapse messages head.length tail.length).2 ≤
        estimateTokensFromMessages messages ↔ CountCovered messages head.length tail.length := by
    have hleft : (messages.map Message.tokens).sum - (w.map Message.tokens).sum =
        (head.map Message.tokens).sum + (tail.map Message.tokens).sum := by
      simp only [hmessages, map_append, sum_append]
      omega
    have hfreed : Message.collapseFreed = Message.countedFreed := funext collapseFreed_eq
    have htokens : Message.tokens ∘ Message.collapsed = Message.tokensLeft :=
      funext collapsed_tokens
    rw [hcollapse, CountCovered, hwindow]
    dsimp only [estimateTokensFromMessages]
    rw [hleft, hfreed]
    simp [htokens, Nat.add_assoc, Nat.add_comm]
  constructor
  · intro h
    have hself := h.again
    rw [hcollapse] at hself
    exact ⟨hagain.1 hself, hcounted.1 h.counted⟩
  · rintro ⟨hshort, hcovered⟩
    refine ⟨?_, ?_, ?_, hcounted.2 hcovered, by rw [hcollapse]; exact hagain.2 hshort⟩
    · rw [hcollapse, hmessages, take_left, take_left]
    · rw [hcollapse, htail]
      exact drop_window
    · have hout : withoutStale messages head.length tail.length = head ++ (kept w ++ tail) := by
        have hlong : ¬ messages.length ≤ head.length + tail.length := by
          have hpos := length_pos_of_ne_nil hw
          simp only [hmessages, length_append]
          omega
        rw [withoutStale, hwindow, ← rtake, htail, if_neg hlong, hmessages, take_left]
      have hrefl (l : List Message) : l.Forall₂ (fun new old => new.chars ≤ old.chars) l :=
        forall₂_same.2 fun _ _ => le_rfl
      have hsmaller : ((kept w).map Message.collapsed).Forall₂
          (fun new old => new.chars ≤ old.chars) (kept w) :=
        forall₂_map_left_iff.2 (forall₂_same.2 fun m hm =>
          collapsed_chars (hshort m (by rwa [hwindow])))
      rw [hcollapse, hout]
      exact rel_append (hrefl head) (rel_append hsmaller (hrefl tail))

/-- A collapse only shrinks, and shrinks once, if the previews are short and the count is covered,
and only then. -/
theorem collapseShrinks_iff :
    CollapseShrinks (contextCollapse · preserveHead preserveTail) messages preserveHead
      preserveTail ↔ PreviewsShort messages preserveHead preserveTail ∧
        CountCovered messages preserveHead preserveTail := by
  rcases Nat.lt_or_ge (preserveHead + preserveTail) messages.length with hlong | hshort
  · obtain ⟨head, w, tail, hmessages, rfl, rfl⟩ := exists_window hlong
    refine collapseShrinks_split ?_ hmessages
    rintro rfl
    simp [hmessages] at hlong
  · have hsame : contextCollapse messages preserveHead preserveTail = (0, messages) := if_pos hshort
    have hwindow : window preserveHead preserveTail messages = [] := by
      simp [window]
      omega
    refine iff_of_true ?_ ⟨by simp [PreviewsShort, kept, hwindow],
      by simp [CountCovered, stale, kept, hwindow, asU32]⟩
    constructor <;> simp [hsame, withoutStale, hshort]

end Collapse

/-! ## Both -/

structure OnlyShrinks (lower : String → String) (messages : List Message)
    (preserveHead preserveTail keepRecent : Nat) : Prop where
  collapse : CollapseShrinks (contextCollapse · preserveHead preserveTail) messages preserveHead
    preserveTail
  micro : ClearsOldResults (microcompact lower · preserveTail keepRecent)
    (usesBeforeTail lower messages preserveTail) messages preserveTail keepRecent

theorem onlyShrinks_iff (lower : String → String) (messages : List Message)
    (preserveHead preserveTail keepRecent : Nat) :
    OnlyShrinks lower messages preserveHead preserveTail keepRecent ↔
      PreviewsShort messages preserveHead preserveTail ∧
      CountCovered messages preserveHead preserveTail ∧
      RecentApart lower messages preserveTail keepRecent := by
  rw [← clearsOldResults_iff, ← and_assoc, ← collapseShrinks_iff]
  exact ⟨fun h => ⟨h.collapse, h.micro⟩, fun h => ⟨h.1, h.2⟩⟩

theorem utf8Len_replicate (c : Char) (n : Nat) :
    utf8Len (replicate n c) = n * c.utf8Size := by
  induction n with
  | zero => simp
  | succ n ih => rw [replicate_succ, String.utf8Len_cons, ih, Nat.succ_mul]

/-- The preview of 700 characters of three bytes is longer than they are. -/
theorem not_onlyShrinks : ¬ OnlyShrinks id
    [⟨.tool, .text (String.ofList (replicate 700 '€'))⟩] 0 0 0 := by
  intro h
  have hshort : Collapsible (String.ofList (replicate 700 '€')) :=
    (collapseShrinks_iff.1 h.collapse).1 _ (mem_singleton.2 rfl) _ (mem_singleton.2 rfl)
  have hwidth : '€'.utf8Size = 3 := by decide
  have hbytes : (String.ofList (replicate 700 '€')).utf8ByteSize = 2100 := by
    rw [String.utf8ByteSize_ofList, utf8Len_replicate, hwidth]
  have hpreview : previewBytes (String.ofList (replicate 700 '€')) = 3034 := by
    rw [previewBytes, hbytes, String.toList_ofList, length_replicate,
      take_replicate, drop_replicate, utf8Len_replicate, utf8Len_replicate]
    rfl
  have hpreview' := hshort (by rw [hbytes]; decide)
  rw [hpreview, hbytes] at hpreview'
  exact nomatch hpreview'

end Aeqi.Agent
