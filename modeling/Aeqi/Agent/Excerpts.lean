import Aeqi.Agent.Compaction
import Aeqi.Lib.Result
import Aeqi.Lib.Text
import Mathlib.Data.List.Sort
import Mathlib.Data.Nat.Digits.Defs

/-!
# Excerpts (`tool_result.rs`, `compaction.rs`)

What the agent keeps of a text that is too long. All lengths are in bytes. `truncate_result` and
`token_budgeted_tail` look for the boundary of a character before they cut, the summary, the preview
and the enrichments cut where the budget ends, which panics inside a character. A slice is `none`
there, and so is a subtraction that underflows.
-/

namespace Aeqi.Agent

open Aeqi.Lib List Option

/-! ## Head and tail -/

def truncatedMark (omitted : Nat) : List Char :=
  "\n\n[... ".toList ++ Nat.toDigits 10 omitted ++ " characters truncated ...]\n\n".toList

def truncateResult (output : List Char) (maxChars : Nat) : Option (List Char) :=
  if byteLength output ≤ maxChars then some output
  else do
    let headSize := maxChars * 2 / 5
    let tailSize := maxChars * 2 / 5
    let omitted ← checkedSub (byteLength output) headSize
    let omitted ← checkedSub omitted tailSize
    let head ← sliceTo (endBefore headSize output) output
    let tail ← sliceFrom (startWithin tailSize output) output
    some (head ++ truncatedMark omitted ++ tail)

section Truncated

variable {output : List Char} {maxChars : Nat}

/-- Head and tail do not overlap: what is in both would begin before two fifths and have at most
two fifths from there on. -/
theorem truncateResult_eq (hlong : maxChars < byteLength output) :
    ∃ head mid tail n, output = head ++ (mid ++ tail) ∧ n ≤ byteLength output ∧
      truncateResult output maxChars = some (head ++ truncatedMark n ++ tail) ∧
      byteLength head ≤ maxChars * 2 / 5 + 3 ∧ byteLength tail ≤ maxChars * 2 / 5 := by
  obtain ⟨head, rest, houtput, hhead, hbefore⟩ := endBefore_eq (maxChars * 2 / 5) output
  obtain ⟨front, tail, houtput', hfront, hwithin⟩ := startWithin_eq (maxChars * 2 / 5) output
  have hsub₁ := checkedSub_eq_some.2 ⟨show maxChars * 2 / 5 ≤ byteLength output by omega, rfl⟩
  have hsub₂ := checkedSub_eq_some.2
    ⟨show maxChars * 2 / 5 ≤ byteLength output - maxChars * 2 / 5 by omega, rfl⟩
  have hslice : sliceTo (byteLength head) output = some head := houtput ▸ sliceTo_append
  have hslice' : sliceFrom (byteLength front) output = some tail := houtput' ▸ sliceFrom_append
  have hlength := houtput' ▸ hlong
  rw [byteLength_append] at hlength
  have hsize : byteLength head ≤ maxChars * 2 / 5 + 3 := by
    rcases eq_nil_or_concat' head with rfl | ⟨init, c, rfl⟩
    · exact Nat.zero_le _
    · have hless := hbefore init c rfl
      have hc := c.utf8Size_le_four
      simp only [byteLength, map_append, sum_append, map_singleton, sum_singleton] at hless ⊢
      omega
  obtain ⟨mid, rfl⟩ : ∃ mid, front = head ++ mid := by
    rcases append_eq_append_iff.1 (houtput.symm.trans houtput') with ⟨mid, hmid, -⟩ | ⟨both, hboth, -⟩
    · exact ⟨mid, hmid⟩
    · rcases eq_nil_or_concat' both with rfl | ⟨init, c, rfl⟩
      · exact ⟨[], by simpa using hboth.symm⟩
      · have hless := hbefore (front ++ init) c (by rw [hboth, append_assoc])
        rw [byteLength_append] at hless
        omega
  refine ⟨head, mid, tail, byteLength output - maxChars * 2 / 5 - maxChars * 2 / 5,
    by rw [houtput', append_assoc], by omega, ?_, hsize, hwithin⟩
  unfold truncateResult
  simp [if_neg (Nat.not_le.2 hlong), hsub₁, hsub₂, hhead, hfront, hslice, hslice']

theorem byteLength_toDigits (n : Nat) :
    byteLength (Nat.toDigits 10 n) = (Nat.toDigits 10 n).length := by
  have hall : ∀ l : List Char, (∀ c ∈ l, c.isDigit = true) → byteLength l = l.length := by
    intro l hl
    induction l with
    | nil => rfl
    | cons c l ih =>
      have hc : c.utf8Size = 1 := by
        have hdigit := hl c mem_cons_self
        rw [Char.utf8Size_eq_one_iff]
        simp only [Char.isDigit, Bool.and_eq_true, decide_eq_true_eq] at hdigit
        exact UInt32.le_trans hdigit.2 (by decide)
      rw [byteLength_cons, ih fun d hd => hl d (mem_cons_of_mem _ hd), hc, length_cons, Nat.add_comm]
  exact hall _ fun c hc => Nat.isDigit_of_mem_toDigits (by decide) (by decide) hc

/-- Two fifths and three bytes, two fifths, and a line of at most 54 bytes. -/
theorem truncateResult_fits (hmin : 500 ≤ maxChars) (hlong : maxChars < byteLength output)
    (hsize : byteLength output < 2 ^ 63) :
    ∃ short, truncateResult output maxChars = some short ∧ byteLength short ≤ maxChars := by
  obtain ⟨head, -, tail, n, -, hn, hshort, hhead, htail⟩ := truncateResult_eq hlong
  have hdigits := Nat.toDigits_length 10 n 19 (by decide) ((hn.trans_lt hsize).trans (by norm_num))
  have hmark : byteLength (truncatedMark n) = 35 + (Nat.toDigits 10 n).length := by
    have hfront : byteLength "\n\n[... ".toList = 7 := by decide +kernel
    have hback : byteLength " characters truncated ...]\n\n".toList = 28 := by decide +kernel
    unfold truncatedMark
    rw [byteLength_append, byteLength_append, byteLength_toDigits]
    omega
  refine ⟨_, hshort, ?_⟩
  rw [byteLength_append, byteLength_append]
  omega

end Truncated

/-! ## The budget of a step -/

structure ProcessedToolResult where
  id : String
  name : String
  output : List Char
  isError : Bool

structure Truncation where
  id : String
  name : String
  originalBytes : Nat
  newBytes : Nat

/-- The results with one truncated to what the overage leaves of it. -/
def trimOne (maxChars : Nat) (results : List ProcessedToolResult) (idx currentTotal : Nat) :
    Option (List ProcessedToolResult × Nat × List Truncation) := do
  let r ← results[idx]?
  if r.isError then some (results, currentTotal, [])
  else do
    let oldLen := byteLength r.output
    let overage ← checkedSub currentTotal maxChars
    let targetLen := max (oldLen - overage) 500
    if targetLen < oldLen then do
      let output ← truncateResult r.output targetLen
      let newLen := byteLength output
      let saved ← checkedSub oldLen newLen
      let currentTotal ← checkedSub currentTotal saved
      some (results.set idx { r with output }, currentTotal, [⟨r.id, r.name, oldLen, newLen⟩])
    else some (results, currentTotal, [])

def trimLoop (maxChars : Nat) : List Nat → List ProcessedToolResult → Nat → List Truncation →
    Option (List ProcessedToolResult × List Truncation)
  | [], results, _, truncated => some (results, truncated)
  | idx :: indices, results, currentTotal, truncated =>
    if currentTotal ≤ maxChars then some (results, truncated)
    else do
      let (results, currentTotal, new) ← trimOne maxChars results idx currentTotal
      trimLoop maxChars indices results currentTotal (truncated ++ new)

def totalBytes (results : List ProcessedToolResult) : Nat :=
  (results.map fun r => byteLength r.output).sum

/-- The indices, those of longer outputs first. -/
def longestFirst (results : List ProcessedToolResult) : List Nat :=
  let outputLen (i : Nat) := (results[i]?.map fun r => byteLength r.output).getD 0
  (range results.length).insertionSort fun i j => outputLen j ≤ outputLen i

def enforceResultBudget (results : List ProcessedToolResult) (maxChars : Nat) :
    Option (List ProcessedToolResult × List Truncation) :=
  if totalBytes results ≤ maxChars then some (results, [])
  else trimLoop maxChars (longestFirst results) results (totalBytes results) []

/-- The same result, with an output that is no longer. -/
structure ProcessedToolResult.Shortens (old new : ProcessedToolResult) : Prop where
  id : new.id = old.id
  name : new.name = old.name
  isError : new.isError = old.isError
  output : byteLength new.output ≤ byteLength old.output
  error : old.isError = true → new = old

/-- The record is that of a result which was shortened. -/
def Truncation.Tells (before after : List ProcessedToolResult) (idx : Nat) (t : Truncation) : Prop :=
  ∃ old new, before[idx]? = some old ∧ after[idx]? = some new ∧
    t = ⟨old.id, old.name, byteLength old.output, byteLength new.output⟩ ∧
    byteLength new.output < byteLength old.output

/-- No output is longer, no error is touched, and the records are those of different results. -/
structure Shortened (before after : List ProcessedToolResult) (truncated : List Truncation) :
    Prop where
  length : after.length = before.length
  shortens : ∀ (i : Nat) old, before[i]? = some old → ∃ new, after[i]? = some new ∧ old.Shortens new
  told : ∃ told : List (Nat × Truncation), told.map (·.2) = truncated ∧
    (told.map (·.1)).Nodup ∧ ∀ x ∈ told, x.2.Tells before after x.1

structure BudgetEnforced (maxChars : Nat) (before after : List ProcessedToolResult)
    (truncated : List Truncation) : Prop extends Shortened before after truncated where
  fits : totalBytes after ≤ maxChars ∨
    ∀ r ∈ after, r.isError = false → byteLength r.output ≤ 500

section Budget

variable {maxChars : Nat} {before results after : List ProcessedToolResult} {idx : Nat}
  {truncated new : List Truncation}

theorem totalBytes_set {r r' : ProcessedToolResult} (h : results[idx]? = some r) :
    totalBytes (results.set idx r') + byteLength r.output =
      totalBytes results + byteLength r'.output := by
  unfold totalBytes
  induction results generalizing idx with
  | nil => simp at h
  | cons x results ih =>
    cases idx with
    | zero =>
      cases h
      simp only [set_cons_zero, map_cons, sum_cons]
      omega
    | succ idx =>
      have hrest := ih h
      simp only [set_cons_succ, map_cons, sum_cons]
      omega

/-- What the turn of one index does: it stays, being an error or short, or it is shortened. -/
theorem trimOne_cases {r : ProcessedToolResult} (hr : results[idx]? = some r)
    (hsize : byteLength r.output < 2 ^ 63) (hover : maxChars < totalBytes results) :
    trimOne maxChars results idx (totalBytes results) = some (results, totalBytes results, []) ∧
      (r.isError = false → byteLength r.output ≤ 500) ∨
    ∃ output, trimOne maxChars results idx (totalBytes results) =
        some (results.set idx { r with output }, totalBytes (results.set idx { r with output }),
          [⟨r.id, r.name, byteLength r.output, byteLength output⟩]) ∧
      r.isError = false ∧ byteLength output < byteLength r.output ∧
      (maxChars < totalBytes (results.set idx { r with output }) → byteLength output ≤ 500) := by
  unfold trimOne
  rw [hr, bind_eq_bind, bind_some]
  by_cases herror : r.isError = true
  · exact .inl ⟨by simp [herror], fun h => by simp [herror] at h⟩
  rw [if_neg herror]
  have hoverage : checkedSub (totalBytes results) maxChars = some (totalBytes results - maxChars) :=
    checkedSub_eq_some.2 ⟨hover.le, rfl⟩
  simp only [hoverage, bind_eq_bind, bind_some]
  split
  next hlong =>
    obtain ⟨output, houtput, hfits⟩ := truncateResult_fits (le_max_right _ _) hlong hsize
    have hset : totalBytes (results.set idx { r with output }) + byteLength r.output =
      totalBytes results + byteLength output := totalBytes_set hr
    have hsaved : checkedSub (byteLength r.output) (byteLength output) =
        some (byteLength r.output - byteLength output) := checkedSub_eq_some.2 ⟨by omega, rfl⟩
    have htotal : checkedSub (totalBytes results) (byteLength r.output - byteLength output) =
        some (totalBytes (results.set idx { r with output })) :=
      checkedSub_eq_some.2 ⟨by omega, by omega⟩
    refine .inr ⟨output, ?_, Bool.eq_false_of_not_eq_true herror, by omega, by omega⟩
    simp [houtput, hsaved, htotal]
  next hshort => exact .inl ⟨rfl, fun _ => by omega⟩

/-- What holds when the indices in `seen` have had their turns. -/
structure Trimmed (maxChars : Nat) (before : List ProcessedToolResult) (seen : List Nat)
    (after : List ProcessedToolResult) (truncated : List Truncation) : Prop
    extends Shortened before after truncated where
  unseen : ∀ i ∉ seen, after[i]? = before[i]?
  short : maxChars < totalBytes after → ∀ i ∈ seen, ∀ r, after[i]? = some r →
    r.isError = false → byteLength r.output ≤ 500

variable {seen indices : List Nat}

theorem Trimmed.turn (h : Trimmed maxChars before seen after truncated)
    (hsize : ∀ r ∈ before, byteLength r.output < 2 ^ 63) (hnew : idx ∉ seen)
    (hidx : idx < before.length) (hover : maxChars < totalBytes after) :
    ∃ after' new, trimOne maxChars after idx (totalBytes after) =
        some (after', totalBytes after', new) ∧
      Trimmed maxChars before (idx :: seen) after' (truncated ++ new) := by
  obtain ⟨old, hold⟩ : ∃ old, before[idx]? = some old := ⟨_, getElem?_eq_getElem hidx⟩
  have hr : after[idx]? = some old := (h.unseen idx hnew).trans hold
  rcases trimOne_cases hr (hsize _ (mem_of_getElem? hold)) hover with
    ⟨hturn, hshort⟩ | ⟨output, hturn, herror, hlt, hshort⟩
  · refine ⟨after, [], hturn, (append_nil truncated).symm ▸ h.toShortened, ?_, ?_⟩
    · exact fun i hi => h.unseen i fun hmem => hi (mem_cons_of_mem _ hmem)
    · intro _ i hi r hget hok
      rcases mem_cons.1 hi with rfl | hi
      · cases hr.symm.trans hget
        exact hshort hok
      · exact h.short hover i hi r hget hok
  · have hset : (after.set idx { old with output })[idx]? =
        some { old with output } := getElem?_set_self (h.length ▸ hidx)
    have hother : ∀ i ≠ idx, (after.set idx { old with output })[i]? = after[i]? :=
      fun i hi => getElem?_set_ne hi.symm
    obtain ⟨told, htold, hnodup, htells⟩ := h.told
    have hne : ∀ x ∈ told, x.1 ≠ idx := by
      rintro x hx rfl
      obtain ⟨old', new, hbefore, hafter, -, hless⟩ := htells x hx
      cases hold.symm.trans hbefore
      cases hr.symm.trans hafter
      omega
    refine ⟨_, _, hturn, ⟨?_, ?_,
      told ++ [(idx, ⟨old.id, old.name, byteLength old.output, byteLength output⟩)], ?_, ?_, ?_⟩, ?_, ?_⟩
    · rw [length_set, h.length]
    · intro i old' hi
      by_cases heq : i = idx
      · subst heq
        cases hold.symm.trans hi
        exact ⟨_, hset, rfl, rfl, rfl, hlt.le, fun h => by cases herror.symm.trans h⟩
      · rw [hother i heq]
        exact h.shortens i old' hi
    · rw [map_append, htold, map_singleton]
    · rw [map_append, map_singleton, ← concat_eq_append, nodup_concat]
      refine ⟨fun hmem => ?_, hnodup⟩
      obtain ⟨x, hx, heq⟩ := mem_map.1 hmem
      exact hne x hx heq
    · intro x hx
      rcases mem_append.1 hx with hx | hx
      · obtain ⟨old', new, hbefore, hafter, htell⟩ := htells x hx
        exact ⟨old', new, hbefore, (hother x.1 (hne x hx)).trans hafter, htell⟩
      · rw [mem_singleton.1 hx]
        exact ⟨_, _, hold, hset, rfl, hlt⟩
    · intro i hi
      rw [hother i fun heq => hi (heq ▸ mem_cons_self)]
      exact h.unseen i fun hmem => hi (mem_cons_of_mem _ hmem)
    · intro hover' i hi r hget hok
      by_cases heq : i = idx
      · subst heq
        cases hset.symm.trans hget
        exact hshort hover'
      · rw [hother i heq] at hget
        exact h.short hover i ((mem_cons.1 hi).resolve_left heq) r hget hok

theorem Trimmed.loop (h : Trimmed maxChars before seen after truncated)
    (hsize : ∀ r ∈ before, byteLength r.output < 2 ^ 63)
    (hperm : seen ++ indices ~ range before.length) :
    ∃ after' truncated', trimLoop maxChars indices after (totalBytes after) truncated =
      some (after', truncated') ∧ BudgetEnforced maxChars before after' truncated' := by
  induction indices generalizing seen after truncated with
  | nil =>
    refine ⟨after, truncated, rfl, h.toShortened, ?_⟩
    rcases Nat.lt_or_ge maxChars (totalBytes after) with hover | hfits
    · refine .inr fun r hr => ?_
      obtain ⟨i, hi, rfl⟩ := mem_iff_getElem.1 hr
      refine h.short hover i ?_ _ (getElem?_eq_getElem hi)
      rw [append_nil] at hperm
      exact hperm.mem_iff.2 (mem_range.2 (h.length ▸ hi))
    · exact .inl hfits
  | cons idx indices ih =>
    unfold trimLoop
    split
    next hfits => exact ⟨after, truncated, rfl, h.toShortened, .inl hfits⟩
    next hover =>
      -- The indices that are left are those that have had no turn.
      have hmoved : idx :: seen ++ indices ~ range before.length := perm_middle.symm.trans hperm
      have hfresh := (nodup_cons.1 (hmoved.nodup_iff.2 nodup_range)).1
      obtain ⟨after₁, new, hturn, h₁⟩ := h.turn hsize
        (fun hseen => hfresh (mem_append_left _ hseen))
        (mem_range.1 (hmoved.mem_iff.1 mem_cons_self)) (by omega)
      rw [hturn]
      exact ih h₁ hmoved

/-- **The budget of a step is enforced**, whatever the outputs. -/
theorem resultBudget_enforced (hsize : ∀ r ∈ before, byteLength r.output < 2 ^ 63) :
    ∃ after truncated, enforceResultBudget before maxChars = some (after, truncated) ∧
      BudgetEnforced maxChars before after truncated := by
  have hstart : Trimmed maxChars before [] before [] :=
    ⟨⟨rfl, fun i old h => ⟨old, h, rfl, rfl, rfl, le_rfl, fun _ => rfl⟩, [], rfl, nodup_nil, nofun⟩,
      fun _ _ => rfl, nofun⟩
  unfold enforceResultBudget
  split
  next hfits => exact ⟨before, [], rfl, hstart.toShortened, .inl hfits⟩
  next hover => exact hstart.loop hsize (perm_insertionSort _ _)

/-- One output of 600 bytes, with a budget of 550, becomes one of 482. -/
theorem longOutput_enforced : ∃ after truncated,
    enforceResultBudget [⟨"c", "read", replicate 600 'x', false⟩] 550 = some (after, truncated) ∧
    BudgetEnforced 550 [⟨"c", "read", replicate 600 'x', false⟩] after truncated :=
  resultBudget_enforced (by decide +kernel)

end Budget

/-! ## Cuts -/

/-- `&text[..max]` and an ellipsis for a longer text. -/
def clip (max : Nat) (text : List Char) : Option (List Char) :=
  if max < byteLength text then (sliceTo max text).map (· ++ "...".toList) else some text

/-- A text that is longer ends a character at the byte `max`. -/
def Cuts (max : Nat) (text : List Char) : Prop :=
  byteLength text ≤ max ∨ isCharBoundary text max = true

def Role.label : Role → List Char
  | .user => "User".toList
  | .assistant => "Assistant".toList
  | .system => "System".toList
  | .tool => "Tool".toList

def fieldPreview (field : List Char × List Char) : List Char :=
  field.1 ++ '=' :: if 80 < byteLength field.2 then field.2.take 80 ++ "...".toList else field.2

section Transcript

-- the fields of a tool's input, if it is an object, with what their values print as
variable (asObject : String → Option (List (List Char × List Char)))

def ContentPart.excerpt : ContentPart → Option (List Char)
  | .text t => clip 500 t.toList
  | .toolUse _ name input =>
    let inputPreview := ", ".toList.intercalate ((((asObject input).getD []).take 3).map fieldPreview)
    some ("[tool:".toList ++ name.toList ++ '(' :: inputPreview ++ ")]".toList)
  | .toolResult _ content isError =>
    (clip 300 content.toList).map ((if isError then "ERROR: " else "").toList ++ ·)

def Message.excerpt (m : Message) : Option (List Char) :=
  match m.content with
  | .text t => clip 500 t.toList
  | .parts parts => (parts.mapM (ContentPart.excerpt asObject)).map " | ".toList.intercalate

/-- The line of a message, which is empty for an empty text. -/
def Role.entry (role : Role) (text : List Char) : List Char :=
  if text = [] then [] else role.label ++ ": ".toList ++ text ++ ['\n']

def transcriptFrom : List Message → List Char → Option (List Char)
  | [], transcript => some transcript
  | m :: messages, transcript =>
    if 16000 ≤ byteLength transcript then some transcript
    else do
      let text ← m.excerpt asObject
      let entry := m.role.entry text
      if 16000 < byteLength transcript + byteLength entry then some transcript
      else transcriptFrom messages (transcript ++ entry)

def buildCompactionTranscript (messages : List Message) : Option (List Char) :=
  transcriptFrom asObject messages []

def ContentPart.Cuts : ContentPart → Prop
  | .text t => Agent.Cuts 500 t.toList
  | .toolUse .. => True
  | .toolResult _ content _ => Agent.Cuts 300 content.toList

def Message.Cuts (m : Message) : Prop :=
  match m.content with
  | .text t => Agent.Cuts 500 t.toList
  | .parts parts => ∀ p ∈ parts, p.Cuts

/-- Every message that comes before 16000 bytes are filled has texts that can be cut. -/
def TranscriptCuts : Nat → List Message → Prop
  | _, [] => True
  | filled, m :: messages => filled < 16000 → m.Cuts ∧
      TranscriptCuts (filled + ((m.excerpt asObject).map (byteLength <| m.role.entry ·)).getD 0)
        messages

variable {asObject}

theorem clip_isSome {max : Nat} {text : List Char} : (clip max text).isSome = true ↔ Cuts max text := by
  unfold clip Cuts
  split
  · rw [isSome_map, sliceTo_isSome]
  · exact iff_of_true rfl (.inl (by omega))

theorem mapM_isSome {α β : Type} {f : α → Option β} {l : List α} :
    (l.mapM f).isSome = true ↔ ∀ x ∈ l, (f x).isSome = true := by
  induction l with
  | nil => simp
  | cons x l ih =>
    rw [mapM_cons, forall_mem_cons, ← ih]
    cases f x <;> cases l.mapM f <;> simp

theorem excerpt_isSome (m : Message) : (m.excerpt asObject).isSome = true ↔ m.Cuts := by
  unfold Message.excerpt Message.Cuts
  split
  · exact clip_isSome
  · rw [isSome_map, mapM_isSome]
    refine forall₂_congr fun p _ => ?_
    cases p with
    | text t => exact clip_isSome
    | toolUse => exact iff_of_true rfl trivial
    | toolResult => rw [ContentPart.excerpt, isSome_map]; exact clip_isSome

theorem transcriptFrom_isSome {messages : List Message} {transcript : List Char} :
    (transcriptFrom asObject messages transcript).isSome = true ↔
      TranscriptCuts asObject (byteLength transcript) messages := by
  induction messages generalizing transcript with
  | nil => exact iff_of_true rfl trivial
  | cons m messages ih =>
    unfold transcriptFrom TranscriptCuts
    split
    next hfull => exact iff_of_true rfl fun hless => absurd hless (by omega)
    next hroom =>
      rw [← @excerpt_isSome asObject]
      cases m.excerpt asObject with
      | none => simp [Nat.not_le.1 hroom]
      | some text =>
        simp only [bind_eq_bind, bind_some, map_some, getD_some, isSome_some, true_and,
          Nat.not_le.1 hroom, forall_const]
        split
        next hover =>
          refine iff_of_true rfl ?_
          cases messages with
          | nil => trivial
          | cons => exact fun hless => absurd hless (by omega)
        next => rw [ih, byteLength_append]

end Transcript

/-- The first boundary from a byte on. -/
def boundaryFrom (text : List Char) (cut : Nat) : Nat :=
  if cut < byteLength text ∧ isCharBoundary text cut = false then boundaryFrom text (cut + 1) else cut
termination_by byteLength text - cut

def tokenBudgetedTail (transcript : List Char) (budgetTokens : Nat) : Option (List Char) :=
  let budgetChars := budgetTokens * CHARS_PER_TOKEN_STRUCTURED
  if byteLength transcript ≤ budgetChars then some transcript
  else sliceFrom (boundaryFrom transcript (byteLength transcript - budgetChars)) transcript

def generatePreview (content : List Char) (maxBytes : Nat) : Option (List Char) :=
  if byteLength content ≤ maxBytes then some content
  else do
    let truncated ← sliceTo maxBytes content
    let lastNewline := ((charIndices 0 truncated).reverse.find? (·.2 = '\n')).map (·.1)
    let cutPoint := (lastNewline.filter (maxBytes / 2 < ·)).getD maxBytes
    let front ← sliceTo (endBefore cutPoint content) content
    some (front ++ "...".toList)

structure ContextAttachment where
  source : List Char
  content : List Char
  maxTokens : Nat

def ContextAttachment.tokens (att : ContextAttachment) : Nat :=
  byteLength att.content / CHARS_PER_TOKEN

def injectFrom (globalBudget : Nat) : List ContextAttachment → List Message → Nat →
    List (List Char × Nat) → Option (List Message × List (List Char × Nat))
  | [], messages, _, injected => some (messages, injected)
  | att :: attachments, messages, totalTokens, injected =>
    let capped := min att.tokens att.maxTokens
    if globalBudget < totalTokens + capped then
      injectFrom globalBudget attachments messages totalTokens injected
    else do
      let content ← if att.maxTokens < att.tokens then
          sliceTo (att.maxTokens * CHARS_PER_TOKEN) att.content
        else some att.content
      let text := "# ".toList ++ att.source ++ " (enrichment)\n".toList ++ content
      injectFrom globalBudget attachments (messages ++ [⟨.system, .text (String.ofList text)⟩])
        (totalTokens + capped) (injected ++ [(att.source, asU32 capped)])

def injectEnrichments (messages : List Message) (attachments : List ContextAttachment)
    (contextWindow : Nat) : Option (List Message × List (List Char × Nat)) :=
  injectFrom (contextWindow / 20) attachments messages 0 []

/-- Every attachment that the budget has room for can be cut. -/
def EnrichmentsCut (globalBudget : Nat) : Nat → List ContextAttachment → Prop
  | _, [] => True
  | totalTokens, att :: attachments =>
    if globalBudget < totalTokens + min att.tokens att.maxTokens then
      EnrichmentsCut globalBudget totalTokens attachments
    else (att.maxTokens < att.tokens → Cuts (att.maxTokens * CHARS_PER_TOKEN) att.content) ∧
      EnrichmentsCut globalBudget (totalTokens + min att.tokens att.maxTokens) attachments

/-- Everything is returned, and what is truncated keeps a head and a tail that do not overlap. -/
structure CutsSafely (asObject : String → Option (List (List Char × List Char)))
    (messages conversation : List Message) (transcript content output : List Char)
    (attachments : List ContextAttachment)
    (budgetTokens maxBytes maxChars contextWindow : Nat) : Prop where
  summary : (buildCompactionTranscript asObject messages).isSome = true
  tail : (tokenBudgetedTail transcript budgetTokens).isSome = true
  preview : (generatePreview content maxBytes).isSome = true
  truncated : truncateResult output maxChars = some output ∨
    ∃ head mid tail n, output = head ++ (mid ++ tail) ∧
      truncateResult output maxChars = some (head ++ truncatedMark n ++ tail)
  injected : (injectEnrichments conversation attachments contextWindow).isSome = true

section Cutting

variable {text content : List Char} {cut maxBytes budgetTokens globalBudget : Nat}

theorem boundaryFrom_isBoundary (hcut : cut ≤ byteLength text) :
    isCharBoundary text (boundaryFrom text cut) = true := by
  fun_induction boundaryFrom text cut with
  | case1 cut hinside ih => exact ih hinside.1
  | case2 cut hstop =>
    rcases hcut.lt_or_eq with hlt | rfl
    · simpa [hlt] using hstop
    · exact isCharBoundary_iff.2 ⟨text, prefix_rfl, rfl⟩

theorem tokenBudgetedTail_isSome : (tokenBudgetedTail text budgetTokens).isSome = true := by
  unfold tokenBudgetedTail
  dsimp only
  split
  · rfl
  · exact sliceFrom_of_boundary (boundaryFrom_isBoundary (by omega))

theorem generatePreview_isSome : (generatePreview content maxBytes).isSome = true ↔
    Cuts maxBytes content := by
  unfold generatePreview
  split
  next hfits => exact iff_of_true rfl (.inl hfits)
  next =>
    rw [Cuts, ← sliceTo_isSome]
    cases sliceTo maxBytes content with
    | none => rfl
    | some truncated =>
      refine iff_of_true ?_ rfl
      rw [bind_eq_bind, bind_some]
      dsimp only
      obtain ⟨front, rest, hcontent, hend, -⟩ := endBefore_eq (((((charIndices 0
        truncated).reverse.find? (·.2 = '\n')).map (·.1)).filter
          (maxBytes / 2 < ·)).getD maxBytes) content
      have hslice : sliceTo (byteLength front) content = some front := hcontent ▸ sliceTo_append
      rw [hend, hslice]
      rfl

theorem injectFrom_isSome {attachments : List ContextAttachment} {messages : List Message}
    {totalTokens : Nat} {injected : List (List Char × Nat)} :
    (injectFrom globalBudget attachments messages totalTokens injected).isSome = true ↔
      EnrichmentsCut globalBudget totalTokens attachments := by
  induction attachments generalizing messages totalTokens injected with
  | nil => exact iff_of_true rfl trivial
  | cons att attachments ih =>
    unfold injectFrom EnrichmentsCut
    dsimp only
    split
    · exact ih
    · by_cases hlong : att.maxTokens < att.tokens
      · rw [Cuts, ← sliceTo_isSome]
        cases sliceTo (att.maxTokens * CHARS_PER_TOKEN) att.content with
        | none => simp [hlong]
        | some content => simpa [hlong] using ih
      · simpa [hlong] using ih

/-- **Texts are cut at boundaries** if the summary, the preview and the enrichments happen to end at
one. -/
theorem cutsSafely_iff (asObject : String → Option (List (List Char × List Char)))
    (messages conversation : List Message) (transcript content output : List Char)
    (attachments : List ContextAttachment) (budgetTokens maxBytes maxChars contextWindow : Nat) :
    CutsSafely asObject messages conversation transcript content output attachments budgetTokens
        maxBytes maxChars contextWindow ↔
      TranscriptCuts asObject 0 messages ∧ Cuts maxBytes content ∧
        EnrichmentsCut (contextWindow / 20) 0 attachments := by
  have hsummary : (buildCompactionTranscript asObject messages).isSome = true ↔
      TranscriptCuts asObject 0 messages := transcriptFrom_isSome
  rw [← hsummary, ← generatePreview_isSome, ← injectFrom_isSome]
  refine ⟨fun h => ⟨h.summary, h.preview, h.injected⟩, fun ⟨hmessages, hpreview, hinjected⟩ =>
    ⟨hmessages, tokenBudgetedTail_isSome, hpreview, ?_, hinjected⟩⟩
  rcases Nat.lt_or_ge maxChars (byteLength output) with hlong | hfits
  · obtain ⟨head, mid, tail, n, houtput, -, htruncated, -⟩ := truncateResult_eq hlong
    exact .inr ⟨head, mid, tail, n, houtput, htruncated⟩
  · exact .inl (if_pos hfits)

/-- The 500th byte is the first of two of an accented letter. -/
theorem not_cutsSafely : ¬ CutsSafely (fun _ => none)
    [⟨.user, .text (String.ofList (replicate 499 'a' ++ ['é']))⟩] [] [] [] [] [] 0 0 0 0 := by
  intro h
  have hcuts := (transcriptFrom_isSome.1 h.summary (by decide)).1
  simp only [Message.Cuts, String.toList_ofList] at hcuts
  exact absurd hcuts (by unfold Cuts; decide +kernel)

end Cutting

end Aeqi.Agent
