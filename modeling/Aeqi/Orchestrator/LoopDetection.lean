import Aeqi.Lib.Accounts
import Mathlib.Data.List.DropRight

/-!
# Loop detection (`middleware/loop_detection.rs`)

The fingerprints of the last tool calls are kept in a window, and in a map how often each of them
is there. The hasher that makes a fingerprint of a call is a parameter.
-/

namespace Aeqi.Orchestrator

open Aeqi.Lib List

structure LoopDetectionMiddleware.ToolCall where
  name : String
  input : String
  deriving DecidableEq

inductive MiddlewareAction
  | continue
  | skip
  | halt (reason : String)

/-- The arguments of the pattern `loop:detected`. -/
structure LoopDetected where
  toolName : String
  count : Nat
  windowSize : Nat

structure LoopState where
  window : List UInt64 := []
  counts : Accounts UInt64 Nat := ∅

structure LoopDetectionMiddleware where
  windowSize : Nat := 10
  warnThreshold : Nat := 3
  haltThreshold : Nat := 5

/-- The oldest fingerprint leaves the window. -/
def LoopState.evict (s : LoopState) : LoopState :=
  match s.window with
  | [] => s
  | old :: window =>
    { window
      counts :=
        match s.counts.lookup old with
        | none => s.counts
        | some entry =>
          if entry - 1 = 0 then s.counts.erase old else s.counts.insert old (entry - 1) }

/-- A fingerprint enters the window; its count is returned. -/
def LoopState.add (s : LoopState) (hash : UInt64) : Nat × LoopState :=
  let count := (s.counts.lookup hash).getD 0 + 1
  (count, { window := s.window ++ [hash], counts := s.counts.insert hash count })

namespace LoopDetectionMiddleware

variable (mw : LoopDetectionMiddleware) (fingerprint : ToolCall → UInt64)

def record (call : ToolCall) (s : LoopState) : Nat × LoopState :=
  let s := if mw.windowSize ≤ s.window.length then s.evict else s
  s.add (fingerprint call)

def afterTool (call : ToolCall) (s : LoopState) : MiddlewareAction × LoopState :=
  let (count, s) := mw.record fingerprint call s
  if mw.haltThreshold ≤ count then
    (.halt (s!"Loop detected: identical call to '{call.name}' (same arguments) appeared {count} " ++
      s!"times in the last {mw.windowSize} tool calls. Execution halted — you are repeating the " ++
      "same operation. Change your approach."), s)
  else (.continue, s)

def detect (latest : Option ToolCall) (s : LoopState) : List LoopDetected × LoopState :=
  match latest with
  | none => ([], s)
  | some call =>
    let (count, s) := mw.record fingerprint call s
    if mw.warnThreshold ≤ count then ([⟨call.name, count, mw.windowSize⟩], s) else ([], s)

def recordAll (calls : List ToolCall) : LoopState :=
  calls.foldl (fun s call => (mw.record fingerprint call s).2) {}

end LoopDetectionMiddleware

/-! ## The map counts the window -/

/-- A fingerprint has an entry when it is in the window: the number of its places there. -/
def LoopState.Counted (s : LoopState) : Prop :=
  ∀ hash, s.counts.lookup hash =
    if s.window.count hash = 0 then none else some (s.window.count hash)

section Counted

variable {s : LoopState} {hash : UInt64}

theorem LoopState.Counted.getD (h : s.Counted) (hash : UInt64) :
    (s.counts.lookup hash).getD 0 = s.window.count hash := by
  rw [h hash]
  split
  · next hnone => exact hnone.symm
  · rfl

theorem LoopState.Counted.evict (h : s.Counted) : s.evict.Counted := by
  unfold LoopState.evict
  cases hwindow : s.window with
  | nil => exact h
  | cons old window =>
    intro hash
    have hold : s.counts.lookup old = some (window.count old + 1) := by
      rw [h old, hwindow, count_cons_self, if_neg (by omega)]
    simp only [hold, Nat.add_sub_cancel]
    by_cases hsame : hash = old
    · subst hsame
      split
      · rw [AList.lookup_erase]
      · rw [AList.lookup_insert]
    · have hcount : (old :: window).count hash = window.count hash :=
        count_cons_of_ne (Ne.symm hsame)
      have hother := h hash
      rw [hwindow, hcount] at hother
      split
      · rw [AList.lookup_erase_ne hsame]
        exact hother
      · rw [AList.lookup_insert_ne hsame]
        exact hother

theorem LoopState.Counted.add (h : s.Counted) (hash : UInt64) : (s.add hash).2.Counted := by
  intro hash'
  simp only [LoopState.add, h.getD, count_append]
  by_cases hsame : hash' = hash
  · subst hsame
    rw [AList.lookup_insert, count_singleton_self, if_neg (by omega)]
  · have hzero : [hash].count hash' = 0 := count_eq_zero_of_not_mem (by simpa using hsame)
    rw [AList.lookup_insert_ne hsame, h hash', hzero, Nat.add_zero]

theorem tail_rtake {α : Type} {l : List α} {n : Nat} (h : n < l.length) :
    (l.rtake (n + 1)).tail = l.rtake n := by
  rw [List.rtake, tail_drop]
  congr 1
  omega

theorem rtake_of_length_le {α : Type} {l : List α} {n : Nat} (h : l.length ≤ n) : l.rtake n = l := by
  rw [List.rtake, Nat.sub_eq_zero_of_le h, drop_zero]

theorem length_rtake {α : Type} {l : List α} {n : Nat} : (l.rtake n).length = min n l.length := by
  rw [List.rtake, length_drop]
  omega

theorem LoopState.evict_window : s.evict.window = s.window.tail := by
  unfold LoopState.evict
  split
  · next hnil => rw [hnil]; rfl
  · next hcons => rw [hcons]; rfl

end Counted

namespace LoopDetectionMiddleware

variable {mw : LoopDetectionMiddleware} {fingerprint : ToolCall → UInt64}

/-- **One call.** The window slides over the fingerprints, and the map goes on counting it. -/
theorem record_spec (fingerprint : ToolCall → UInt64) {s : LoopState} {hashes : List UInt64} (call : ToolCall)
    (hsize : 1 ≤ mw.windowSize) (hwindow : s.window = hashes.rtake mw.windowSize)
    (hcounted : s.Counted) :
    let s' := (mw.record fingerprint call s).2
    s'.window = (hashes ++ [fingerprint call]).rtake mw.windowSize ∧ s'.Counted ∧
      (mw.record fingerprint call s).1 = s'.window.count (fingerprint call) := by
  obtain ⟨n, hn⟩ : ∃ n, mw.windowSize = n + 1 := ⟨mw.windowSize - 1, by omega⟩
  -- what has not left the window when the fingerprint enters it
  obtain ⟨kept, hkept, hkeptWindow, hkeptCounted⟩ : ∃ kept : LoopState,
      (if mw.windowSize ≤ s.window.length then s.evict else s) = kept ∧
        kept.window = hashes.rtake n ∧ kept.Counted := by
    refine ⟨_, rfl, ?_⟩
    rw [hwindow, length_rtake]
    split
    · next hfull =>
      refine ⟨?_, hcounted.evict⟩
      rw [LoopState.evict_window, hwindow, hn, tail_rtake (by omega)]
    · next hroom =>
      refine ⟨?_, hcounted⟩
      rw [hwindow, rtake_of_length_le (by omega), rtake_of_length_le (by omega)]
  dsimp only [record]
  rw [hkept, hn, rtake_concat_succ, ← hkeptWindow]
  refine ⟨rfl, hkeptCounted.add _, ?_⟩
  change (kept.counts.lookup _).getD 0 + 1 = (kept.window ++ [_]).count _
  rw [hkeptCounted.getD, count_append, count_singleton_self]

theorem recordAll_spec (fingerprint : ToolCall → UInt64) (hsize : 1 ≤ mw.windowSize) (calls : List ToolCall) :
    (mw.recordAll fingerprint calls).window = (calls.map fingerprint).rtake mw.windowSize ∧
      (mw.recordAll fingerprint calls).Counted := by
  induction calls using List.reverseRecOn with
  | nil => exact ⟨(rtake_nil _).symm, fun _ => rfl⟩
  | append_singleton calls call ih =>
    obtain ⟨hwindow, hcounted, -⟩ := record_spec fingerprint call hsize ih.1 ih.2
    rw [recordAll, foldl_append, map_append]
    exact ⟨hwindow, hcounted⟩

theorem count_map_fingerprint {calls : List ToolCall} {call : ToolCall}
    (h : ∀ c ∈ calls, fingerprint c = fingerprint call → c = call) :
    (calls.map fingerprint).count (fingerprint call) = calls.count call := by
  rw [List.count, countP_map]
  refine countP_congr fun c hc => ?_
  simp only [Function.comp_apply, beq_iff_eq]
  exact ⟨h c hc, fun hsame => hsame ▸ rfl⟩

theorem rtake_map {α β : Type} {f : α → β} {l : List α} {n : Nat} :
    (l.map f).rtake n = (l.rtake n).map f := by
  rw [List.rtake, List.rtake, length_map, map_drop]

end LoopDetectionMiddleware

end Aeqi.Orchestrator
