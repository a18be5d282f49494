import Aeqi.Sessions.Leases

/-!
# Exactly once and in order

The rows that have been taken followed by those still queued are, at any time, all the rows
there have been, in the order of their insertion.
-/

namespace Aeqi.Sessions

open Aeqi.Lib List

/-! ## What has been taken -/

/-- How a row leaves the queue. -/
inductive Taken
  | claimed (row : PendingClaim)
  /-- By the run of the claim. -/
  | injected (row claim : PendingClaim)
  deriving DecidableEq

def Taken.row : Taken → PendingClaim
  | .claimed row => row
  | .injected row _ => row

namespace Daemon

def takes (d : Daemon) (sessionId : String) : Event → List Taken
  | .claim i =>
    match d.tasks[i]? with
    | some ⟨session, .claiming⟩ =>
      if session = sessionId then ((d.store.claimNextPending session).1.map .claimed).toList else []
    | _ => []
  | .inject i sinceId =>
    match d.tasks[i]? with
    | some ⟨session, .executing claim _⟩ =>
      if session = sessionId then
        (d.store.injectable session (some sinceId)).map fun p => .injected ⟨p.id, p.payload⟩ claim
      else []
    | _ => []
  | _ => []

def inserts (d : Daemon) (sessionId : String) : Event → List PendingClaim
  | .insert session payload => if session = sessionId then [⟨d.store.nextId, payload⟩] else []
  | _ => []

/-- No task of a session is left, and none is about to be spawned. -/
def Quiet (d : Daemon) (sessionId : String) : Prop :=
  sessionId ∉ d.unspawned ∧ ∀ t ∈ d.tasks, t.sessionId = sessionId → t.phase = .returned

instance (d : Daemon) (sessionId : String) : Decidable (d.Quiet sessionId) := by
  unfold Quiet
  infer_instance

end Daemon

def taken (sessionId : String) : List (Daemon × Event) → List Taken
  | [] => []
  | (d, e) :: hist => taken sessionId hist ++ d.takes sessionId e

def inserted (sessionId : String) : List (Daemon × Event) → List PendingClaim
  | [] => []
  | (d, e) :: hist => inserted sessionId hist ++ d.inserts sessionId e

section Run

variable {fromPayload : String → Option QueuedMessage} {d d' : Daemon} {s : SessionStore}
  {hist : List (Daemon × Event)}

theorem Daemon.Inv.line (h : d.Inv) {e : Event} (hmoves : Moves fromPayload d e d')
    (sessionId : String) :
    d.store.line sessionId ++ d.inserts sessionId e =
      (d.takes sessionId e).map Taken.row ++ d'.store.line sessionId := by
  cases hmoves with
  | insert session payload => exact (SessionStore.line_enqueuePending payload sessionId).symm
  | spawn session => exact append_nil _
  | @claim i session claim store l₁ l₂ tasks hi hsplit hclaim =>
    have hclaims := h.ordered.claimNextPending hclaim
    refine (append_nil _).trans ?_
    simp only [takes, hi, hclaim]
    by_cases heq : session = sessionId
    · subst heq
      rw [if_pos rfl]
      exact hclaims.head
    · rw [if_neg heq]
      exact (congrArg (List.map _) (hclaims.other sessionId (Ne.symm heq) .queued)).symm
  | @finish i session store l₁ l₂ tasks hi hsplit hclaim =>
    obtain ⟨rfl, -⟩ := SessionStore.claimNextPending_none hclaim
    refine (append_nil _).trans ?_
    simp [takes, hi, hclaim]
  | @inject i sinceId session claim messages l₁ l₂ tasks hi hsince hsplit =>
    have hsinceAhead := h.since_ahead hi hsince
    refine (append_nil _).trans ?_
    simp only [takes, hi, SessionStore.line,
      h.ordered.rows_claimPendingForSession hsinceAhead, and_true]
    by_cases heq : session = sessionId
    · subst heq
      rw [if_pos rfl, if_pos rfl, SessionStore.injectable_eq hsinceAhead, map_nil,
        append_nil, List.map_map]
      rfl
    · rw [if_neg heq, if_neg (Ne.symm heq)]
      rfl
  | executed hsplit => exact append_nil _
  | @delete i session claim l₁ l₂ tasks hsplit =>
    have hlease : Task.lease session ⟨session, .deleting claim⟩ = some claim.id :=
      Task.lease_of_claim rfl
    obtain ⟨honly, -⟩ := hsplit.leases_only (h.single session) hlease
    have hrows := h.ordered.rows_deletePending ((h.leased session).trans honly)
    refine (append_nil _).trans ?_
    simp [takes, SessionStore.line, hrows]

theorem Daemon.Inv.lines (h : d.Inv) (run : Run (Daemon.Step fromPayload) d hist d')
    (sessionId : String) :
    d.store.line sessionId ++ inserted sessionId hist =
      (taken sessionId hist).map Taken.row ++ d'.store.line sessionId := by
  induction run with
  | nil => exact append_nil _
  | @step hist t t' e run hstep ih =>
    have hline := (h.run run).line (Daemon.moves hstep) sessionId
    rw [inserted, taken, ← append_assoc, ih, append_assoc, hline, map_append, append_assoc]

theorem Daemon.inserts_nextId {e : Event} (hmoves : Moves fromPayload d e d') (h : d.Inv)
    (sessionId : String) :
    d.store.nextId ≤ d'.store.nextId ∧
      ∀ row ∈ d.inserts sessionId e, d.inserts sessionId e = [row] ∧
        row.id = d.store.nextId ∧ row.id < d'.store.nextId := by
  cases hmoves with
  | insert session payload =>
    refine ⟨Nat.le_succ _, fun row hrow => ?_⟩
    simp only [Daemon.inserts] at hrow
    split at hrow
    · obtain rfl := mem_singleton.1 hrow
      exact ⟨if_pos ‹_›, rfl, Nat.lt_succ_self _⟩
    · cases hrow
  | spawn => exact ⟨le_rfl, nofun⟩
  | claim _ _ hclaim =>
    exact ⟨(h.ordered.claimNextPending hclaim).nextId.ge, nofun⟩
  | finish _ _ hclaim =>
    obtain ⟨rfl, -⟩ := SessionStore.claimNextPending_none hclaim
    exact ⟨le_rfl, nofun⟩
  | inject | executed | delete => exact ⟨le_rfl, nofun⟩

theorem Daemon.Inv.inserted_sorted (h : d.Inv) (run : Run (Daemon.Step fromPayload) d hist d')
    (sessionId : String) :
    (d.store.line sessionId ++ inserted sessionId hist).Pairwise (·.id < ·.id) ∧
      ∀ row ∈ d.store.line sessionId ++ inserted sessionId hist, row.id < d'.store.nextId := by
  induction run with
  | nil =>
    rw [inserted, append_nil]
    constructor
    · refine pairwise_map.1 ?_
      rw [SessionStore.line_ids]
      exact h.ordered.ids_sorted
    · intro row hrow
      have hid : row.id ∈ d.store.ids sessionId .queued := by
        rw [← SessionStore.line_ids]
        exact List.mem_map_of_mem hrow
      exact h.ordered.lt_nextId hid
  | @step hist t t' e run hstep ih =>
    obtain ⟨hsorted, hfresh⟩ := ih
    obtain ⟨hmono, hnew⟩ := Daemon.inserts_nextId (Daemon.moves hstep) (h.run run) sessionId
    rw [inserted, ← append_assoc]
    constructor
    · refine pairwise_append.2 ⟨hsorted, ?_, fun a ha b hb => ?_⟩
      · cases hrows : t.inserts sessionId e with
        | nil => exact List.Pairwise.nil
        | cons row rows =>
          have hone := (hnew row (by simp [hrows])).1
          rw [hrows] at hone
          rw [hone]
          exact pairwise_singleton _ _
      · rw [(hnew b hb).2.1]
        exact hfresh a ha
    · intro row hrow
      rcases mem_append.1 hrow with hrow | hrow
      · exact Nat.lt_of_lt_of_le (hfresh row hrow) hmono
      · exact (hnew row hrow).2.2

/-- **Every message exactly once, in order, by one run at a time**: in every run of a daemon that
was booted on any store, what is taken and what is still queued is what was queued or inserted. -/
theorem queue_delivers (hs : s.Ordered) (run : Run (Daemon.Step fromPayload) (.boot s) hist d)
    (sessionId : String) :
    (d.store.rows sessionId .running).length ≤ 1 ∧
    (d.tasks.filter fun t => t.sessionId = sessionId ∧ t.phase.claim.isSome).length ≤ 1 ∧
    (taken sessionId hist).map Taken.row ++ d.store.line sessionId =
      (Daemon.boot s).store.line sessionId ++ inserted sessionId hist ∧
    ((taken sessionId hist).map Taken.row ++ d.store.line sessionId).Pairwise (·.id < ·.id) ∧
    (d.Quiet sessionId → d.store.line sessionId = []) := by
  have hboot := Daemon.boot_inv hs
  have hinv := hboot.run run
  have hlines := (hboot.lines run sessionId).symm
  refine ⟨?_, ?_, hlines, hlines ▸ (hboot.inserted_sorted run sessionId).1, ?_⟩
  · have hlength := congrArg List.length (hinv.leased sessionId)
    rw [SessionStore.ids, length_map] at hlength
    exact hlength.trans_le (hinv.single sessionId)
  · refine Nat.le_trans (Nat.le_of_eq ?_) (hinv.single sessionId)
    unfold leases
    rw [← countP_eq_length_filter, length_filterMap_eq_countP]
    refine countP_congr fun t _ => ?_
    by_cases heq : t.sessionId = sessionId <;> simp [Task.lease, heq]
  · rintro ⟨hspawned, hreturned⟩
    by_contra hqueued
    have hids : d.store.ids sessionId .queued ≠ [] := fun hnil =>
      hqueued (map_eq_nil_iff.1 (SessionStore.line_ids.trans hnil))
    rcases hinv.awake sessionId hids with hmem | ⟨t, ht, hsession, hphase⟩
    · exact hspawned hmem
    · exact hphase (hreturned t ht hsession)

end Run

/-- Two messages; the second is injected while the first is executed, and its own task finds
the session leased. -/
def twoMessages : List Event :=
  [.insert "s" "first", .spawn "s", .claim 0, .insert "s" "second", .spawn "s", .claim 1,
    .inject 0 1, .executed 0 false, .delete 0, .claim 0]

theorem twoMessages_delivered : ∃ hist d,
    execAll (Daemon.exec fun _ => none) (.boot {}) twoMessages = .ok d ∧
      d.store.line "s" = [] ∧ (taken "s" hist).map Taken.row = inserted "s" hist := by
  have hfacts : (execAll (Daemon.exec fun _ => none) (.boot {}) twoMessages).toOption.map
      (fun d => decide (d.Quiet "s")) = some true := by decide +kernel
  obtain ⟨d, hd, hquiet⟩ := toOption_map_eq_some.1 hfacts
  obtain ⟨hist, run⟩ := Run.execAll hd
  have hordered : SessionStore.Ordered {} :=
    ⟨List.Pairwise.nil, nofun⟩
  obtain ⟨-, -, hline, -, hempty⟩ := queue_delivers hordered run "s"
  have hqueued := hempty (of_decide_eq_true hquiet)
  refine ⟨hist, d, hd, hqueued, ?_⟩
  rwa [hqueued, append_nil] at hline

end Aeqi.Sessions
