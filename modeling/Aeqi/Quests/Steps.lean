import Aeqi.Quests.Rail

/-!
# The steps of the rail

What each event does, and what every run keeps: a row of a quest is the first of its session and
alone there until it is claimed, so that no other run of the session takes it.
-/

namespace Aeqi.Quests

open Aeqi.Lib Aeqi.Sessions List

namespace Rail

variable {config : DispatchConfig} {fromPayload : String → Option QueuedMessage} {r r' : Rail}

/-- What each event does. -/
inductive Moves (config : DispatchConfig) (fromPayload : String → Option QueuedMessage)
    (r : Rail) : Event → Rail → Prop
  | boot (resetOk : Bool) : Moves config fromPayload r (.boot resetOk)
      { board := if resetOk then r.board.resetStaleInProgress else r.board
        daemon := .boot r.daemon.store }
  | queue {e : Sessions.Event} {daemon : Daemon} (hexec : r.daemon.exec fromPayload e = .ok daemon)
      (hinsert : ∀ sessionId payload, e = .insert sessionId payload →
        questOf fromPayload payload = none)
      (hexecuted : ∀ i, e = .executed i true → ∀ claim id,
        r.questRun fromPayload i = some (claim, id) → claim.id ∈ r.finalized) :
      Moves config fromPayload r (.queue e) { r with daemon }
  | tick : Moves config fromPayload r .tick
      { r with ticks := r.ticks ++
          [⟨if r.board.readyTasks = [] then .returned else .counting, r.board.readyTasks, {}⟩] }
  | count {i : Nat} {t : Tick} (hi : r.ticks[i]? = some t) (hphase : t.phase = .counting)
      (countsFail overBudget : Bool) (counts : Counts) :
      Moves config fromPayload r (.count i countsFail overBudget)
        (r.setTick i ⟨if overBudget then .returned else .visiting, t.ready, counts⟩)
  | visit {i : Nat} {t t' : Tick} (hi : r.ticks[i]? = some t) (hphase : t.phase = .visiting)
      (agent : AgentLookup) (hready : t'.ready <:+ t.ready) (hnext : ∀ id, ¬t'.Holds id) :
      Moves config fromPayload r (.visit i agent) (r.setTick i t')
  | cancel {i : Nat} {t : Tick} {task : Quest} {rest : List Quest} (hi : r.ticks[i]? = some t)
      (hphase : t.phase = .cancelling) (hready : t.ready = task :: rest) (ok : Bool) (now : Nat) :
      Moves config fromPayload r (.cancel i ok now) { r.setTick i ⟨.visiting, rest, t.counts⟩ with
        board := if ok then r.board.updateTaskStatus task.id .cancelled now else r.board }
  | flip {i : Nat} {t : Tick} {task : Quest} {rest : List Quest} (hi : r.ticks[i]? = some t)
      (hphase : t.phase = .flipping) (hready : t.ready = task :: rest) (now : Nat) :
      Moves config fromPayload r (.flip i true now)
        { r.setTick i ⟨.enqueueing, task :: rest, t.counts⟩ with
          board := r.board.updateTaskStatus task.id .inProgress now }
  | flipFails {i : Nat} {t : Tick} {task : Quest} {rest : List Quest} (hi : r.ticks[i]? = some t)
      (hphase : t.phase = .flipping) (hready : t.ready = task :: rest) (now : Nat) :
      Moves config fromPayload r (.flip i false now) (r.setTick i ⟨.visiting, rest, t.counts⟩)
  | enqueue {i : Nat} {t : Tick} {task : Quest} {rest : List Quest} (hi : r.ticks[i]? = some t)
      (hphase : t.phase = .enqueueing) (hready : t.ready = task :: rest)
      {sessionId payload agentId : String} (hfresh : r.FreshSession sessionId)
      (hpayload : questOf fromPayload payload = some task.id) :
      Moves config fromPayload r (.enqueue i sessionId payload)
        { r.setTick i ⟨.visiting, rest, t.counts.admitted agentId⟩ with
          daemon := { r.daemon with
            store := r.daemon.store.enqueuePending sessionId payload
            unspawned := r.daemon.unspawned ++ [sessionId] } }
  | enqueueFails {i : Nat} {t : Tick} (hi : r.ticks[i]? = some t)
      (hphase : t.phase = .enqueueing) :
      Moves config fromPayload r (.enqueueFails i)
        (r.setTick i ⟨.rollingBack, t.ready, t.counts⟩)
  | rollBack {i : Nat} {t : Tick} {task : Quest} {rest : List Quest} (hi : r.ticks[i]? = some t)
      (hphase : t.phase = .rollingBack) (hready : t.ready = task :: rest) (ok : Bool) (now : Nat) :
      Moves config fromPayload r (.rollBack i ok now)
        { r.setTick i ⟨.visiting, rest, t.counts⟩ with
          board := if ok then r.board.updateTaskStatus task.id .todo now else r.board }
  | finalize {i : Nat} {claim : PendingClaim} {id : String}
      (hrun : r.questRun fromPayload i = some (claim, id)) (hnew : claim.id ∉ r.finalized)
      (result : RunResult) (mode : Option FailureMode) (ok : Bool) (now : Nat) :
      Moves config fromPayload r (.finalize i result mode ok now) { r with
        board :=
          if ok then
            r.board.finalizeQuest id (terminalStatus result.outcomeStatus mode)
              (terminalStatus result.outcomeStatus mode = .todo) now
          else r.board
        finalized := claim.id :: r.finalized }
  | create {q : Quest} (hnew : ∀ p ∈ r.board, p.id ≠ q.id) :
      Moves config fromPayload r (.create q) { r with board := r.board ++ [q] }
  | updateTaskStatus (id : String) (status : QuestStatus) (now : Nat) :
      Moves config fromPayload r (.updateTaskStatus id status now)
        { r with board := r.board.updateTaskStatus id status now }
  | updateTask (id : String) (f : Quest → Quest) :
      Moves config fromPayload r (.updateTask id f) { r with board := r.board.updateTask id f }

theorem questOf_quest {payload agentId body id : String}
    (h : fromPayload payload = some (.quest agentId body id)) :
    questOf fromPayload payload = some id := by
  rw [questOf, h]
  rfl

theorem questRun_eq_some {i : Nat} {claim : PendingClaim} {id : String} :
    r.questRun fromPayload i = some (claim, id) ↔ ∃ sessionId messages,
      r.daemon.tasks[i]? = some ⟨sessionId, .executing claim messages⟩ ∧
        questOf fromPayload claim.payload = some id := by
  unfold questRun
  constructor
  · intro h
    split at h
    · next sessionId c messages hi =>
      obtain ⟨id', hid, heq⟩ := Option.map_eq_some_iff.1 h
      cases heq
      exact ⟨sessionId, messages, hi, hid⟩
    · cases h
  · rintro ⟨sessionId, messages, hi, hid⟩
    rw [hi]
    exact Option.map_eq_some_iff.2 ⟨id, hid, rfl⟩

theorem moves {e : Event} (h : r.exec config fromPayload e = .ok r') :
    Moves config fromPayload r e r' := by
  cases e with
  | boot resetOk => cases h; exact .boot resetOk
  | queue e =>
    simp only [exec] at h
    split at h
    · next hallowed =>
      cases hexec : r.daemon.exec fromPayload e with
      | error _ => rw [hexec] at h; cases h
      | ok daemon =>
        rw [hexec] at h
        cases h
        refine .queue hexec ?_ ?_
        · rintro sessionId payload rfl
          exact Option.isNone_iff_eq_none.1 hallowed
        · rintro i rfl claim id hrun
          simpa [allows, hrun] using hallowed
    · cases h
  | tick => cases h; exact .tick
  | count i countsFail overBudget =>
    simp only [exec] at h
    split at h
    · next hi => cases h; exact .count hi rfl countsFail overBudget _
    · cases h
  | visit i agent =>
    simp only [exec] at h
    split at h
    · next hi =>
      cases h
      exact .visit hi rfl agent suffix_rfl fun _ hid => by simp [Tick.Holds] at hid
    · next task rest counts hi =>
      split at h <;> cases h
      · exact .visit hi rfl agent suffix_rfl fun _ hid => by simp [Tick.Holds] at hid
      · exact .visit hi rfl agent (suffix_cons ..) fun _ hid => by simp [Tick.Holds] at hid
      · exact .visit hi rfl agent suffix_rfl fun _ hid => by simp [Tick.Holds] at hid
      · exact .visit hi rfl agent suffix_rfl fun _ hid => by simp [Tick.Holds] at hid
    · cases h
  | cancel i ok now =>
    simp only [exec] at h
    split at h
    · next hi => cases h; exact .cancel hi rfl rfl ok now
    · cases h
  | flip i ok now =>
    simp only [exec] at h
    split at h
    · next hi =>
      cases ok with
      | true => cases h; exact .flip hi rfl rfl now
      | false => cases h; exact .flipFails hi rfl rfl now
    · cases h
  | enqueue i sessionId payload =>
    simp only [exec] at h
    split at h
    · next hi =>
      split at h
      · split at h
        · next hguard =>
          cases h
          exact .enqueue hi rfl rfl hguard.1 (questOf_quest hguard.2)
        · cases h
      · cases h
    · cases h
  | enqueueFails i =>
    simp only [exec] at h
    split at h
    · next hi => cases h; exact .enqueueFails hi rfl
    · cases h
  | rollBack i ok now =>
    simp only [exec] at h
    split at h
    · next hi => cases h; exact .rollBack hi rfl rfl ok now
    · cases h
  | finalize i result mode ok now =>
    simp only [exec] at h
    split at h
    · next hrun =>
      split at h
      · cases h
      · next hnew => cases h; exact .finalize hrun hnew result mode ok now
    · cases h
  | create q =>
    simp only [exec] at h
    split at h
    · cases h
    · next hnew =>
      cases h
      exact .create fun p hp heq => hnew (List.any_eq_true.2 ⟨p, hp, decide_eq_true heq⟩)
  | updateTaskStatus id status now => cases h; exact .updateTaskStatus id status now
  | updateTask id f => cases h; exact .updateTask id f

/-! ## The invariant -/

def Leads (fromPayload : String → Option QueuedMessage) (s : SessionStore) : Prop :=
  ∀ p ∈ s.pending, p.status = .queued → (questOf fromPayload p.payload).isSome →
    ∀ q ∈ s.pending, q.sessionId = p.sessionId → q = p ∨ p.id < q.id ∧ q.status = .queued

structure Inv (fromPayload : String → Option QueuedMessage) (r : Rail) : Prop where
  daemon : r.daemon.Inv
  backed : r.daemon.Backed
  /-- Only what has been claimed is finalized. -/
  finalized : ∀ id ∈ r.finalized, id < r.daemon.store.nextId ∧
    ∀ p ∈ r.daemon.store.pending, p.id = id → p.status = .running
  leads : Leads fromPayload r.daemon.store

section Queue

variable {d d' : Daemon} {sessionId payload : String}

variable {s : SessionStore}

theorem Leads.filter (h : Leads fromPayload s) (keep : PendingMessage → Bool) :
    Leads fromPayload { s with pending := s.pending.filter keep } :=
  fun p hp hqueued hquest q hq =>
    h p (mem_filter.1 hp).1 hqueued hquest q (mem_filter.1 hq).1

theorem Leads.enqueuePending (h : Leads fromPayload s) (hs : s.Ordered)
    (hnew : questOf fromPayload payload = none ∨ ∀ p ∈ s.pending, p.sessionId ≠ sessionId) :
    Leads fromPayload (s.enqueuePending sessionId payload) := by
  intro p hp hqueued hquest q hq hsession
  rcases mem_append.1 hp with hp | hp
  · rcases mem_append.1 hq with hq | hq
    · exact h p hp hqueued hquest q hq hsession
    · obtain rfl := mem_singleton.1 hq
      exact .inr ⟨hs.fresh p hp, rfl⟩
  · obtain rfl := mem_singleton.1 hp
    rcases mem_append.1 hq with hq | hq
    · rcases hnew with hnone | hfresh
      · rw [hnone] at hquest
        cases hquest
      · exact absurd hsession (hfresh q hq)
    · exact .inl (mem_singleton.1 hq)

theorem Leads.claim {s' : SessionStore} {claim : PendingClaim} (h : Leads fromPayload s)
    (hs : s.Ordered) (hclaim : s.claimNextPending sessionId = (some claim, s')) :
    Leads fromPayload s' := by
  have hclaims := hs.claimNextPending hclaim
  have hsorted : (s.ids sessionId .queued).Pairwise (· < ·) := hs.ids_sorted
  rw [hclaims.head_ids] at hsorted
  obtain ⟨hrow, rfl⟩ := Daemon.claimNextPending_row hclaim
  have hold : ∀ p ∈ (s.setRunning claim.id).pending, p.status = .queued →
      p ∈ s.pending ∧ p.id ≠ claim.id := by
    intro p hp hqueued
    obtain ⟨p₀, hp₀, rfl⟩ := List.mem_map.1 hp
    split at hqueued
    · cases hqueued
    · next hid => rw [if_neg hid]; exact ⟨hp₀, hid⟩
  intro p hp hqueued hquest q hq hsession
  obtain ⟨hp, hpid⟩ := hold p hp hqueued
  obtain ⟨q₀, hq₀, rfl⟩ := List.mem_map.1 hq
  by_cases hid : q₀.id = claim.id
  · -- the row that has been claimed would have been behind the row of the quest
    rw [if_pos hid] at hsession
    obtain rfl := hs.eq_of_id hq₀ hrow hid
    rcases h p hp hqueued hquest _ hrow hsession with heq | ⟨hlt, -⟩
    · exact absurd (congrArg PendingMessage.id heq).symm hpid
    · have hmem : p.id ∈ s.ids sessionId .queued :=
        SessionStore.mem_ids.2 ⟨p, hp, ⟨hsession.symm, hqueued⟩, rfl⟩
      rw [hclaims.head_ids] at hmem
      rcases mem_cons.1 hmem with heq | hmem
      · exact absurd heq hpid
      · exact absurd ((pairwise_cons.1 hsorted).1 _ hmem) (by omega)
  · rw [if_neg hid] at hsession ⊢
    exact h p hp hqueued hquest q₀ hq₀ hsession

theorem Leads.moves (h : Leads fromPayload d.store) (hd : d.Inv) {e : Sessions.Event}
    (hinsert : ∀ sessionId payload, e = .insert sessionId payload →
      questOf fromPayload payload = none)
    (hmoves : d.Moves fromPayload e d') : Leads fromPayload d'.store := by
  cases hmoves with
  | insert sessionId payload => exact h.enqueuePending hd.ordered (.inl (hinsert _ _ rfl))
  | spawn => exact h
  | claim _ _ hclaim => exact h.claim hd.ordered hclaim
  | finish _ _ hclaim =>
    obtain ⟨rfl, -⟩ := SessionStore.claimNextPending_none hclaim
    exact h
  | inject => exact h.filter _
  | executed => exact h
  | delete => exact h.filter _

theorem finalized_moves {ids : List Nat} (h : ∀ id ∈ ids, id < d.store.nextId ∧
      ∀ p ∈ d.store.pending, p.id = id → p.status = .running) (hd : d.Inv)
    {e : Sessions.Event} (hmoves : d.Moves fromPayload e d') :
    ∀ id ∈ ids, id < d'.store.nextId ∧ ∀ p ∈ d'.store.pending, p.id = id → p.status = .running := by
  intro id hid
  obtain ⟨hlt, hrunning⟩ := h id hid
  cases hmoves with
  | insert =>
    refine ⟨Nat.lt_succ_of_lt hlt, fun p hp heq => ?_⟩
    rcases mem_append.1 hp with hp | hp
    · exact hrunning p hp heq
    · rw [mem_singleton.1 hp] at heq
      exact absurd heq (Nat.ne_of_gt hlt)
  | spawn | executed => exact ⟨hlt, hrunning⟩
  | claim _ _ hclaim =>
    obtain ⟨-, rfl⟩ := Daemon.claimNextPending_row hclaim
    refine ⟨hlt, fun p hp heq => ?_⟩
    obtain ⟨p₀, hp₀, rfl⟩ := List.mem_map.1 hp
    split at heq
    · next hclaimed => rw [if_pos hclaimed]
    · next hother => rw [if_neg hother]; exact hrunning p₀ hp₀ heq
  | finish _ _ hclaim =>
    obtain ⟨rfl, -⟩ := SessionStore.claimNextPending_none hclaim
    exact ⟨hlt, hrunning⟩
  | inject | delete => exact ⟨hlt, fun p hp => hrunning p (mem_filter.1 hp).1⟩

end Queue

theorem Inv.moves {e : Event} (h : r.Inv fromPayload) (hmoves : Moves config fromPayload r e r') :
    r'.Inv fromPayload := by
  cases hmoves with
  | boot resetOk =>
    refine ⟨Daemon.boot_inv h.daemon.ordered, ?_, ?_, h.leads.filter _⟩
    · exact nofun
    · exact nofun
  | queue hexec hinsert _ =>
    have hmoves := Daemon.moves hexec
    exact ⟨h.daemon.moves hmoves, h.daemon.backed h.backed hmoves,
      finalized_moves h.finalized h.daemon hmoves, h.leads.moves h.daemon hinsert hmoves⟩
  | @enqueue _ _ _ _ _ _ _ sessionId payload _ hfresh _ =>
    have hmoves := @Daemon.Moves.insert fromPayload r.daemon sessionId payload
    exact ⟨h.daemon.moves hmoves, h.daemon.backed h.backed hmoves,
      finalized_moves h.finalized h.daemon hmoves,
      h.leads.enqueuePending h.daemon.ordered (.inr hfresh.1)⟩
  | @finalize i claim id hrun hnew =>
    obtain ⟨sessionId, messages, hi, -⟩ := questRun_eq_some.1 hrun
    have hrow := h.backed _ (mem_of_getElem? hi) claim rfl
    refine ⟨h.daemon, h.backed, fun id hid => ?_, h.leads⟩
    rcases mem_cons.1 hid with rfl | hid
    · refine ⟨h.daemon.ordered.fresh _ hrow, fun p hp heq => ?_⟩
      rw [h.daemon.ordered.eq_of_id hp hrow heq]
    · exact h.finalized id hid
  | tick | count | visit | cancel | flip | flipFails | enqueueFails | rollBack | create
  | updateTaskStatus | updateTask => exact ⟨h.daemon, h.backed, h.finalized, h.leads⟩

theorem init_inv (board : Board) : (init board).Inv fromPayload := by
  refine ⟨Daemon.boot_inv ⟨List.Pairwise.nil, nofun⟩, ?_, ?_, ?_⟩
  · exact nofun
  · exact nofun
  · exact nofun

theorem Inv.run (h : r.Inv fromPayload) {hist : List (Rail × Event)}
    (run : Run (Step config fromPayload) r hist r') : r'.Inv fromPayload :=
  run.invariant h fun _ _ _ hinv hstep => hinv.moves (Rail.moves hstep)

end Rail

end Aeqi.Quests
