import Aeqi.Quests.Custody

/-!
# One admission an attempt

Every row of a quest comes from a flip of the quest. The flip looks neither at the status it
replaces nor for a row that is left, so two ticks that have both read the quest as ready, a boot
that resets a quest whose row has survived, and a tick that comes between the finalization of a
run and the deletion of its row, each admit the quest a second time.
-/

namespace Aeqi.Quests

open Aeqi.Lib Aeqi.Sessions List Option

def OfQuest (fromPayload : String → Option QueuedMessage) (id : String) (p : PendingMessage) :
    Bool := questOf fromPayload p.payload = some id

def Runs (fromPayload : String → Option QueuedMessage) (id : String) (t : Task) : Bool :=
  t.phase.claim.any fun claim => questOf fromPayload claim.payload = some id

def Tick.Enters (id : String) (t : Tick) : Bool :=
  t.phase = .enqueueing ∧ t.ready.head?.map (·.id) = some id

namespace Rail

section Definitions

variable (fromPayload : String → Option QueuedMessage) (r : Rail)

def rowsOf (id : String) : Nat := r.daemon.store.pending.countP (OfQuest fromPayload id)

def runsOf (id : String) : Nat := r.daemon.tasks.countP (Runs fromPayload id)

def admissions (id : String) : Nat := r.rowsOf fromPayload id + r.ticks.countP (·.Enters id)

/-- A flip finds the quest to do, no row of it, and no other tick about to insert one. -/
def AdmitsOnce : Event → Prop
  | .flip i true _ => ∀ t ∈ r.ticks[i]?, ∀ task ∈ t.ready.head?,
      (∀ q ∈ r.board, q.id = task.id → q.status = .todo) ∧ r.admissions fromPayload task.id = 0
  | _ => True

instance : (e : Event) → Decidable (r.AdmitsOnce fromPayload e)
  | .flip i true _ => inferInstanceAs (Decidable (∀ t ∈ r.ticks[i]?, ∀ task ∈ t.ready.head?,
      (∀ q ∈ r.board, q.id = task.id → q.status = .todo) ∧ r.admissions fromPayload task.id = 0))
  | .flip _ false _ | .boot _ | .queue _ | .tick | .count .. | .visit .. | .cancel .. | .enqueue .. |
    .enqueueFails _ | .rollBack .. | .finalize .. | .create _ | .updateTaskStatus .. |
    .updateTask .. =>
    isTrue trivial

end Definitions

end Rail

section Counting

variable {fromPayload : String → Option QueuedMessage} {d d' : Daemon} {id : String}

theorem countP_set {α : Type} {p : α → Bool} {l : List α} {i : Nat} {a b : α}
    (hi : l[i]? = some a) :
    (l.set i b).countP p + (if p a then 1 else 0) = l.countP p + if p b then 1 else 0 := by
  obtain ⟨l₁, l₂, hbefore, hafter⟩ := split_of_getElem? hi
  rw [hbefore] at hafter ⊢
  rw [hafter]
  simp only [countP_append, countP_cons]
  omega

theorem eq_of_length_le_one {α : Type} {l : List α} (h : l.length ≤ 1) {a b : α} (ha : a ∈ l)
    (hb : b ∈ l) : a = b := by
  match l, h with
  | [], _ => cases ha
  | [c], _ => exact (mem_singleton.1 ha).trans (mem_singleton.1 hb).symm

theorem countP_setRunning {s : SessionStore} (n : Nat) :
    (s.setRunning n).pending.countP (OfQuest fromPayload id) =
      s.pending.countP (OfQuest fromPayload id) := by
  rw [SessionStore.setRunning, countP_map]
  refine countP_congr fun p _ => ?_
  simp only [Function.comp_apply]
  split <;> exact Iff.rfl

theorem countP_moves {e : Sessions.Event} (hmoves : d.Moves fromPayload e d')
    (hinsert : ∀ sessionId payload, e = .insert sessionId payload →
      questOf fromPayload payload = none) :
    d'.store.pending.countP (OfQuest fromPayload id) ≤
      d.store.pending.countP (OfQuest fromPayload id) := by
  cases hmoves with
  | insert sessionId payload =>
    have hnone := hinsert sessionId payload rfl
    simp [SessionStore.enqueuePending, OfQuest, hnone]
  | spawn => exact le_rfl
  | claim _ _ hclaim =>
    obtain ⟨-, rfl⟩ := Daemon.claimNextPending_row hclaim
    exact (countP_setRunning _).le
  | finish _ _ hclaim =>
    obtain ⟨rfl, -⟩ := SessionStore.claimNextPending_none hclaim
    exact le_rfl
  | inject | delete => exact filter_sublist.countP_le
  | executed => exact le_rfl

end Counting

section Steps

variable {config : DispatchConfig} {fromPayload : String → Option QueuedMessage} {r r' : Rail}
  {id : String}

theorem enters_set_le {ticks : List Tick} {i : Nat} {t t' : Tick} (hi : ticks[i]? = some t)
    (h : t'.Enters id = true → t.Enters id = true) :
    (ticks.set i t').countP (·.Enters id) ≤ ticks.countP (·.Enters id) := by
  have hset := countP_set (p := (·.Enters id)) (b := t') hi
  cases ht' : t'.Enters id with
  | true => simp only [ht', h ht'] at hset; omega
  | false => simp only [ht', Bool.false_eq_true, if_false] at hset; omega

theorem not_enters {t : Tick} (h : t.phase ≠ .enqueueing) : t.Enters id = false := by
  simp [Tick.Enters, h]

/-- **One step admits at most once.** A flip is the first admission of its quest, and nothing else
adds one. -/
theorem Rail.admissions_step {e : Event} (hmoves : Moves config fromPayload r e r')
    (honce : r.AdmitsOnce fromPayload e) (h : r.admissions fromPayload id ≤ 1) :
    r'.admissions fromPayload id ≤ 1 := by
  unfold admissions rowsOf at h ⊢
  have hidle : ∀ {i t t'}, r.ticks[i]? = some t → t'.phase ≠ .enqueueing →
      (r.ticks.set i t').countP (·.Enters id) ≤ r.ticks.countP (·.Enters id) :=
    fun hi hphase => enters_set_le hi fun henters => by simp [not_enters hphase] at henters
  cases hmoves with
  | boot =>
    have hrows : (Daemon.boot r.daemon.store).store.pending.countP (OfQuest fromPayload id) ≤
        r.daemon.store.pending.countP (OfQuest fromPayload id) := filter_sublist.countP_le
    simp only [countP_nil]
    omega
  | queue hexec hinsert _ =>
    have hrows : _ ≤ r.daemon.store.pending.countP (OfQuest fromPayload id) :=
      countP_moves (Daemon.moves hexec) hinsert
    simp only
    omega
  | tick =>
    have hnew : Tick.Enters id ⟨if r.board.readyTasks = [] then .returned else .counting,
        r.board.readyTasks, {}⟩ = false := not_enters (by split <;> simp)
    simp only [countP_append, countP_singleton, hnew, Bool.false_eq_true, if_false]
    omega
  | count hi _ countsFail overBudget =>
    exact Nat.le_trans (Nat.add_le_add_left (hidle hi (by split <;> simp)) _) h
  | visit hi _ _ _ hnext =>
    refine Nat.le_trans (Nat.add_le_add_left (enters_set_le hi fun henters => ?_) _) h
    obtain ⟨hphase, hhead⟩ := of_decide_eq_true henters
    exact absurd ⟨.inl hphase, hhead⟩ (hnext id)
  | cancel hi | flipFails hi => exact Nat.le_trans (Nat.add_le_add_left (hidle hi (by simp)) _) h
  | @flip i t task rest hi hphase hready now =>
    by_cases hid : task.id = id
    · subst hid
      have hhead : task ∈ t.ready.head? := by rw [hready]; rfl
      obtain ⟨-, hnone⟩ := honce t hi task hhead
      unfold admissions rowsOf at hnone
      have hset := countP_set (p := (·.Enters task.id))
        (b := ⟨.enqueueing, task :: rest, t.counts⟩) hi
      simp only [setTick]
      split at hset <;> split at hset <;> omega
    · refine Nat.le_trans (Nat.add_le_add_left (enters_set_le hi fun henters => ?_) _) h
      exact absurd (some.inj (of_decide_eq_true henters).2) hid
  | @enqueue i t task rest hi hphase hready sessionId payload agentId _ hpayload =>
    have hset := countP_set (p := (·.Enters id))
      (b := ⟨.visiting, rest, t.counts.admitted agentId⟩) hi
    have hnext : Tick.Enters id ⟨.visiting, rest, t.counts.admitted agentId⟩ = false :=
      not_enters (by simp)
    simp only [hnext, Bool.false_eq_true, if_false] at hset
    simp only [setTick, SessionStore.enqueuePending, countP_append, countP_singleton]
    by_cases hid : task.id = id
    · have henters : t.Enters id = true := by simp [Tick.Enters, hphase, hready, hid]
      rw [henters, if_pos rfl] at hset
      split <;> omega
    · have hrow : OfQuest fromPayload id ⟨r.daemon.store.nextId, sessionId, payload, .queued⟩ =
          false := by simp [OfQuest, hpayload, hid]
      simp only [hrow, Bool.false_eq_true, if_false]
      split at hset <;> omega
  | enqueueFails hi | rollBack hi =>
    exact Nat.le_trans (Nat.add_le_add_left (hidle hi (by simp)) _) h
  | finalize | create | updateTaskStatus | updateTask => exact h

theorem Rail.Inv.runsOf_le (hinv : r.Inv fromPayload) (h : r.rowsOf fromPayload id ≤ 1) :
    r.runsOf fromPayload id ≤ 1 := by
  unfold runsOf
  unfold rowsOf at h
  have hrow : ∀ t ∈ r.daemon.tasks, Runs fromPayload id t = true → ∃ claim,
      t.phase.claim = some claim ∧
        (⟨claim.id, t.sessionId, claim.payload, .running⟩ : PendingMessage) ∈
          r.daemon.store.pending.filter (OfQuest fromPayload id) := by
    intro t ht hruns
    obtain ⟨claim, hclaim, hquest⟩ := (Option.any_eq_true _ _).1 hruns
    exact ⟨claim, hclaim, mem_filter.2 ⟨hinv.backed t ht claim hclaim, hquest⟩⟩
  rw [countP_eq_length_filter] at h
  by_cases hany : ∃ t ∈ r.daemon.tasks, Runs fromPayload id t = true
  · obtain ⟨t, ht, hruns⟩ := hany
    obtain ⟨claim, -, hmem⟩ := hrow t ht hruns
    refine Nat.le_trans ?_ (hinv.daemon.single t.sessionId)
    unfold leases
    rw [length_filterMap_eq_countP]
    refine countP_mono_left fun u hu hruns' => ?_
    obtain ⟨claim', hclaim', hmem'⟩ := hrow u hu hruns'
    have hsession : u.sessionId = t.sessionId :=
      congrArg PendingMessage.sessionId (eq_of_length_le_one h hmem' hmem)
    simp [Task.lease, hsession, hclaim']
  · rw [countP_eq_zero.2 fun t ht hruns => hany ⟨t, ht, hruns⟩]
    omega

end Steps

def twoTicks : List Event :=
  [.tick, .tick, .count 0 false false, .count 1 false false, .visit 0 ⟨1, true⟩,
    .visit 1 ⟨1, true⟩, .flip 0 true 10, .flip 1 true 11, .enqueue 0 "s" questPayload,
    .enqueue 1 "t" questPayload]

end Aeqi.Quests
