import Aeqi.Sessions.Queue

/-!
# The lease of a session

A session is a first-in first-out line with one lease: a claim moves the head of the line into
the lease, the end of the run frees the lease, and an injection empties the line. The running
rows of a session are what its tasks hold as leases, and a queued row always has a task to come
for it (`Daemon.Inv`).
-/

namespace Aeqi.Sessions

open Aeqi.Lib List

/-! ## The store -/

namespace SessionStore

structure Ordered (s : SessionStore) : Prop where
  sorted : s.pending.Pairwise (·.id < ·.id)
  fresh : ∀ p ∈ s.pending, p.id < s.nextId

variable {s s' : SessionStore} {sessionId : String} {status : Status} {id : Nat}

theorem mem_rows {p : PendingMessage} :
    p ∈ s.rows sessionId status ↔ p ∈ s.pending ∧ p.sessionId = sessionId ∧ p.status = status := by
  simp [rows]

theorem mem_ids : id ∈ s.ids sessionId status ↔
    ∃ p ∈ s.pending, (p.sessionId = sessionId ∧ p.status = status) ∧ p.id = id := by
  simp [ids, mem_rows, and_assoc]

def line (s : SessionStore) (sessionId : String) : List PendingClaim :=
  (s.rows sessionId .queued).map fun p => ⟨p.id, p.payload⟩

theorem line_ids : (s.line sessionId).map (·.id) = s.ids sessionId .queued :=
  List.map_map ..

theorem Ordered.lt_nextId (h : s.Ordered) (hid : id ∈ s.ids sessionId status) : id < s.nextId := by
  obtain ⟨p, hp, -, rfl⟩ := mem_ids.1 hid
  exact h.fresh p hp

theorem Ordered.eq_of_id (h : s.Ordered) {p q : PendingMessage} (hp : p ∈ s.pending)
    (hq : q ∈ s.pending) (hid : p.id = q.id) : p = q := by
  have hnodup : (s.pending.map (·.id)).Nodup :=
    List.Pairwise.map _ (fun _ _ hlt => Nat.ne_of_lt hlt) h.sorted
  exact inj_on_of_nodup_map hnodup hp hq hid

theorem Ordered.ids_sorted (h : s.Ordered) : (s.ids sessionId status).Pairwise (· < ·) :=
  List.Pairwise.map _ (fun _ _ hlt => hlt) (h.sorted.filter _)

theorem Ordered.filter (h : s.Ordered) (keep : PendingMessage → Bool) :
    Ordered { s with pending := s.pending.filter keep } :=
  ⟨h.sorted.filter _, fun p hp => h.fresh p (mem_filter.1 hp).1⟩

/-! ### Insertion -/

theorem Ordered.enqueuePending (h : s.Ordered) (payload : String) :
    (s.enqueuePending sessionId payload).Ordered := by
  constructor
  · refine pairwise_append.2 ⟨h.sorted, pairwise_singleton _ _, ?_⟩
    intro p hp q hq
    rw [mem_singleton.1 hq]
    exact h.fresh p hp
  · intro p hp
    rcases mem_append.1 hp with hp | hp
    · exact Nat.lt_succ_of_lt (h.fresh p hp)
    · rw [mem_singleton.1 hp]
      exact Nat.lt_succ_self _

theorem line_enqueuePending (payload sessionId' : String) :
    (s.enqueuePending sessionId payload).line sessionId' =
      s.line sessionId' ++ if sessionId = sessionId' then [⟨s.nextId, payload⟩] else [] := by
  by_cases heq : sessionId = sessionId' <;> simp [line, rows, enqueuePending, heq]

theorem ids_enqueuePending_queued (payload sessionId' : String) :
    (s.enqueuePending sessionId payload).ids sessionId' .queued =
      s.ids sessionId' .queued ++ if sessionId = sessionId' then [s.nextId] else [] := by
  rw [← line_ids, line_enqueuePending, map_append, line_ids, apply_ite (List.map _)]
  rfl

theorem ids_enqueuePending_running (payload sessionId' : String) :
    (s.enqueuePending sessionId payload).ids sessionId' .running = s.ids sessionId' .running := by
  simp [ids, rows, enqueuePending]

/-! ### The claim -/

/-- What a claim of a row does. -/
structure Claims (s : SessionStore) (sessionId : String) (claim : PendingClaim)
    (s' : SessionStore) : Prop where
  ordered : s'.Ordered
  nextId : s'.nextId = s.nextId
  idle : s.ids sessionId .running = []
  head : s.line sessionId = claim :: s'.line sessionId
  running : s'.ids sessionId .running = [claim.id]
  other : ∀ sessionId' ≠ sessionId, ∀ status, s'.rows sessionId' status = s.rows sessionId' status

theorem Claims.head_ids {claim : PendingClaim} (h : s.Claims sessionId claim s') :
    s.ids sessionId .queued = claim.id :: s'.ids sessionId .queued := by
  rw [← line_ids, h.head, map_cons, line_ids]

theorem Claims.other_ids {claim : PendingClaim} (h : s.Claims sessionId claim s')
    {sessionId' : String} (hne : sessionId' ≠ sessionId) (status : Status) :
    s'.ids sessionId' status = s.ids sessionId' status :=
  congrArg (List.map _) (h.other sessionId' hne status)

theorem setRunning_split {l₁ l₂ : List PendingMessage} {p : PendingMessage} (h : s.Ordered)
    (hsplit : s.pending = l₁ ++ p :: l₂) :
    (s.setRunning p.id).pending = l₁ ++ { p with status := .running } :: l₂ := by
  have hsorted := h.sorted
  rw [hsplit] at hsorted
  obtain ⟨-, hp, hbefore⟩ := pairwise_append.1 hsorted
  obtain ⟨hafter, -⟩ := pairwise_cons.1 hp
  have hl₁ : (l₁.map fun q => if q.id = p.id then { q with status := .running } else q) = l₁ := by
    refine (map_congr_left fun q hq => ?_).trans (List.map_id l₁)
    exact if_neg (Nat.ne_of_lt (hbefore q hq p mem_cons_self))
  have hl₂ : (l₂.map fun q => if q.id = p.id then { q with status := .running } else q) = l₂ := by
    refine (map_congr_left fun q hq => ?_).trans (List.map_id l₂)
    exact if_neg (Nat.ne_of_gt (hafter q hq))
  simp [setRunning, hsplit, hl₁, hl₂]

theorem claimNextPending_none (hclaim : s.claimNextPending sessionId = (none, s')) :
    s' = s ∧ (s.ids sessionId .running ≠ [] ∨ s.ids sessionId .queued = []) := by
  unfold claimNextPending at hclaim
  split at hclaim
  · split at hclaim
    · cases hclaim
    · next hfind =>
      cases hclaim
      refine ⟨rfl, .inr ?_⟩
      rw [ids, rows, map_eq_nil_iff, filter_eq_nil_iff]
      exact find?_eq_none.1 hfind
  · next hrunning =>
    cases hclaim
    exact ⟨rfl, .inl fun hnil => hrunning (map_eq_nil_iff.1 hnil)⟩

theorem Ordered.claimNextPending (h : s.Ordered) {claim : PendingClaim}
    (hclaim : s.claimNextPending sessionId = (some claim, s')) : s.Claims sessionId claim s' := by
  unfold SessionStore.claimNextPending at hclaim
  split at hclaim
  · next hidle =>
    split at hclaim
    · next p hfind =>
      cases hclaim
      obtain ⟨hp, l₁, l₂, hsplit, hbefore⟩ := find?_eq_some_iff_append.1 hfind
      obtain ⟨hsession, hqueued⟩ := of_decide_eq_true hp
      have hpending := setRunning_split h hsplit
      have hsorted := h.sorted
      have hfresh := h.fresh
      rw [hsplit] at hsorted hfresh
      have hnone : l₁.filter (fun q => q.sessionId = sessionId ∧ q.status = .queued) = [] :=
        filter_eq_nil_iff.2 fun q hq hq' => by simpa [hq'] using hbefore q hq
      have hrunning : ∀ l, l ⊆ s.pending →
          l.filter (fun q => q.sessionId = sessionId ∧ q.status = .running) = [] := by
        refine fun l hl => filter_eq_nil_iff.2 fun q hq => ?_
        exact filter_eq_nil_iff.1 hidle q (hl hq)
      have hrunning₁ := hrunning l₁ (by simp [hsplit])
      have hrunning₂ := hrunning l₂ (by rw [hsplit]; intro q hq; simp [hq])
      simp only [Bool.decide_and] at hnone hrunning₁ hrunning₂
      refine ⟨⟨?_, ?_⟩, rfl, ?_, ?_, ?_, ?_⟩
      · rw [hpending]
        refine pairwise_append.2 ?_
        obtain ⟨hl₁, hl₂, hcross⟩ := pairwise_append.1 hsorted
        obtain ⟨hhead, htail⟩ := pairwise_cons.1 hl₂
        refine ⟨hl₁, pairwise_cons.2 ⟨hhead, htail⟩, fun a ha b hb => ?_⟩
        rcases mem_cons.1 hb with rfl | hb
        · exact hcross a ha p mem_cons_self
        · exact hcross a ha b (mem_cons_of_mem _ hb)
      · intro q hq
        rw [hpending] at hq
        rcases mem_append.1 hq with hq | hq
        · exact hfresh q (mem_append_left _ hq)
        · rcases mem_cons.1 hq with rfl | hq
          · exact hfresh p (mem_append_right _ mem_cons_self)
          · exact hfresh q (mem_append_right _ (mem_cons_of_mem _ hq))
      · rw [ids, hidle, map_nil]
      · simp [line, rows, hpending, hsplit, hsession, hqueued, hnone]
      · simp [ids, rows, hpending, hsession, hrunning₁, hrunning₂]
      · intro sessionId' hne status
        have hne' : p.sessionId ≠ sessionId' := fun heq => hne (heq.symm.trans hsession)
        simp [rows, hpending, hsplit, hne']
    · cases hclaim
  · cases hclaim

/-! ### Deletion and injection -/

theorem rows_filter {keep : PendingMessage → Bool}
    (hkeep : ∀ p ∈ s.rows sessionId status, keep p = true) :
    rows { s with pending := s.pending.filter keep } sessionId status = s.rows sessionId status := by
  rw [rows, List.filter_filter]
  refine filter_congr fun p hp => ?_
  by_cases hrow : p.sessionId = sessionId ∧ p.status = status
  · rw [hkeep p (mem_rows.2 ⟨hp, hrow⟩), Bool.and_true]
  · simp [hrow]

theorem Ordered.rows_deletePending (h : s.Ordered) (hid : s.ids sessionId .running = [id])
    (sessionId' : String) (status : Status) :
    (s.deletePending id).rows sessionId' status =
      if sessionId' = sessionId ∧ status = .running then [] else s.rows sessionId' status := by
  have hmem : id ∈ s.ids sessionId .running := by rw [hid]; exact mem_singleton_self _
  obtain ⟨p, hp, hrow, hpid⟩ := mem_ids.1 hmem
  split
  · next hsame =>
    obtain ⟨rfl, rfl⟩ := hsame
    refine eq_nil_iff_forall_not_mem.2 fun q hq => ?_
    obtain ⟨hq, hqrow⟩ := mem_rows.1 hq
    obtain ⟨hq, hne⟩ := mem_filter.1 hq
    have hqid : q.id ∈ s.ids sessionId' .running := mem_ids.2 ⟨q, hq, hqrow, rfl⟩
    rw [hid, mem_singleton] at hqid
    exact of_decide_eq_true hne hqid
  · next hdiff =>
    refine rows_filter fun q hq => ?_
    obtain ⟨hq, hqsession, hqstatus⟩ := mem_rows.1 hq
    refine decide_eq_true fun hqid => hdiff ?_
    obtain rfl : q = p := h.eq_of_id hq hp (hqid.trans hpid.symm)
    exact ⟨hqsession.symm.trans hrow.1, hqstatus.symm.trans hrow.2⟩

theorem Ordered.ids_deletePending (h : s.Ordered) (hid : s.ids sessionId .running = [id])
    (sessionId' : String) (status : Status) :
    (s.deletePending id).ids sessionId' status =
      if sessionId' = sessionId ∧ status = .running then [] else s.ids sessionId' status := by
  rw [ids, h.rows_deletePending hid, apply_ite (List.map _)]
  rfl

variable {fromPayload : String → Option QueuedMessage} {sinceId : Nat}

theorem injectable_eq (hahead : ∀ q ∈ s.ids sessionId .queued, sinceId < q) :
    s.injectable sessionId (some sinceId) = s.rows sessionId .queued := by
  refine filter_eq_self.2 fun p hp => decide_eq_true fun t ht => ?_
  obtain rfl : sinceId = t := Option.some.inj ht
  exact hahead p.id (List.mem_map_of_mem hp)

theorem Ordered.rows_claimPendingForSession (h : s.Ordered)
    (hahead : ∀ q ∈ s.ids sessionId .queued, sinceId < q) (sessionId' : String) (status : Status) :
    (s.claimPendingForSession sessionId fromPayload (some sinceId)).2.rows sessionId' status =
      if sessionId' = sessionId ∧ status = .queued then [] else s.rows sessionId' status := by
  unfold claimPendingForSession
  rw [injectable_eq hahead]
  split
  · next hsame =>
    obtain ⟨rfl, rfl⟩ := hsame
    refine eq_nil_iff_forall_not_mem.2 fun q hq => ?_
    obtain ⟨hq, hqrow⟩ := mem_rows.1 hq
    obtain ⟨hq, hne⟩ := mem_filter.1 hq
    exact of_decide_eq_true hne (List.mem_map_of_mem (mem_rows.2 ⟨hq, hqrow⟩))
  · next hdiff =>
    refine rows_filter fun q hq => ?_
    obtain ⟨hq, hqsession, hqstatus⟩ := mem_rows.1 hq
    refine decide_eq_true fun hqid => hdiff ?_
    obtain ⟨p, hp, hpid⟩ := List.mem_map.1 hqid
    obtain ⟨hp, hpsession, hpstatus⟩ := mem_rows.1 hp
    obtain rfl : p = q := h.eq_of_id hp hq hpid
    exact ⟨hqsession.symm.trans hpsession, hqstatus.symm.trans hpstatus⟩

theorem Ordered.ids_claimPendingForSession (h : s.Ordered)
    (hahead : ∀ q ∈ s.ids sessionId .queued, sinceId < q) (sessionId' : String) (status : Status) :
    (s.claimPendingForSession sessionId fromPayload (some sinceId)).2.ids sessionId' status =
      if sessionId' = sessionId ∧ status = .queued then [] else s.ids sessionId' status := by
  rw [ids, h.rows_claimPendingForSession hahead, apply_ite (List.map _)]
  rfl

end SessionStore

/-! ## Tasks -/

theorem split_of_getElem? {α : Type} {l : List α} {i : Nat} {a : α} (h : l[i]? = some a) :
    ∃ l₁ l₂, l = l₁ ++ a :: l₂ ∧ ∀ b, l.set i b = l₁ ++ b :: l₂ := by
  obtain ⟨hi, rfl⟩ := List.getElem?_eq_some_iff.1 h
  refine ⟨l.take i, l.drop (i + 1), ?_, fun b => set_eq_take_append_cons_drop.trans (if_pos hi)⟩
  rw [← drop_eq_getElem_cons hi, take_append_drop]

def Task.lease (sessionId : String) (t : Task) : Option Nat :=
  if t.sessionId = sessionId then t.phase.claim.map (·.id) else none

def leases (tasks : List Task) (sessionId : String) : List Nat :=
  tasks.filterMap (Task.lease sessionId)

theorem leases_split (l₁ l₂ : List Task) (t : Task) (sessionId : String) :
    leases (l₁ ++ t :: l₂) sessionId =
      leases l₁ sessionId ++ ((t.lease sessionId).toList ++ leases l₂ sessionId) := by
  unfold leases
  rw [filterMap_append, filterMap_cons]
  cases t.lease sessionId <;> rfl

theorem Task.lease_of_claim {t : Task} {claim : PendingClaim} (h : t.phase.claim = some claim) :
    t.lease t.sessionId = some claim.id := by
  simp [Task.lease, h]

theorem Task.lease_of_none {t : Task} (h : t.phase.claim = none) (sessionId : String) :
    t.lease sessionId = none := by
  simp [Task.lease, h]

namespace Daemon

variable {fromPayload : String → Option QueuedMessage} {d d' : Daemon} {sessionId : String}

/-- One task of the daemon is replaced. -/
structure Splits (tasks : List Task) (t : Task) (l₁ l₂ : List Task) (tasks' : List Task)
    (t' : Task) : Prop where
  before : tasks = l₁ ++ t :: l₂
  after : tasks' = l₁ ++ t' :: l₂

/-- What each event does. -/
inductive Moves (fromPayload : String → Option QueuedMessage) (d : Daemon) :
    Event → Daemon → Prop
  | insert (sessionId payload : String) : Moves fromPayload d (.insert sessionId payload)
      { d with
        store := d.store.enqueuePending sessionId payload
        unspawned := d.unspawned ++ [sessionId] }
  | spawn (sessionId : String) : Moves fromPayload d (.spawn sessionId)
      { d with
        tasks := d.tasks ++ [⟨sessionId, .claiming⟩]
        unspawned := d.unspawned.erase sessionId }
  | claim {i : Nat} {sessionId : String} {claim : PendingClaim} {store : SessionStore}
      {l₁ l₂ tasks : List Task} (hi : d.tasks[i]? = some ⟨sessionId, .claiming⟩)
      (hsplit : Splits d.tasks ⟨sessionId, .claiming⟩ l₁ l₂ tasks ⟨sessionId, .executing claim []⟩)
      (hclaim : d.store.claimNextPending sessionId = (some claim, store)) :
      Moves fromPayload d (.claim i) { d with store, tasks }
  | finish {i : Nat} {sessionId : String} {store : SessionStore} {l₁ l₂ tasks : List Task}
      (hi : d.tasks[i]? = some ⟨sessionId, .claiming⟩)
      (hsplit : Splits d.tasks ⟨sessionId, .claiming⟩ l₁ l₂ tasks ⟨sessionId, .returned⟩)
      (hclaim : d.store.claimNextPending sessionId = (none, store)) :
      Moves fromPayload d (.claim i) { d with store, tasks }
  | inject {i sinceId : Nat} {sessionId : String} {claim : PendingClaim}
      {messages : List InjectedMessage} {l₁ l₂ tasks : List Task}
      (hi : d.tasks[i]? = some ⟨sessionId, .executing claim messages⟩)
      (hsince : sinceId = claim.id ∨ sinceId = watermark claim messages)
      (hsplit : Splits d.tasks ⟨sessionId, .executing claim messages⟩ l₁ l₂ tasks
        ⟨sessionId, .executing claim (messages ++
          (d.store.claimPendingForSession sessionId fromPayload (some sinceId)).1)⟩) :
      Moves fromPayload d (.inject i sinceId)
        { d with
          store := (d.store.claimPendingForSession sessionId fromPayload (some sinceId)).2
          tasks }
  | executed {i : Nat} {ok : Bool} {sessionId : String} {claim : PendingClaim}
      {messages : List InjectedMessage} {l₁ l₂ tasks : List Task}
      (hsplit : Splits d.tasks ⟨sessionId, .executing claim messages⟩ l₁ l₂ tasks
        ⟨sessionId, .deleting claim⟩) :
      Moves fromPayload d (.executed i ok) { d with tasks }
  | delete {i : Nat} {sessionId : String} {claim : PendingClaim} {l₁ l₂ tasks : List Task}
      (hsplit : Splits d.tasks ⟨sessionId, .deleting claim⟩ l₁ l₂ tasks ⟨sessionId, .claiming⟩) :
      Moves fromPayload d (.delete i)
        { d with store := d.store.deletePending claim.id, tasks }

theorem splits {i : Nat} {t t' : Task} (h : d.tasks[i]? = some t) :
    ∃ l₁ l₂, Splits d.tasks t l₁ l₂ (d.tasks.set i t') t' := by
  obtain ⟨l₁, l₂, hbefore, hafter⟩ := split_of_getElem? h
  exact ⟨l₁, l₂, hbefore, hafter t'⟩

theorem moves {e : Event} (h : d.exec fromPayload e = .ok d') : Moves fromPayload d e d' := by
  cases e with
  | insert sessionId payload => cases h; exact .insert sessionId payload
  | spawn sessionId => cases h; exact .spawn sessionId
  | claim i =>
    simp only [exec] at h
    split at h
    · next hi =>
      split at h
      · next hclaim =>
        cases h
        obtain ⟨l₁, l₂, hsplit⟩ := splits hi
        exact .claim hi hsplit hclaim
      · next hclaim =>
        cases h
        obtain ⟨l₁, l₂, hsplit⟩ := splits hi
        exact .finish hi hsplit hclaim
    · cases h
  | inject i sinceId =>
    simp only [exec] at h
    split at h
    · next hi =>
      split at h
      · next hsince =>
        cases h
        obtain ⟨l₁, l₂, hsplit⟩ := splits hi
        exact .inject hi hsince hsplit
      · cases h
    · cases h
  | executed i ok =>
    simp only [exec] at h
    split at h
    · next hi =>
      cases h
      obtain ⟨l₁, l₂, hsplit⟩ := splits hi
      exact .executed hsplit
    · cases h
  | delete i =>
    simp only [exec] at h
    split at h
    · next hi =>
      cases h
      obtain ⟨l₁, l₂, hsplit⟩ := splits hi
      exact .delete hsplit
    · cases h

/-! ## The invariant -/

structure Inv (d : Daemon) : Prop where
  ordered : d.store.Ordered
  /-- The running rows of a session are the leases its tasks hold. -/
  leased : ∀ sessionId, d.store.ids sessionId .running = leases d.tasks sessionId
  single : ∀ sessionId, (leases d.tasks sessionId).length ≤ 1
  /-- What is queued comes after everything that a run has taken. -/
  ahead : ∀ t ∈ d.tasks, ∀ claim messages, t.phase = .executing claim messages →
    claim.id ≤ watermark claim messages ∧ watermark claim messages < d.store.nextId ∧
      ∀ q ∈ d.store.ids t.sessionId .queued, watermark claim messages < q
  awake : ∀ sessionId, d.store.ids sessionId .queued ≠ [] →
    sessionId ∈ d.unspawned ∨ ∃ t ∈ d.tasks, t.sessionId = sessionId ∧ t.phase ≠ .returned

section Splits

variable {tasks tasks' l₁ l₂ : List Task} {t t' : Task}

theorem Splits.symm (h : Splits tasks t l₁ l₂ tasks' t') : Splits tasks' t' l₁ l₂ tasks t :=
  ⟨h.after, h.before⟩

theorem Splits.old_mem (h : Splits tasks t l₁ l₂ tasks' t') : t ∈ tasks := by
  rw [h.before]
  exact mem_append_right _ mem_cons_self

theorem Splits.new_mem (h : Splits tasks t l₁ l₂ tasks' t') : t' ∈ tasks' := h.symm.old_mem

theorem Splits.mem (h : Splits tasks t l₁ l₂ tasks' t') {u : Task} (hu : u ∈ tasks') :
    u = t' ∨ u ∈ tasks := by
  rw [h.after] at hu
  rw [h.before]
  rcases mem_append.1 hu with hu | hu
  · exact .inr (mem_append_left _ hu)
  · rcases mem_cons.1 hu with rfl | hu
    · exact .inl rfl
    · exact .inr (mem_append_right _ (mem_cons_of_mem _ hu))

theorem Splits.leases_eq (h : Splits tasks t l₁ l₂ tasks' t') (sessionId : String)
    (hlease : t'.lease sessionId = t.lease sessionId) :
    leases tasks' sessionId = leases tasks sessionId := by
  rw [h.before, h.after, leases_split, leases_split, hlease]

theorem Splits.leases_claim (h : Splits tasks t l₁ l₂ tasks' t')
    (hidle : leases tasks sessionId = []) :
    leases tasks' sessionId = (t'.lease sessionId).toList := by
  rw [h.before, leases_split] at hidle
  simp only [append_eq_nil_iff] at hidle
  obtain ⟨h₁, -, h₂⟩ := hidle
  rw [h.after, leases_split, h₁, h₂, append_nil, nil_append]

theorem Splits.leases_only (h : Splits tasks t l₁ l₂ tasks' t') {id : Nat}
    (hsingle : (leases tasks sessionId).length ≤ 1) (hlease : t.lease sessionId = some id) :
    leases tasks sessionId = [id] ∧ leases tasks' sessionId = (t'.lease sessionId).toList := by
  rw [h.before, leases_split, hlease] at hsingle ⊢
  simp only [Option.toList_some, length_append, length_singleton] at hsingle
  have h₁ : leases l₁ sessionId = [] := length_eq_zero_iff.1 (by omega)
  have h₂ : leases l₂ sessionId = [] := length_eq_zero_iff.1 (by omega)
  rw [h.after, leases_split, h₁, h₂, append_nil, append_nil]
  exact ⟨rfl, rfl⟩

theorem Splits.awake (h : Splits tasks t l₁ l₂ tasks' t') (hsession : t'.sessionId = t.sessionId)
    (hphase : t'.phase ≠ .returned)
    (hawake : ∃ u ∈ tasks, u.sessionId = sessionId ∧ u.phase ≠ .returned) :
    ∃ u ∈ tasks', u.sessionId = sessionId ∧ u.phase ≠ .returned := by
  obtain ⟨u, hu, husession, huphase⟩ := hawake
  rcases h.symm.mem hu with rfl | hu
  · exact ⟨t', h.new_mem, hsession.trans husession, hphase⟩
  · exact ⟨u, hu, husession, huphase⟩

end Splits

theorem watermark_append (claim : PendingClaim) (messages rows : List InjectedMessage) :
    watermark claim (messages ++ rows) = watermark claim messages ∨
      ∃ m ∈ rows, watermark claim (messages ++ rows) = m.id := by
  rcases eq_nil_or_concat rows with rfl | ⟨-, m, rfl⟩
  · exact .inl (by rw [append_nil])
  · exact .inr ⟨m, by simp, by simp [watermark]⟩

/-! ### What the events preserve -/

theorem Inv.insert (h : d.Inv) (sessionId payload : String) :
    Inv { d with
      store := d.store.enqueuePending sessionId payload
      unspawned := d.unspawned ++ [sessionId] } := by
  refine ⟨h.ordered.enqueuePending payload, ?_, h.single, ?_, ?_⟩
  · intro sessionId'
    exact (SessionStore.ids_enqueuePending_running payload sessionId').trans (h.leased sessionId')
  · intro t ht claim messages hphase
    obtain ⟨hclaim, hnext, hqueued⟩ := h.ahead t ht claim messages hphase
    refine ⟨hclaim, Nat.lt_succ_of_lt hnext, fun q hq => ?_⟩
    rw [SessionStore.ids_enqueuePending_queued] at hq
    rcases mem_append.1 hq with hq | hq
    · exact hqueued q hq
    · split at hq
      · rw [mem_singleton.1 hq]
        exact hnext
      · cases hq
  · intro sessionId' hqueued
    rw [SessionStore.ids_enqueuePending_queued] at hqueued
    by_cases heq : sessionId = sessionId'
    · exact .inl (by simp [heq])
    · rw [if_neg heq, append_nil] at hqueued
      exact (h.awake sessionId' hqueued).imp_left (mem_append_left _)

theorem Inv.spawn (h : d.Inv) (sessionId : String) :
    Inv { d with
      tasks := d.tasks ++ [⟨sessionId, .claiming⟩]
      unspawned := d.unspawned.erase sessionId } := by
  have hleases : ∀ sessionId', leases (d.tasks ++ [⟨sessionId, .claiming⟩]) sessionId' =
      leases d.tasks sessionId' := by
    intro sessionId'
    rw [leases_split, Task.lease_of_none rfl]
    exact append_nil _
  refine ⟨h.ordered, ?_, ?_, ?_, ?_⟩
  · exact fun sessionId' => (h.leased sessionId').trans (hleases sessionId').symm
  · exact fun sessionId' => (congrArg List.length (hleases sessionId')).trans_le (h.single sessionId')
  · intro t ht claim messages hphase
    rcases mem_append.1 ht with ht | ht
    · exact h.ahead t ht claim messages hphase
    · rw [mem_singleton.1 ht] at hphase
      cases hphase
  · intro sessionId' hqueued
    by_cases heq : sessionId' = sessionId
    · exact .inr ⟨⟨sessionId, .claiming⟩, by simp, heq.symm, Phase.noConfusion⟩
    · rcases h.awake sessionId' hqueued with hmem | ⟨t, ht, hawake⟩
      · exact .inl ((mem_erase_of_ne heq).2 hmem)
      · exact .inr ⟨t, mem_append_left _ ht, hawake⟩

theorem Inv.claim (h : d.Inv) {claim : PendingClaim} {store : SessionStore}
    {l₁ l₂ tasks : List Task}
    (hsplit : Splits d.tasks ⟨sessionId, .claiming⟩ l₁ l₂ tasks ⟨sessionId, .executing claim []⟩)
    (hclaim : d.store.claimNextPending sessionId = (some claim, store)) :
    Inv { d with store, tasks } := by
  have hclaims := h.ordered.claimNextPending hclaim
  have hother : ∀ sessionId' ≠ sessionId, leases tasks sessionId' = leases d.tasks sessionId' :=
    fun sessionId' hne => hsplit.leases_eq sessionId' (by simp [Task.lease, Ne.symm hne])
  have hown : leases tasks sessionId = [claim.id] := by
    rw [hsplit.leases_claim ((h.leased sessionId).symm.trans hclaims.idle)]
    simp [Task.lease, Phase.claim]
  have hsub : ∀ sessionId', ∀ q ∈ store.ids sessionId' .queued,
      q ∈ d.store.ids sessionId' .queued := by
    intro sessionId' q hq
    by_cases heq : sessionId' = sessionId
    · subst heq
      rw [hclaims.head_ids]
      exact mem_cons_of_mem _ hq
    · rwa [hclaims.other_ids heq] at hq
  refine ⟨hclaims.ordered, ?_, ?_, ?_, ?_⟩
  · intro sessionId'
    by_cases heq : sessionId' = sessionId
    · subst heq
      exact hclaims.running.trans hown.symm
    · simp [hother sessionId' heq, hclaims.other_ids heq, h.leased]
  · intro sessionId'
    by_cases heq : sessionId' = sessionId
    · subst heq
      exact (congrArg List.length hown).le
    · exact (congrArg List.length (hother sessionId' heq)).trans_le (h.single sessionId')
  · intro t ht claim' messages hphase
    rcases hsplit.mem ht with rfl | ht
    · cases hphase
      have hsorted : (d.store.ids sessionId .queued).Pairwise (· < ·) := h.ordered.ids_sorted
      have hfresh : claim.id < d.store.nextId :=
        h.ordered.lt_nextId (hclaims.head_ids ▸ mem_cons_self)
      rw [hclaims.head_ids] at hsorted
      exact ⟨le_rfl, hclaims.nextId ▸ hfresh, (pairwise_cons.1 hsorted).1⟩
    · obtain ⟨hle, hnext, hqueued⟩ := h.ahead t ht claim' messages hphase
      exact ⟨hle, hclaims.nextId ▸ hnext, fun q hq => hqueued q (hsub _ q hq)⟩
  · intro sessionId' hqueued
    obtain ⟨q, hq⟩ := exists_mem_of_ne_nil _ hqueued
    have hbefore := h.awake sessionId' (ne_nil_of_mem (hsub sessionId' q hq))
    exact hbefore.imp_right (hsplit.awake rfl Phase.noConfusion)

/-- A change of the tasks that changes no lease and lets none execute. -/
theorem Inv.retasked (h : d.Inv) {tasks : List Task}
    (hleases : ∀ sessionId, leases tasks sessionId = leases d.tasks sessionId)
    (hold : ∀ t ∈ tasks, ∀ claim messages, t.phase = .executing claim messages → t ∈ d.tasks)
    (hawake : ∀ sessionId, d.store.ids sessionId .queued ≠ [] → sessionId ∈ d.unspawned ∨
      ∃ t ∈ tasks, t.sessionId = sessionId ∧ t.phase ≠ .returned) : Inv { d with tasks } :=
  ⟨h.ordered, fun sessionId => (h.leased sessionId).trans (hleases sessionId).symm,
    fun sessionId => (congrArg List.length (hleases sessionId)).trans_le (h.single sessionId),
    fun t ht claim messages hphase =>
      h.ahead t (hold t ht claim messages hphase) claim messages hphase, hawake⟩

theorem Inv.finish (h : d.Inv) {store : SessionStore} {l₁ l₂ tasks : List Task}
    (hsplit : Splits d.tasks ⟨sessionId, .claiming⟩ l₁ l₂ tasks ⟨sessionId, .returned⟩)
    (hclaim : d.store.claimNextPending sessionId = (none, store)) :
    Inv { d with store, tasks } := by
  obtain ⟨rfl, hnone⟩ := SessionStore.claimNextPending_none hclaim
  have hleases : ∀ sessionId', leases tasks sessionId' = leases d.tasks sessionId' :=
    fun sessionId' => hsplit.leases_eq sessionId' (by simp [Task.lease, Phase.claim])
  refine h.retasked hleases ?_ fun sessionId' hqueued => ?_
  · intro t ht claim messages hphase
    rcases hsplit.mem ht with rfl | ht
    · cases hphase
    · exact ht
  · by_cases heq : sessionId' = sessionId
    · -- the row that kept this task from claiming is another task's lease
      subst heq
      rcases hnone with hrunning | hempty
      · rw [h.leased, ← hleases] at hrunning
        obtain ⟨id, hid⟩ := exists_mem_of_ne_nil _ hrunning
        obtain ⟨t, ht, hlease⟩ := mem_filterMap.1 hid
        refine .inr ⟨t, ht, ?_, ?_⟩
        · by_contra hne
          simp [Task.lease, hne] at hlease
        · intro hreturned
          simp [Task.lease, hreturned, Phase.claim] at hlease
      · exact absurd hempty hqueued
    · rcases h.awake sessionId' hqueued with hmem | ⟨t, ht, hsession, hphase⟩
      · exact .inl hmem
      · rcases hsplit.symm.mem ht with rfl | ht
        · exact absurd hsession.symm heq
        · exact .inr ⟨t, ht, hsession, hphase⟩

theorem Inv.since_ahead (h : d.Inv) {i sinceId : Nat} {claim : PendingClaim}
    {messages : List InjectedMessage}
    (hi : d.tasks[i]? = some ⟨sessionId, .executing claim messages⟩)
    (hsince : sinceId = claim.id ∨ sinceId = watermark claim messages) :
    ∀ q ∈ d.store.ids sessionId .queued, sinceId < q := by
  intro q hq
  obtain ⟨hle, -, hahead⟩ := h.ahead _ (mem_of_getElem? hi) claim messages rfl
  have := hahead q hq
  omega

theorem Inv.inject (h : d.Inv) {i sinceId : Nat} {claim : PendingClaim}
    {messages : List InjectedMessage} {l₁ l₂ tasks : List Task}
    (hi : d.tasks[i]? = some ⟨sessionId, .executing claim messages⟩)
    (hsince : sinceId = claim.id ∨ sinceId = watermark claim messages)
    (hsplit : Splits d.tasks ⟨sessionId, .executing claim messages⟩ l₁ l₂ tasks
      ⟨sessionId, .executing claim (messages ++
        (d.store.claimPendingForSession sessionId fromPayload (some sinceId)).1)⟩) :
    Inv { d with
      store := (d.store.claimPendingForSession sessionId fromPayload (some sinceId)).2
      tasks } := by
  set taken := d.store.claimPendingForSession sessionId fromPayload (some sinceId)
  obtain ⟨hle, hnext, hahead⟩ := h.ahead _ (mem_of_getElem? hi) claim messages rfl
  have hsinceAhead := h.since_ahead hi hsince
  have hids : ∀ sessionId' status, taken.2.ids sessionId' status =
      if sessionId' = sessionId ∧ status = .queued then [] else d.store.ids sessionId' status :=
    h.ordered.ids_claimPendingForSession hsinceAhead
  have hleases : ∀ sessionId', leases tasks sessionId' = leases d.tasks sessionId' :=
    fun sessionId' => hsplit.leases_eq sessionId' (by simp [Task.lease, Phase.claim])
  have hsub : ∀ sessionId', ∀ q ∈ taken.2.ids sessionId' .queued,
      q ∈ d.store.ids sessionId' .queued := by
    intro sessionId' q hq
    rw [hids] at hq
    split at hq
    · cases hq
    · exact hq
  refine ⟨h.ordered.filter _, ?_, ?_, ?_, ?_⟩
  · intro sessionId'
    simp [hids, hleases, h.leased]
  · exact fun sessionId' => (congrArg List.length (hleases sessionId')).trans_le (h.single sessionId')
  · intro t ht claim' messages' hphase
    rcases hsplit.mem ht with rfl | ht
    · cases hphase
      have hrows : ∀ m ∈ taken.1, claim.id ≤ m.id ∧ m.id < d.store.nextId := by
        intro m hm
        obtain ⟨p, hp, rfl⟩ := List.mem_map.1 hm
        have hpid : p.id ∈ d.store.ids sessionId .queued :=
          List.mem_map_of_mem (mem_filter.1 hp).1
        exact ⟨Nat.le_of_lt (Nat.lt_of_le_of_lt hle (hahead _ hpid)), h.ordered.lt_nextId hpid⟩
      have hempty : taken.2.ids sessionId .queued = [] :=
        (hids sessionId .queued).trans (if_pos ⟨rfl, rfl⟩)
      have hbounds : claim.id ≤ watermark claim (messages ++ taken.1) ∧
          watermark claim (messages ++ taken.1) < d.store.nextId := by
        rcases watermark_append claim messages taken.1 with hsame | ⟨m, hm, hid⟩
        · exact ⟨hsame ▸ hle, hsame ▸ hnext⟩
        · exact ⟨hid ▸ (hrows m hm).1, hid ▸ (hrows m hm).2⟩
      refine ⟨hbounds.1, hbounds.2, fun q hq => ?_⟩
      rw [hempty] at hq
      cases hq
    · obtain ⟨hle', hnext', hahead'⟩ := h.ahead t ht claim' messages' hphase
      exact ⟨hle', hnext', fun q hq => hahead' q (hsub _ q hq)⟩
  · intro sessionId' hqueued
    obtain ⟨q, hq⟩ := exists_mem_of_ne_nil _ hqueued
    have hbefore := h.awake sessionId' (ne_nil_of_mem (hsub sessionId' q hq))
    exact hbefore.imp_right (hsplit.awake rfl Phase.noConfusion)

theorem Inv.executed (h : d.Inv) {claim : PendingClaim} {messages : List InjectedMessage}
    {l₁ l₂ tasks : List Task}
    (hsplit : Splits d.tasks ⟨sessionId, .executing claim messages⟩ l₁ l₂ tasks
      ⟨sessionId, .deleting claim⟩) : Inv { d with tasks } := by
  refine h.retasked (fun sessionId' => hsplit.leases_eq sessionId' (by simp [Task.lease,
    Phase.claim])) (fun t ht claim' messages' hphase => ?_) fun sessionId' hqueued =>
      (h.awake sessionId' hqueued).imp_right (hsplit.awake rfl Phase.noConfusion)
  rcases hsplit.mem ht with rfl | ht
  · cases hphase
  · exact ht

theorem Inv.delete (h : d.Inv) {claim : PendingClaim} {l₁ l₂ tasks : List Task}
    (hsplit : Splits d.tasks ⟨sessionId, .deleting claim⟩ l₁ l₂ tasks ⟨sessionId, .claiming⟩) :
    Inv { d with store := d.store.deletePending claim.id, tasks } := by
  have hlease : Task.lease sessionId ⟨sessionId, .deleting claim⟩ = some claim.id :=
    Task.lease_of_claim rfl
  obtain ⟨honly, hnone⟩ := hsplit.leases_only (h.single sessionId) hlease
  rw [Task.lease_of_none rfl] at hnone
  have hids := h.ordered.ids_deletePending ((h.leased sessionId).trans honly)
  have hother : ∀ sessionId' ≠ sessionId, leases tasks sessionId' = leases d.tasks sessionId' :=
    fun sessionId' hne => hsplit.leases_eq sessionId' (by simp [Task.lease, Ne.symm hne])
  refine ⟨h.ordered.filter _, ?_, ?_, ?_, ?_⟩
  · intro sessionId'
    by_cases heq : sessionId' = sessionId
    · subst heq
      simp [hids, hnone]
    · simp [hids, heq, hother sessionId' heq, h.leased]
  · intro sessionId'
    by_cases heq : sessionId' = sessionId
    · subst heq
      rw [hnone]
      exact Nat.zero_le _
    · exact (congrArg List.length (hother sessionId' heq)).trans_le (h.single sessionId')
  · intro t ht claim' messages' hphase
    rcases hsplit.mem ht with rfl | ht
    · cases hphase
    · obtain ⟨hle, hnext, hahead⟩ := h.ahead t ht claim' messages' hphase
      refine ⟨hle, hnext, fun q hq => hahead q ?_⟩
      simpa only [hids, reduceCtorEq, and_false, if_false] using hq
  · intro sessionId' hqueued
    simp only [hids, reduceCtorEq, and_false] at hqueued
    exact (h.awake sessionId' hqueued).imp_right (hsplit.awake rfl Phase.noConfusion)

theorem Inv.moves (h : d.Inv) {e : Event} (hmoves : Moves fromPayload d e d') : d'.Inv := by
  cases hmoves with
  | insert sessionId payload => exact h.insert sessionId payload
  | spawn sessionId => exact h.spawn sessionId
  | claim _ hsplit hclaim => exact h.claim hsplit hclaim
  | finish _ hsplit hclaim => exact h.finish hsplit hclaim
  | inject hi hsince hsplit => exact h.inject hi hsince hsplit
  | executed hsplit => exact h.executed hsplit
  | delete hsplit => exact h.delete hsplit

theorem boot_inv {s : SessionStore} (hs : s.Ordered) : (boot s).Inv := by
  have hnone : ∀ sessionId, s.recoverOrphanedRunning.ids sessionId .running = [] := by
    intro sessionId
    refine eq_nil_iff_forall_not_mem.2 fun id hid => ?_
    obtain ⟨p, hp, hrow, -⟩ := SessionStore.mem_ids.1 hid
    exact of_decide_eq_true (mem_filter.1 hp).2 hrow.2
  refine ⟨hs.filter _, hnone, fun _ => Nat.zero_le _, ?_, ?_⟩
  · intro t ht
    cases ht
  intro sessionId hqueued
  obtain ⟨id, hid⟩ := exists_mem_of_ne_nil _ hqueued
  obtain ⟨p, hp, ⟨hsession, hstatus⟩, -⟩ := SessionStore.mem_ids.1 hid
  refine .inl (mem_dedup.2 (List.mem_map.2 ⟨p, ?_, hsession⟩))
  exact mem_filter.2 ⟨hp, decide_eq_true hstatus⟩

theorem Inv.run (h : d.Inv) {hist : List (Daemon × Event)}
    (run : Run (Step fromPayload) d hist d') : d'.Inv :=
  run.invariant h fun _ _ _ hinv hstep => hinv.moves (Daemon.moves hstep)

/-! ## The rows behind the claims -/

/-- A claim that a task holds is a running row of its session. -/
def Backed (d : Daemon) : Prop :=
  ∀ t ∈ d.tasks, ∀ claim, t.phase.claim = some claim →
    ⟨claim.id, t.sessionId, claim.payload, .running⟩ ∈ d.store.pending

theorem Inv.eq_of_claim (h : d.Inv) (hbacked : d.Backed) {t u : Task} {c c' : PendingClaim}
    (ht : t ∈ d.tasks) (hu : u ∈ d.tasks) (hc : t.phase.claim = some c)
    (hc' : u.phase.claim = some c') (hid : c.id = c'.id) :
    t.sessionId = u.sessionId ∧ c = c' := by
  have heq := h.ordered.eq_of_id (hbacked t ht c hc) (hbacked u hu c' hc') hid
  cases c
  simp_all

theorem running_mem_claimNextPending {s : SessionStore} {p : PendingMessage}
    (hp : p ∈ s.pending) (hrunning : p.status = .running) :
    p ∈ (s.claimNextPending sessionId).2.pending := by
  unfold SessionStore.claimNextPending
  split
  · split
    · refine List.mem_map.2 ⟨p, hp, ?_⟩
      split
      · cases p
        simp_all
      · rfl
    · exact hp
  · exact hp

theorem claimNextPending_row {s store : SessionStore} {claim : PendingClaim}
    (hclaim : s.claimNextPending sessionId = (some claim, store)) :
    ⟨claim.id, sessionId, claim.payload, .queued⟩ ∈ s.pending ∧ store = s.setRunning claim.id := by
  unfold SessionStore.claimNextPending at hclaim
  split at hclaim
  · split at hclaim
    · next p hfind =>
      cases hclaim
      have hp : p.sessionId = sessionId ∧ p.status = .queued := by
        simpa using find?_some hfind
      have hmem := mem_of_find?_eq_some hfind
      refine ⟨?_, rfl⟩
      rwa [← hp.1, ← hp.2]
    · cases hclaim
  · cases hclaim

theorem Inv.backed (h : d.Inv) (hbacked : d.Backed) {e : Event}
    (hmoves : Moves fromPayload d e d') : d'.Backed := by
  cases hmoves with
  | insert session payload =>
    exact fun t ht claim hclaim => mem_append_left _ (hbacked t ht claim hclaim)
  | spawn session =>
    intro t ht claim hclaim
    rcases mem_append.1 ht with ht | ht
    · exact hbacked t ht claim hclaim
    · rw [mem_singleton.1 ht] at hclaim
      cases hclaim
  | @claim i session claim store l₁ l₂ tasks hi hsplit hclaim =>
    obtain ⟨hrow, rfl⟩ := claimNextPending_row hclaim
    intro t ht c hc
    rcases hsplit.mem ht with rfl | ht
    · cases hc
      exact List.mem_map.2 ⟨_, hrow, if_pos rfl⟩
    · have hkept : _ ∈ (d.store.claimNextPending session).2.pending :=
        running_mem_claimNextPending (hbacked t ht c hc) rfl
      rwa [hclaim] at hkept
  | @finish i session store l₁ l₂ tasks hi hsplit hclaim =>
    obtain ⟨rfl, -⟩ := SessionStore.claimNextPending_none hclaim
    intro t ht c hc
    rcases hsplit.mem ht with rfl | ht
    · cases hc
    · exact hbacked t ht c hc
  | @inject i sinceId session claim messages l₁ l₂ tasks hi hsince hsplit =>
    have hold : ∀ t ∈ tasks, ∀ c, t.phase.claim = some c →
        ⟨c.id, t.sessionId, c.payload, .running⟩ ∈ d.store.pending := by
      intro t ht c hc
      rcases hsplit.mem ht with rfl | ht
      · exact hbacked _ (mem_of_getElem? hi) c hc
      · exact hbacked t ht c hc
    intro t ht c hc
    refine mem_filter.2 ⟨hold t ht c hc, decide_eq_true fun hinjected => ?_⟩
    obtain ⟨p, hp, hpid⟩ := List.mem_map.1 hinjected
    obtain ⟨hpending, -, hqueued⟩ := SessionStore.mem_rows.1 (mem_filter.1 hp).1
    have heq := h.ordered.eq_of_id hpending (hold t ht c hc) hpid
    rw [heq] at hqueued
    cases hqueued
  | @executed i ok session claim messages l₁ l₂ tasks hsplit =>
    intro t ht c hc
    rcases hsplit.mem ht with rfl | ht
    · exact hbacked ⟨session, .executing claim messages⟩ hsplit.old_mem c hc
    · exact hbacked t ht c hc
  | @delete i session claim l₁ l₂ tasks hsplit =>
    have hdeleting : (⟨session, .deleting claim⟩ : Task) ∈ d.tasks := hsplit.old_mem
    have hlease : Task.lease session ⟨session, .deleting claim⟩ = some claim.id :=
      Task.lease_of_claim rfl
    obtain ⟨-, hnone⟩ := hsplit.leases_only (h.single session) hlease
    rw [Task.lease_of_none rfl] at hnone
    intro t ht c hc
    rcases hsplit.mem ht with rfl | htold
    · cases hc
    · refine mem_filter.2 ⟨hbacked t htold c hc, decide_eq_true fun hid => ?_⟩
      have hsession : t.sessionId = session := (h.eq_of_claim hbacked htold hdeleting hc rfl hid).1
      have hmem : c.id ∈ leases tasks session :=
        mem_filterMap.2 ⟨t, ht, hsession ▸ Task.lease_of_claim hc⟩
      rw [hnone] at hmem
      cases hmem

end Daemon

end Aeqi.Sessions
