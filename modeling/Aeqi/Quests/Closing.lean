import Aeqi.Quests.Custody

/-!
# Closed quests

The reset of a boot writes to quests in progress only. All other writes of the machinery go to a
quest that was not closed when the tick listed it, and do not look whether it has been closed
since: a run that ends after its quest was cancelled reopens it.
-/

namespace Aeqi.Quests

open Aeqi.Lib Aeqi.Sessions List

def Board.rows (b : Board) (id : String) : List Quest := b.filter (·.id = id)

namespace Rail

section Definitions

variable (fromPayload : String → Option QueuedMessage) (r : Rail)

/-- The quest that a tick or a finalization writes to. -/
def target : Event → Option String
  | .cancel i true _ => r.ticks[i]?.bind fun t => t.ready.head?.map (·.id)
  | .flip i true _ => r.ticks[i]?.bind fun t => t.ready.head?.map (·.id)
  | .rollBack i true _ => r.ticks[i]?.bind fun t => t.ready.head?.map (·.id)
  | .finalize i _ _ true _ => (r.questRun fromPayload i).map (·.2)
  | _ => none

def WritesOpen (e : Event) : Prop :=
  ∀ id ∈ r.target fromPayload e, ∀ q ∈ r.board.rows id, q.isClosed = false

instance (e : Event) : Decidable (r.WritesOpen fromPayload e) := by
  unfold WritesOpen
  infer_instance

/-- A tick has the quest on its list, or a row of it is queued or executed and not finalized. -/
def Reaches (id : String) : Prop :=
  (∃ t ∈ r.ticks, id ∈ t.ready.map (·.id)) ∨ RowHolds fromPayload r.daemon r.finalized id

instance (id : String) : Decidable (r.Reaches fromPayload id) :=
  inferInstanceAs (Decidable (_ ∨ _))

end Definitions

end Rail

def Event.userWrites (id : String) : Event → Bool
  | .updateTaskStatus id' _ _ => id' = id
  | .updateTask id' _ => id' = id
  | _ => false

section Rows

variable {b : Board} {id : String}

theorem mem_rows {q : Quest} : q ∈ b.rows id ↔ q ∈ b ∧ q.id = id := by simp [Board.rows]

theorem rows_map {g : Quest → Quest} (h : ∀ q ∈ b, g q = q ∨ q.id ≠ id ∧ (g q).id ≠ id) :
    Board.rows (b.map g) id = b.rows id := by
  unfold Board.rows
  induction b with
  | nil => rfl
  | cons q b ih =>
    obtain ⟨hq, hb⟩ := forall_mem_cons.1 h
    rcases hq with hq | ⟨hold, hnew⟩
    · rw [map_cons, hq, filter_cons, filter_cons, ih hb]
    · simp [hold, hnew, ih hb]

theorem rows_update {id' : String} {f : Quest → Quest} (hne : id' ≠ id)
    (hf : ∀ q, (f q).id = q.id) : (b.update id' f).rows id = b.rows id := by
  refine rows_map fun q _ => ?_
  by_cases hq : q.id = id'
  · have hid : q.id ≠ id := hq ▸ hne
    refine .inr ⟨hid, ?_⟩
    rw [if_pos hq, hf]
    exact hid
  · exact .inl (if_neg hq)

theorem rows_reset (hclosed : ∀ q ∈ b.rows id, q.isClosed = true) :
    b.resetStaleInProgress.rows id = b.rows id := by
  refine rows_map fun q hq => ?_
  by_cases hstatus : q.status = .inProgress
  · rw [if_pos hstatus]
    have hid : q.id ≠ id := fun hid => by
      simpa [Quest.isClosed, hstatus] using hclosed q (mem_rows.2 ⟨hq, hid⟩)
    exact .inr ⟨hid, hid⟩
  · exact .inl (if_neg hstatus)

theorem rows_append {q : Quest} (hne : q.id ≠ id) : Board.rows (b ++ [q]) id = b.rows id := by
  simp [Board.rows, hne]

theorem not_mem_readyTasks (hclosed : ∀ q ∈ b.rows id, q.isClosed = true) :
    id ∉ b.readyTasks.map (·.id) := by
  intro hid
  obtain ⟨q, hq, rfl⟩ := mem_map.1 hid
  obtain ⟨p, hp, rfl⟩ := mem_map.1 (mem_filter.1 hq).1
  obtain ⟨hpb, htodo⟩ := mem_filter.1 ((mem_insertionSort _).1 hp)
  have hstatus : p.status = .todo := of_decide_eq_true htodo
  have hid : p.rowToTask.id = p.id := by rw [Quest.rowToTask, hstatus]
  simpa [Quest.isClosed, hstatus] using hclosed p (mem_rows.2 ⟨hpb, hid.symm⟩)

end Rows

section Steps

variable {config : DispatchConfig} {fromPayload : String → Option QueuedMessage} {r r' : Rail}
  {id : String}

/-- **One step leaves a closed quest as it is** when it writes to open quests only. -/
theorem Rail.rows_step {e : Event} (hmoves : Moves config fromPayload r e r')
    (hsome : r.board.rows id ≠ []) (hclosed : ∀ q ∈ r.board.rows id, q.isClosed = true)
    (huser : e.userWrites id = false) (hopen : id ∈ r.target fromPayload e →
      ∀ q ∈ r.board.rows id, q.isClosed = false) :
    r'.board.rows id = r.board.rows id := by
  obtain ⟨q, hq⟩ := exists_mem_of_ne_nil _ hsome
  have hother : ∀ id', id' ∈ r.target fromPayload e → id' ≠ id := by
    rintro id' htarget rfl
    exact absurd ((hclosed q hq).symm.trans (hopen htarget q hq)) nofun
  cases hmoves with
  | boot resetOk =>
    cases resetOk with
    | true => exact rows_reset hclosed
    | false => rfl
  | queue | tick | count | visit => rfl
  | @cancel i t task rest hi hphase hready ok now
  | @rollBack i t task rest hi hphase hready ok now =>
    cases ok with
    | true => exact rows_update (hother _ (by simp [target, hi, hready])) fun _ => rfl
    | false => rfl
  | @flip i t task rest hi hphase hready now =>
    exact rows_update (hother _ (by simp [target, hi, hready])) fun _ => rfl
  | flipFails | enqueue | enqueueFails => rfl
  | @finalize i claim id' hrun hnew result mode ok now =>
    cases ok with
    | true => exact rows_update (hother _ (by simp [target, hrun])) fun _ => rfl
    | false => rfl
  | create hnew =>
    obtain ⟨hqb, hqid⟩ := mem_rows.1 hq
    exact rows_append fun heq => hnew q hqb (hqid.trans heq.symm)
  | updateTaskStatus | updateTask => exact rows_update (of_decide_eq_false huser) fun _ => rfl

theorem RowHolds.of_moves {d d' : Daemon} {settled : List Nat} {e : Sessions.Event}
    (h : RowHolds fromPayload d' settled id) (hmoves : d.Moves fromPayload e d')
    (hinsert : ∀ sessionId payload, e = .insert sessionId payload →
      questOf fromPayload payload = none) : RowHolds fromPayload d settled id := by
  cases hmoves with
  | insert sessionId payload =>
    rcases h with ⟨p, hp, hqueued, hquest⟩ | hworks
    · rcases mem_append.1 hp with hp | hp
      · exact .inl ⟨p, hp, hqueued, hquest⟩
      · rw [mem_singleton.1 hp] at hquest
        exact absurd ((hinsert sessionId payload rfl).symm.trans hquest) nofun
    · exact .inr hworks
  | spawn sessionId =>
    refine h.imp (fun h => h) ?_
    rintro ⟨t, ht, hworks⟩
    rcases mem_append.1 ht with ht | ht
    · exact ⟨t, ht, hworks⟩
    · rw [mem_singleton.1 ht] at hworks
      exact hworks.elim
  | @claim i session claim store l₁ l₂ tasks hi hsplit hclaim =>
    obtain ⟨hrow, rfl⟩ := Daemon.claimNextPending_row hclaim
    rcases h with ⟨p, hp, hqueued, hquest⟩ | ⟨t, ht, hworks⟩
    · obtain ⟨p₀, hp₀, rfl⟩ := mem_map.1 hp
      split at hqueued
      · cases hqueued
      · next hid =>
        rw [if_neg hid] at hquest
        exact .inl ⟨p₀, hp₀, hqueued, hquest⟩
    · rcases hsplit.mem ht with rfl | ht
      · exact .inl ⟨_, hrow, rfl, hworks.1⟩
      · exact .inr ⟨t, ht, hworks⟩
  | @finish i session store l₁ l₂ tasks hi hsplit hclaim =>
    obtain ⟨rfl, -⟩ := SessionStore.claimNextPending_none hclaim
    refine h.imp (fun h => h) ?_
    rintro ⟨t, ht, hworks⟩
    rcases hsplit.mem ht with rfl | ht
    · exact hworks.elim
    · exact ⟨t, ht, hworks⟩
  | @inject i sinceId session claim messages l₁ l₂ tasks hi hsince hsplit =>
    refine h.imp (fun ⟨p, hp, hrow⟩ => ⟨p, (mem_filter.1 hp).1, hrow⟩) ?_
    rintro ⟨t, ht, hworks⟩
    rcases hsplit.mem ht with rfl | ht
    · exact ⟨_, mem_of_getElem? hi, hworks⟩
    · exact ⟨t, ht, hworks⟩
  | @executed i ok session claim messages l₁ l₂ tasks hsplit =>
    refine h.imp (fun h => h) ?_
    rintro ⟨t, ht, hworks⟩
    rcases hsplit.mem ht with rfl | ht
    · exact hworks.elim
    · exact ⟨t, ht, hworks⟩
  | @delete i session claim l₁ l₂ tasks hsplit =>
    refine h.imp (fun ⟨p, hp, hrow⟩ => ⟨p, (mem_filter.1 hp).1, hrow⟩) ?_
    rintro ⟨t, ht, hworks⟩
    rcases hsplit.mem ht with rfl | ht
    · exact hworks.elim
    · exact ⟨t, ht, hworks⟩

theorem reaches_set {ticks : List Tick} {i : Nat} {t t' : Tick} (hi : ticks[i]? = some t)
    (hready : t'.ready ⊆ t.ready) (h : ∃ u ∈ ticks.set i t', id ∈ u.ready.map (·.id)) :
    ∃ u ∈ ticks, id ∈ u.ready.map (·.id) := by
  obtain ⟨u, hu, hid⟩ := h
  rcases mem_or_eq_of_mem_set hu with hu | rfl
  · exact ⟨u, hu, hid⟩
  · exact ⟨t, mem_of_getElem? hi, map_subset _ hready hid⟩

theorem Rail.reaches_step {e : Event} (hmoves : Moves config fromPayload r e r')
    (hclosed : ∀ q ∈ r.board.rows id, q.isClosed = true) (h : r'.Reaches fromPayload id) :
    r.Reaches fromPayload id := by
  cases hmoves with
  | boot =>
    rcases h with ⟨t, ht, -⟩ | ⟨p, hp, hrow⟩ | ⟨t, ht, -⟩
    · cases ht
    · exact .inr (.inl ⟨p, (mem_filter.1 hp).1, hrow⟩)
    · cases ht
  | queue hexec hinsert _ =>
    exact h.imp_right fun hrow => hrow.of_moves (Daemon.moves hexec) hinsert
  | tick =>
    refine h.imp_left ?_
    rintro ⟨t, ht, hid⟩
    rcases mem_append.1 ht with ht | ht
    · exact ⟨t, ht, hid⟩
    · rw [mem_singleton.1 ht] at hid
      exact absurd hid (not_mem_readyTasks hclosed)
  | count hi | enqueueFails hi =>
    refine h.imp_left fun h => reaches_set hi ?_ h
    exact fun _ hq => hq
  | visit hi _ _ hready => exact h.imp_left (reaches_set hi hready.subset)
  | cancel hi _ hready | flipFails hi _ hready | rollBack hi _ hready =>
    exact h.imp_left (reaches_set hi (hready ▸ subset_cons_self ..))
  | flip hi _ hready => exact h.imp_left (reaches_set hi fun _ hq => hready ▸ hq)
  | @enqueue i t task rest hi hphase hready sessionId payload agentId _ hpayload =>
    rcases h with htick | ⟨p, hp, hqueued, hquest⟩ | hworks
    · exact .inl (reaches_set hi (hready ▸ subset_cons_self ..) htick)
    · rcases mem_append.1 hp with hp | hp
      · exact .inr (.inl ⟨p, hp, hqueued, hquest⟩)
      · rw [mem_singleton.1 hp] at hquest
        refine .inl ⟨t, mem_of_getElem? hi, ?_⟩
        rw [hready, ← Option.some.inj (hpayload.symm.trans hquest)]
        exact mem_cons_self
    · exact .inr (.inr hworks)
  | finalize =>
    refine h.imp_right fun hrow => hrow.imp_right ?_
    rintro ⟨t, ht, hworks⟩
    exact ⟨t, ht, Works.mono (subset_cons_self ..) hworks⟩
  | create | updateTaskStatus | updateTask => exact h

theorem Rail.reaches_of_target {e : Event} (hmoves : Moves config fromPayload r e r')
    (htarget : id ∈ r.target fromPayload e) : r.Reaches fromPayload id := by
  have hlisted : ∀ {i : Nat} {t : Tick} {task : Quest} {rest : List Quest},
      r.ticks[i]? = some t → t.ready = task :: rest → task.id = id → r.Reaches fromPayload id := by
    intro i t task rest hi hready hid
    refine .inl ⟨t, mem_of_getElem? hi, ?_⟩
    rw [hready, ← hid]
    exact mem_cons_self
  cases hmoves with
  | @cancel i t task rest hi hphase hready ok now
  | @rollBack i t task rest hi hphase hready ok now =>
    cases ok with
    | true => exact hlisted hi hready (by simpa [target, hi, hready] using htarget)
    | false => cases htarget
  | flip hi _ hready => exact hlisted hi hready (by simpa [target, hi, hready] using htarget)
  | @finalize i claim id' hrun hnew result mode ok now =>
    cases ok with
    | true =>
      obtain rfl : id' = id := by simpa [target, hrun] using htarget
      obtain ⟨sessionId, messages, hi, hquest⟩ := questRun_eq_some.1 hrun
      exact .inr (.inr ⟨_, mem_of_getElem? hi, hquest, hnew⟩)
    | false => cases htarget
  | _ => cases htarget

/-- **A closed quest stays closed** in a run in which the machinery writes to open quests only, and
in every run from a state in which it has the quest nowhere. -/
theorem closed_quests_stay {hist : List (Rail × Event)}
    (run : Run (Rail.Step config fromPayload) r hist r') (hsome : r.board.rows id ≠ [])
    (hclosed : ∀ q ∈ r.board.rows id, q.isClosed = true)
    (huser : ∀ e ∈ hist, e.2.userWrites id = false)
    (hopen : (∀ e ∈ hist, e.1.WritesOpen fromPayload e.2) ∨ ¬r.Reaches fromPayload id) :
    r'.board.rows id = r.board.rows id := by
  rcases hopen with hopen | hreach
  · induction run with
    | nil => rfl
    | @step hist t t' e run hstep ih =>
      obtain ⟨hlast, huser⟩ := forall_mem_cons.1 huser
      obtain ⟨hwrites, hopen⟩ := forall_mem_cons.1 hopen
      have hsame := ih huser hopen
      refine Eq.trans ?_ hsame
      rw [← hsame] at hsome hclosed
      exact Rail.rows_step (Rail.moves hstep) hsome hclosed hlast (hwrites id)
  · suffices hstay : r'.board.rows id = r.board.rows id ∧ ¬r'.Reaches fromPayload id from hstay.1
    induction run with
    | nil => exact ⟨rfl, hreach⟩
    | @step hist t t' e run hstep ih =>
      obtain ⟨hlast, huser⟩ := forall_mem_cons.1 huser
      obtain ⟨hsame, hunreached⟩ := ih huser
      have hmoves := Rail.moves hstep
      rw [← hsame] at hsome hclosed ⊢
      refine ⟨Rail.rows_step hmoves hsome hclosed hlast fun htarget => ?_, fun h => ?_⟩
      · exact absurd (Rail.reaches_of_target hmoves htarget) hunreached
      · exact hunreached (Rail.reaches_step hmoves hclosed h)

end Steps

/-! ## A quest that is reopened -/

def cancelled : List Event :=
  admission ++ [.finalize 0 .maxIterations none true 20, .queue (.executed 0 true),
    .queue (.delete 0), .updateTaskStatus "as-001" .cancelled 30]

theorem cancelled_stays : ∃ hist r hist' r',
    Run (Rail.Step {} questFromPayload) (.init oneQuest) hist r ∧
      Run (Rail.Step {} questFromPayload) r hist' r' ∧
        hist'.length = 4 ∧ r'.board.rows "as-001" = r.board.rows "as-001" := by
  have hfacts : (traceAll (Rail.exec {} questFromPayload) [] (.init oneQuest)
      cancelled).toOption.map (fun s =>
        (traceAll (Rail.exec {} questFromPayload) [] s.2
          [.tick, .queue (.claim 0), .boot true, .tick]).toOption.map fun t =>
            decide (s.2.board.rows "as-001" ≠ [] ∧
              (∀ q ∈ s.2.board.rows "as-001", q.isClosed = true) ∧
                (∀ e ∈ t.1, e.2.userWrites "as-001" = false) ∧
                  ¬s.2.Reaches questFromPayload "as-001" ∧ t.1.length = 4)) =
      some (some true) := by decide +kernel
  obtain ⟨⟨hist, r⟩, htrace, hrest⟩ := toOption_map_eq_some.1 hfacts
  obtain ⟨⟨hist', r'⟩, htrace', hgood⟩ := toOption_map_eq_some.1 hrest
  obtain ⟨hsome, hclosed, huser, hreach, hlength⟩ := of_decide_eq_true hgood
  have run := Run.nil.traceAll htrace'
  exact ⟨hist, r, hist', r', Run.nil.traceAll htrace, run, hlength,
    closed_quests_stay run hsome hclosed huser (.inr hreach)⟩

def cancelledLate : List Event := admission ++ [.updateTaskStatus "as-001" .cancelled 20]

/-- The run stops at its limit, and its finalization puts the quest back to `todo`. -/
theorem not_closed_quests_stay : ¬ ∀ (board : Board) (hist hist' : List (Rail × Event))
    (r r' : Rail) (id : String), Run (Rail.Step {} questFromPayload) (.init board) hist r →
      Run (Rail.Step {} questFromPayload) r hist' r' → r.board.rows id ≠ [] →
        (∀ q ∈ r.board.rows id, q.isClosed = true) → (∀ e ∈ hist', e.2.userWrites id = false) →
            r'.board.rows id = r.board.rows id := by
  intro hall
  have hfacts : (traceAll (Rail.exec {} questFromPayload) [] (.init oneQuest)
      cancelledLate).toOption.map (fun s =>
        (traceAll (Rail.exec {} questFromPayload) [] s.2
          [.finalize 0 .maxIterations none true 30]).toOption.map fun t =>
            decide (s.2.board.rows "as-001" ≠ [] ∧
              (∀ q ∈ s.2.board.rows "as-001", q.isClosed = true) ∧
                (∀ e ∈ t.1, e.2.userWrites "as-001" = false) ∧
                  t.2.board.rows "as-001" ≠ s.2.board.rows "as-001")) =
      some (some true) := by decide +kernel
  obtain ⟨⟨hist, r⟩, htrace, hrest⟩ := toOption_map_eq_some.1 hfacts
  obtain ⟨⟨hist', r'⟩, htrace', hgood⟩ := toOption_map_eq_some.1 hrest
  obtain ⟨hsome, hclosed, huser, hreopened⟩ := of_decide_eq_true hgood
  exact hreopened (hall oneQuest hist hist' r r' "as-001" (Run.nil.traceAll htrace)
    (Run.nil.traceAll htrace') hsome hclosed huser)

end Aeqi.Quests
