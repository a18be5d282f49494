import Aeqi.Quests.Steps

/-!
# Quests in hand

A quest that a tick has flipped is in the hands of the tick until its row is inserted, and then of
the row until the run is finalized. The executor lets go of it without a word when `spawn_session`
fails or `finalize_quest` does, and the tick when it cannot roll back.
-/

namespace Aeqi.Quests

open Aeqi.Lib Aeqi.Sessions List

/-! ## Hands -/

def TickHolds (ticks : List Tick) (id : String) : Prop := ∃ t ∈ ticks, t.Holds id

instance (ticks : List Tick) (id : String) : Decidable (TickHolds ticks id) :=
  inferInstanceAs (Decidable (∃ t ∈ ticks, t.Holds id))

def Works (fromPayload : String → Option QueuedMessage) (settled : List Nat) (id : String)
    (t : Task) : Prop :=
  match t.phase with
  | .executing claim _ => questOf fromPayload claim.payload = some id ∧ claim.id ∉ settled
  | _ => False

instance (fromPayload : String → Option QueuedMessage) (settled : List Nat) (id : String)
    (t : Task) : Decidable (Works fromPayload settled id t) := by
  unfold Works
  split <;> infer_instance

def RowHolds (fromPayload : String → Option QueuedMessage) (d : Daemon) (settled : List Nat)
    (id : String) : Prop :=
  (∃ p ∈ d.store.pending, p.status = .queued ∧ questOf fromPayload p.payload = some id) ∨
    ∃ t ∈ d.tasks, Works fromPayload settled id t

instance (fromPayload : String → Option QueuedMessage) (d : Daemon) (settled : List Nat)
    (id : String) : Decidable (RowHolds fromPayload d settled id) :=
  inferInstanceAs (Decidable (_ ∨ _))

namespace Rail

section Definitions

variable (fromPayload : String → Option QueuedMessage) (r : Rail)

def InProgress (id : String) : Prop := r.board.Has id .inProgress

instance (id : String) : Decidable (r.InProgress id) :=
  inferInstanceAs (Decidable (r.board.Has id .inProgress))

def InHand (id : String) : Prop :=
  TickHolds r.ticks id ∨ RowHolds fromPayload r.daemon r.finalized id

/-- An execution that ends without a finalization, and a tick that fails to roll back, leaves
behind no quest that is in progress and in no other hands. -/
def HandsBack : Event → Prop
  | .queue (.executed i false) => ∀ run ∈ r.questRun fromPayload i, run.1.id ∉ r.finalized →
      r.InProgress run.2 → TickHolds r.ticks run.2 ∨
        RowHolds fromPayload r.daemon (run.1.id :: r.finalized) run.2
  | .finalize i _ _ false _ => ∀ run ∈ r.questRun fromPayload i,
      r.InProgress run.2 → TickHolds r.ticks run.2 ∨
        RowHolds fromPayload r.daemon (run.1.id :: r.finalized) run.2
  | .rollBack i false _ => ∀ t ∈ r.ticks[i]?, ∀ task ∈ t.ready.head?,
      r.InProgress task.id → TickHolds (r.ticks.eraseIdx i) task.id ∨
        RowHolds fromPayload r.daemon r.finalized task.id
  | _ => True

instance (e : Event) : Decidable (r.HandsBack fromPayload e) := by
  unfold HandsBack
  split <;> infer_instance

/-- The tick moves the quest to `in_progress`. -/
def Flips (id : String) : Event → Prop
  | .flip i true _ => ∀ t ∈ r.ticks[i]?, t.ready.head?.map (·.id) = some id
  | _ => False

instance (id : String) (e : Event) : Decidable (r.Flips id e) := by
  unfold Flips
  split <;> infer_instance

end Definitions

end Rail

def Event.isBoot : Event → Bool
  | .boot _ => true
  | _ => false

/-- A tick has moved the quest to `in_progress` since the last boot, and until the last state of
the history it has been moved nowhere else. -/
def MovedByTick (id : String) : List (Rail × Event) → Prop
  | [] => False
  | (r, e) :: hist => r.Flips id e ∨ MovedByTick id hist ∧ r.InProgress id ∧ e.isBoot = false

instance MovedByTick.decidable (id : String) :
    ∀ hist : List (Rail × Event), Decidable (MovedByTick id hist)
  | [] => inferInstanceAs (Decidable False)
  | (_, _) :: hist =>
    have := MovedByTick.decidable id hist
    inferInstanceAs (Decidable (_ ∨ _ ∧ _))

/-! ## One step -/

section Steps

variable {config : DispatchConfig} {fromPayload : String → Option QueuedMessage} {id : String}

variable {ticks : List Tick}

theorem mem_set_of_mem {i : Nat} {t u u' : Tick} (hi : ticks[i]? = some u) (ht : t ∈ ticks) :
    t = u ∨ t ∈ ticks.set i u' := by
  obtain ⟨l₁, l₂, hbefore, hafter⟩ := split_of_getElem? hi
  rw [hbefore] at ht
  rw [hafter]
  rcases mem_append.1 ht with ht | ht
  · exact .inr (mem_append_left _ ht)
  · rcases mem_cons.1 ht with rfl | ht
    · exact .inl rfl
    · exact .inr (mem_append_right _ (mem_cons_of_mem _ ht))

theorem TickHolds.set {i : Nat} {u u' : Tick} (hi : ticks[i]? = some u)
    (hu : ¬u.Holds id ∨ u'.Holds id) (h : TickHolds ticks id) : TickHolds (ticks.set i u') id := by
  obtain ⟨t, ht, hid⟩ := h
  rcases hu with hu | hu
  · rcases mem_set_of_mem hi ht with rfl | ht
    · exact absurd hid hu
    · exact ⟨t, ht, hid⟩
  · obtain ⟨hlt, -⟩ := List.getElem?_eq_some_iff.1 hi
    exact ⟨u', mem_set hlt u', hu⟩

theorem TickHolds.eraseIdx {i : Nat} {u' : Tick} (h : TickHolds (ticks.eraseIdx i) id) :
    TickHolds (ticks.set i u') id := by
  obtain ⟨t, ht, hid⟩ := h
  obtain ⟨j, hne, hj⟩ := mem_eraseIdx_iff_getElem?.1 ht
  have hj' : (ticks.set i u')[j]? = some t := by rwa [getElem?_set_ne (Ne.symm hne)]
  exact ⟨t, mem_of_getElem? hj', hid⟩

section Queue

variable {d d' : Daemon} {settled : List Nat}

theorem RowHolds.moves (h : RowHolds fromPayload d settled id) (hd : d.Inv) (hbacked : d.Backed)
    (hleads : Rail.Leads fromPayload d.store)
    (hsettled : ∀ n ∈ settled, ∀ p ∈ d.store.pending, p.id = n → p.status = .running)
    {e : Sessions.Event} (hmoves : d.Moves fromPayload e d')
    (hexecuted : ∀ i ok, e ≠ .executed i ok) : RowHolds fromPayload d' settled id := by
  cases hmoves with
  | insert => exact h.imp (fun ⟨p, hp, hrow⟩ => ⟨p, mem_append_left _ hp, hrow⟩) fun h => h
  | spawn => exact h.imp (fun h => h) fun ⟨t, ht, hworks⟩ => ⟨t, mem_append_left _ ht, hworks⟩
  | @claim i session claim store l₁ l₂ tasks hi hsplit hclaim =>
    obtain ⟨hrow, rfl⟩ := Daemon.claimNextPending_row hclaim
    rcases h with ⟨p, hp, hqueued, hquest⟩ | ⟨t, ht, hworks⟩
    · by_cases hid : p.id = claim.id
      · obtain rfl := hd.ordered.eq_of_id hp hrow hid
        refine .inr ⟨_, hsplit.new_mem, hquest, fun hmem => ?_⟩
        exact absurd (hsettled _ hmem _ hp rfl) (by simp)
      · exact .inl ⟨p, mem_map.2 ⟨p, hp, if_neg hid⟩, hqueued, hquest⟩
    · rcases hsplit.symm.mem ht with rfl | ht
      · exact hworks.elim
      · exact .inr ⟨t, ht, hworks⟩
  | @finish i session store l₁ l₂ tasks hi hsplit hclaim =>
    obtain ⟨rfl, -⟩ := SessionStore.claimNextPending_none hclaim
    refine h.imp (fun h => h) ?_
    rintro ⟨t, ht, hworks⟩
    rcases hsplit.symm.mem ht with rfl | ht
    · exact hworks.elim
    · exact ⟨t, ht, hworks⟩
  | @inject i sinceId session claim messages l₁ l₂ tasks hi hsince hsplit =>
    rcases h with ⟨p, hp, hqueued, hquest⟩ | ⟨t, ht, hworks⟩
    · refine .inl ⟨p, mem_filter.2 ⟨hp, decide_eq_true fun hinjected => ?_⟩, hqueued, hquest⟩
      -- the running row of the session would not be behind the row of the quest
      obtain ⟨q, hq, hqid⟩ := mem_map.1 hinjected
      obtain ⟨hq, hsession, -⟩ := SessionStore.mem_rows.1 (mem_filter.1 hq).1
      obtain rfl := hd.ordered.eq_of_id hq hp hqid
      have hrunning := hbacked _ (mem_of_getElem? hi) claim rfl
      have hsome : (questOf fromPayload q.payload).isSome := by rw [hquest]; rfl
      rcases hleads q hp hqueued hsome _ hrunning hsession.symm with heq | ⟨-, hstatus⟩
      · rw [← heq] at hqueued
        cases hqueued
      · cases hstatus
    · rcases hsplit.symm.mem ht with rfl | ht
      · exact .inr ⟨_, hsplit.new_mem, hworks⟩
      · exact .inr ⟨t, ht, hworks⟩
  | executed => exact absurd rfl (hexecuted _ _)
  | @delete i session claim l₁ l₂ tasks hsplit =>
    rcases h with ⟨p, hp, hqueued, hquest⟩ | ⟨t, ht, hworks⟩
    · refine .inl ⟨p, mem_filter.2 ⟨hp, decide_eq_true fun hid => ?_⟩, hqueued, hquest⟩
      have hrow := hbacked _ hsplit.old_mem claim rfl
      rw [hd.ordered.eq_of_id hp hrow hid] at hqueued
      cases hqueued
    · rcases hsplit.symm.mem ht with rfl | ht
      · exact hworks.elim
      · exact .inr ⟨t, ht, hworks⟩

theorem RowHolds.settle (h : RowHolds fromPayload d settled id) (hd : d.Inv)
    (hbacked : d.Backed) {i : Nat} {sessionId : String} {claim : PendingClaim}
    {messages : List InjectedMessage}
    (hi : d.tasks[i]? = some ⟨sessionId, .executing claim messages⟩) :
    RowHolds fromPayload d (claim.id :: settled) id ∨
      questOf fromPayload claim.payload = some id ∧ claim.id ∉ settled := by
  rcases h with hqueued | ⟨⟨sessionId', phase⟩, ht, hworks⟩
  · exact .inl (.inl hqueued)
  cases phase with
  | executing claim' messages' =>
    obtain ⟨hquest, hnew⟩ := hworks
    by_cases hid : claim'.id = claim.id
    · obtain ⟨-, rfl⟩ := hd.eq_of_claim hbacked ht (mem_of_getElem? hi) rfl rfl hid
      exact .inr ⟨hquest, hnew⟩
    · exact .inl (.inr ⟨_, ht, hquest, not_mem_cons_of_ne_of_not_mem hid hnew⟩)
  | claiming | deleting | returned => exact hworks.elim

theorem Works.mono {settled' : List Nat} (hsub : settled' ⊆ settled) {t : Task}
    (h : Works fromPayload settled id t) : Works fromPayload settled' id t := by
  unfold Works at h ⊢
  split at h
  · exact ⟨h.1, fun hmem => h.2 (hsub hmem)⟩
  · exact h.elim

theorem RowHolds.executed {i : Nat} {ok : Bool} {sessionId : String} {claim : PendingClaim}
    {messages : List InjectedMessage} (h : RowHolds fromPayload d (claim.id :: settled) id)
    (hi : d.tasks[i]? = some ⟨sessionId, .executing claim messages⟩)
    (hexec : d.exec fromPayload (.executed i ok) = .ok d') : RowHolds fromPayload d' settled id := by
  simp only [Daemon.exec, hi] at hexec
  cases hexec
  refine h.imp (fun h => h) ?_
  rintro ⟨t, ht, hworks⟩
  obtain ⟨l₁, l₂, hsplit⟩ : ∃ l₁ l₂, Daemon.Splits d.tasks ⟨sessionId, .executing claim messages⟩ l₁ l₂
      (d.tasks.set i ⟨sessionId, .deleting claim⟩) ⟨sessionId, .deleting claim⟩ := Daemon.splits hi
  rcases hsplit.symm.mem ht with rfl | ht
  · exact absurd mem_cons_self hworks.2
  · exact ⟨t, ht, Works.mono (subset_cons_self ..) hworks⟩

end Queue

variable {r r' : Rail}

/-- **One step keeps a quest in hand** unless it lets go of it. -/
theorem Rail.InHand.step (h : r.InHand fromPayload id) (hinv : r.Inv fromPayload) {e : Event}
    (hmoves : Rail.Moves config fromPayload r e r') (hback : r.HandsBack fromPayload e)
    (hboot : e.isBoot = false) (hprogress : r.InProgress id)
    (hprogress' : r'.InProgress id) : r'.InHand fromPayload id := by
  cases hmoves with
  | boot => cases hboot
  | @queue e daemon hexec _ hexecuted =>
    rcases h with htick | (hrow : RowHolds _ _ _ _)
    · exact .inl htick
    cases e with
    | executed i ok =>
      have hexec' := hexec
      simp only [Daemon.exec] at hexec'
      split at hexec'
      · next sessionId claim messages hi =>
        rcases hrow.settle hinv.daemon hinv.backed hi with hrow | ⟨hquest, hnew⟩
        · exact .inr (hrow.executed hi hexec)
        · have hrun : r.questRun fromPayload i = some (claim, id) :=
            Rail.questRun_eq_some.2 ⟨sessionId, messages, hi, hquest⟩
          cases ok with
          | true => exact absurd (hexecuted i rfl claim id hrun) hnew
          | false =>
            rcases hback _ hrun hnew hprogress with htick | hrow
            · exact .inl htick
            · exact .inr (hrow.executed hi hexec)
      · cases hexec'
    | insert | spawn | claim | inject | delete =>
      exact .inr (hrow.moves hinv.daemon hinv.backed hinv.leads
        (fun n hn => (hinv.finalized n hn).2) (Daemon.moves hexec) (by simp))
  | tick =>
    refine h.imp_left ?_
    rintro ⟨t, ht, hid⟩
    exact ⟨t, mem_append_left _ ht, hid⟩
  | count hi hphase | visit hi hphase | cancel hi hphase | flip hi hphase | flipFails hi hphase =>
    exact h.imp_left (TickHolds.set hi (.inl (by simp [Tick.Holds, hphase])))
  | @enqueue i t task rest hi hphase hready sessionId payload agentId _ hpayload =>
    by_cases hid : task.id = id
    · subst hid
      exact .inr (.inl ⟨_, mem_append_right _ mem_cons_self, rfl, hpayload⟩)
    · refine h.imp (TickHolds.set hi (.inl (by simp [Tick.Holds, hready, hid]))) ?_
      rintro (⟨p, hp, hrow⟩ | hworks)
      · exact .inl ⟨p, mem_append_left _ hp, hrow⟩
      · exact .inr hworks
  | @enqueueFails i t hi hphase =>
    refine h.imp_left (TickHolds.set hi ?_)
    simp only [Tick.Holds]
    tauto
  | @rollBack i t task rest hi hphase hready ok now =>
    by_cases hid : task.id = id
    · subst hid
      cases ok with
      | true => exact absurd hprogress' (Board.not_has_update (fun _ => rfl) (by simp))
      | false =>
        have hhead : task ∈ t.ready.head? := by rw [hready]; rfl
        exact (hback t hi task hhead hprogress).imp_left TickHolds.eraseIdx
    · exact h.imp_left (TickHolds.set hi (.inl (by simp [Tick.Holds, hready, hid])))
  | @finalize i claim id' hrun hnew result mode ok now =>
    obtain ⟨sessionId, messages, hi, hquest⟩ := Rail.questRun_eq_some.1 hrun
    rcases h with htick | (hrow : RowHolds _ _ _ _)
    · exact .inl htick
    rcases hrow.settle hinv.daemon hinv.backed hi with hrow | ⟨hquest', -⟩
    · exact .inr hrow
    · obtain rfl := Option.some.inj (hquest.symm.trans hquest')
      cases ok with
      | true =>
        exact absurd hprogress' (Board.not_has_update (fun _ => rfl)
          (terminalStatus_ne result.outcomeStatus mode))
      | false => exact hback _ hrun hprogress
  | create | updateTaskStatus | updateTask => exact h

theorem RowHolds.row {d : Daemon} {settled : List Nat}
    (h : RowHolds fromPayload d settled id) (hbacked : d.Backed) :
    ∃ p ∈ d.store.pending, questOf fromPayload p.payload = some id := by
  rcases h with ⟨p, hp, -, hquest⟩ | ⟨⟨sessionId, phase⟩, ht, hworks⟩
  · exact ⟨p, hp, hquest⟩
  cases phase with
  | executing claim messages => exact ⟨_, hbacked _ ht claim rfl, hworks.1⟩
  | claiming | deleting | returned => exact hworks.elim

/-- **No quest is stuck in progress** where no execution ends without a finalization that succeeds,
and no tick fails to roll back, on a quest that is in no other hands. -/
theorem quests_in_hand {board : Board} {hist : List (Rail × Event)}
    (run : Run (Rail.Step config fromPayload) (Rail.init board) hist r)
    (hback : ∀ e ∈ hist, e.1.HandsBack fromPayload e.2)
    (hmoved : MovedByTick id hist) (hprogress : r.InProgress id) :
    r.InHand fromPayload id ∧ (TickHolds r.ticks id ∨
        ∃ p ∈ r.daemon.store.pending, questOf fromPayload p.payload = some id) := by
  have hinv := (Rail.init_inv board).run run
  have hhand : r.InHand fromPayload id := by
    clear hinv
    induction run with
    | nil => exact hmoved.elim
    | @step hist t t' e run hstep ih =>
      have hmoves := Rail.moves hstep
      rcases hmoved with hflips | ⟨hmoved, hbefore, hboot⟩
      · cases hmoves with
        | @flip i t task rest hi hphase hready now =>
          have hhead := hflips t hi
          rw [hready] at hhead
          have hlt := (List.getElem?_eq_some_iff.1 hi).1
          exact .inl ⟨_, mem_set hlt _, .inl rfl, hhead⟩
        | _ => exact hflips.elim
      · obtain ⟨hlast, hback⟩ := forall_mem_cons.1 hback
        have hinv := (Rail.init_inv board).run run
        exact (ih hback hmoved hbefore).step hinv hmoves hlast hboot hbefore hprogress
  exact ⟨hhand, hhand.imp_right fun hrow => hrow.row hinv.backed⟩

end Steps

/-! ## A quest that is stuck -/

/-- The payload of the row that the enqueuer inserts for `as-001`. -/
def questPayload : String :=
  "\x7b\"agent_hint\":\"ada\",\"message\":\"\",\"sender_id\":null,\"transport\":\"quest\"," ++
    "\"kind\":\"quest\",\"quest_id\":\"as-001\",\"creator_session_id\":null," ++
    "\"budget_usd\":5.0,\"initial_message_recorded\":false,\"source_user_id\":null\x7d"

def questFromPayload (text : String) : Option QueuedMessage :=
  if text = questPayload then some (.quest "ada" "" "as-001") else none

def oneQuest : Board := [{ id := "as-001", agentId := some "ada" }]

def admission : List Event :=
  [.tick, .count 0 false false, .visit 0 ⟨1, true⟩, .flip 0 true 10, .enqueue 0 "s" questPayload,
    .queue (.spawn "s"), .queue (.claim 0)]

theorem admission_in_hand : ∃ hist r,
    Run (Rail.Step {} questFromPayload) (.init oneQuest) hist r ∧ r.InProgress "as-001" ∧
      r.InHand questFromPayload "as-001" := by
  have hfacts : (traceAll (Rail.exec {} questFromPayload) [] (.init oneQuest) admission).toOption.map
      (fun r => decide ((∀ e ∈ r.1, e.1.HandsBack questFromPayload e.2) ∧
        MovedByTick "as-001" r.1 ∧ r.2.InProgress "as-001")) = some true := by decide +kernel
  obtain ⟨⟨hist, r⟩, htrace, hgood⟩ := toOption_map_eq_some.1 hfacts
  obtain ⟨hback, hmoved, hprogress⟩ := of_decide_eq_true hgood
  have run := Run.nil.traceAll htrace
  exact ⟨hist, r, run, hprogress, (quests_in_hand run hback hmoved hprogress).1⟩

/-- `spawn_session` fails: the executor returns before it finalizes, and the row is deleted. -/
def stuckRun : List Event :=
  admission ++ [.queue (.executed 0 false), .queue (.delete 0), .queue (.claim 0)]

theorem not_quests_in_hand : ¬ ∀ (board : Board) (hist : List (Rail × Event)) (r : Rail)
    (id : String), Run (Rail.Step {} questFromPayload) (.init board) hist r →
      MovedByTick id hist → r.InProgress id → TickHolds r.ticks id ∨
        ∃ p ∈ r.daemon.store.pending, questOf questFromPayload p.payload = some id := by
  intro hall
  have hfacts : (traceAll (Rail.exec {} questFromPayload) [] (.init oneQuest) stuckRun).toOption.map
      (fun r => decide (MovedByTick "as-001" r.1 ∧ r.2.InProgress "as-001" ∧
        ¬TickHolds r.2.ticks "as-001" ∧ r.2.daemon.store.pending = [])) = some true := by
    decide +kernel
  obtain ⟨⟨hist, r⟩, htrace, hgood⟩ := toOption_map_eq_some.1 hfacts
  obtain ⟨hmoved, hprogress, htick, hempty⟩ := of_decide_eq_true hgood
  rcases hall oneQuest hist r "as-001" (Run.nil.traceAll htrace) hmoved hprogress with h | ⟨p, hp, -⟩
  · exact htick h
  · rw [hempty] at hp
    cases hp

end Aeqi.Quests
