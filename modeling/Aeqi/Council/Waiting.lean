import Aeqi.Council.Router

/-!
# Quests that do not start before their council

The scheduler does not look at the hold. A quest waits when something else keeps it from being
ready: then no tick that has read the ready list before its creation knows it, and none that reads
it until the release does.
-/

namespace Aeqi.Council

open Aeqi.Lib Aeqi.Quests List
open Rooms (exec)

/-! ## Waiting -/

def ChangesRow (id : String) (change : QuestRow → QuestRow → Prop) (t t' : Table) : Prop :=
  List.Forall₂ (fun q q' => if q.id = id then change q q' else q' = q) t t'

/-- The hold is off, and nothing else is changed. -/
def ReleasedTo (q q' : QuestRow) : Prop :=
  q'.isSchedulerHeld = false ∧ KeepsKeys q.metadata q'.metadata ∧
    q' = { q with metadata := q'.metadata, updatedAt := q'.updatedAt }

/-- The hold is on, and all other keys are kept. -/
def HeldTo (q q' : QuestRow) : Prop :=
  q'.isSchedulerHeld = true ∧ KeepsKeys q.metadata q'.metadata

/-- What one step does to the quests that wait. -/
structure WaitsIn (r : Rooms) (e : Event) (r' : Rooms) : Prop where
  /-- `ready_tasks` does not return them. -/
  ready : e = .tick → ∀ q ∈ r.table.board.readyTasks, ¬ r.Awaiting q.id
  /-- No tick moves them to `in_progress`. -/
  flipped : ∀ i now t task, e = .advance i (.flip true now) → r.ticks[i]? = some t →
    task ∈ t.ready.head? → ¬ r.Awaiting task.id
  held : ∀ i now chat, e = .hold i true now → r.chats[i]? = some chat →
    ChangesRow chat.questId HeldTo r.table r'.table
  released : ∀ i now chat, e = .release i true now → r.chats[i]? = some chat →
    ChangesRow chat.questId ReleasedTo r.table r'.table

/-- A quest that waits is parked or has a dependency that is not done whenever the ready quests are
read; no other key stands under `aeqi` when it is put on hold; it is not in review when it is
released. -/
def Careful (r : Rooms) : Event → Prop
  | .tick => ∀ q ∈ r.table, r.Awaiting q.id →
      q.status ≠ .todo ∨ r.table.board.unblocked q.toQuest = false
  | .hold i ok _ => ok = true → ∀ chat ∈ r.chats[i]?, ∀ q ∈ r.table, q.id = chat.questId →
      OnlyHold q.metadata
  | .release i ok _ => ok = true → ∀ chat ∈ r.chats[i]?, ∀ q ∈ r.table, q.id = chat.questId →
      q.status ≠ .inReview
  | _ => True

/-! ## What steps do to ids -/

section Ids

variable {t t' : Table} {id : String}

def Table.ids (t : Table) : List String := t.map (·.id)

theorem has_iff : t.has id = true ↔ id ∈ t.ids := by
  simp [Table.has, Table.ids]

variable {f : QuestRow → QuestRow}

theorem ids_update (hid : ∀ q, (f q).id = q.id) :
    (t.update id f).ids = t.ids := by
  unfold Table.ids Table.update
  rw [map_map]
  refine map_congr_left fun q _ => ?_
  simp only [Function.comp_apply]
  split
  · exact hid q
  · rfl

theorem ids_updateTaskStatus {status : QuestStatus} {now : Nat} :
    (t.updateTaskStatus id status now).ids = t.ids := ids_update fun _ => rfl

theorem ids_updateTask {now : Nat} :
    (t.updateTask id f now).ids = t.ids := ids_update fun _ => rfl

theorem advance_spec {config : DispatchConfig} {tick tick' : Tick} {e : TickEvent}
    (h : advance config t tick e = .ok (t', tick')) :
    t'.ids = t.ids ∧ tick'.ready <:+ tick.ready := by
  unfold advance at h
  split at h
  · cases h
    exact ⟨rfl, suffix_refl _⟩
  · cases h
    exact ⟨rfl, suffix_refl _⟩
  · split at h
    all_goals cases h
    · exact ⟨rfl, suffix_refl _⟩
    · exact ⟨rfl, suffix_cons _ _⟩
    · exact ⟨rfl, suffix_refl _⟩
    · exact ⟨rfl, suffix_refl _⟩
  · next ok now =>
    cases h
    cases ok
    · exact ⟨rfl, suffix_cons _ _⟩
    · exact ⟨ids_updateTaskStatus, suffix_cons _ _⟩
  · split at h
    all_goals cases h
    · exact ⟨ids_updateTaskStatus, suffix_refl _⟩
    · exact ⟨rfl, suffix_cons _ _⟩
  · cases h
    exact ⟨rfl, suffix_cons _ _⟩
  · cases h
    exact ⟨rfl, suffix_refl _⟩
  · next ok now =>
    cases h
    cases ok
    · exact ⟨rfl, suffix_cons _ _⟩
    · exact ⟨ids_updateTaskStatus, suffix_cons _ _⟩
  · cases h

theorem exists_row_of_ready {q : Quest} (h : q ∈ t.board.readyTasks) :
    ∃ row ∈ t, row.id = q.id ∧ row.status = .todo ∧ t.board.unblocked row.toQuest = true := by
  obtain ⟨hq, hunblocked⟩ := mem_filter.1 h
  obtain ⟨p, hp, rfl⟩ := mem_map.1 hq
  obtain ⟨hp, htodo⟩ := mem_filter.1 ((mem_insertionSort _).1 hp)
  obtain ⟨row, hrow, rfl⟩ := mem_map.1 hp
  have htodo : row.status = .todo := of_decide_eq_true htodo
  have hread : row.toQuest.rowToTask = row.toQuest := by
    unfold Quest.rowToTask
    rw [htodo]
  rw [hread] at hunblocked
  exact ⟨row, hrow, congrArg Quest.id hread.symm, htodo, hunblocked⟩

theorem changesRow_update {change : QuestRow → QuestRow → Prop}
    (h : ∀ q ∈ t, q.id = id → change q (f q)) : ChangesRow id change t (t.update id f) := by
  refine forall₂_map_right_iff.2 (forall₂_same.2 fun q hq => ?_)
  by_cases hid : q.id = id
  · rw [if_pos hid, if_pos hid]
    exact h q hq hid
  · rw [if_neg hid, if_neg hid]

end Ids

/-! ## Runs -/

section Runs

variable {config : DispatchConfig} {r r' : Rooms} {e : Event}

/-- The quests of chats and ticks are in the table, and no tick has one that waits in its list. -/
structure Known (r : Rooms) : Prop where
  chats : ∀ chat ∈ r.chats, chat.questId ∈ r.table.ids
  ticks : ∀ t ∈ r.ticks, ∀ q ∈ t.ready, q.id ∈ r.table.ids
  apart : ∀ t ∈ r.ticks, ∀ q ∈ t.ready, ¬ r.Awaiting q.id

theorem Known.of_fewer (h : Known r) (hids : r.table.ids ⊆ r'.table.ids)
    (hchats : ∀ chat ∈ r'.chats, chat.questId ∈ r.table.ids)
    (hawaiting : ∀ id, r'.Awaiting id → r.Awaiting id)
    (hticks : ∀ t ∈ r'.ticks, ∀ q ∈ t.ready, ∃ t' ∈ r.ticks, q ∈ t'.ready) : Known r' where
  chats chat hchat := hids (hchats chat hchat)
  ticks t ht q hq := by
    obtain ⟨t', ht', hq'⟩ := hticks t ht q hq
    exact hids (h.ticks t' ht' q hq')
  apart t ht q hq hwaits := by
    obtain ⟨t', ht', hq'⟩ := hticks t ht q hq
    exact h.apart t' ht' q hq' (hawaiting q.id hwaits)

theorem Known.setChat {i : Nat} {chat : Chat} {phase : ChatPhase} {table : Table} (h : Known r)
    (hi : r.chats[i]? = some chat) (hphase : chat.phase ≠ .released)
    (hids : table.ids = r.table.ids) :
    Known { r.setChat i chat.questId phase with table } := by
  have hchat : chat ∈ r.chats := mem_of_getElem? hi
  refine h.of_fewer (hids ▸ List.Subset.refl _) (fun chat' hchat' => ?_) ?_
    fun t ht q hq => ⟨t, ht, hq⟩
  · rcases mem_or_eq_of_mem_set hchat' with hold | rfl
    · exact h.chats chat' hold
    · exact h.chats chat hchat
  · rintro - ⟨chat', hchat', rfl, hnot⟩
    rcases mem_or_eq_of_mem_set hchat' with hold | rfl
    · exact ⟨chat', hold, rfl, hnot⟩
    · exact ⟨chat, hchat, rfl, hphase⟩

theorem Known.append {q : QuestRow} {chats : List Chat} (h : Known r) (hnew : r.table.has q.id ≠ true)
    (hchats : ∀ chat ∈ chats, chat.questId = q.id) :
    Known { r with table := r.table ++ [q], chats := r.chats ++ chats } := by
  have hfresh : q.id ∉ r.table.ids := fun hid => hnew (has_iff.2 hid)
  have hids : ∀ {id}, id ∈ r.table.ids → id ∈ Table.ids (r.table ++ [q]) := fun hid => by
    rw [Table.ids, map_append]
    exact mem_append_left _ hid
  have hself : q.id ∈ Table.ids (r.table ++ [q]) :=
    mem_map_of_mem (mem_append_right _ mem_cons_self)
  refine ⟨fun chat hchat => ?_, fun t ht p hp => hids (h.ticks t ht p hp), fun t ht p hp => ?_⟩
  · rcases mem_append.1 hchat with hold | hnewChat
    · exact hids (h.chats chat hold)
    · exact hchats chat hnewChat ▸ hself
  · rintro ⟨chat, hchat, hid, hnot⟩
    rcases mem_append.1 hchat with hold | hnewChat
    · exact h.apart t ht p hp ⟨chat, hold, hid, hnot⟩
    · have hp' : p.id = q.id := hid.symm.trans (hchats chat hnewChat)
      exact hfresh (hp' ▸ h.ticks t ht p hp)

theorem Known.has_of_chat {i : Nat} {chat : Chat} (h : Known r) (hi : r.chats[i]? = some chat) :
    r.table.has chat.questId = true :=
  has_iff.2 (h.chats chat (mem_of_getElem? hi))

/-! ### One step -/

/-- **A careful step** keeps what is known of the quests. -/
theorem known_step (h : Known r) (hcareful : Careful r e) (hstep : r.exec config e = .ok r') :
    Known r' := by
  cases e with
  | chat id ideaId agentId scope now =>
    simp only [exec] at hstep
    split at hstep
    · cases hstep
    · next hnew =>
      cases hstep
      refine h.append hnew fun chat hchat => ?_
      rw [mem_singleton.1 hchat]
      rfl
  | hold i ok now | release i ok now =>
    simp only [exec] at hstep
    split at hstep
    · next questId hi =>
      split at hstep
      all_goals cases hstep
      · exact h.setChat hi ChatPhase.noConfusion ids_updateTask
      · exact h.setChat hi ChatPhase.noConfusion rfl
    · cases hstep
  | tick =>
    cases hstep
    refine ⟨h.chats, fun t ht q hq => ?_, fun t ht q hq => ?_⟩
    all_goals rcases mem_append.1 ht with hold | hnew
    · exact h.ticks t hold q hq
    · rw [mem_singleton.1 hnew] at hq
      obtain ⟨row, hrow, hid, -⟩ := exists_row_of_ready hq
      exact hid ▸ mem_map_of_mem hrow
    · exact h.apart t hold q hq
    · rw [mem_singleton.1 hnew] at hq
      obtain ⟨row, hrow, hid, htodo, hunblocked⟩ := exists_row_of_ready hq
      rw [← hid]
      intro hwaits
      rcases hcareful row hrow hwaits with hparked | hblocked
      · exact hparked htodo
      · rw [hunblocked] at hblocked
        cases hblocked
  | advance i e =>
    simp only [exec] at hstep
    split at hstep
    · next t hi =>
      cases hadvance : advance config r.table t e with
      | error _ =>
        rw [hadvance] at hstep
        cases hstep
      | ok next =>
        rw [hadvance] at hstep
        cases hstep
        obtain ⟨hids, hsuffix⟩ := advance_spec hadvance
        refine h.of_fewer (fun id hid => hids ▸ hid) h.chats (fun _ hwaits => hwaits)
          fun t' ht' q hq => ?_
        rcases mem_or_eq_of_mem_set ht' with hold | rfl
        · exact ⟨t', hold, hq⟩
        · exact ⟨t, mem_of_getElem? hi, hsuffix.subset hq⟩
    · cases hstep
  | create q =>
    simp only [exec] at hstep
    split at hstep
    · cases hstep
    · next hnew =>
      cases hstep
      have happend := @Known.append r q [] h hnew nofun
      rwa [append_nil] at happend
  | write id f =>
    cases hstep
    have hids : (r.table.update id fun q => { f q with id := q.id }).ids = r.table.ids :=
      ids_update fun _ => rfl
    exact h.of_fewer (fun id hid => hids.symm ▸ hid) h.chats (fun _ hwaits => hwaits)
      fun t ht q hq => ⟨t, ht, hq⟩

/-- **A careful step** makes no waiting quest run, and holds and releases as it should. -/
theorem waitsIn_step (h : Known r) (hcareful : Careful r e) (hstep : r.exec config e = .ok r') :
    WaitsIn r e r' where
  ready he q hq hwaits := by
    subst he
    obtain ⟨row, hrow, hid, htodo, hunblocked⟩ := exists_row_of_ready hq
    rw [← hid] at hwaits
    rcases hcareful row hrow hwaits with hparked | hblocked
    · exact hparked htodo
    · rw [hunblocked] at hblocked
      cases hblocked
  flipped i now t task _ hi htask :=
    h.apart t (mem_of_getElem? hi) task (mem_of_mem_head? htask)
  held i now chat he hi := by
    subst he
    have hhas := h.has_of_chat hi
    simp only [exec, hi] at hstep
    split at hstep
    · next questId hchat =>
      cases hchat
      rw [hhas] at hstep
      cases hstep
      refine changesRow_update fun q hq hid => ⟨isSchedulerHeld_hold, ?_⟩
      have honly : OnlyHold q.metadata := hcareful rfl _ hi q hq hid
      exact @keepsKeys_hold q.rowToTask _ honly
    · cases hstep
  released i now chat he hi := by
    subst he
    have hhas := h.has_of_chat hi
    simp only [exec, hi] at hstep
    split at hstep
    · next questId hchat =>
      cases hchat
      rw [hhas] at hstep
      cases hstep
      refine changesRow_update fun q hq hid => ⟨isSchedulerHeld_release, ?_, ?_⟩
      · exact @keepsKeys_release q.rowToTask none
      · have hstatus : q.status ≠ .inReview := hcareful rfl _ hi q hq hid
        have hread : q.toQuest.rowToTask = q.toQuest := by
          unfold Quest.rowToTask
          split
          · next hreview => exact absurd hreview hstatus
          · rfl
        unfold QuestRow.rowToTask setSchedulerHold
        rw [hread]
    · cases hstep

/-! ### Whole runs -/

theorem known_init {table : Table} : Known ⟨table, [], []⟩ where
  chats _ hnot := nomatch hnot
  ticks _ hnot := nomatch hnot
  apart _ hnot := nomatch hnot

/-- **Quests wait for their council** in every careful run. -/
theorem waits {table : Table} {hist : List (Rooms × Event)}
    (run : Run (Guarded Careful (okStep (Rooms.exec config))) ⟨table, [], []⟩ hist r) :
    ∀ s ∈ hist, ∀ r', s.1.exec config s.2 = .ok r' → WaitsIn s.1 s.2 r' := by
  intro s hs r' hstep
  obtain ⟨_, _, hrun, hcareful, _⟩ := run.of_mem hs
  have hknown : Known s.1 := hrun.invariant known_init fun _ _ _ h hi => known_step h hi.1 hi.2
  exact waitsIn_step hknown hcareful hstep

end Runs

/-! ## Runs of one chat -/

def chatEvent : Event := .chat "as-001" "idea-1" "agent-1" "self" 10

def chatRow : QuestRow := insertedRow "as-001" "idea-1" "agent-1" "self" 10

def parkEvent : Event := .write "as-001" fun q => { q with status := .backlog }

/-- After the quest is created; after it is put on hold; after another actor has parked it. -/
def createdRooms : Rooms := ⟨[chatRow], [⟨"as-001", .inserted⟩], []⟩

def heldRow : QuestRow :=
  { setSchedulerHold true (some CHAT_COUNCIL_HOLD_REASON) chatRow with updatedAt := some 11 }

def heldRooms : Rooms := ⟨[heldRow], [⟨"as-001", .consulting⟩], []⟩

def parkedRooms : Rooms := ⟨[{ heldRow with status := .backlog }], [⟨"as-001", .consulting⟩], []⟩

theorem onlyHold_chatRow : OnlyHold chatRow.metadata := by
  intro key v hv
  cases hv

def heldHist : List (Rooms × Event) :=
  [(createdRooms, .hold 0 true 11), (⟨[], [], []⟩, chatEvent)]

def parkedHist : List (Rooms × Event) :=
  [({ parkedRooms with ticks := [⟨.returned, [], {}⟩] }, .release 0 true 13),
    (parkedRooms, .tick), (heldRooms, parkEvent)] ++ heldHist

/-- The quest is parked while the council sits: a tick reads nothing, and the release is one. -/
theorem parkedChat_waits : ∃ r, r.chats = [⟨"as-001", .released⟩] ∧
    Run (okStep (Rooms.exec {})) ⟨[], [], []⟩ parkedHist r ∧
    ∀ s ∈ parkedHist, ∀ r', s.1.exec {} s.2 = .ok r' → WaitsIn s.1 s.2 r' := by
  have held : Run (Guarded Careful (okStep (exec {}))) ⟨[], [], []⟩ heldHist heldRooms := by
    refine .step (.step .nil (⟨trivial, rfl⟩ : Guarded _ _ _ _ createdRooms)) ⟨?_, rfl⟩
    intro _ chat _ q hq _
    rw [mem_singleton.1 hq]
    exact onlyHold_chatRow
  have hparked : ∀ q ∈ parkedRooms.table, q.status = .backlog := by
    intro q hq
    rw [mem_singleton.1 hq]
  have ticked : Run (Guarded Careful (okStep (exec {}))) ⟨[], [], []⟩
      ((parkedRooms, .tick) :: (heldRooms, parkEvent) :: heldHist)
      { parkedRooms with ticks := [⟨.returned, [], {}⟩] } := by
    refine .step (.step held (⟨trivial, rfl⟩ : Guarded _ _ _ _ parkedRooms)) ⟨?_, rfl⟩
    intro q hq _
    exact .inl (hparked q hq ▸ QuestStatus.noConfusion)
  have released : ∃ r, r.chats = [⟨"as-001", .released⟩] ∧
      Run (Guarded Careful (okStep (exec {}))) ⟨[], [], []⟩ parkedHist r := by
    refine ⟨_, rfl, .step ticked ⟨?_, rfl⟩⟩
    intro _ chat _ q hq _
    exact hparked q hq ▸ QuestStatus.noConfusion
  obtain ⟨r, hchats, run⟩ := released
  exact ⟨r, hchats, run.mono fun _ _ _ h => h.2, waits run⟩

/-- A quest on hold is ready: nothing that reads the ready list looks at the hold. -/
theorem not_waits : ¬ ∀ config table hist r,
    Run (okStep (Rooms.exec config)) ⟨table, [], []⟩ hist r →
    ∀ s ∈ hist, ∀ r', s.1.exec config s.2 = .ok r' → WaitsIn s.1 s.2 r' := by
  intro hall
  have created : exec {} ⟨[], [], []⟩ chatEvent = .ok createdRooms := rfl
  have held : Run (okStep (exec {})) ⟨[], [], []⟩ heldHist heldRooms :=
    .step (.step .nil created) rfl
  have ticked : Run (okStep (exec {})) ⟨[], [], []⟩ ((heldRooms, .tick) :: heldHist)
      { heldRooms with ticks := [⟨.counting, [chatRow.toQuest], {}⟩] } :=
    .step held rfl
  have hwaits := hall {} [] _ _ ticked (heldRooms, .tick) mem_cons_self _ rfl
  have hready : chatRow.toQuest ∈ heldRooms.table.board.readyTasks := by decide
  exact hwaits.ready rfl _ hready (by decide)

end Aeqi.Council
