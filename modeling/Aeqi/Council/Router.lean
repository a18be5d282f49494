import Aeqi.Lib.Text
import Aeqi.Quests.Rail

/-!
# Quests that wait for a council (`message_router.rs`)

A chat message that asks for council input inserts a quest, puts it on hold with a second update,
and spawns a task that consults the advisors, however long that takes, and then releases the quest.
The ticks of the enqueuer run beside it, and so do other actors, which create quests and write
to the rows. Every database call on the quests is one step, and may fail.
-/

/-!
## Quest rows with their metadata (`agent_registry.rs`, `message_router.rs`)

The whole rows of `quests`, the update that reads one, changes it and writes it back, and the hold
of the scheduler that is kept in the metadata. The legacy column `closed_reason`, which no statement
writes any more, is left out.
-/

namespace Aeqi.Council

open Aeqi.Lib Aeqi.Quests

structure QuestRow extends Quest where
  ideaId : String := ""
  assignee : Option String := none
  scope : String := "self"
  checkpoints : List Json := []
  metadata : Json := .obj []
  updatedAt : Option Nat := none
  dueAt : Option Int := none
  outcome : Option Json := none
  worktreeBranch : Option String := none
  worktreePath : Option String := none
  creatorSessionId : Option String := none

namespace QuestRow

/-- The row as it is read, with `in_review` taken for `todo`. -/
def rowToTask (q : QuestRow) : QuestRow := { q with toQuest := q.toQuest.rowToTask }

/-- `pointer("/aeqi/hold")` is true. -/
def isSchedulerHeld (q : QuestRow) : Bool :=
  (((q.metadata.field "aeqi").bind (·.field "hold")).bind Json.asBool).getD false

end QuestRow

def CHAT_COUNCIL_HOLD_REASON : String := "awaiting_council"

/-- The metadata as an object; another value is kept under `_legacy`. -/
def metadataFields : Json → Json.Fields
  | .obj m => m
  | .null => []
  | other => [("_legacy", other)]

def holdFields (reason : Option String) (metadata : Json.Fields) : Json.Fields :=
  metadata.insert "aeqi" (.obj [("hold", .bool true),
    ("hold_reason", .str (reason.getD CHAT_COUNCIL_HOLD_REASON))])

def releaseFields (metadata : Json.Fields) : Json.Fields :=
  match metadata.get "aeqi" with
  | some (.obj obj) =>
    let obj := (Json.Fields.remove obj "hold").remove "hold_reason"
    if obj.isEmpty then metadata.remove "aeqi" else metadata.insert "aeqi" (.obj obj)
  | _ => metadata

def setSchedulerHold (hold : Bool) (reason : Option String) (task : QuestRow) : QuestRow :=
  let metadata := metadataFields task.metadata
  let metadata := if hold then holdFields reason metadata else releaseFields metadata
  { task with metadata := if metadata.isEmpty then .null else .obj metadata }

abbrev Table := List QuestRow

namespace Table

variable (t : Table)

/-- What the scheduler reads of the rows: it does not look at their metadata. -/
def board : Board := t.map (·.toQuest)

def has (id : String) : Bool := t.any (·.id = id)

def update (id : String) (f : QuestRow → QuestRow) : Table :=
  t.map fun q => if q.id = id then f q else q

def updateTaskStatus (id : String) (status : QuestStatus) (now : Nat) : Table :=
  t.update id fun q => { q with toQuest := q.toQuest.setStatus status now, updatedAt := some now }

/-- The row is read, changed and written back, all in one scope of the lock. -/
def updateTask (id : String) (f : QuestRow → QuestRow) (now : Nat) : Table :=
  t.update id fun q =>
    { f q.rowToTask with
      id := q.id
      createdAt := q.createdAt
      creatorSessionId := q.creatorSessionId
      updatedAt := some now }

end Table

/-! ## What the hold is -/

structure KeepsKeys (m m' : Json) : Prop where
  top : ∀ key, key ≠ "aeqi" → ∀ v, m.field key = some v → m'.field key = some v
  aeqi : ∀ key, key ≠ "hold" → key ≠ "hold_reason" → ∀ v,
    (m.field "aeqi").bind (·.field key) = some v → (m'.field "aeqi").bind (·.field key) = some v

section Hold

variable {q : QuestRow} {m : Json.Fields} {metadata : Json} {reason : Option String} {key : String}
  {v : Json}

theorem field_ofFields : (if m.isEmpty then Json.null else .obj m).field key = m.get key := by
  cases m <;> rfl

theorem get_metadataFields (h : metadata.field key = some v) :
    (metadataFields metadata).get key = some v := by
  cases metadata with
  | obj m => exact h
  | null | bool _ | num _ | str _ | arr _ => cases h

theorem get_releaseFields_of_ne (h : key ≠ "aeqi") : (releaseFields m).get key = m.get key := by
  unfold releaseFields
  split
  · dsimp only
    split
    · exact Json.Fields.get_remove_of_ne h
    · exact Json.Fields.get_insert_of_ne h
  · rfl

/-- Under `aeqi` only the two keys of the hold are taken out. -/
theorem get_releaseFields_aeqi (hhold : key ≠ "hold") (hreason : key ≠ "hold_reason") :
    ((releaseFields m).get "aeqi").bind (·.field key) = (m.get "aeqi").bind (·.field key) := by
  unfold releaseFields
  split
  · next obj hobj =>
    dsimp only
    rw [hobj]
    have hkept : ((Json.Fields.remove obj "hold").remove "hold_reason").get key =
        Json.Fields.get obj key := by
      rw [Json.Fields.get_remove_of_ne hreason, Json.Fields.get_remove_of_ne hhold]
    split
    · next hempty =>
      rw [List.isEmpty_iff.1 hempty] at hkept
      rw [Json.Fields.get_remove_self]
      exact hkept
    · exact hkept
  · rfl

theorem get_releaseFields_hold :
    ((releaseFields m).get "aeqi").bind (·.field "hold") = none := by
  unfold releaseFields
  split
  · next obj hobj =>
    dsimp only
    have hnone : ((Json.Fields.remove obj "hold").remove "hold_reason").get "hold" = none := by
      rw [Json.Fields.get_remove_of_ne (by decide), Json.Fields.get_remove_self]
    split
    · rw [Json.Fields.get_remove_self]
      rfl
    · exact hnone
  · next hnot =>
    cases hget : m.get "aeqi" with
    | none => rfl
    | some value =>
      cases value with
      | obj obj => exact (hnot obj hget).elim
      | null | bool _ | num _ | str _ | arr _ => rfl

theorem isSchedulerHeld_hold : (setSchedulerHold true reason q).isSchedulerHeld = true := by
  rfl

theorem isSchedulerHeld_release : (setSchedulerHold false reason q).isSchedulerHeld = false := by
  unfold QuestRow.isSchedulerHeld setSchedulerHold
  rw [field_ofFields, if_neg Bool.false_ne_true, get_releaseFields_hold]
  rfl

theorem keepsKeys_release : KeepsKeys q.metadata (setSchedulerHold false reason q).metadata where
  top key hne v hv := by
    unfold setSchedulerHold
    rw [field_ofFields, if_neg Bool.false_ne_true, get_releaseFields_of_ne hne]
    exact get_metadataFields hv
  aeqi key hhold hreason v hv := by
    obtain ⟨aeqi, haeqi, hfield⟩ := Option.bind_eq_some_iff.1 hv
    unfold setSchedulerHold
    rw [field_ofFields, if_neg Bool.false_ne_true, get_releaseFields_aeqi hhold hreason,
      get_metadataFields haeqi]
    exact hfield

/-- No key but those of the hold stands under `aeqi`. -/
def OnlyHold (metadata : Json) : Prop :=
  ∀ key v, (metadata.field "aeqi").bind (·.field key) = some v → key = "hold" ∨ key = "hold_reason"

/-- The hold keeps all other keys when none stands under `aeqi`: it writes a new object there. -/
theorem keepsKeys_hold (h : OnlyHold q.metadata) :
    KeepsKeys q.metadata (setSchedulerHold true reason q).metadata where
  top key hne v hv := by
    unfold setSchedulerHold
    rw [field_ofFields, if_pos rfl, holdFields, Json.Fields.get_insert_of_ne hne]
    exact get_metadataFields hv
  aeqi key hhold hreason v hv := by
    rcases h key v hv with hkey | hkey
    · exact absurd hkey hhold
    · exact absurd hkey hreason

end Hold

/-! ## Ticks -/

/-- The steps of a tick once it has read the ready list. -/
inductive TickEvent
  | count (countsFail overBudget : Bool)
  | visit (agent : AgentLookup)
  | cancel (ok : Bool) (now : Nat)
  | flip (ok : Bool) (now : Nat)
  /-- The row of the run is in the session queue. -/
  | enqueued
  | enqueueFails
  | rollBack (ok : Bool) (now : Nat)

def advance (config : DispatchConfig) (table : Table) :
    Tick → TickEvent → Except Unit (Table × Tick)
  | ⟨.counting, ready, _⟩, .count countsFail overBudget =>
    let counts : Counts := if countsFail then {} else
      { totalInFlight := table.board.totalInProgress, perAgent := table.board.inProgressCount }
    .ok (table, ⟨if overBudget then .returned else .visiting, ready, counts⟩)
  | ⟨.visiting, [], counts⟩, .visit _ => .ok (table, ⟨.returned, [], counts⟩)
  | ⟨.visiting, task :: rest, counts⟩, .visit agent =>
    match gate config counts task agent with
    | .halt => .ok (table, ⟨.returned, task :: rest, counts⟩)
    | .skip => .ok (table, ⟨.visiting, rest, counts⟩)
    | .cancel => .ok (table, ⟨.cancelling, task :: rest, counts⟩)
    | .accept => .ok (table, ⟨.flipping, task :: rest, counts⟩)
  | ⟨.cancelling, task :: rest, counts⟩, .cancel ok now =>
    .ok (if ok then table.updateTaskStatus task.id .cancelled now else table,
      ⟨.visiting, rest, counts⟩)
  | ⟨.flipping, task :: rest, counts⟩, .flip ok now =>
    if ok then .ok (table.updateTaskStatus task.id .inProgress now,
      ⟨.enqueueing, task :: rest, counts⟩)
    else .ok (table, ⟨.visiting, rest, counts⟩)
  | ⟨.enqueueing, task :: rest, counts⟩, .enqueued =>
    .ok (table, ⟨.visiting, rest, counts.admitted (task.agentId.getD "")⟩)
  | ⟨.enqueueing, ready, counts⟩, .enqueueFails => .ok (table, ⟨.rollingBack, ready, counts⟩)
  | ⟨.rollingBack, task :: rest, counts⟩, .rollBack ok now =>
    .ok (if ok then table.updateTaskStatus task.id .todo now else table, ⟨.visiting, rest, counts⟩)
  | _, _ => .error ()

/-! ## Chats -/

inductive ChatPhase
  /-- The quest is inserted and not yet on hold. -/
  | inserted
  /-- The spawned task consults the advisors. -/
  | consulting
  | released
  /-- An update has failed; the task ends, or is not even spawned. -/
  | failed
deriving DecidableEq

/-- A message that asked for council input, with the quest it has created. -/
structure Chat where
  questId : String
  phase : ChatPhase

/-- What `create_task` inserts; the other columns have their defaults. -/
def insertedRow (id ideaId agentId scope : String) (now : Nat) : QuestRow :=
  { id, ideaId, agentId := some agentId, scope, createdAt := now }

structure Rooms where
  table : Table
  chats : List Chat := []
  ticks : List Tick := []

inductive Event
  /-- A message creates a quest that is to wait for its council. -/
  | chat (id ideaId agentId scope : String) (now : Nat)
  | hold (chat : Nat) (ok : Bool) (now : Nat)
  | release (chat : Nat) (ok : Bool) (now : Nat)
  | tick
  | advance (tick : Nat) (e : TickEvent)
  /-- Another actor creates a quest. -/
  | create (q : QuestRow)
  /-- Another actor writes to the row of a quest. -/
  | write (id : String) (f : QuestRow → QuestRow)

namespace Rooms

variable (config : DispatchConfig) (r : Rooms)

def setChat (i : Nat) (questId : String) (phase : ChatPhase) : Rooms :=
  { r with chats := r.chats.set i ⟨questId, phase⟩ }

def exec : Event → Except Unit Rooms
  | .chat id ideaId agentId scope now =>
    if r.table.has id then .error () else .ok { r with
      table := r.table ++ [insertedRow id ideaId agentId scope now]
      chats := r.chats ++ [⟨id, .inserted⟩] }
  | .hold i ok now =>
    match r.chats[i]? with
    | some ⟨questId, .inserted⟩ =>
      if ok && r.table.has questId then .ok { r.setChat i questId .consulting with
        table := r.table.updateTask questId
          (setSchedulerHold true (some CHAT_COUNCIL_HOLD_REASON)) now }
      else .ok (r.setChat i questId .failed)
    | _ => .error ()
  | .release i ok now =>
    match r.chats[i]? with
    | some ⟨questId, .consulting⟩ =>
      if ok && r.table.has questId then .ok { r.setChat i questId .released with
        table := r.table.updateTask questId (setSchedulerHold false none) now }
      else .ok (r.setChat i questId .failed)
    | _ => .error ()
  | .tick =>
    let ready := r.table.board.readyTasks
    .ok { r with ticks := r.ticks ++ [⟨if ready = [] then .returned else .counting, ready, {}⟩] }
  | .advance i e =>
    match r.ticks[i]? with
    | some t => (advance config r.table t e).map fun next =>
      { r with table := next.1, ticks := r.ticks.set i next.2 }
    | none => .error ()
  | .create q =>
    if r.table.has q.id then .error () else .ok { r with table := r.table ++ [q] }
  | .write id f => .ok { r with table := r.table.update id fun q => { f q with id := q.id } }

def Awaiting (id : String) : Prop := ∃ chat ∈ r.chats, chat.questId = id ∧ chat.phase ≠ .released

instance (id : String) : Decidable (r.Awaiting id) :=
  inferInstanceAs (Decidable (∃ chat ∈ r.chats, chat.questId = id ∧ chat.phase ≠ .released))

end Rooms

end Aeqi.Council
