import Aeqi.Ideas.Storing
import Aeqi.Quests.Board

/-!
# The columns of a quest (`agent_registry.rs`, `quest.rs`)

A row of `quests` as SQLite keeps it: texts, integers and NULLs. `rowToTask` reads a quest from it
and `updateTask` writes a changed quest over the columns that its statement lists, in the row that
has the id of the quest.

What `serde_json` and `chrono` write and read is a parameter. Left out are the snapshot of the idea,
which `row_to_task` sets to `None` and no statement writes, and the errors of the database.
-/

namespace Aeqi.Quests.Columns

open Aeqi.Lib Aeqi.Orchestrator

/-! ## Times -/

/-- The seconds of the first and the last date of `chrono`. -/
def MIN_TIMESTAMP : Int := -8334601228800

def MAX_TIMESTAMP : Int := 8210266876799

/-- `DateTime<Utc>`; a leap second is a second of more than `10 ^ 9` nanoseconds. -/
structure DateTime where
  timestamp : Int
  nanos : Nat
  inRange : MIN_TIMESTAMP ≤ timestamp ∧ timestamp ≤ MAX_TIMESTAMP
  nanos_lt : nanos < 2000000000

/-- `from_timestamp(secs, 0)`. -/
def DateTime.fromTimestamp (secs : Int) : Option DateTime :=
  if h : MIN_TIMESTAMP ≤ secs ∧ secs ≤ MAX_TIMESTAMP then some ⟨secs, 0, h, by decide⟩ else none

def UNIX_EPOCH : DateTime := ⟨0, 0, by decide, by decide⟩

/-! ## The record -/

inductive QuestOutcomeKind
  | done
  | blocked
  | handoff
  | failed
  | cancelled

structure QuestOutcomeRecord where
  kind : QuestOutcomeKind
  summary : String
  reason : Option String := none
  nextAction : Option String := none

/-- The cost is the bits of the `f64`. -/
structure Checkpoint where
  timestamp : DateTime
  agentName : String
  progress : String
  costUsd : UInt64
  stepsUsed : UInt32

structure Quest where
  id : String
  ideaId : String
  status : QuestStatus := .todo
  priority : Priority := .normal
  kind : String := "task"
  agentId : Option String := none
  assignee : Option String := none
  scope : Scope := .self
  dependsOn : List String := []
  retryCount : UInt32 := 0
  checkpoints : List Checkpoint := []
  metadata : Json := .null
  createdAt : DateTime := UNIX_EPOCH
  updatedAt : Option DateTime := none
  closedAt : Option DateTime := none
  dueAt : Option DateTime := none
  outcome : Option QuestOutcomeRecord := none
  worktreeBranch : Option String := none
  worktreePath : Option String := none
  creatorSessionId : Option String := none

/-! ## The texts of the columns -/

/-- `to_string` and `from_str` of `serde_json`, either of which may fail. -/
structure Format (α : Type) where
  toString : α → Option String
  fromStr : String → Option α

namespace Format

variable {α : Type} (fmt : Format α)

/-- `to_string(..).unwrap_or_default()`. -/
def text (x : α) : String := (fmt.toString x).getD ""

/-- `from_str(..).unwrap_or(default)`. -/
def read (default : α) (text : String) : α := (fmt.fromStr text).getD default

end Format

structure Codec where
  toRfc3339 : DateTime → String
  parseFromRfc3339 : String → Option DateTime
  checkpoints : Format (List Checkpoint)
  dependsOn : Format (List String)
  metadata : Format Json
  outcome : Format QuestOutcomeRecord

def statusText : QuestStatus → String
  | .backlog => "backlog"
  | .todo => "todo"
  | .inProgress => "in_progress"
  | .inReview => "in_review"
  | .done => "done"
  | .cancelled => "cancelled"

/-- There is no case for `in_review`, which is read as what is unknown is. -/
def statusOf : String → QuestStatus
  | "backlog" => .backlog
  | "todo" => .todo
  | "in_progress" => .inProgress
  | "done" => .done
  | "cancelled" => .cancelled
  | "pending" => .todo
  | "blocked" => .backlog
  | _ => .todo

def priorityText : Priority → String
  | .low => "low"
  | .normal => "normal"
  | .high => "high"
  | .critical => "critical"

def priorityOf : String → Priority
  | "low" => .low
  | "high" => .high
  | "critical" => .critical
  | _ => .normal

/-- `Scope::as_str`. -/
def scopeText : Scope → String
  | .self => "self"
  | .siblings => "siblings"
  | .children => "children"
  | .branch => "branch"
  | .global => "global"

def scopeOf (text : String) : Scope := (Ideas.Scope.fromStr text).getD .self

/-- `get::<_, u32>`, or zero. -/
def retryCountOf (n : Int) : UInt32 :=
  if 0 ≤ n ∧ n < 4294967296 then UInt32.ofNat n.toNat else 0

@[simp] theorem statusOf_statusText (status : QuestStatus) :
    statusOf (statusText status) = if status = .inReview then .todo else status := by
  cases status <;> rfl

@[simp] theorem priorityOf_priorityText (priority : Priority) :
    priorityOf (priorityText priority) = priority := by
  cases priority <;> rfl

@[simp] theorem scopeOf_scopeText (scope : Scope) : scopeOf (scopeText scope) = scope := by
  cases scope <;> rfl

@[simp] theorem retryCountOf_toNat (n : UInt32) : retryCountOf n.toNat = n := by
  have hlt : n.toNat < 4294967296 := n.toNat_lt
  unfold retryCountOf
  rw [if_pos ⟨by omega, by omega⟩, Int.toNat_natCast, UInt32.ofNat_toNat]

@[simp] theorem fromTimestamp_timestamp (t : DateTime) :
    (DateTime.fromTimestamp t.timestamp).map (·.timestamp) = some t.timestamp := by
  unfold DateTime.fromTimestamp
  rw [dif_pos t.inRange]
  rfl

/-! ## Rows -/

structure Row where
  id : String
  ideaId : String
  status : String := "todo"
  priority : String := "normal"
  agentId : Option String := none
  scope : String := "self"
  retryCount : Int := 0
  checkpoints : String := "[]"
  metadata : String := "\x7b\x7d"
  dependsOn : String := "[]"
  outcome : Option String := none
  worktreeBranch : Option String := none
  worktreePath : Option String := none
  createdAt : String
  updatedAt : Option String := none
  closedAt : Option String := none
  closedReason : Option String := none
  creatorSessionId : Option String := none
  assignee : Option String := none
  dueAt : Option Int := none
  kind : String := "task"

section

variable (c : Codec)

def outcomeOf (outcome closedReason : Option String) (status : String) :
    Option QuestOutcomeRecord :=
  let outcome := outcome.getD ""
  if outcome ≠ "" then c.outcome.fromStr outcome
  else
    (closedReason.filter (· ≠ "")).map fun reason =>
      { kind := if status = "cancelled" then .cancelled else .done
        summary := reason }

def rowToTask (row : Row) : Quest where
  id := row.id
  ideaId := row.ideaId
  status := statusOf row.status
  priority := priorityOf row.priority
  kind := "task"
  agentId := row.agentId
  assignee := row.assignee
  scope := scopeOf row.scope
  dependsOn := c.dependsOn.read [] row.dependsOn
  retryCount := retryCountOf row.retryCount
  checkpoints := c.checkpoints.read [] row.checkpoints
  metadata := c.metadata.read .null row.metadata
  createdAt := (c.parseFromRfc3339 row.createdAt).getD UNIX_EPOCH
  updatedAt := row.updatedAt.bind c.parseFromRfc3339
  closedAt := row.closedAt.bind c.parseFromRfc3339
  dueAt := row.dueAt.bind DateTime.fromTimestamp
  outcome := outcomeOf c row.outcome row.closedReason row.status
  worktreeBranch := row.worktreeBranch
  worktreePath := row.worktreePath
  creatorSessionId := row.creatorSessionId

/-- The columns that `update_task` sets. -/
def setColumns (quest : Quest) (now : DateTime) (row : Row) : Row :=
  { row with
    ideaId := quest.ideaId
    status := statusText quest.status
    priority := priorityText quest.priority
    agentId := quest.agentId
    assignee := quest.assignee
    scope := scopeText quest.scope
    retryCount := quest.retryCount.toNat
    checkpoints := c.checkpoints.text quest.checkpoints
    metadata := c.metadata.text quest.metadata
    dependsOn := c.dependsOn.text quest.dependsOn
    updatedAt := some (c.toRfc3339 now)
    closedAt := quest.closedAt.map c.toRfc3339
    outcome := quest.outcome.bind c.outcome.toString
    dueAt := quest.dueAt.map (·.timestamp)
    worktreeBranch := quest.worktreeBranch
    worktreePath := quest.worktreePath }

end

/-! ## The table -/

/-- The rows in the order of their insertion; `id` is the primary key. -/
@[ext]
structure Table where
  rows : List Row
  nodup : (rows.map (·.id)).Nodup

namespace Table

variable (t : Table) {id id' : String} {row : Row} {f g : Row → Row}

def find (id : String) : Option Row := t.rows.find? (·.id = id)

/-- `UPDATE quests SET .. WHERE id = ?` -/
def update (id : String) (f : Row → Row) (hf : ∀ row, (f row).id = row.id) : Table where
  rows := t.rows.map fun row => if row.id = id then f row else row
  nodup := by
    have hid : ((t.rows.map fun row => if row.id = id then f row else row).map (·.id)) =
        t.rows.map (·.id) := by
      rw [List.map_map]
      refine List.map_congr_left fun row _ => ?_
      simp only [Function.comp_apply]
      split
      · exact hf row
      · rfl
    rw [hid]
    exact t.nodup

variable {t}

theorem id_of_find (h : t.find id = some row) : row.id = id :=
  of_decide_eq_true (List.find?_eq_some_iff_append.1 h).1

theorem find_update {hf : ∀ row, (f row).id = row.id} :
    (t.update id f hf).find id' = (t.find id').map fun row => if row.id = id then f row else row := by
  unfold find update
  rw [List.find?_map]
  congr 2
  funext row
  simp only [Function.comp_apply]
  split
  · rw [hf]
  · rfl

theorem update_update {hf : ∀ row, (f row).id = row.id} {hg : ∀ row, (g row).id = row.id}
    (h : ∀ row, g (f row) = g row) :
    (t.update id f hf).update id g hg = t.update id g hg := by
  apply Table.ext
  change (t.rows.map _).map _ = t.rows.map _
  rw [List.map_map]
  refine List.map_congr_left fun row _ => ?_
  simp only [Function.comp_apply]
  by_cases hid : row.id = id
  · rw [if_pos hid, if_pos ((hf row).trans hid), if_pos hid, h]
  · rw [if_neg hid]

end Table

section

variable (c : Codec) (t : Table)

def getTask (questId : String) : Option Quest := (t.find questId).map (rowToTask c)

/-- The quest as the closure has left it is returned, with the table that the statement leaves. -/
def updateTask (questId : String) (f : Quest → Quest) (now : DateTime) :
    Except String (Quest × Table) :=
  match t.find questId with
  | none => .error s!"quest not found: {questId}"
  | some row =>
    let quest := f (rowToTask c row)
    .ok (quest, t.update quest.id (setColumns c quest now) fun _ => rfl)

end

section

variable {c : Codec} {t t' : Table} {id id' : String} {row : Row} {f : Quest → Quest} {q : Quest}
  {now : DateTime}

theorem updateTask_of_find (h : t.find id = some row) : updateTask c t id f now =
    .ok (f (rowToTask c row), t.update (f (rowToTask c row)).id
      (setColumns c (f (rowToTask c row)) now) fun _ => rfl) := by
  unfold updateTask
  rw [h]

theorem updateTask_of_missing (h : t.find id = none) :
    updateTask c t id f now = .error s!"quest not found: {id}" := by
  unfold updateTask
  rw [h]

theorem updateTask_ok (h : updateTask c t id f now = .ok (q, t')) :
    ∃ row, t.find id = some row ∧ q = f (rowToTask c row) ∧ ∀ id', t'.find id' =
        (t.find id').map fun row => if row.id = q.id then setColumns c q now row else row := by
  cases hfind : t.find id with
  | none =>
    rw [updateTask_of_missing hfind] at h
    cases h
  | some row =>
    rw [updateTask_of_find hfind] at h
    cases h
    exact ⟨row, rfl, rfl, fun id' => Table.find_update⟩

theorem find_updateTask_self (h : updateTask c t id f now = .ok (q, t')) (hid : q.id = id) :
    t'.find id = (t.find id).map (setColumns c q now) := by
  obtain ⟨row, hrow, _, hrows⟩ := updateTask_ok h
  rw [hrows, hrow, Option.map_some, Option.map_some,
    if_pos ((Table.id_of_find hrow).trans hid.symm)]

end

/-- What the two libraries write and read of the values of a few quests. -/
def plainCodec : Codec where
  toRfc3339 _ := "1970-01-01T00:00:00+00:00"
  parseFromRfc3339 text := if text = "1970-01-01T00:00:00+00:00" then some UNIX_EPOCH else none
  checkpoints :=
    { toString := fun xs => if xs.isEmpty then some "[]" else none
      fromStr := fun text => if text = "[]" then some [] else none }
  dependsOn :=
    { toString := fun deps =>
        if deps = [] then some "[]" else if deps = ["as-001"] then some "[\"as-001\"]" else none
      fromStr := fun text =>
        if text = "[]" then some [] else if text = "[\"as-001\"]" then some ["as-001"] else none }
  metadata :=
    { toString := fun _ => some "\x7b\x7d"
      fromStr := fun text => if text = "\x7b\x7d" then some (.obj []) else none }
  outcome :=
    { toString := fun _ => none
      fromStr := fun _ => none }

end Aeqi.Quests.Columns
