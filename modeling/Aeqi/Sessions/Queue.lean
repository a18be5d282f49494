import Aeqi.Lib.Result
import Mathlib.Data.List.Dedup

/-!
# The session queue

Every message to a session is a row of `pending_messages`, and every insertion is followed by a
task that claims rows one by one until there is none to claim. The row it has claimed is the
lease of the session. While the claimed message is executed, the agent takes the rows that have
been queued behind it at each step boundary.

Each method of the store is one statement under the connection lock, so tasks interleave
between statements. What the insertions do to the `awaiting_at` column of the session is left
out.
-/

namespace Aeqi.Sessions

open Aeqi.Lib

/-! ## Payloads -/

/-- What a payload says about who is to read it. -/
structure QueuedMessage where
  agentHint : String
  message : String
  kind : Option String := none
  questId : Option String := none
  deriving DecidableEq

namespace QueuedMessage

def chat (agentHint message : String) : QueuedMessage := { agentHint, message }

def quest (agentHint message questId : String) : QueuedMessage :=
  { agentHint, message, kind := some "quest", questId := some questId }

def userReply (agentHint message : String) : QueuedMessage :=
  { agentHint, message, kind := some "user_reply" }

def isQuest (m : QueuedMessage) : Bool := m.kind = some "quest" ∧ m.questId.isSome

end QueuedMessage

/-! ## The store -/

inductive Status
  | queued
  | running
  deriving DecidableEq

structure PendingMessage where
  id : Nat
  sessionId : String
  payload : String
  status : Status

structure PendingClaim where
  id : Nat
  payload : String
  deriving DecidableEq

structure InjectedMessage where
  id : Nat
  content : String
  deriving DecidableEq

/-- The rows in the order of their ids, and the id of the next one: `AUTOINCREMENT` uses none
twice. -/
structure SessionStore where
  pending : List PendingMessage := []
  nextId : Nat := 1

namespace SessionStore

variable (s : SessionStore) (sessionId : String)

def rows (status : Status) : List PendingMessage :=
  s.pending.filter fun p => p.sessionId = sessionId ∧ p.status = status

def ids (status : Status) : List Nat := (s.rows sessionId status).map (·.id)

/-- The insertion of `enqueue_pending` and of `answer_awaiting`. -/
def enqueuePending (payload : String) : SessionStore where
  pending := s.pending ++ [⟨s.nextId, sessionId, payload, .queued⟩]
  nextId := s.nextId + 1

def setRunning (id : Nat) : SessionStore :=
  { s with pending := s.pending.map fun p => if p.id = id then { p with status := .running } else p }

/-- The first queued row, if no row of the session is running. -/
def claimNextPending : Option PendingClaim × SessionStore :=
  if s.rows sessionId .running = [] then
    match s.pending.find? fun p => p.sessionId = sessionId ∧ p.status = .queued with
    | some p => (some ⟨p.id, p.payload⟩, s.setRunning p.id)
    | none => (none, s)
  else (none, s)

def deletePending (id : Nat) : SessionStore :=
  { s with pending := s.pending.filter (·.id ≠ id) }

def injectable (sinceId : Option Nat) : List PendingMessage :=
  (s.rows sessionId .queued).filter fun p => ∀ t ∈ sinceId, t < p.id

def injected (fromPayload : String → Option QueuedMessage) (p : PendingMessage) :
    InjectedMessage where
  id := p.id
  content := ((fromPayload p.payload).map (·.message)).getD p.payload

def claimPendingForSession (fromPayload : String → Option QueuedMessage) (sinceId : Option Nat) :
    List InjectedMessage × SessionStore :=
  ((s.injectable sessionId sinceId).map (injected fromPayload),
    { s with pending := s.pending.filter fun p =>
        p.id ∉ (s.injectable sessionId sinceId).map (·.id) })

def sessionsWithQueued : List String :=
  ((s.pending.filter (·.status = .queued)).map (·.sessionId)).dedup

def recoverOrphanedRunning : SessionStore :=
  { s with pending := s.pending.filter (·.status ≠ .running) }

end SessionStore

/-! ## Executing a claim -/

/-- What `spawn_session` is asked for. -/
structure SpawnRequest where
  agentHint : String
  input : String
  sessionId : String
  startingPendingId : Nat
  questId : Option String

/-- The start of `QueueExecutor::execute`; a payload that does not parse starts nothing. -/
def execute (fromPayload : String → Option QueuedMessage) (sessionId : String)
    (claim : PendingClaim) : Option SpawnRequest := do
  let queued ← fromPayload claim.payload
  pure {
    agentHint := queued.agentHint
    input := queued.message
    sessionId
    startingPendingId := claim.id
    questId := if queued.isQuest then queued.questId else none }

/-! ## Tasks -/

/-- Where a task of `claim_and_run_loop` is. -/
inductive Phase
  | claiming
  | executing (claim : PendingClaim) (messages : List InjectedMessage)
  | deleting (claim : PendingClaim)
  | returned
  deriving DecidableEq

structure Task where
  sessionId : String
  phase : Phase

def Phase.claim : Phase → Option PendingClaim
  | .executing claim _ => some claim
  | .deleting claim => some claim
  | _ => none

def watermark (claim : PendingClaim) (messages : List InjectedMessage) : Nat :=
  (messages.getLast?.map (·.id)).getD claim.id

/-- The tasks of the daemon; a session is `unspawned` from an insertion until the inserter has
spawned its task. -/
structure Daemon where
  store : SessionStore
  tasks : List Task := []
  unspawned : List String := []

inductive Event
  | insert (sessionId payload : String)
  | spawn (sessionId : String)
  | claim (task : Nat)
  | inject (task : Nat) (sinceId : Nat)
  /-- The executor returned `Ok` or `Err`. -/
  | executed (task : Nat) (ok : Bool)
  | delete (task : Nat)

namespace Daemon

variable (fromPayload : String → Option QueuedMessage) (d : Daemon)

def setPhase (i : Nat) (t : Task) (phase : Phase) : List Task := d.tasks.set i { t with phase }

/-- One statement of one task. A task goes on with its next claim however the executor returned,
and returns when it finds nothing to claim. -/
def exec : Event → Except Unit Daemon
  | .insert sessionId payload => .ok { d with
      store := d.store.enqueuePending sessionId payload
      unspawned := d.unspawned ++ [sessionId] }
  | .spawn sessionId => .ok { d with
      tasks := d.tasks ++ [⟨sessionId, .claiming⟩]
      unspawned := d.unspawned.erase sessionId }
  | .claim i =>
    match d.tasks[i]? with
    | some ⟨sessionId, .claiming⟩ =>
      match d.store.claimNextPending sessionId with
      | (some claim, store) => .ok { d with
          store
          tasks := d.setPhase i ⟨sessionId, .claiming⟩ (.executing claim []) }
      | (none, store) => .ok { d with
          store
          tasks := d.setPhase i ⟨sessionId, .claiming⟩ .returned }
    | _ => .error ()
  | .inject i sinceId =>
    match d.tasks[i]? with
    | some ⟨sessionId, .executing claim messages⟩ =>
      if sinceId = claim.id ∨ sinceId = watermark claim messages then
        let (rows, store) := d.store.claimPendingForSession sessionId fromPayload (some sinceId)
        .ok { d with
          store
          tasks := d.setPhase i ⟨sessionId, .executing claim messages⟩
            (.executing claim (messages ++ rows)) }
      else .error ()
    | _ => .error ()
  | .executed i _ =>
    match d.tasks[i]? with
    | some ⟨sessionId, .executing claim messages⟩ => .ok { d with
        tasks := d.setPhase i ⟨sessionId, .executing claim messages⟩ (.deleting claim) }
    | _ => .error ()
  | .delete i =>
    match d.tasks[i]? with
    | some ⟨sessionId, .deleting claim⟩ => .ok { d with
        store := d.store.deletePending claim.id
        tasks := d.setPhase i ⟨sessionId, .deleting claim⟩ .claiming }
    | _ => .error ()

/-- `recover_on_boot`. -/
def boot (s : SessionStore) : Daemon where
  store := s.recoverOrphanedRunning
  unspawned := s.recoverOrphanedRunning.sessionsWithQueued

abbrev Step : Daemon → Event → Daemon → Prop := okStep (exec fromPayload)

end Daemon

/-! ## Mentions -/

inductive MentionKind
  | agent
  | user
  | position
  | fuzzy

structure MentionRef where
  kind : MentionKind
  id : String

/-- The agent a mention spawns; `getActiveByName` is the look-up in the agent registry. -/
def MentionRef.agent (getActiveByName : String → Option String) (m : MentionRef) : Option String :=
  match m.kind with
  | .agent => some m.id
  | .fuzzy => getActiveByName m.id
  | .user => none
  | .position => none

/-- The payloads that `wire_at_mentions_in_message` enqueues. -/
def wireAtMentionsInMessage (getActiveByName : String → Option String) (mentions : List MentionRef)
    (body : String) : List QueuedMessage :=
  mentions.filterMap fun m => (m.agent getActiveByName).map fun agentId => .chat agentId body

end Aeqi.Sessions
