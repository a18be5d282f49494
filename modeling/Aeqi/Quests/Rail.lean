import Aeqi.Quests.Board
import Aeqi.Sessions.Leases

/-!
# The quest rail

The enqueuer admits quests: a tick reads the ready list, passes each quest through the gates,
flips it to `in_progress` and inserts one row for it, in a session of its own. The claim loops of
the session queue execute the row, and the executor finalizes the quest before it returns. Ticks,
loops and users interleave between the statements on the two tables.
-/

namespace Aeqi.Quests

open Aeqi.Lib Aeqi.Sessions

/-! ## The enqueuer -/

structure DispatchConfig where
  maxWorkers : Nat := 4
  maxTaskRetries : Nat := 3

structure Counts where
  totalInFlight : Nat := 0
  perAgent : String → Nat := fun _ => 0
  enqueued : Nat := 0

def Counts.admitted (c : Counts) (agentId : String) : Counts :=
  { c with
    perAgent := Function.update c.perAgent agentId (c.perAgent agentId + 1)
    enqueued := c.enqueued + 1 }

/-- What the agent registry says: `get_max_concurrent`, 1 where it fails, and whether `get`
finds the agent. -/
structure AgentLookup where
  maxConcurrent : Nat
  found : Bool

inductive Verdict
  /-- The cap of the workers is reached: the loop breaks. -/
  | halt
  | skip
  | cancel
  | accept

def gate (config : DispatchConfig) (counts : Counts) (task : Quest) (agent : AgentLookup) :
    Verdict :=
  if config.maxWorkers ≤ counts.totalInFlight + counts.enqueued then .halt else
  match task.agentId with
  | none => .skip
  | some agentId =>
    if config.maxTaskRetries ≤ task.retryCount then .cancel
    else if agent.maxConcurrent ≤ counts.perAgent agentId then .skip
    else if agent.found then .accept else .skip

/-- Where a tick is; from `cancelling` on the quest in question is the head of its list. -/
inductive TickPhase
  | counting
  | visiting
  | cancelling
  | flipping
  /-- The quest is in progress and its row is still to be inserted. -/
  | enqueueing
  | rollingBack
  | returned
  deriving DecidableEq

structure Tick where
  phase : TickPhase
  ready : List Quest
  counts : Counts := {}

/-- The tick has flipped the quest and neither inserted its row nor rolled it back. -/
def Tick.Holds (t : Tick) (id : String) : Prop :=
  (t.phase = .enqueueing ∨ t.phase = .rollingBack) ∧ t.ready.head?.map (·.id) = some id

instance (t : Tick) (id : String) : Decidable (t.Holds id) := by
  unfold Tick.Holds
  infer_instance

/-! ## The executor -/

/-- How the run of a quest ended; `panicked` is a `JoinError`. -/
inductive RunResult
  | endTurn
  | fallbackActivated
  | maxIterations
  | halted
  | contextExhausted
  | apiError
  | cancelled
  | agentError
  | panicked

inductive Outcome
  | done
  | retry
  | error

def RunResult.outcomeStatus : RunResult → Outcome
  | .endTurn => .done
  | .fallbackActivated => .done
  | .maxIterations => .retry
  | .halted => .retry
  | .contextExhausted => .retry
  | .apiError => .error
  | .cancelled => .error
  | .agentError => .error
  | .panicked => .error

inductive FailureMode
  | missingContext
  | wrongApproach
  | toolFailure
  | budgetExhausted
  | externalBlocker
  | unknown
  deriving DecidableEq

/-- The status that a run is finalized with; `mode` is what the failure was classified as, if it
was. -/
def terminalStatus (outcome : Outcome) (mode : Option FailureMode) : QuestStatus :=
  match outcome with
  | .done => .done
  | _ =>
    if mode = some .externalBlocker ∨ mode = some .budgetExhausted then .backlog else .todo

theorem terminalStatus_ne (outcome : Outcome) (mode : Option FailureMode) :
    QuestStatus.inProgress ≠ terminalStatus outcome mode := by
  unfold terminalStatus
  split
  · nofun
  · split <;> nofun

def questOf (fromPayload : String → Option QueuedMessage) (payload : String) : Option String :=
  (fromPayload payload).bind fun m => if m.isQuest then m.questId else none

/-! ## The machine -/

/-- The two tables, the ticks and the claim loops. `finalized` are the claims on which
`finalize_quest` has been called. -/
structure Rail where
  board : Board
  daemon : Daemon
  ticks : List Tick := []
  finalized : List Nat := []

inductive Event
  /-- The daemon dies and boots; the reset of the quests may fail. -/
  | boot (resetOk : Bool)
  /-- Of the session queue; the insertions are those of everyone but the enqueuer. -/
  | queue (e : Sessions.Event)
  /-- A tick reads the ready list. -/
  | tick
  | count (tick : Nat) (countsFail overBudget : Bool)
  | visit (tick : Nat) (agent : AgentLookup)
  | cancel (tick : Nat) (ok : Bool) (now : Nat)
  | flip (tick : Nat) (ok : Bool) (now : Nat)
  | enqueue (tick : Nat) (sessionId payload : String)
  | enqueueFails (tick : Nat)
  | rollBack (tick : Nat) (ok : Bool) (now : Nat)
  | finalize (task : Nat) (result : RunResult) (mode : Option FailureMode) (ok : Bool) (now : Nat)
  | create (q : Quest)
  | updateTaskStatus (id : String) (status : QuestStatus) (now : Nat)
  | updateTask (id : String) (f : Quest → Quest)

namespace Rail

variable (config : DispatchConfig) (fromPayload : String → Option QueuedMessage) (r : Rail)

def setTick (i : Nat) (t : Tick) : Rail := { r with ticks := r.ticks.set i t }

def FreshSession (sessionId : String) : Prop :=
  (∀ p ∈ r.daemon.store.pending, p.sessionId ≠ sessionId) ∧
    (∀ t ∈ r.daemon.tasks, t.sessionId ≠ sessionId) ∧ sessionId ∉ r.daemon.unspawned

instance (sessionId : String) : Decidable (r.FreshSession sessionId) := by
  unfold FreshSession
  infer_instance

def questRun (task : Nat) : Option (PendingClaim × String) :=
  match r.daemon.tasks[task]? with
  | some ⟨_, .executing claim _⟩ => (questOf fromPayload claim.payload).map fun id => (claim, id)
  | _ => none

/-- Only the enqueuer inserts rows of quests, and the executor returns without an error only
after it has finalized: a payload that does not parse, or a `spawn_session` that fails, ends it
before. -/
def allows : Sessions.Event → Bool
  | .insert _ payload => (questOf fromPayload payload).isNone
  | .executed i true => (r.questRun fromPayload i).all fun run => run.1.id ∈ r.finalized
  | _ => true

/-- One statement of one party. -/
def exec : Event → Except Unit Rail
  | .boot resetOk => .ok {
      board := if resetOk then r.board.resetStaleInProgress else r.board
      daemon := .boot r.daemon.store }
  | .queue e =>
    if r.allows fromPayload e then
      (r.daemon.exec fromPayload e).map fun daemon => { r with daemon }
    else .error ()
  | .tick =>
    let ready := r.board.readyTasks
    .ok { r with ticks := r.ticks ++ [⟨if ready = [] then .returned else .counting, ready, {}⟩] }
  | .count i countsFail overBudget =>
    match r.ticks[i]? with
    | some ⟨.counting, ready, _⟩ =>
      let counts : Counts := if countsFail then {} else
        { totalInFlight := r.board.totalInProgress, perAgent := r.board.inProgressCount }
      .ok (r.setTick i ⟨if overBudget then .returned else .visiting, ready, counts⟩)
    | _ => .error ()
  | .visit i agent =>
    match r.ticks[i]? with
    | some ⟨.visiting, [], counts⟩ => .ok (r.setTick i ⟨.returned, [], counts⟩)
    | some ⟨.visiting, task :: rest, counts⟩ =>
      match gate config counts task agent with
      | .halt => .ok (r.setTick i ⟨.returned, task :: rest, counts⟩)
      | .skip => .ok (r.setTick i ⟨.visiting, rest, counts⟩)
      | .cancel => .ok (r.setTick i ⟨.cancelling, task :: rest, counts⟩)
      | .accept => .ok (r.setTick i ⟨.flipping, task :: rest, counts⟩)
    | _ => .error ()
  | .cancel i ok now =>
    match r.ticks[i]? with
    | some ⟨.cancelling, task :: rest, counts⟩ => .ok { r.setTick i ⟨.visiting, rest, counts⟩ with
        board := if ok then r.board.updateTaskStatus task.id .cancelled now else r.board }
    | _ => .error ()
  | .flip i ok now =>
    match r.ticks[i]? with
    | some ⟨.flipping, task :: rest, counts⟩ =>
      if ok then .ok { r.setTick i ⟨.enqueueing, task :: rest, counts⟩ with
        board := r.board.updateTaskStatus task.id .inProgress now }
      else .ok (r.setTick i ⟨.visiting, rest, counts⟩)
    | _ => .error ()
  | .enqueue i sessionId payload =>
    match r.ticks[i]? with
    | some ⟨.enqueueing, task :: rest, counts⟩ =>
      match task.agentId with
      | some agentId =>
        if r.FreshSession sessionId ∧
            fromPayload payload = some (.quest agentId task.body task.id) then
          (r.daemon.exec fromPayload (.insert sessionId payload)).map fun daemon =>
            { r.setTick i ⟨.visiting, rest, counts.admitted agentId⟩ with daemon }
        else .error ()
      | none => .error ()
    | _ => .error ()
  | .enqueueFails i =>
    match r.ticks[i]? with
    | some ⟨.enqueueing, ready, counts⟩ => .ok (r.setTick i ⟨.rollingBack, ready, counts⟩)
    | _ => .error ()
  | .rollBack i ok now =>
    match r.ticks[i]? with
    | some ⟨.rollingBack, task :: rest, counts⟩ =>
      .ok { r.setTick i ⟨.visiting, rest, counts⟩ with
        board := if ok then r.board.updateTaskStatus task.id .todo now else r.board }
    | _ => .error ()
  | .finalize i result mode ok now =>
    match r.questRun fromPayload i with
    | some (claim, id) =>
      if claim.id ∈ r.finalized then .error () else
      let status := terminalStatus result.outcomeStatus mode
      .ok { r with
        board := if ok then r.board.finalizeQuest id status (status = .todo) now else r.board
        finalized := claim.id :: r.finalized }
    | none => .error ()
  | .create q =>
    if r.board.any (·.id = q.id) then .error () else .ok { r with board := r.board ++ [q] }
  | .updateTaskStatus id status now => .ok { r with board := r.board.updateTaskStatus id status now }
  | .updateTask id f => .ok { r with board := r.board.updateTask id f }

abbrev Step : Rail → Event → Rail → Prop := okStep (exec config fromPayload)

/-- The first boot, on an empty queue. -/
def init (board : Board) : Rail where
  board
  daemon := .boot {}

end Rail

end Aeqi.Quests
