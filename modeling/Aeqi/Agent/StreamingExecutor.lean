import Aeqi.Lib.Result

/-!
# The streaming tool executor

`StreamingToolExecutor` starts tools while they stream in from the provider. A tool that may run
beside others is started at once, others wait; what has been completed at the front of the queue
can be drained during streaming, and `finish_all` awaits the rest. The tasks that the executor
spawns are the runtime's: each begins and ends when the runtime lets it, between any two steps of
the executor. The durations that a result carries are left out.
-/

namespace Aeqi.Agent

open Aeqi.Lib

/-- What a tool returns, as far as the executor and its callers' order of results go. -/
structure ToolResult where
  output : String
  isError : Bool
deriving DecidableEq

def ToolResult.error (output : String) : ToolResult := ⟨output, true⟩

/-- A tool as the executor asks about it; `Input` is what a call of it is given. -/
structure Tool (Input : Type) where
  name : String
  isConcurrentSafe : Input → Bool
  cascadesErrorToSiblings : Bool

inductive ToolStatus
  | queued
  | executing
  | completed
  | cancelled
deriving DecidableEq

/-- What the join handle of a task gives once the task has ended. -/
inductive Joined
  | returned (result : ToolResult)
  | failed (message : String)
  | panicked (message : String)
deriving DecidableEq

/-- Whether the task stored that it went wrong; a panic unwinds before it could. -/
def Joined.errored : Joined → Bool
  | .returned result => result.isError
  | .failed _ => true
  | .panicked _ => false

/-- A spawned task. Its tool executes while it is `running`. -/
inductive Task
  | spawned
  | running
  | ended (joined : Joined)
deriving DecidableEq

/-- The arguments of an `add_tool` call. -/
structure Request (Input : Type) where
  id : String
  name : String
  input : Input

structure TrackedTool (Input : Type) extends Request Input where
  status : ToolStatus
  isConcurrentSafe : Bool
  cascadesError : Bool
  result : Option ToolResult
  joinHandle : Option Task

/-- A result with the tool call that it answers. -/
structure CompletedTool (Input : Type) extends Request Input where
  result : ToolResult

section Executor

variable {Input : Type}

namespace Request

def toolDef (defs : List (Tool Input)) (r : Request Input) : Option (Tool Input) :=
  defs.find? (·.name == r.name)

def known (defs : List (Tool Input)) (r : Request Input) : Bool := (r.toolDef defs).isSome

/-- An unknown tool counts as one that must execute alone. -/
def isSafe (defs : List (Tool Input)) (r : Request Input) : Bool :=
  ((r.toolDef defs).map fun t => t.isConcurrentSafe r.input).getD false

def track (defs : List (Tool Input)) (r : Request Input) : TrackedTool Input where
  toRequest := r
  status := .queued
  isConcurrentSafe := r.isSafe defs
  cascadesError := ((r.toolDef defs).map Tool.cascadesErrorToSiblings).getD false
  result := none
  joinHandle := none

end Request

namespace TrackedTool

def start (defs : List (Tool Input)) (t : TrackedTool Input) : TrackedTool Input :=
  match t.toolDef defs with
  | none =>
    { t with status := .completed, result := some (.error ("Unknown tool: " ++ t.name)) }
  | some _ => { t with status := .executing, joinHandle := some .spawned }

def settle (t : TrackedTool Input) : Joined → TrackedTool Input
  | .returned result => { t with status := .completed, result := some result, joinHandle := none }
  | .failed message =>
    { t with status := .cancelled, result := some (.error message), joinHandle := none }
  | .panicked message =>
    { t with
      status := .cancelled
      result := some (.error ("Tool panicked: " ++ message))
      joinHandle := none }

def complete (t : TrackedTool Input) (otherwise : String) : CompletedTool Input :=
  ⟨t.toRequest, t.result.getD (.error otherwise)⟩

def isRunning (t : TrackedTool Input) : Prop := t.joinHandle = some .running

def hasEnded (t : TrackedTool Input) : Prop :=
  t.status = .completed ∨ t.status = .cancelled ∨ ∃ joined, t.joinHandle = some (.ended joined)

end TrackedTool

/-- The two loops of `try_start_queued`, once it is known whether nothing is executing and whether
all that is executing is safe: the tools that the first loop collects are those that the second
starts, and starting one touches no other. -/
def startQueued (defs : List (Tool Input)) (noneExecuting allSafe : Bool) :
    List (TrackedTool Input) → List (TrackedTool Input)
  | [] => []
  | t :: queue =>
    if t.status ≠ .queued then t :: startQueued defs noneExecuting allSafe queue
    else if noneExecuting || (t.isConcurrentSafe && allSafe) then
      t.start defs :: startQueued defs noneExecuting allSafe queue
    else if t.isConcurrentSafe = false then t :: queue
    else t :: startQueued defs noneExecuting allSafe queue

def executing (queue : List (TrackedTool Input)) : List (TrackedTool Input) :=
  queue.filter (·.status = .executing)

def tryStartQueued (defs : List (Tool Input)) (queue : List (TrackedTool Input)) :
    List (TrackedTool Input) :=
  startQueued defs (executing queue).isEmpty ((executing queue).all (·.isConcurrentSafe)) queue

/-- The results that `drain_completed` returns, and the queue it leaves. -/
def drainCompleted :
    List (TrackedTool Input) → List (CompletedTool Input) × List (TrackedTool Input)
  | [] => ([], [])
  | t :: queue =>
    match t.status with
    | .completed | .cancelled =>
      (t.complete "Tool cancelled" :: (drainCompleted queue).1, (drainCompleted queue).2)
    | _ => ([], t :: queue)

inductive Call (Input : Type)
  | addTool (request : Request Input)
  | drainCompleted

def added : List (Call Input) → List (Request Input)
  | [] => []
  | .addTool r :: calls => r :: added calls
  | .drainCompleted :: calls => added calls

/-- Where the executor is: it still has calls to serve before `finish_all`, or `finish_all` awaits
the handle at a position, or it has returned. `hadQueued` tells whether the loop of `finish_all`
goes round again; it does after the first pass over the queue. -/
inductive Control (Input : Type)
  | streaming (calls : List (Call Input))
  | awaiting (hadQueued : Bool) (i : Nat)
  | finished

/-- The executor among its tasks, with all the results it has returned so far. -/
structure State (Input : Type) where
  queue : List (TrackedTool Input)
  siblingErrored : Bool
  control : Control Input
  returned : List (CompletedTool Input)

namespace State

def start (calls : List (Call Input)) : State Input := ⟨[], false, .streaming calls, []⟩

/-- The next step of the executor's own code; none where it awaits a task that has not ended. -/
def resume (defs : List (Tool Input)) (s : State Input) : Option (State Input) :=
  match s.control with
  | .streaming (.addTool r :: calls) =>
    some { s with
      queue := tryStartQueued defs (s.queue ++ [r.track defs])
      control := .streaming calls }
  | .streaming (.drainCompleted :: calls) =>
    some { s with
      queue := (drainCompleted s.queue).2
      control := .streaming calls
      returned := s.returned ++ (drainCompleted s.queue).1 }
  | .streaming [] =>
    some { s with queue := tryStartQueued defs s.queue, control := .awaiting true 0 }
  | .awaiting hadQueued i =>
    match s.queue[i]? with
    | some t =>
      match t.joinHandle with
      | none => some { s with control := .awaiting hadQueued (i + 1) }
      | some (.ended joined) =>
        some { s with queue := s.queue.set i (t.settle joined), control := .awaiting true (i + 1) }
      | some _ => none
    | none =>
      if hadQueued then
        some { s with queue := tryStartQueued defs s.queue, control := .awaiting false 0 }
      else
        some { s with
          queue := []
          control := .finished
          returned := s.returned ++ s.queue.map (·.complete "Tool never completed") }
  | .finished => none

/-- The task of the tool at a position is given its first turn. It executes its tool unless a
sibling has gone wrong by then. -/
def begins (s : State Input) (i : Nat) : Option (State Input) :=
  match s.queue[i]? with
  | some t =>
    if t.joinHandle = some .spawned then
      let task := if s.siblingErrored then
        .ended (.failed "Cancelled: sibling tool errored") else .running
      some { s with queue := s.queue.set i { t with joinHandle := some task } }
    else none
  | none => none

def ends (s : State Input) (i : Nat) (joined : Joined) : Option (State Input) :=
  match s.queue[i]? with
  | some t =>
    if t.joinHandle = some .running then
      some { s with
        queue := s.queue.set i { t with joinHandle := some (.ended joined) }
        siblingErrored := s.siblingErrored || (t.cascadesError && joined.errored) }
    else none
  | none => none

end State

/-- What happens next: a step of the executor, or of one of its tasks. -/
inductive Event
  | resume
  | begins (i : Nat)
  | ends (i : Nat) (joined : Joined)

def State.step (defs : List (Tool Input)) (s : State Input) : Event → Option (State Input)
  | .resume => s.resume defs
  | .begins i => s.begins i
  | .ends i joined => s.ends i joined

/-- A state that the calls, followed by `finish_all`, can come to in some order of events. -/
def Reaches (defs : List (Tool Input)) (calls : List (Call Input)) (s : State Input) : Prop :=
  ∃ hist, Run (fun s e s' => s.step defs e = some s') (.start calls) hist s

/-- No tool that must execute alone executes beside another. -/
def Exclusive (queue : List (TrackedTool Input)) : Prop :=
  queue.Pairwise fun t t' =>
    t.isRunning → t'.isRunning → t.isConcurrentSafe ∧ t'.isConcurrentSafe

/-- No tool executes while an earlier one that must execute alone has yet to end. -/
def InOrder (queue : List (TrackedTool Input)) : Prop :=
  queue.Pairwise fun t t' => t.isConcurrentSafe = false → t'.isRunning → t.hasEnded

end Executor

end Aeqi.Agent
