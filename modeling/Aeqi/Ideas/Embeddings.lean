import Aeqi.Ideas.Storing

/-!
# Embeddings of ideas

`idea_embeddings` beside the table, the queue of the embed worker, and what writes them: `store`
and `update` embed inline, every other writer leaves that to the worker, and the sweeper and the
rebuild come back to what is pending. Calls of the embedder lie between the locks of the
connection, so what a call stores may be of a text that has been replaced since.

Times of updates are left out: which ideas a sweep finds overdue, and in which order, is up to the
sweep. Calls of the database succeed unless a constraint refuses them.
-/

namespace Aeqi.Ideas.Embeddings

open Aeqi.Lib

/-! ## State -/

/-- A service whose calls may fail. What it answers is an embedding of the text it was asked for. -/
structure Embedder (V : Type) where
  answer : Nat → String → Option V
  embeds : String → V → Bool
  answers : ∀ n text v, answer n text = some v → embeds text v

structure EmbeddingProfile where
  provider : String
  model : String
  dimensions : Nat

/-- The embedder of the daemon; a store has it attached if there is a profile. `capacity` is that
of each lane of the queue. -/
structure EmbeddingCtx (V : Type) extends IdeasCtx where
  embedder : Embedder V
  profile : Option EmbeddingProfile
  len : V → Nat
  capacity : Nat

structure IdeaEmbedding (V : Type) where
  embedding : V
  dimensions : Nat
  contentHash : String
  embeddingProvider : Option String
  embeddingModel : Option String

abbrev EmbedJob := String × String

/-- `asked` counts the calls of the embedder. -/
structure EmbedState (V : Type) where
  table : IdeaTable
  embeddings : Accounts String (IdeaEmbedding V)
  normal : List EmbedJob
  priority : List EmbedJob
  asked : Nat

namespace EmbedState

variable {V : Type} (ctx : EmbeddingCtx V) (s : EmbedState V)

/-- `INSERT OR REPLACE` of the embedding and the flag of the idea. -/
def putEmbedding (id : String) (e : IdeaEmbedding V) : EmbedState V :=
  { s with
    embeddings := s.embeddings.insert id e
    table := s.table.setRow id ({ · with embeddingPending := false }) }

def lookupEmbeddingByHashForProfile (hash : String) (profile : EmbeddingProfile) : Option V :=
  ((s.embeddings.entries.map (·.2)).find? fun e =>
    e.contentHash = hash ∧ e.embeddingProvider = some profile.provider ∧
      e.embeddingModel = some profile.model ∧ e.dimensions = profile.dimensions).map (·.embedding)

def embeddingRow (v : V) (dimensions : Nat) (hash : String) : IdeaEmbedding V :=
  ⟨v, dimensions, hash, ctx.profile.map (·.provider), ctx.profile.map (·.model)⟩

/-- The second lock of `store_impl`, and that of `update_impl` with an embedding. The rows refer to
ideas, so the statement fails for one that is not there, and nothing reads that. -/
def refreshEmbedding (id text : String) (v : V) : EmbedState V :=
  match s.table.row id with
  | none => s
  | some _ =>
    s.putEmbedding id (embeddingRow ctx v ((ctx.profile.map (·.dimensions)).getD 0)
      (ctx.contentHash text))

def dropEmbedding (id : String) : EmbedState V := { s with embeddings := s.embeddings.erase id }

/-- The hash is that of the idea as it is now. -/
def setEmbedding (id : String) (v : V) : Except TableError Unit × EmbedState V :=
  match s.table.row id with
  | none => (.error .foreignKey, s)
  | some r => (.ok (), s.putEmbedding id (embeddingRow ctx v (ctx.len v) r.contentHash))

def markPending (id : String) : EmbedState V :=
  { s with table := s.table.setRow id ({ · with embeddingPending := true }) }

def isStale (profile : EmbeddingProfile) (id : String) (r : IdeaRow) : Bool :=
  r.status = "active" ∧ (r.embeddingPending ∨ (s.embeddings.lookup id).all fun e =>
    e.embeddingProvider ≠ some profile.provider ∨ e.embeddingModel ≠ some profile.model ∨
      e.dimensions ≠ profile.dimensions)

/-- In the order of creation. -/
def staleEmbeddingCandidates (profile : EmbeddingProfile) (limit : Option Nat) : List EmbedJob :=
  let stale := s.table.rows.entries.filter fun e => s.isStale profile e.1 e.2
  let sorted := stale.insertionSort fun e e' =>
    e.2.createdAt < e'.2.createdAt ∨ e.2.createdAt = e'.2.createdAt ∧ e.1 ≤ e'.1
  let found := sorted.map fun e => (e.1, e.2.content)
  match limit with
  | none => found
  | some limit => found.take limit

def findStalePending (overdue : List String) (limit : Nat) : List EmbedJob :=
  (overdue.filterMap fun id =>
    ((s.table.row id).filter (·.embeddingPending)).map fun r => (id, r.content)).take limit

def enqueue (job : EmbedJob) : EmbedState V :=
  if s.normal.length < ctx.capacity then { s with normal := s.normal ++ [job] } else s

def enqueuePriority (job : EmbedJob) : EmbedState V :=
  if s.priority.length < ctx.capacity then { s with priority := s.priority ++ [job] } else s

/-- The biased `select!`. -/
def recv : Option EmbedJob × EmbedState V :=
  match s.priority, s.normal with
  | job :: rest, _ => (some job, { s with priority := rest })
  | [], job :: rest => (some job, { s with normal := rest })
  | [], [] => (none, s)

/-- The first lock of `update_impl`, with whether the body changed. -/
def update (id : String) (name content : Option String) (tags : Option (List String)) :
    Except TableError Bool × EmbedState V :=
  let contentChanged := (s.table.row id).any fun r => content.any (· ≠ r.content)
  match s.table.update ctx.toIdeasCtx id name content tags with
  | (.error e, t) => (.error e, { s with table := t })
  | (.ok (), t) => (.ok contentChanged, { s with table := t })

def storeFull (input : StoreFull) (now : Nat) : Except TableError String × EmbedState V :=
  let stored := s.table.storeFull ctx.toIdeasCtx input now
  (stored.1, { s with table := stored.2 })

def updateFull (id : String) (patch : UpdateFull) : Except TableError Unit × EmbedState V :=
  let updated := s.table.updateFull ctx.toIdeasCtx id patch
  (updated.1, { s with table := updated.2 })

def supersedeAtomic (oldId : String) (input : StoreFull) (now : Nat) :
    Except TableError String × EmbedState V :=
  let stored := s.table.supersedeAtomic ctx.toIdeasCtx oldId input now
  (stored.1, { s with table := stored.2 })

/-- A call of the embedder. -/
def embed (text : String) : Option V × EmbedState V :=
  (ctx.embedder.answer s.asked text, { s with asked := s.asked + 1 })

end EmbedState

/-! ## Accesses -/

/-- What happens at once: under a lock of the connection, at the queue, or in the embedder. A write
of an embedding names the text it was made of, which the statement of the worker does not see. -/
inductive EmbedAccess (V : Type)
  | storeFull (input : StoreFull) (now : Nat)
  | update (id : String) (name content : Option String) (tags : Option (List String))
  | updateFull (id : String) (patch : UpdateFull)
  | supersedeAtomic (oldId : String) (input : StoreFull) (now : Nat)
  | lookupEmbeddingByHash (text : String)
  | embed (text : String)
  | refreshEmbedding (id text : String) (v : V)
  | dropEmbedding (id : String)
  | setEmbedding (id text : String) (v : V)
  | markPending (id : String)
  | staleEmbeddingCandidates (profile : EmbeddingProfile) (limit : Option Nat)
  | findStalePending (overdue : List String) (limit : Nat)
  | enqueue (job : EmbedJob)
  | enqueuePriority (job : EmbedJob)
  | recv

namespace EmbedAccess

variable {V : Type}

def Reply : EmbedAccess V → Type
  | storeFull .. => Except TableError String
  | update .. => Except TableError Bool
  | updateFull .. => Except TableError Unit
  | supersedeAtomic .. => Except TableError String
  | lookupEmbeddingByHash _ => Option V
  | embed _ => Option V
  | refreshEmbedding .. => Unit
  | dropEmbedding _ => Unit
  | setEmbedding .. => Except TableError Unit
  | markPending _ => Unit
  | staleEmbeddingCandidates .. => List EmbedJob
  | findStalePending .. => List EmbedJob
  | enqueue _ => Unit
  | enqueuePriority _ => Unit
  | recv => Option EmbedJob

variable (ctx : EmbeddingCtx V)

def run : (a : EmbedAccess V) → EmbedState V → a.Reply × EmbedState V
  | storeFull input now, s => s.storeFull ctx input now
  | update id name content tags, s => s.update ctx id name content tags
  | updateFull id patch, s => s.updateFull ctx id patch
  | supersedeAtomic oldId input now, s => s.supersedeAtomic ctx oldId input now
  | lookupEmbeddingByHash text, s =>
    (ctx.profile.bind (s.lookupEmbeddingByHashForProfile (ctx.contentHash text)), s)
  | embed text, s => s.embed ctx text
  | refreshEmbedding id text v, s => ((), s.refreshEmbedding ctx id text v)
  | dropEmbedding id, s => ((), s.dropEmbedding id)
  | setEmbedding id _ v, s => s.setEmbedding ctx id v
  | markPending id, s => ((), s.markPending id)
  | staleEmbeddingCandidates profile limit, s => (s.staleEmbeddingCandidates profile limit, s)
  | findStalePending overdue limit, s => (s.findStalePending overdue limit, s)
  | enqueue job, s => ((), s.enqueue ctx job)
  | enqueuePriority job, s => ((), s.enqueuePriority ctx job)
  | recv, s => s.recv

end EmbedAccess

abbrev EmbedProg (V α : Type) := Prog (EmbedAccess V) EmbedAccess.Reply α

/-! ## Programs -/

section Programs

variable {V : Type} (ctx : EmbeddingCtx V)

def access (a : EmbedAccess V) : EmbedProg V a.Reply := Prog.perform a

/-- The embedding that is stored for a text of the hash, or one that the embedder makes. -/
def embedBytes (text : String) : EmbedProg V (Option V) := do
  let cached ← access (.lookupEmbeddingByHash text)
  match (cached : Option V) with
  | some v => pure (some v)
  | none =>
    let answered ← access (.embed text)
    pure answered

def storeImpl (name content : String) (tags : List String) (agentId : Option String) (now : Nat) :
    EmbedProg V (Except TableError String) := do
  let redacted := redactSecrets content
  let stored ← access (.storeFull { name, content := redacted, tags, agentId } now)
  match (stored : Except TableError String) with
  | .error e => pure (.error e)
  | .ok id =>
    if ctx.profile.isSome then
      match ← embedBytes redacted with
      | some v =>
        let _ ← access (.refreshEmbedding id redacted v)
        pure (.ok id)
      | none => pure (.ok id)
    else pure (.ok id)

/-- The second half of `update_impl`, when the body has changed. -/
def refreshAfterUpdate (id text : String) : EmbedProg V Unit := do
  if ctx.profile.isSome then
    match ← embedBytes text with
    | some v =>
      let _ ← access (.refreshEmbedding id text v)
      pure ()
    | none =>
      let _ ← access (.dropEmbedding id)
      pure ()
  else
    let _ ← access (.dropEmbedding id)
    pure ()

def updateImpl (id : String) (name content : Option String) (tags : Option (List String)) :
    EmbedProg V (Except TableError Unit) := do
  let updated ← access (.update id name content tags)
  match (updated : Except TableError Bool) with
  | .error e => pure (.error e)
  | .ok contentChanged =>
    if contentChanged then
      match content with
      | none => pure (.ok ())
      | some text =>
        refreshAfterUpdate ctx id text
        pure (.ok ())
    else pure (.ok ())

def embedJob (job : EmbedJob) : EmbedProg V Unit := do
  let answered ← access (.embed job.2)
  match (answered : Option V) with
  | some v =>
    let _ ← access (.setEmbedding job.1 job.2 v)
    pure ()
  | none => pure ()

/-- The loop of the worker, so many times around; it waits while there is no job. -/
def runWorker : Nat → EmbedProg V Unit
  | 0 => pure ()
  | n + 1 => do
    let received ← access .recv
    match (received : Option EmbedJob) with
    | some job =>
      embedJob job
      runWorker n
    | none => runWorker n

def enqueueAll : List EmbedJob → EmbedProg V Unit
  | [] => pure ()
  | job :: jobs => do
    let _ ← access (.enqueuePriority job)
    enqueueAll jobs

def runSweeper (batchSize : Nat) : List (List String) → EmbedProg V Unit
  | [] => pure ()
  | overdue :: ticks => do
    let rows ← access (.findStalePending overdue batchSize)
    enqueueAll rows
    runSweeper batchSize ticks

structure EmbeddingRebuildSummary where
  candidates : Nat := 0
  rebuilt : Nat := 0
  failed : Nat := 0
  dryRun : Bool

def rebuildAll (profile : EmbeddingProfile) :
    List EmbedJob → EmbeddingRebuildSummary → EmbedProg V EmbeddingRebuildSummary
  | [], summary => pure summary
  | (id, content) :: candidates, summary => do
    let _ ← access (.markPending id)
    let answered ← access (.embed content)
    match (answered : Option V) with
    | some v =>
      if ctx.len v = profile.dimensions then
        let persisted ← access (.setEmbedding id content v)
        match (persisted : Except TableError Unit) with
        | .ok () => rebuildAll profile candidates { summary with rebuilt := summary.rebuilt + 1 }
        | .error _ => rebuildAll profile candidates { summary with failed := summary.failed + 1 }
      else rebuildAll profile candidates { summary with failed := summary.failed + 1 }
    | none => rebuildAll profile candidates { summary with failed := summary.failed + 1 }

def rebuildStaleEmbeddings (limit : Option Nat) (dryRun : Bool) :
    EmbedProg V (Except String EmbeddingRebuildSummary) := do
  if limit = some 0 then pure (.ok { dryRun })
  else
    match ctx.profile with
    | none => pure (.error
        "idea vector search is disabled; configure an embedding provider/model first")
    | some profile =>
      let candidates ← access (.staleEmbeddingCandidates profile limit)
      let summary : EmbeddingRebuildSummary := { candidates := candidates.length, dryRun }
      if dryRun then pure (.ok summary)
      else
        let rebuilt ← rebuildAll ctx profile candidates summary
        pure (.ok rebuilt)

end Programs

/-! ## Runs -/

/-- A call or a task that writes ideas or their embeddings. Handlers that store or merge an idea
enqueue a job after it, and what they enqueue is left open. -/
inductive EmbedCall
  | store (name content : String) (tags : List String) (agentId : Option String) (now : Nat)
  | storeFull (input : StoreFull) (now : Nat)
  | update (id : String) (name content : Option String) (tags : Option (List String))
  | updateFull (id : String) (patch : UpdateFull)
  | supersedeAtomic (oldId : String) (input : StoreFull) (now : Nat)
  | enqueue (job : EmbedJob)
  | enqueuePriority (job : EmbedJob)
  | worker (rounds : Nat)
  | sweeper (batchSize : Nat) (ticks : List (List String))
  | rebuild (limit : Option Nat) (dryRun : Bool)

section Runs

variable {V : Type} (ctx : EmbeddingCtx V)

def EmbedCall.program : EmbedCall → EmbedProg V Unit
  | store name content tags agentId now => do
    let _ ← storeImpl ctx name content tags agentId now
    pure ()
  | storeFull input now => do
    let _ ← access (.storeFull input now)
    pure ()
  | update id name content tags => do
    let _ ← updateImpl ctx id name content tags
    pure ()
  | updateFull id patch => do
    let _ ← access (.updateFull id patch)
    pure ()
  | supersedeAtomic oldId input now => do
    let _ ← access (.supersedeAtomic oldId input now)
    pure ()
  | enqueue job => do
    let _ ← access (.enqueue job)
    pure ()
  | enqueuePriority job => do
    let _ ← access (.enqueuePriority job)
    pure ()
  | worker rounds => runWorker rounds
  | sweeper batchSize ticks => runSweeper batchSize ticks
  | rebuild limit dryRun => do
    let _ ← rebuildStaleEmbeddings ctx limit dryRun
    pure ()

/-- Calls side by side. -/
abbrev Embedding (V ι : Type) := Pool (EmbedState V) ι (EmbedProg V Unit)

def Embedding.start {ι : Type} (calls : ι → EmbedCall) (s : EmbedState V) : Embedding V ι :=
  ⟨s, fun i => (calls i).program ctx⟩

end Runs

end Aeqi.Ideas.Embeddings
