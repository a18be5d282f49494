import Aeqi.Orchestrator.Visibility
import Aeqi.Quests.Board

/-!
# The quest board over its files

`QuestBoard` of `aeqi-quests` keeps the quests in memory and appends every change to a file for
the prefix of the id, one JSON object a line. Opening it reads the lines back, later ones over
earlier ones, and recovers the last number of every prefix from the ids.

A line is modelled by the quest that it is read as. What `serde_json` reads back of a checkpoint
that it has written is a parameter: a cost that is no number comes back as nothing. The snapshot
of the idea is not written at all. Every write may fail; an append that fails may have left a part
of its line. A call takes one reading of the clock.
-/

namespace Aeqi.Quests

open Aeqi.Lib

inductive QuestOutcomeKind
  | done
  | blocked
  | handoff
  | failed
  | cancelled

structure QuestOutcomeRecord where
  kind : QuestOutcomeKind
  summary : String

/-- A quest with what the board reads and writes of it; `legacyOutcome` is the copy of the outcome
under `aeqi.task_outcome` in its metadata. -/
structure StoredQuest (C : Type) extends Quest where
  ideaId : String
  idea : Option String
  scope : Orchestrator.Scope
  checkpoints : List C
  outcome : Option QuestOutcomeRecord
  legacyOutcome : Option QuestOutcomeRecord
  updatedAt : Option Nat

namespace QuestId

/-- `prefix`: what stands before the first dash. -/
def head (id : String) : String := String.ofList (id.toList.takeWhile (· ≠ '-'))

/-- `split('-').nth(1)`. -/
def second (id : String) : Option (List Char) :=
  match id.toList.dropWhile (· ≠ '-') with
  | [] => none
  | _ :: rest => some (rest.takeWhile (· ≠ '-'))

def depth (id : String) : Nat := id.toList.count '.'

def unsigned : List Char → List Char
  | '+' :: rest => rest
  | text => text

/-- `u32`'s `from_str`. -/
def parseU32 (text : List Char) : Option Nat :=
  let digits := unsigned text
  if digits ≠ [] ∧ digits.all Char.isDigit ∧ Nat.ofDigitChars 10 digits 0 < 2 ^ 32 then
    some (Nat.ofDigitChars 10 digits 0)
  else none

/-- The number that loading a quest with this id takes note of, for its prefix. -/
def trackedSeq (id : String) : Option Nat :=
  if depth id = 0 then
    (second id).bind fun seqStr => parseU32 (seqStr.takeWhile (· ≠ '.'))
  else none

def fileName (id : String) : String := head id ++ ".jsonl"

end QuestId

/-- `Path::extension` of a file name. -/
def extension (name : List Char) : Option (List Char) :=
  match name.reverse.dropWhile (· ≠ '.') with
  | [] | [_] => none
  | _ => some (name.reverse.takeWhile (· ≠ '.')).reverse

/-- Whether `load_all` reads the file: an entry of the directory itself, with the extension. -/
def isLog (name : String) : Bool := '/' ∉ name.toList ∧ extension name.toList = some "jsonl".toList

namespace StoredQuest

variable {C : Type}

/-- `Quest::with_agent`. -/
def withAgent (id ideaId : String) (agentId : Option String) (now : Nat) : StoredQuest C where
  id := id
  ideaId := ideaId
  idea := none
  agentId := agentId
  scope := if agentId.isNone then .global else .self
  checkpoints := []
  outcome := none
  legacyOutcome := none
  createdAt := now
  updatedAt := none

def title (q : StoredQuest C) : String := q.idea.getD ""

def questOutcome (q : StoredQuest C) : Option QuestOutcomeRecord := q.outcome.or q.legacyOutcome

def setQuestOutcome (record : QuestOutcomeRecord) (q : StoredQuest C) : StoredQuest C :=
  { q with outcome := some record, legacyOutcome := some record }

def outcomeSummary (q : StoredQuest C) : Option String :=
  (q.questOutcome.map (·.summary)).filter fun summary => trim summary.toList ≠ []

def reread (reread : C → Option C) (q : StoredQuest C) : Option (StoredQuest C) :=
  (q.checkpoints.mapM reread).map fun checkpoints =>
    { q with idea := none, checkpoints := checkpoints }

def finish (status : QuestStatus) (kind : QuestOutcomeKind) (reason : String) (now : Nat)
    (q : StoredQuest C) : StoredQuest C :=
  setQuestOutcome ⟨kind, reason⟩
    { q with toQuest := { q.toQuest with status := status, closedAt := some now } }

end StoredQuest

/-- A file by what its lines are read as: the lines that end, and what stands behind the last
newline. -/
structure LogFile (Q : Type) where
  lines : List (Option Q)
  torn : Option (Option Q)

/-- How an append ends: the line is written, or the file cannot be opened, or only a part of the
line is written, perhaps all but its newline. -/
inductive Append
  | done
  | refused
  | short (whole : Bool)

namespace LogFile

variable {Q : Type}

def quests (f : LogFile Q) : List Q := (f.lines ++ f.torn.toList).filterMap id

def append (f : LogFile Q) (line : Option Q) : LogFile Q :=
  match f.torn with
  | none => ⟨f.lines ++ [line], none⟩
  | some _ => ⟨f.lines ++ [none], none⟩

def appendShort (f : LogFile Q) (whole : Bool) (line : Option Q) : LogFile Q :=
  match f.torn, whole with
  | none, true => ⟨f.lines, some line⟩
  | _, _ => ⟨f.lines, some none⟩

end LogFile

structure QuestBoard (C : Type) where
  dir : Accounts String (LogFile (StoredQuest C))
  quests : Accounts String (StoredQuest C)
  sequences : Accounts String Nat

inductive BoardError
  | notFound (id : String)
  | selfDependency
  | cycle
  | io

/-- What the calls that walk the directory find: its entries in the order they are read, how many
of them can be read, the orders in which the hash maps are walked, and which files can be
rewritten; of one that cannot, the first lines are left. -/
structure Listing (C : Type) where
  names : List String
  readable : Nat
  prefixOrder : List String → List String
  questOrder : List (StoredQuest C) → List (StoredQuest C)
  rewrites : Nat → Option Nat

namespace QuestBoard

section Calls

variable {C : Type} (reread : C → Option C) (b : QuestBoard C)

def file (name : String) : LogFile (StoredQuest C) := (b.dir.lookup name).getD ⟨[], none⟩

/-- One line of `load_file`. -/
def loadQuest (b : QuestBoard C) (q : StoredQuest C) : QuestBoard C :=
  { b with
    sequences :=
      match QuestId.trackedSeq q.id with
      | some seq => b.sequences.insert (QuestId.head q.id)
          (max ((b.sequences.lookup (QuestId.head q.id)).getD 0) seq)
      | none => b.sequences
    quests := b.quests.insert q.id q }

def loadFile (b : QuestBoard C) (name : String) : QuestBoard C :=
  (b.file name).quests.foldl loadQuest b

/-- `load_all`; whether it succeeds, and what it has read. -/
def loadAll (l : Listing C) : Bool × QuestBoard C :=
  (l.names.length ≤ l.readable, ((l.names.take l.readable).filter (isLog ·)).foldl loadFile b)

def opened (l : Listing C) : QuestBoard C :=
  ({ b with quests := ∅, sequences := ∅ } : QuestBoard C).loadAll l |>.2

def persist (io : Append) (q : StoredQuest C) : Bool × QuestBoard C :=
  let name := QuestId.fileName q.id
  match io with
  | .done =>
    (true, { b with dir := b.dir.insert name ((b.file name).append (q.reread reread)) })
  | .refused => (false, b)
  | .short whole =>
    (false, { b with
      dir := b.dir.insert name ((b.file name).appendShort whole (q.reread reread)) })

def values : List (StoredQuest C) := b.quests.entries.map (·.2)

def withPrefix (l : Listing C) (questPrefix : String) : List (StoredQuest C) :=
  (l.questOrder (b.values.filter (QuestId.head ·.id = questPrefix))).mergeSort
    fun q q' => decide (q.createdAt ≤ q'.createdAt)

/-- `rewrite_prefix`, of the `n`-th file. -/
def rewritePrefix (l : Listing C) (n : Nat) (questPrefix : String) : Bool × QuestBoard C :=
  let lines := (b.withPrefix l questPrefix).map (·.reread reread)
  match l.rewrites n with
  | none => (true, { b with dir := b.dir.insert (questPrefix ++ ".jsonl") ⟨lines, none⟩ })
  | some k =>
    (false, { b with dir := b.dir.insert (questPrefix ++ ".jsonl") ⟨lines.take k, none⟩ })

def rewriteFrom (l : Listing C) : Nat → List String → QuestBoard C → Bool × QuestBoard C
  | _, [], b => (true, b)
  | n, p :: prefixes, b =>
    match b.rewritePrefix reread l n p with
    | (true, b) => rewriteFrom l (n + 1) prefixes b
    | (false, b) => (false, b)

def compactAll (l : Listing C) : Bool × QuestBoard C :=
  rewriteFrom reread l 0 (l.prefixOrder (b.values.map (QuestId.head ·.id)).dedup) b

def reload (l : Listing C) : Except BoardError Unit × QuestBoard C :=
  match ({ b with quests := ∅, sequences := ∅ } : QuestBoard C).loadAll l with
  | (false, b) => (.error .io, b)
  | (true, b) =>
    match b.compactAll reread l with
    | (false, b) => (.error .io, b)
    | (true, b) => (.ok (), b)

/-- The counter is a `u32`. -/
def nextSeq (questPrefix : String) : Nat :=
  ((b.sequences.lookup questPrefix).getD 0 + 1) % 2 ^ 32

/-- The last lines of both ways to create a quest. -/
def add (io : Append) (q : StoredQuest C) : Except BoardError (StoredQuest C) × QuestBoard C :=
  match b.persist reread io q with
  | (true, b) => (.ok q, { b with quests := b.quests.insert q.id q })
  | (false, b) => (.error .io, b)

def createWithAgent (questPrefix name : String) (agentId : Option String) (io : Append)
    (now : Nat) : Except BoardError (StoredQuest C) × QuestBoard C :=
  let seq := b.nextSeq questPrefix
  let b := { b with sequences := b.sequences.insert questPrefix seq }
  b.add reread io (.withAgent (QuestId.root questPrefix seq) name agentId now)

def childCount (parentId : String) : Nat :=
  b.quests.count fun _ q => QuestId.parent q.id = some parentId

def createChild (parentId name : String) (io : Append) (now : Nat) :
    Except BoardError (StoredQuest C) × QuestBoard C :=
  let agentId := (b.quests.lookup parentId).bind (·.agentId)
  let id := QuestId.child parentId ((b.childCount parentId + 1) % 2 ^ 32)
  let quest := StoredQuest.withAgent id name none now
  b.add reread io { quest with toQuest := { quest.toQuest with agentId := agentId } }

def update (id : String) (f : StoredQuest C → StoredQuest C) (io : Append) (now : Nat) :
    Except BoardError (StoredQuest C) × QuestBoard C :=
  match b.quests.lookup id with
  | none => (.error (.notFound id), b)
  | some q =>
    let q := { f q with updatedAt := some now }
    match ({ b with quests := b.quests.insert id q } : QuestBoard C).persist reread io q with
    | (true, b) => (.ok q, b)
    | (false, b) => (.error .io, b)

def children (parentId : String) : List String :=
  (b.values.filter (QuestId.parent ·.id = some parentId)).map (·.id)

def closeReason (children : List String) (verb : String) : String :=
  let summaries := children.filterMap fun cid => (b.quests.lookup cid).map fun q =>
    "  " ++ (if q.title = "" then q.id else q.title) ++ " — " ++ q.outcomeSummary.getD verb
  "All " ++ toString children.length ++ " steps " ++ verb ++ ":\n" ++ "\n".intercalate summaries

def finishParent (children : List String) (now : Nat) : StoredQuest C → StoredQuest C :=
  let allCancelled :=
    children.all fun cid => (b.quests.lookup cid).any fun q => q.status = .cancelled
  let outcome : QuestStatus × QuestOutcomeKind × String :=
    if allCancelled then (.cancelled, .cancelled, "cancelled") else (.done, .done, "completed")
  .finish outcome.1 outcome.2.1 (b.closeReason children outcome.2.2) now

/-- `cascade_parent_close`; a parent has one dot less than its child. `n` counts the appends of the
call. -/
def cascadeParentClose (io : Nat → Append) (now : Nat) :
    Nat → Nat → String → QuestBoard C → QuestBoard C
  | 0, _, _, b => b
  | depth + 1, n, childId, b =>
    match QuestId.parent childId with
    | none => b
    | some parentId =>
      match b.quests.lookup parentId with
      | none => b
      | some parent =>
        let children := b.children parentId
        if parent.isClosed ∨ children = [] ∨
            ¬ children.all (fun cid => (b.quests.lookup cid).any (·.isClosed)) then b
        else if parent.checkpoints ≠ [] then
          (b.update reread parentId
            (fun q => { q with toQuest := { q.toQuest with status := .todo } }) (io n) now).2
        else
          match b.update reread parentId (b.finishParent children now) (io n) now with
          | (.ok _, b) => cascadeParentClose io now depth (n + 1) parentId b
          | (.error _, b) => b

def close (id reason : String) (io : Nat → Append) (now : Nat) :
    Except BoardError (StoredQuest C) × QuestBoard C :=
  match b.update reread id (.finish .done .done reason now) (io 0) now with
  | (.ok q, b) => (.ok q, b.cascadeParentClose reread io now (QuestId.depth q.id) 1 q.id)
  | (.error e, b) => (.error e, b)

def cancel (id reason : String) (io : Append) (now : Nat) :
    Except BoardError (StoredQuest C) × QuestBoard C :=
  b.update reread id (.finish .cancelled .cancelled reason now) io now

/-- The walk of `would_cycle`; every quest's dependencies are pushed once. -/
def reachesFrom (id : String) : Nat → List String → List String → Bool
  | 0, _, _ => false
  | _ + 1, _, [] => false
  | fuel + 1, visited, node :: stack =>
    if node = id then true
    else if node ∈ visited then reachesFrom id fuel visited stack
    else
      let deps := ((b.quests.lookup node).map (·.dependsOn)).getD []
      reachesFrom id fuel (node :: visited) (deps.reverse ++ stack)

def wouldCycle (id depId : String) : Bool :=
  b.reachesFrom id ((b.values.map (·.dependsOn.length)).sum + 2) [] [depId]

def addDependency (id depId : String) (io : Append) (now : Nat) :
    Except BoardError (StoredQuest C) × QuestBoard C :=
  if id = depId then (.error .selfDependency, b)
  else if b.wouldCycle id depId then (.error .cycle, b)
  else
    b.update reread id (fun q => { q with toQuest := { q.toQuest with
      dependsOn := if depId ∈ q.dependsOn then q.dependsOn else q.dependsOn ++ [depId] } }) io now

end Calls

end QuestBoard

/-- The calls of a board, with how their writes end. A board may also be dropped and opened
again. -/
inductive BoardCall (C : Type)
  | createWithAgent (questPrefix name : String) (agentId : Option String) (io : Append)
  | createChild (parentId name : String) (io : Append)
  | update (id : String) (f : StoredQuest C → StoredQuest C) (io : Append)
  | addDependency (id depId : String) (io : Append)
  | close (id reason : String) (io : Nat → Append)
  | cancel (id reason : String) (io : Append)
  | reload (listing : Listing C)
  | reopen (listing : Listing C)

abbrev Answer (C : Type) := Except BoardError (Option (StoredQuest C))

namespace QuestBoard

variable {C : Type}

def told (r : Except BoardError (StoredQuest C) × QuestBoard C) : Answer C × QuestBoard C :=
  (r.1.map some, r.2)

def exec (reread : C → Option C) (b : QuestBoard C) (now : Nat) :
    BoardCall C → Answer C × QuestBoard C
  | .createWithAgent questPrefix name agentId io =>
    told (b.createWithAgent reread questPrefix name agentId io now)
  | .createChild parentId name io => told (b.createChild reread parentId name io now)
  | .update id f io => told (b.update reread id f io now)
  | .addDependency id depId io => told (b.addDependency reread id depId io now)
  | .close id reason io => told (b.close reread id reason io now)
  | .cancel id reason io => told (b.cancel reread id reason io now)
  | .reload listing => ((b.reload reread listing).1.map fun _ => none, (b.reload reread listing).2)
  | .reopen listing => (.ok none, b.opened listing)

end QuestBoard

end Aeqi.Quests
