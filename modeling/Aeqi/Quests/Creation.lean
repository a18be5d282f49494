import Aeqi.Orchestrator.Visibility
import Aeqi.Quests.Board

/-!
# Creating quests

The four creators of `agent_registry.rs` as programs over the accesses of the registry, one for
every lock they take. They differ in who owns the quest, where its idea comes from, and whether
it may be a child, so each is `createQuest` applied to what it is given.

The times and the uuid that a call draws are given with it, and so is the row that SQLite picks
where a query without an order asks for one of several. Times count seconds.
-/

namespace Aeqi.Quests

open Aeqi.Lib Aeqi.Orchestrator

/-! ## Tables -/

inductive Failure
  | message (error : String)
  | sqlite (violated : Constraint)
  /-- An integer does not fit into `u32`. -/
  | outOfRange
  /-- A text was cut inside a character. -/
  | panic
  deriving DecidableEq

structure AgentRow where
  name : String
  questPrefix : Option String := none
  active : Bool := true
  createdAt : Nat := 0

structure IdeaRow where
  name : String
  content : String
  scope : Scope
  agentId : Option String
  tags : List String

structure QuestRow extends Quest where
  ideaId : String
  scope : Scope
  deriving DecidableEq

/-- `created` remembers every row that was ever inserted into `quests`. -/
structure Registry where
  agents : Accounts String AgentRow := ∅
  org : RoleStore := {}
  ideas : Accounts String IdeaRow := ∅
  sequences : Accounts String Nat := ∅
  quests : List QuestRow := []
  created : List QuestRow := []

def day (time : Nat) : Nat := time / 86400

namespace Registry

variable (s : Registry)

/-- `get_active_by_name`, the one created last. -/
def activeByName (name : String) : Option AgentRow :=
  ((s.agents.keys.filter fun id => (s.agents.lookup id).any fun a =>
      a.active ∧ a.name.map Char.toLower = name.map Char.toLower).argmax
    fun id => ((s.agents.lookup id).map (·.createdAt)).getD 0).bind s.agents.lookup

/-- `get_default_agent`: an active agent in a role without a parent, the one created first. -/
def defaultAgent : Option AgentRow :=
  ((s.agents.keys.filter fun id => (s.agents.lookup id).any (·.active) ∧
      s.org.roles.keys.any fun role => s.org.occupantAgent role = some id ∧
        s.org.hasParent role = false).argmin
    fun id => ((s.agents.lookup id).map (·.createdAt)).getD 0).bind s.agents.lookup

/-- `agent_id = ?1 AND created_at > date('now')`. -/
def questsToday (agentId : String) (now : Nat) : Nat :=
  s.quests.countP fun q => q.agentId = some agentId ∧ day now ≤ day q.createdAt

def mintOrReuse (name content : String) (tags : List String) (agentId : Option String)
    (scope : Scope) (lower : String → String) (newId : String) (pick : Nat) :
    Except Failure String × Registry :=
  let name := if trim name.toList = [] then "(untitled)" else name
  let existing := s.ideas.keys.filter fun id => (s.ideas.lookup id).any fun i =>
    i.agentId.getD "" = agentId.getD "" ∧ i.name = name
  match existing[pick % existing.length]? with
  | some id => (.ok id, s)
  | none =>
    if (s.ideas.lookup newId).isSome then (.error (.sqlite .primaryKey), s)
    else
      let tags := (tags.map fun tag => lower (String.ofList (trim tag.toList))).filter (· ≠ "")
      let row : IdeaRow := { name, content, scope, agentId, tags := tags.eraseDups }
      (.ok newId, { s with ideas := s.ideas.insert newId row })

def nextSeqOf (label : String) : Nat := (s.sequences.lookup label).getD 1

def nextSeq (label : String) : Nat × Registry :=
  (s.nextSeqOf label, { s with sequences := s.sequences.insert label (s.nextSeqOf label + 1) })

/-- `id LIKE '{pid}.%'`. -/
def childCount (pid : String) : Nat := s.quests.countP fun q => like q.id (pid ++ ".%")

def insertQuest (row : QuestRow) : Except Failure Unit × Registry :=
  if ∃ q ∈ s.quests, q.id = row.id then (.error (.sqlite .primaryKey), s)
  else (.ok (), { s with quests := s.quests ++ [row], created := s.created ++ [row] })

end Registry

/-! ## Accesses -/

inductive RegistryAccess
  | getAgent (id : String)
  | activeByName (name : String)
  | defaultAgent
  | questsToday (agentId : String) (now : Nat)
  | mintOrReuse (name content : String) (tags : List String) (agentId : Option String)
      (scope : Scope) (lower : String → String) (newId : String) (pick : Nat)
  | nextSeq (label : String)
  | childCount (pid : String)
  | insertQuest (row : QuestRow)

namespace RegistryAccess

def Reply : RegistryAccess → Type
  | getAgent _ => Option AgentRow
  | activeByName _ => Option AgentRow
  | defaultAgent => Option AgentRow
  | questsToday _ _ => Nat
  | mintOrReuse .. => Except Failure String
  | nextSeq _ => Nat
  | childCount _ => Nat
  | insertQuest _ => Except Failure Unit

def run : (a : RegistryAccess) → Registry → a.Reply × Registry
  | getAgent id, s => (s.agents.lookup id, s)
  | activeByName name, s => (s.activeByName name, s)
  | defaultAgent, s => (s.defaultAgent, s)
  | questsToday agentId now, s => (s.questsToday agentId now, s)
  | mintOrReuse name content tags agentId scope lower newId pick, s =>
    s.mintOrReuse name content tags agentId scope lower newId pick
  | nextSeq label, s => s.nextSeq label
  | childCount pid, s => (s.childCount pid, s)
  | insertQuest row, s => s.insertQuest row

end RegistryAccess

/-! ## The creators -/

inductive QuestOwner
  | agent (id : String)
  | project (name : String)

def QuestOwner.agentId : QuestOwner → Option String
  | agent id => some id
  | project _ => none

inductive IdeaSource
  | linked (id : String)
  | mint (subject description : String) (labels : List String)

/-- What a call draws from the clock, which does not go back while it runs, from the generator of
uuids, and from the order of rows. -/
structure QuestDraw where
  checkedAt : Nat
  createdAt : Nat
  forward : checkedAt ≤ createdAt
  newIdeaId : String
  pick : Nat := 0

structure Creation extends QuestDraw where
  owner : QuestOwner
  idea : IdeaSource
  parent : Option String := none
  dependsOn : List String := []
  scope : Scope := .self

abbrev CreationProg := Prog RegistryAccess RegistryAccess.Reply (Except Failure QuestRow)

abbrev Creating (α : Type) := ExceptT Failure (Prog RegistryAccess RegistryAccess.Reply) α

def access (a : RegistryAccess) : Creating a.Reply := ExceptT.lift (Prog.perform a)

def answer {α : Type} (x : Except Failure α) : Creating α := ExceptT.mk (pure x)

/-- The prefix in the creators for agents: the first two bytes of the name, where it has none. -/
def AgentRow.label (lower : String → String) (a : AgentRow) : Except Failure String :=
  match a.questPrefix with
  | some label => .ok label
  | none =>
    if 2 ≤ byteLength a.name.toList then
      match sliceTo 2 a.name.toList with
      | some start => .ok (lower (String.ofList start))
      | none => .error .panic
    else .ok "t"

def fallbackQuestPrefix (label : String) : String :=
  let normalized := ((label.toList.filter Char.isAlphanum).take 2).map Char.toLower
  if normalized = [] then "q" else String.ofList normalized

def AgentRow.projectLabel (a : AgentRow) : String :=
  a.questPrefix.getD (fallbackQuestPrefix a.name)

/-- `default_agent` with a hint. -/
def hintedAgent (hint : String) : Creating (Option AgentRow) := do
  match ← access (.getAgent hint) with
  | some agent => pure (some agent)
  | none =>
    match ← access (.activeByName hint) with
    | some agent => pure (some agent)
    | none => access .defaultAgent

def questPrefixForProject (project : String) : Creating String := do
  match ← hintedAgent project with
  | some agent => pure agent.projectLabel
  | none => pure (fallbackQuestPrefix project)

def MAX_DAILY_TASKS : Nat := 50

def agentPrefix (lower : String → String) (agentId : String) (now : Nat) : Creating String := do
  let found ← access (.getAgent agentId)
  let agent ← answer (okOr (found : Option AgentRow) (.message ("agent not found: " ++ agentId)))
  let label ← answer (agent.label lower)
  let counted ← access (.questsToday agentId now)
  let todayCount ← answer (okOr (tryInto 32 counted) .outOfRange)
  if MAX_DAILY_TASKS ≤ todayCount then
    answer (.error (.message "Agent has reached daily quest creation limit (50)"))
  else pure label

def questPrefix (lower : String → String) (q : Creation) : Creating String :=
  match q.owner with
  | .agent id => agentPrefix lower id q.checkedAt
  | .project name => questPrefixForProject name

def questIdea (lower : String → String) (q : Creation) : Creating String :=
  match q.idea with
  | .linked id => pure id
  | .mint subject description labels => do
    let minted ← access (.mintOrReuse subject description labels q.owner.agentId q.scope lower
      q.newIdeaId q.pick)
    answer (minted : Except Failure String)

/-- `child_count + 1` wraps around. -/
def questId (label : String) : Option String → Creating String
  | some pid => do
    let counted ← access (.childCount pid)
    let childCount ← answer (okOr (tryInto 32 counted) .outOfRange)
    pure (QuestId.child pid ((childCount + 1) % 2 ^ 32))
  | none => do
    let counted ← access (.nextSeq label)
    let seq ← answer (okOr (tryInto 32 counted) .outOfRange)
    pure (QuestId.root label seq)

def Creation.row (q : Creation) (id ideaId : String) : QuestRow :=
  { id, ideaId
    agentId := q.owner.agentId
    dependsOn := q.dependsOn
    scope := q.scope
    createdAt := q.createdAt }

def createQuest (lower : String → String) (q : Creation) : Creating QuestRow := do
  let label ← questPrefix lower q
  let ideaId ← questIdea lower q
  let id ← questId label q.parent
  let inserted ← access (.insertQuest (q.row id ideaId))
  answer (inserted : Except Failure Unit)
  pure (q.row id ideaId)

def createTaskScoped (agentId subject description : String) (labels : List String) (scope : Scope)
    (draw : QuestDraw) : Creation :=
  { draw with owner := .agent agentId, idea := .mint subject description labels, scope }

def createTaskWithIdeaId (agentId ideaId : String) (dependsOn : List String)
    (parentId : Option String) (scope : Scope) (draw : QuestDraw) : Creation :=
  { draw with owner := .agent agentId, idea := .linked ideaId, parent := parentId, dependsOn, scope }

def createUnboundTaskScoped (project subject description : String) (labels : List String)
    (linkedIdeaId : Option String) (dependsOn : List String) (parentId : Option String)
    (draw : QuestDraw) : Creation :=
  { draw with
    owner := .project project
    idea := (linkedIdeaId.map .linked).getD (.mint subject description labels)
    parent := parentId
    dependsOn
    scope := .global }

def createTaskV2Scoped (agentId subject description : String) (labels dependsOn : List String)
    (parentId : Option String) (scope : Scope) (draw : QuestDraw) : Creation :=
  { draw with
    owner := .agent agentId
    idea := .mint subject description labels
    parent := parentId
    dependsOn
    scope }

end Aeqi.Quests
