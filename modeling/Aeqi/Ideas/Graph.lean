import Aeqi.Ideas.Storing

/-!
# The graph of ideas, and the quests that link ideas

The two databases that name ideas: `entity_edges` beside the ideas themselves, and the quests with
their `idea_id`. Neither has a foreign key to `ideas`. What is modelled is every call that deletes
ideas, writes an edge or inserts a quest, with one step for what it does under one lock of one
database. The strengths of edges, and so their decay, are left out.
-/

namespace Aeqi.Ideas

/-! ## Statements -/

def EntityEdge.touches (e : EntityEdge) (id : String) : Bool :=
  (e.sourceKind = "idea" ∧ e.sourceId = id) ∨ (e.targetKind = "idea" ∧ e.targetId = id)

namespace IdeaTable

variable (t : IdeaTable)

/-- The `DELETE` of a row; its children are left without a parent, as their foreign key says. -/
def deleteRow (id : String) : IdeaTable :=
  let children := t.rows.keys.filter fun c => (t.row c).any (·.parentIdeaId = some id)
  let t := children.foldl (fun t c => t.setRow c ({ · with parentIdeaId := none })) t
  { t with rows := t.rows.erase id }

/-- `delete_impl` sweeps the edges of the idea. -/
def delete (id : String) : IdeaTable :=
  let t := t.deleteRow id
  { t with edges := t.edges.filter fun e => ¬ e.touches id }

def expiredIds (now : Nat) : List String :=
  t.rows.keys.filter fun id => (t.row id).any fun r => r.expiresAt.any (· ≤ now)

/-- `cleanup_expired` does not look at the edges. -/
def cleanupExpired (now : Nat) : IdeaTable := (t.expiredIds now).foldl deleteRow t

def storeEdges (edges : List EntityEdge) : IdeaTable := edges.foldl storeEntityEdge t

/-- The relations that the body parser owns are scrubbed and written anew. -/
def reconcileInlineEdges (sourceId : String) (edges : List EntityEdge) : IdeaTable :=
  let kept := t.edges.filter fun e =>
    ¬ (e.sourceKind = "idea" ∧ e.sourceId = sourceId ∧ e.relation ∈ ["mention", "embed"])
  { t with edges := kept }.storeEdges edges

end IdeaTable

/-- The pairs of different ids, each with the lesser id first. -/
def coRetrieved : List String → List EntityEdge
  | [] => []
  | a :: ids => (ids.filter (· ≠ a)).map (fun b =>
      if a < b then ⟨"idea", a, "idea", b, "co_retrieved"⟩
      else ⟨"idea", b, "idea", a, "co_retrieved"⟩) ++ coRetrieved ids

end Aeqi.Ideas

namespace Aeqi.IdeaGraph

open Aeqi.Lib Aeqi.Ideas

/-! ## Accesses -/

/-- The ideas, and the quests, each with its `idea_id`. -/
structure Graph where
  ideas : IdeaTable
  quests : List (String × String)

/-- `visible` lists the ideas that an agent sees, or the global ones, with their names. -/
structure GraphCtx extends StoringCtx where
  visible : IdeaTable → Option String → List (String × String)

inductive GraphAccess
  | table (a : TableAccess)
  | visible (agentId : Option String)
  | reconcileInlineEdges (sourceId : String) (edges : List EntityEdge)
  | strengthenCoRetrieval (ids : List String)
  | cleanupExpired (now : Nat)
  | findQuestsByIdeaId (ideaId : String)
  | delete (id : String)
  | mintOrReuse (name content : String) (tags : List String) (agentId : Option String)
      (scope : Orchestrator.Scope) (now : Nat)
  | insertQuest (questId ideaId : String)

namespace GraphAccess

@[reducible] def Reply : GraphAccess → Type
  | table a => a.Reply
  | visible _ => List (String × String)
  | reconcileInlineEdges .. => Unit
  | strengthenCoRetrieval _ => Unit
  | cleanupExpired _ => Unit
  | findQuestsByIdeaId _ => List String
  | delete _ => Unit
  | mintOrReuse .. => Except TableError String
  | insertQuest .. => Bool

variable (ctx : GraphCtx)

/-- The idea of a quest that is created without one: a row with the name, whatever its status, or
a new one. -/
def mint (name content : String) (tags : List String) (agentId : Option String)
    (scope : Orchestrator.Scope) (now : Nat) (t : IdeaTable) :
    Except TableError String × IdeaTable :=
  let name := if trimmed name = "" then "(untitled)" else name
  let named (id : String) : Bool :=
    (t.row id).any fun r => r.agentId.getD "" = agentId.getD "" ∧ r.name = name
  match t.rows.keys.find? named with
  | some id => (.ok id, t)
  | none =>
    t.insertFullRow ctx.toIdeasCtx { name, content, tags, agentId, scope } content
      (tags.map fun tag => ctx.toLowercase (trimmed tag)) now

def run : (a : GraphAccess) → Graph → a.Reply × Graph
  | table a, g =>
    let r := a.run ctx.toStoringCtx g.ideas
    (r.1, { g with ideas := r.2 })
  | visible agentId, g => (ctx.visible g.ideas agentId, g)
  | reconcileInlineEdges sourceId edges, g =>
    ((), { g with ideas := g.ideas.reconcileInlineEdges sourceId edges })
  | strengthenCoRetrieval ids, g => ((), { g with ideas := g.ideas.storeEdges (coRetrieved ids) })
  | cleanupExpired now, g => ((), { g with ideas := g.ideas.cleanupExpired now })
  | findQuestsByIdeaId ideaId, g => ((g.quests.filter (·.2 = ideaId)).map (·.1), g)
  | delete id, g => ((), { g with ideas := g.ideas.delete id })
  | mintOrReuse name content tags agentId scope now, g =>
    let r := mint ctx name content tags agentId scope now g.ideas
    (r.1, { g with ideas := r.2 })
  | insertQuest questId ideaId, g =>
    if g.quests.any (·.1 = questId) then (false, g)
    else (true, { g with quests := g.quests ++ [(questId, ideaId)] })

end GraphAccess

abbrev GraphProg (α : Type) := Prog GraphAccess GraphAccess.Reply α

def graphAct (a : GraphAccess) : GraphProg a.Reply := Prog.perform a

/-! ## Calls -/

section Calls

variable (ctx : GraphCtx)

inductive QuestIdea
  /-- `idea_id` of the request. -/
  | provided (id : String)
  /-- An idea that comes with the request. -/
  | embedded (name content : String) (tags : List String) (owner : Option String)
      (scope : Orchestrator.Scope)
  /-- Neither. -/
  | legacy (subject description : String) (labels : List String) (agentId : Option String)
      (scope : Orchestrator.Scope)

def insertQuest (questId ideaId : String) : GraphProg (Except String String) := do
  let inserted ← graphAct (.insertQuest questId ideaId)
  if inserted then pure (.ok questId) else pure (.error "UNIQUE constraint failed: quests.id")

def createQuest (questId : String) (now : Nat) : QuestIdea → GraphProg (Except String String)
  | .provided existingId => do
    let found ← graphAct (.table (.getById existingId))
    match (found : Option IdeaRow) with
    | none => pure (.error ("idea_id not found: " ++ existingId))
    | some _ => insertQuest questId existingId
  | .embedded name content tags owner scope =>
    if trimmed name = "" then pure (.error "idea.name is required when minting a new idea")
    else do
      let stored ← (storeWithScope name content tags owner now scope).lift GraphAccess.table
      match (stored : Except TableError String) with
      | .error e => pure (.error e.text)
      | .ok id => insertQuest questId id
  | .legacy subject description labels agentId scope => do
    let minted ← graphAct (.mintOrReuse subject description labels agentId scope now)
    match (minted : Except TableError String) with
    | .error e => pure (.error e.text)
    | .ok id => insertQuest questId id

/-- The references that resolve, but for those to the idea itself. The first idea of a name that
is visible is the one that is meant. -/
def resolvedEdges (scope : List (String × String)) (sourceId : String) (refs : List TypedRef) :
    List EntityEdge :=
  refs.filterMap fun r =>
    if r.targetKind = "idea" then
      ((scope.find? fun i => ctx.toLowercase i.2 = ctx.toLowercase r.targetId).map (·.1)).bind
        fun target => if target = sourceId then none
          else some ⟨"idea", sourceId, "idea", target, r.relation⟩
    else some ⟨"idea", sourceId, r.targetKind, r.targetId, r.relation⟩

def reconcileInlineEdgesInScope (sourceId body : String) (agentId : Option String) :
    GraphProg (List String) := do
  let scope ← graphAct (.visible agentId)
  let refs := parseLinks ctx.toLowercase body
  graphAct (.reconcileInlineEdges sourceId (resolvedEdges ctx scope sourceId refs))
  pure (unresolvedRefs ctx.toLowercase (fun name =>
    (scope.find? fun i => ctx.toLowercase i.2 = ctx.toLowercase name).map (·.1)) refs)

structure LinkIdea where
  fromId : Option String
  toId : Option String
  relation : Option String
  agentId : Option String

def handleLinkIdea (req : LinkIdea) : GraphProg (Except String Unit) :=
  let source := req.fromId.getD ""
  let target := req.toId.getD ""
  let relation := req.relation.getD "link"
  let store : GraphProg (Except String Unit) := do
    graphAct (.table (.storeEntityEdge ⟨"idea", source, "idea", target, relation⟩))
    pure (.ok ())
  if source = "" ∨ target = "" then pure (.error "from and to are required")
  else if source = target then pure (.error "from and to must differ")
  else if ¬ isSubstrateWritable relation then
    pure (.error ("relation '" ++ relation ++ "' is not writable through ideas(action='link'). " ++
      "Expected one of: mention, embed, link (T1.8 collapsed the legacy typed vocabulary)."))
  else
    match req.agentId with
    | none => store
    | some agentId => do
      let ids ← graphAct (.visible (some agentId))
      if ids.any (·.1 = source) ∧ ids.any (·.1 = target) then store
      else pure (.error "one or both ideas are not visible to this agent")

/-- A search; the co-retrieval is strengthened by a task that is spawned before it returns. -/
def searchIdeas (query : SimilarQuery) : GraphProg (List String) := do
  let hits ← graphAct (.table (.search query))
  let ids := (hits : List FoundIdea).map (·.id)
  if (ids.take 10).length < 2 then pure ids
  else do
    graphAct (.strengthenCoRetrieval (ids.take 10))
    pure ids

inductive DeleteError
  | idRequired
  | inUse (questIds : List String)

/-- The row is read for the activity feed, which is left out. -/
def handleDeleteIdea (id : String) : GraphProg (Except DeleteError Unit) :=
  if id = "" then pure (.error .idRequired)
  else do
    let questIds ← graphAct (.findQuestsByIdeaId id)
    if questIds ≠ [] then pure (.error (.inUse questIds))
    else do
      let _ ← graphAct (.table (.getById id))
      graphAct (.delete id)
      pure (.ok ())

inductive GraphCall
  | store (req : StoreIdea) (effective : EffectivePolicy) (clock : Reading)
  | reconcile (sourceId body : String) (agentId : Option String)
  | link (req : LinkIdea)
  | search (query : SimilarQuery)
  | delete (id : String)
  | cleanupExpired (now : Nat)
  | createQuest (questId : String) (now : Nat) (idea : QuestIdea)

def GraphCall.prog : GraphCall → GraphProg Unit
  | .store req effective clock =>
    discard ((handleStoreIdea ctx.toStoringCtx effective clock req).lift GraphAccess.table)
  | .reconcile sourceId body agentId =>
    discard (reconcileInlineEdgesInScope ctx sourceId body agentId)
  | .link req => discard (handleLinkIdea req)
  | .search query => discard (searchIdeas query)
  | .delete id => discard (handleDeleteIdea id)
  | .cleanupExpired now => graphAct (.cleanupExpired now)
  | .createQuest questId now idea => discard (IdeaGraph.createQuest questId now idea)

end Calls

end Aeqi.IdeaGraph
