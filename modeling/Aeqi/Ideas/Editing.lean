import Aeqi.Ideas.Links
import Aeqi.Messages.Address

/-!
# Editing and deleting ideas

`handle_update_idea` and `handle_delete_idea` of `ipc/ideas.rs`, as programs over the tables of
the messages, the quests and the edges between roles. Both stores are taken to be wired, and the
event store to succeed, so that there is no warning about an identity event.

Times of updates, embeddings, the full-text index, the graph of links and the events of an identity
are left out; no response here is computed from them.
-/

namespace Aeqi.Ideas

open Aeqi.Lib Aeqi.Orchestrator Aeqi.Messages

structure QuestRow where
  ideaId : String
  agentId : Option String := none

/-- An edge is (parent, child). -/
structure Store extends World where
  quests : Accounts String QuestRow := ∅
  roleEdges : List (String × String) := []

/-- The tags of `normalize_tags`. -/
def normalizeTags (lower : String → String) (tags : List String) : List String :=
  let normalized := ((tags.map fun tag => lower (String.ofList (trim tag.toList))).filter
    (· ≠ "")).reverse.dedup.reverse
  if normalized = [] then ["fact"] else normalized

namespace Store

variable (s : Store)

/-! ## Queries -/

def findQuestsByIdeaId (ideaId : String) : List String :=
  (s.quests.keys.filter fun id => (s.quests.lookup id).any (·.ideaId = ideaId)).insertionSort (· ≤ ·)

def occupantAgent (roleId : String) : Option String :=
  (s.roles.lookup roleId).bind fun r => if r.occupantKind = .agent then r.occupantId else none

/-- The recursive query `descendant_roles`. -/
def descendantRoles (agentId : String) : List String :=
  closure s.roleEdges (s.roles.keys.filter fun id => s.occupantAgent id = some agentId)

def sees (agentId : String) (owner : Option String) : Prop :=
  owner = none ∨ owner = some agentId ∨ owner ∈ (s.descendantRoles agentId).map s.occupantAgent

instance (agentId : String) (owner : Option String) : Decidable (s.sees agentId owner) :=
  inferInstanceAs (Decidable (_ ∨ _ ∨ _))

/-- Ideas whose owner has a property, the newest first. -/
def ideasBy (p : Option String → Bool) : List (String × Idea) :=
  (s.ideas.keys.filterMap fun id => ((s.ideas.lookup id).filter fun idea => p idea.agentId).map (id, ·))
    |>.insertionSort fun a b => b.2.createdAt ≤ a.2.createdAt

def listIdeasVisibleTo (agentId : String) : List (String × Idea) :=
  s.ideasBy fun owner => s.sees agentId owner

def listGlobalIdeas (limit : Nat) : List (String × Idea) :=
  (s.ideasBy fun owner => owner = none).take limit

/-! ## Writes -/

/-- The index on the names of an owner's active ideas, in which no owner is the owner `""`. -/
def nameTaken (id : String) (idea : Idea) (name : String) : Prop :=
  idea.status = "active" ∧ ∃ other ∈ s.ideas.keys, other ≠ id ∧ (s.ideas.lookup other).any fun o =>
    o.status = "active" ∧ o.agentId.getD "" = idea.agentId.getD "" ∧ o.name = name

instance (id : String) (idea : Idea) (name : String) : Decidable (s.nameTaken id idea name) :=
  inferInstanceAs (Decidable (_ ∧ _))

def UNIQUE_NAME : String :=
  "UNIQUE constraint failed: index 'idx_ideas_agent_name_active_unique'"

end Store

/-- What `update_impl` writes. -/
def edit (name content : Option String) (tags : Option (List String)) (idea : Idea) : Idea :=
  { idea with
    name := name.getD idea.name, content := content.getD idea.content, tags := tags.getD idea.tags }

namespace Store

variable (s : Store)

/-- `update_impl`; the tags are normalized already. -/
def update (id : String) (name content : Option String) (tags : Option (List String)) :
    Except Failure Unit × Store :=
  match s.ideas.lookup id with
  | none => (.error (.message ("idea not found: " ++ id)), s)
  | some idea =>
    if name = none ∧ content = none ∧ tags = none then
      (.error (.message "at least one field must be updated"), s)
    else if ∃ new ∈ name, s.nameTaken id idea new then (.error (.message UNIQUE_NAME), s)
    else (.ok (), { s with ideas := s.ideas.insert id (edit name content tags idea) })

/-- The `UPDATE` of one row; no row is no error. -/
def setIdea (id : String) (f : Idea → Idea) : Store :=
  match s.ideas.lookup id with
  | none => s
  | some idea => { s with ideas := s.ideas.insert id (f idea) }

def setParent (id : String) (parentId : Option String) : Except Failure Unit × Store :=
  if (s.ideas.lookup id).isSome ∧ parentId.any (fun p => (s.ideas.lookup p).isNone) then
    (.error (.sqlite .foreignKey), s)
  else (.ok (), s.setIdea id ({ · with parentIdeaId := parentId }))

def setProperties (id : String) (properties : Option String) : Store :=
  s.setIdea id ({ · with properties := properties })

/-- `ON DELETE SET NULL`. -/
def orphan (id : String) : List String → Store → Store
  | [], s => s
  | child :: children, s =>
    orphan id children (if (s.ideas.lookup child).any (·.parentIdeaId = some id) then
      s.setIdea child ({ · with parentIdeaId := none }) else s)

def delete (id : String) : Store :=
  if (s.ideas.lookup id).isNone then s
  else orphan id s.ideas.keys { s with ideas := s.ideas.erase id }

def appendSystemActivity (sessionId content : String) (metadata : Activity) : Nat × Store :=
  let row : Message :=
    { id := s.nextMessageId, sessionId, role := "system", content, eventType := "activity",
      fromKind := "system", fromId := none, metadata := some metadata }
  (row.id, { s with messages := s.messages ++ [row], nextMessageId := s.nextMessageId + 1 })

end Store

/-! ## Accesses -/

/-- What a handler does under one lock. -/
inductive IdeaAccess
  | message (a : Access)
  | findQuestsByIdeaId (ideaId : String)
  | listIdeasVisibleTo (agentId : String)
  | listGlobalIdeas (limit : Nat)
  | update (id : String) (name content : Option String) (tags : Option (List String))
  | setParent (id : String) (parentId : Option String)
  | setProperties (id : String) (properties : Option String)
  | delete (id : String)
  | appendSystemActivity (sessionId content : String) (metadata : Activity)

namespace IdeaAccess

def Reply : IdeaAccess → Type
  | message a => a.Reply
  | findQuestsByIdeaId _ => List String
  | listIdeasVisibleTo _ => List (String × Idea)
  | listGlobalIdeas _ => List (String × Idea)
  | update .. => Except Failure Unit
  | setParent _ _ => Except Failure Unit
  | setProperties _ _ => Unit
  | delete _ => Unit
  | appendSystemActivity .. => Nat

def run : (a : IdeaAccess) → Store → a.Reply × Store
  | message a, s => ((a.run s.toWorld).1, { s with toWorld := (a.run s.toWorld).2 })
  | findQuestsByIdeaId ideaId, s => (s.findQuestsByIdeaId ideaId, s)
  | listIdeasVisibleTo agentId, s => (s.listIdeasVisibleTo agentId, s)
  | listGlobalIdeas limit, s => (s.listGlobalIdeas limit, s)
  | update id name content tags, s => s.update id name content tags
  | setParent id parentId, s => s.setParent id parentId
  | setProperties id properties, s => ((), s.setProperties id properties)
  | delete id, s => ((), s.delete id)
  | appendSystemActivity sessionId content metadata, s =>
    s.appendSystemActivity sessionId content metadata

end IdeaAccess

abbrev IdeaRoutine (α : Type) := ExceptT Failure (Prog IdeaAccess IdeaAccess.Reply) α

def reach (a : IdeaAccess) : IdeaRoutine a.Reply := ExceptT.lift (Prog.perform a)

def answer {α : Type} (x : Except Failure α) : IdeaRoutine α := ExceptT.mk (pure x)

def ofMessages {α : Type} (x : Routine α) : IdeaRoutine α :=
  ExceptT.mk (Prog.lift IdeaAccess.message x.run)

/-! ## Activity -/

def ensureIdeaSession (newId id : String) : IdeaRoutine (Except Failure String) := do
  let found ← reach (.message (.getIdea id))
  match (found : Option Idea) with
  | none => pure (.error (.message "idea not found"))
  | some idea =>
    match idea.sessionId with
    | some sid => pure (.ok sid)
    | none =>
      let created ← reach (.message (.createSession newId
        { sessionType := "idea", name := "idea:" ++ idea.name }))
      match (created : Except Failure Unit) with
      | .error e => pure (.error e)
      | .ok () =>
        let _ ← reach (.message (.setIdeaSession id newId))
        pure (.ok newId)

def activityOf (verb : String) (actorUserId : Option String) : Activity :=
  { kind := "idea_" ++ verb
    actorUserId
    actorKind := if actorUserId.isSome then "user" else "system" }

/-- Its failures are swallowed. -/
def emitIdeaActivity (newId id verb : String) (actorUserId : Option String) : IdeaRoutine Unit := do
  match ← ensureIdeaSession newId id with
  | .error _ => pure ()
  | .ok sid =>
    let _ ← reach (.appendSystemActivity sid verb (activityOf verb actorUserId))
    pure ()

/-! ## `update_idea` -/

/-- The request, with the id of a new session. The tags are the texts of the array, and the
parent and the properties, where they are given, are a text and an object or neither. -/
structure UpdateIdea where
  id : Option String
  name : Option String := none
  key : Option String := none
  content : Option String := none
  tags : Option (List String) := none
  parentIdeaId : Option (Option String) := none
  properties : Option (Option String) := none
  callerUserId : Option String := none
  newId : String := ""

namespace UpdateIdea

variable (req : UpdateIdea)

def newName : Option String := (requestField req.name).or (requestField req.key)

def newContent : Option String := requestField req.content

/-- There is something for `update_impl`. -/
def CoreChange : Prop := req.newName ≠ none ∨ req.newContent ≠ none ∨ req.tags ≠ none

instance : Decidable req.CoreChange := inferInstanceAs (Decidable (_ ∨ _ ∨ _))

end UpdateIdea

def lookupIdeaAgent (id : String) : IdeaRoutine (Option String) := do
  let found ← reach (.message (.getIdea id))
  pure ((found : Option Idea).bind (·.agentId))

def resolverOf (lower : String → String) (scope : List (String × Idea)) (name : String) : Option String :=
  (scope.find? fun row => lower row.2.name = lower name).map Prod.fst

def reconcileInlineEdgesInScope (ctx : Ctx) (body : String) (agentId : Option String) :
    IdeaRoutine (List String) := do
  let scope ← match agentId with
    | some aid => reach (.listIdeasVisibleTo aid)
    | none => reach (.listGlobalIdeas 10000)
  pure (unresolvedRefs ctx.toLowercase (resolverOf ctx.toLowercase (scope : List (String × Idea)))
    (parseLinks ctx.toLowercase body))

section UpdateIdea

variable (ctx : Ctx) (req : UpdateIdea) (id : String)

def updateCore : IdeaRoutine Unit :=
  if req.CoreChange then do
    let updated ← reach (.update id req.newName req.newContent
      (req.tags.map (normalizeTags ctx.toLowercase)))
    answer (updated : Except Failure Unit)
  else pure ()

/-- What it fails with is ignored. -/
def updateParent : IdeaRoutine Unit :=
  match req.parentIdeaId with
  | none => pure ()
  | some parent => do
    let _ ← reach (.setParent id (requestField parent))
    pure ()

def updateProperties : IdeaRoutine Unit :=
  match req.properties with
  | none => pure ()
  | some properties => do
    let _ ← reach (.setProperties id properties)
    pure ()

def unresolvedOf : IdeaRoutine (List String) :=
  match req.newContent with
  | none => pure []
  | some body => lookupIdeaAgent id >>= reconcileInlineEdgesInScope ctx body

/-- The unresolved references of the response. -/
def handleUpdateIdea : IdeaRoutine (List String) := do
  let id := (requestField req.id).getD ""
  if id = "" then answer (.error (.message "id is required"))
  else if ¬ req.CoreChange ∧ req.parentIdeaId = none ∧ req.properties = none then
    answer (.error (.message
      "at least one of name, content, tags, parent_idea_id, or properties is required"))
  else
    updateCore ctx req id
    updateParent req id
    updateProperties req id
    let unresolved ← unresolvedOf ctx req id
    emitIdeaActivity req.newId id "edited" (requestField req.callerUserId)
    pure unresolved

end UpdateIdea

/-! ## `delete_idea` -/

structure DeleteIdea where
  id : Option String
  callerUserId : Option String := none

/-- The response: `in_use` names the quests. -/
inductive Deletion
  | done
  | inUse (questIds : List String)

def handleDeleteIdea (req : DeleteIdea) : IdeaRoutine Deletion := do
  let id := (requestField req.id).getD ""
  if id = "" then answer (.error (.message "id is required"))
  else
    let found ← reach (.findQuestsByIdeaId id)
    let questIds : List String := found
    if questIds ≠ [] then pure (.inUse questIds)
    else
      let idea ← reach (.message (.getIdea id))
      let _ ← reach (.delete id)
      match (idea : Option Idea).bind (·.sessionId) with
      | none => pure .done
      | some sid =>
        let _ ← reach (.appendSystemActivity sid "deleted"
          (activityOf "deleted" (requestField req.callerUserId)))
        pure .done

end Aeqi.Ideas
