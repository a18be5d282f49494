import Aeqi.Ideas.Table
import Mathlib.Algebra.Order.Field.Rat

/-!
# Storing ideas

`handle_store_idea` of `ipc/ideas.rs` as a program over the table of ideas: the row of the same
name, the search for similar ideas, the decision of `dedup.rs`, and the branches that create, merge
or supersede. The programs of `update_idea` and of the plain writers of the store are here too, as
far as they touch the table.

What is written beside the table (activity, mentions, inline links, the queue of the embedder,
consolidation) is left out, and so are its warnings. The search and the score of similarity are
parameters; a score is the exact value of an `f32`. A call takes one reading of the clock.
-/

namespace Aeqi.Ideas

open Aeqi.Lib Aeqi.Orchestrator

/-! ## The request -/

abbrev JsonField := Option (Option String)

inductive LinkEntry
  | text (target : String)
  | entry (id targetId kind targetKind relation : JsonField)
  | other

/-- The fields are as they stand in the JSON; the tags are the texts of the array, and properties
that are no object count as none. -/
structure StoreIdea where
  name : Option String := none
  key : Option String := none
  content : Option String := none
  tags : Option (List String) := none
  agentId : Option String := none
  scope : Option String := none
  authoredBy : Option String := none
  parentIdeaId : Option String := none
  properties : Option String := none
  kind : Option String := none
  fileId : Option String := none
  createdInSessionId : Option String := none
  links : List LinkEntry := []

structure StoreLinkRequest where
  targetKind : String
  targetId : String
  relation : String

structure StoreRequest where
  name : String
  content : String
  tags : List String
  agentId : Option String
  scope : Scope
  links : List StoreLinkRequest
  linkErrors : List String
  authoredBy : Option String
  parentIdeaId : Option String
  properties : Option String
  kind : Option String
  fileId : Option String
  createdInSessionId : Option String

def Scope.fromStr : String → Option Scope
  | "self" => some .self
  | "siblings" => some .siblings
  | "children" => some .children
  | "branch" => some .branch
  | "global" => some .global
  | _ => none

def isSubstrateWritable (relation : String) : Bool := relation ∈ ["mention", "embed", "link"]

def parseLink : LinkEntry → Option (StoreLinkRequest ⊕ String)
  | .text target => if target = "" then none else some (.inl ⟨"idea", target, "link"⟩)
  | .entry id targetId kind targetKind relation =>
    let target := ((id.or targetId).getD none).getD ""
    let kind := (requestField ((kind.or targetKind).getD none)).getD "idea"
    let relation := (requestField (relation.getD none)).getD "link"
    some (
      if target = "" then .inr "link entry missing 'id'"
      else if ¬ isSubstrateWritable relation then
        .inr ("relation '" ++ relation ++ "' is not writable through the IPC 'links' field. " ++
          "Expected one of: mention, embed, link (T1.8 collapsed the legacy typed vocabulary).")
      else if relation ∈ ["mention", "embed"] then
        .inr ("relation '" ++ relation ++ "' is body-parser-owned and is re-derived from the idea " ++
          "content; use 'link' for direct IPC writes.")
      else .inl ⟨kind, target, relation⟩)
  | .other => none

def trimmed (text : String) : String := String.ofList (trim text.toList)

def CANONICAL_IDEA_KINDS : List String := ["note", "file", "goal"]

/-- `debug` is how a text is shown in a message. -/
def parseKind (debug : String → String) (kind : Option String) : Except String (Option String) :=
  match ((requestField kind).map trimmed).filter (· ≠ "") with
  | none => .ok none
  | some s =>
    if s ∈ CANONICAL_IDEA_KINDS ∨ "custom:".isPrefixOf s then .ok (some s)
    else .error ("invalid kind " ++ debug s ++ "; canonical Idea kinds: " ++
      ", ".intercalate CANONICAL_IDEA_KINDS ++ " (or `custom:<name>` for company-specific kinds)")

def parseStoreRequest (debug : String → String) (req : StoreIdea) : Except String StoreRequest :=
  let name := ((requestField req.name).or (requestField req.key)).getD ""
  if name = "" then .error "name is required"
  else
    let agentId := requestField req.agentId
    let links := req.links.filterMap parseLink
    (parseKind debug req.kind).map fun kind => {
      name
      content := (requestField req.content).getD ""
      tags := req.tags.getD ["fact"]
      agentId
      scope := ((requestField req.scope).bind Scope.fromStr).getD
        (if agentId.isNone then .global else .self)
      links := links.filterMap Sum.getLeft?
      linkErrors := links.filterMap Sum.getRight?
      authoredBy := (requestField req.authoredBy).or agentId
      parentIdeaId := requestField req.parentIdeaId
      properties := req.properties
      kind
      fileId := ((requestField req.fileId).map trimmed).filter (· ≠ "")
      createdInSessionId := requestField req.createdInSessionId }

/-! ## Deduplication -/

structure SimilarIdea where
  id : String
  name : String
  content : String
  similarity : Rat

inductive DedupAction
  | skip
  | create
  | merge (id : String)
  | supersede (id : String)

/-- The `f32` nearest to 0.95. -/
def NEAR_DUPLICATE_THRESHOLD : Rat := 15938355 / 2 ^ 24

/-- The `f32` nearest to 0.85. -/
def SIMILARITY_THRESHOLD : Rat := 14260634 / 2 ^ 24

def NEGATION_MARKERS : List String :=
  ["not ", "no longer", "instead of", "replaced", "removed", "deprecated", "disabled", "don't",
    "doesn't", "won't", "cannot", "shouldn't", "never"]

/-- `max_by`, the last of the greatest. -/
def topSimilar : List SimilarIdea → Option SimilarIdea
  | [] => none
  | s :: similar =>
    match topSimilar similar with
    | none => some s
    | some top => if s.similarity ≤ top.similarity then some top else some s

section Decide

variable (lower : String → String)

/-- `split_whitespace` joined by blanks, in lower case. -/
def normalizeText (input : String) : String :=
  lower (" ".intercalate
    (((input.toList.splitOnP isWhitespace).filter (· ≠ [])).map String.ofList))

def negated (text : String) : Bool :=
  NEGATION_MARKERS.any fun m => m.toList <:+: (lower text).toList

def isContradiction (a b : String) : Bool := negated lower a ≠ negated lower b

def decideDedup (name content : String) (similar : List SimilarIdea) : DedupAction :=
  match topSimilar (similar.filter (SIMILARITY_THRESHOLD ≤ ·.similarity)) with
  | none => .create
  | some top =>
    if NEAR_DUPLICATE_THRESHOLD < top.similarity ∧
        (normalizeText lower name = normalizeText lower top.name ∨
          normalizeText lower content = normalizeText lower top.content) then .skip
    else if isContradiction lower content top.content then .supersede top.id
    else if name = top.name then .merge top.id
    else .create

end Decide

/-! ## Accesses -/

structure SimilarQuery where
  text : String
  topK : Nat
  agentId : Option String

/-- An idea that a search returns, as far as the deduplication reads it. -/
structure FoundIdea where
  id : String
  name : String
  content : String
  createdAt : Nat

/-- What storing an idea gets from outside beside what the table gets. -/
structure StoringCtx extends IdeasCtx where
  debug : String → String
  lexicalSimilarity : String → String → String → String → Rat
  search : IdeaTable → SimilarQuery → List FoundIdea

/-- What a call does under one lock of the connection. A write of a merge names the row that its
call has read; the statement does not look at it. -/
inductive TableAccess
  | getActiveIdByName (name : String) (agentId : Option String)
  | getById (id : String)
  | search (query : SimilarQuery)
  | storeFull (input : StoreFull) (now : Nat)
  | updateFull (id : String) (existing : IdeaRow) (patch : UpdateFull)
  | supersedeAtomic (oldId : String) (input : StoreFull) (now : Nat)
  | storeEntityEdge (e : EntityEdge)
  | update (id : String) (name content : Option String) (tags : Option (List String))
  | setParent (id : String) (parentId : Option String)
  | setProperties (id : String) (properties : Option String)
  | setKind (id kind : String) (fileId : Option String)
  | setExpiresAt (id : String) (expiresAt : Nat)
  | setScope (id : String) (scope : Scope)

namespace TableAccess

def Reply : TableAccess → Type
  | getActiveIdByName .. => Option String
  | getById _ => Option IdeaRow
  | search _ => List FoundIdea
  | storeFull .. => Except TableError String
  | updateFull .. => Except TableError Unit
  | supersedeAtomic .. => Except TableError String
  | storeEntityEdge _ => Unit
  | update .. => Except TableError Unit
  | setParent .. => Except TableError Unit
  | setProperties .. => Unit
  | setKind .. => Unit
  | setExpiresAt .. => Unit
  | setScope .. => Unit

variable (ctx : StoringCtx)

def run : (a : TableAccess) → IdeaTable → a.Reply × IdeaTable
  | getActiveIdByName name agentId, t => (t.getActiveIdByName name agentId, t)
  | getById id, t => (t.row id, t)
  | search query, t => (ctx.search t query, t)
  | storeFull input now, t => t.storeFull ctx.toIdeasCtx input now
  | updateFull id _ patch, t => t.updateFull ctx.toIdeasCtx id patch
  | supersedeAtomic oldId input now, t => t.supersedeAtomic ctx.toIdeasCtx oldId input now
  | storeEntityEdge e, t => ((), t.storeEntityEdge e)
  | update id name content tags, t => t.update ctx.toIdeasCtx id name content tags
  | setParent id parentId, t => t.setParent id parentId
  | setProperties id properties, t => ((), t.setProperties id properties)
  | setKind id kind fileId, t => ((), t.setKind id kind fileId)
  | setExpiresAt id expiresAt, t => ((), t.setExpiresAt id expiresAt)
  | setScope id scope, t => ((), t.setScope id scope)

end TableAccess

abbrev IdeaProg (α : Type) := Prog TableAccess TableAccess.Reply α

def access (a : TableAccess) : IdeaProg a.Reply := Prog.perform a

def TableError.text : TableError → String
  | .uniqueName => Store.UNIQUE_NAME
  | .primaryKey => "UNIQUE constraint failed: ideas.id"
  | .foreignKey => "FOREIGN KEY constraint failed"
  | .message text => text

/-! ## The handler -/

/-- What the handler reads of the merged policies; how long an idea lasts is in seconds. -/
structure EffectivePolicy where
  dedupWindowHours : Option Int := none
  expiresAfter : Option Int := none
  timeContext : String := "timeless"

/-- The clock as the call reads it. -/
structure Reading where
  now : Nat
  ts : Instant

inductive StoreAction
  | skip
  | create
  | merge
  | supersede
deriving DecidableEq

structure DedupReport where
  reason : String
  topCandidate : Option SimilarIdea
  candidateCount : Nat

/-- A response that is ok. -/
structure Stored where
  id : String
  action : StoreAction
  linkErrors : List String := []
  dedup : Option DedupReport := none

abbrev StoreResponse := Except String Stored

section Handler

variable (ctx : StoringCtx) (input : StoreRequest) (effective : EffectivePolicy) (clock : Reading)
  (redactedContent : String)

/-- The ideas that the search finds within the window, with their scores. -/
def findSimilarForDedup : IdeaProg (List SimilarIdea) := do
  let snippet := String.ofList (redactedContent.toList.take 200)
  let query := if snippet = "" then input.name else input.name ++ " " ++ snippet
  let hits ← access (.search ⟨query, 5, input.agentId⟩)
  let recent (hit : FoundIdea) : Bool :=
    (effective.dedupWindowHours.filter (0 < ·)).all fun h =>
      (clock.now : Int) - h * 3600 ≤ hit.createdAt
  pure (((hits : List FoundIdea).filter recent).map fun hit =>
    ⟨hit.id, hit.name, hit.content,
      ctx.lexicalSimilarity input.name redactedContent hit.name hit.content⟩)

def buildStoreFull : StoreFull where
  name := input.name
  content := redactedContent
  tags := input.tags
  agentId := input.agentId
  scope := input.scope
  authoredBy := input.authoredBy
  expiresAt := effective.expiresAfter.map fun secs => ((clock.now : Int) + secs).toNat
  timeContext := effective.timeContext

def storeEdges (id : String) : List StoreLinkRequest → IdeaProg Unit
  | [] => pure ()
  | link :: links => do
    let _ ← access
      (.storeEntityEdge ⟨"idea", id, link.targetKind, link.targetId, link.relation⟩)
    storeEdges id links

def finalizeWrite (id : String) (action : StoreAction) : IdeaProg StoreResponse := do
  storeEdges id input.links
  match input.createdInSessionId with
  | none => pure (.ok ⟨id, action, input.linkErrors, none⟩)
  | some sid =>
    let _ ← access (.storeEntityEdge ⟨"idea", id, "session", sid, "link"⟩)
    pure (.ok ⟨id, action, input.linkErrors, none⟩)

def dispatchCreate : IdeaProg StoreResponse := do
  let stored ← access
    (.storeFull (buildStoreFull input effective clock redactedContent) clock.now)
  match (stored : Except TableError String) with
  | .ok id => finalizeWrite input id .create
  | .error e =>
    if e = .uniqueName then
      let landed ← access (.getActiveIdByName input.name input.agentId)
      match (landed : Option String) with
      | some existingId => pure (.ok ⟨existingId, .skip, [], none⟩)
      | none => pure (.error e.text)
    else pure (.error e.text)

/-- The tags of the row, and those of the request that are not there up to the case of ASCII. -/
def tagUnion (existing : List String) : List String → List String
  | [] => existing
  | tag :: tags =>
    if existing.any (fun e => e.toLower = tag.toLower) then tagUnion existing tags
    else tagUnion (existing ++ [tag]) tags

def mergePatch (existing : IdeaRow) : UpdateFull where
  content := some (mergedContent existing.content clock.ts redactedContent)
  tags := some (tagUnion existing.tags input.tags)
  embeddingPending := some true

def dispatchMerge (existingId : String) : IdeaProg StoreResponse := do
  let found ← access (.getById existingId)
  match (found : Option IdeaRow) with
  | none => dispatchCreate input effective clock redactedContent
  | some existing =>
    let updated ← access
      (.updateFull existingId existing (mergePatch input clock redactedContent existing))
    match (updated : Except TableError Unit) with
    | .error e => pure (.error e.text)
    | .ok () => pure (.ok ⟨existingId, .merge, [], none⟩)

def dispatchSupersede (oldId : String) : IdeaProg StoreResponse := do
  let stored ← access
    (.supersedeAtomic oldId (buildStoreFull input effective clock redactedContent) clock.now)
  match (stored : Except TableError String) with
  | .error e => pure (.error ("supersede_atomic failed: " ++ e.text))
  | .ok newId => finalizeWrite input newId .supersede

/-- What it fails with is ignored. -/
def storeParent (id : String) : IdeaProg Unit :=
  match input.parentIdeaId with
  | none => pure ()
  | some parentId => do
    let _ ← access (.setParent id (some parentId))
    pure ()

def storeProperties (id : String) : IdeaProg Unit :=
  match input.properties with
  | none => pure ()
  | some properties => do
    let _ ← access (.setProperties id (some properties))
    pure ()

def storeKind (id : String) : IdeaProg Unit :=
  match input.kind with
  | none => pure ()
  | some kind => do
    let _ ← access (.setKind id kind input.fileId)
    pure ()

def applyStoreMetadata (id : String) : IdeaProg Unit := do
  storeParent input id
  storeProperties input id
  storeKind input id

def withDedupReport (response : StoreResponse) (report : DedupReport) : StoreResponse :=
  response.map ({ · with dedup := some report })

def dedupReason (action : DedupAction) (similar : List SimilarIdea) : String :=
  match action with
  | .skip => "near_duplicate"
  | .create => if similar = [] then "no_candidate" else "novel_enough"
  | .merge _ => "same_name_similarity_merge"
  | .supersede _ => "contradiction_supersede"

def storeSameName (existingId : String) : IdeaProg StoreResponse := do
  let found ← access (.getById existingId)
  match (found : Option IdeaRow) with
  | none =>
    applyStoreMetadata input existingId
    pure (.ok ⟨existingId, .skip, [], some ⟨"same_name_existing_unavailable", none, 1⟩⟩)
  | some existing =>
    let similarity :=
      ctx.lexicalSimilarity input.name redactedContent existing.name existing.content
    let top : SimilarIdea := ⟨existingId, existing.name, existing.content, similarity⟩
    if NEAR_DUPLICATE_THRESHOLD < similarity then
      applyStoreMetadata input existingId
      pure (.ok ⟨existingId, .skip, [], some ⟨"same_name_near_duplicate", some top, 1⟩⟩)
    else
      let response ← dispatchMerge input effective clock redactedContent existingId
      pure (withDedupReport response ⟨"same_name_changed_content_merge", some top, 1⟩)

def dispatch (similar : List SimilarIdea) : DedupAction → IdeaProg StoreResponse
  | .skip => pure (.ok ⟨((topSimilar similar).map (·.id)).getD "", .skip, [], none⟩)
  | .create => dispatchCreate input effective clock redactedContent
  | .merge existingId => dispatchMerge input effective clock redactedContent existingId
  | .supersede oldId => dispatchSupersede input effective clock redactedContent oldId

/-- No active row has the name. -/
def storeSimilar : IdeaProg StoreResponse := do
  let similar ← findSimilarForDedup ctx input effective clock redactedContent
  let action := decideDedup ctx.toLowercase input.name redactedContent similar
  let response ← dispatch input effective clock redactedContent similar action
  let response := withDedupReport response
    ⟨dedupReason action similar, topSimilar similar, similar.length⟩
  match response with
  | .error e => pure (.error e)
  | .ok stored =>
    applyStoreMetadata input stored.id
    pure (.ok stored)

def storeParsed : IdeaProg StoreResponse := do
  let redactedContent := redactSecrets input.content
  let found ← access (.getActiveIdByName input.name input.agentId)
  match (found : Option String) with
  | some existingId => storeSameName ctx input effective clock redactedContent existingId
  | none => storeSimilar ctx input effective clock redactedContent

def handleStoreIdea (req : StoreIdea) : IdeaProg StoreResponse :=
  match parseStoreRequest ctx.debug req with
  | .error e => pure (.error e)
  | .ok input => storeParsed ctx input effective clock

end Handler

/-! ## The other writers -/

section Writers

/-- What `handle_update_idea` does to the table. -/
def updateCoreOf (req : UpdateIdea) (id : String) : IdeaProg (Except String Unit) :=
  if req.CoreChange then do
    let updated ← access (.update id req.newName req.newContent req.tags)
    match (updated : Except TableError Unit) with
    | .error e => pure (.error e.text)
    | .ok () => pure (.ok ())
  else pure (.ok ())

def updateParentOf (req : UpdateIdea) (id : String) : IdeaProg Unit :=
  match req.parentIdeaId with
  | none => pure ()
  | some parent => do
    let _ ← access (.setParent id (requestField parent))
    pure ()

def updatePropertiesOf (req : UpdateIdea) (id : String) : IdeaProg Unit :=
  match req.properties with
  | none => pure ()
  | some properties => do
    let _ ← access (.setProperties id properties)
    pure ()

def updateIdea (req : UpdateIdea) : IdeaProg (Except String Unit) :=
  let id := (requestField req.id).getD ""
  if id = "" then pure (.error "id is required")
  else if ¬ req.CoreChange ∧ req.parentIdeaId = none ∧ req.properties = none then
    pure (.error
      "at least one of name, content, tags, parent_idea_id, or properties is required")
  else do
    match ← updateCoreOf req id with
    | .error e => pure (.error e)
    | .ok () =>
      updateParentOf req id
      updatePropertiesOf req id
      pure (.ok ())

variable (name content : String) (tags : List String) (agentId : Option String) (now : Nat)

/-- `store_impl`, without the embedding. -/
def store : IdeaProg (Except TableError String) := do
  let redacted := redactSecrets content
  let stored ← access (.storeFull { name, content := redacted, tags, agentId } now)
  pure stored

def storeWithTtl (ttlSecs : Option Nat) : IdeaProg (Except TableError String) := do
  match ← store name content tags agentId now with
  | .error e => pure (.error e)
  | .ok id =>
    match ttlSecs with
    | none => pure (.ok id)
    | some ttl =>
      let _ ← access (.setExpiresAt id (now + ttl))
      pure (.ok id)

def storeWithScope (scope : Scope) : IdeaProg (Except TableError String) := do
  match ← store name content tags agentId now with
  | .error e => pure (.error e)
  | .ok id =>
    if scope = .self then pure (.ok id)
    else
      let _ ← access (.setScope id scope)
      pure (.ok id)

end Writers

end Aeqi.Ideas
