import Aeqi.Ideas.Editing
import Aeqi.Ideas.Redaction
import Aeqi.Orchestrator.Visibility

/-!
# The table of ideas

The statements of `aeqi-ideas` on the rows of `ideas`, their tags and `entity_edges`. The bodies
that are stored through `store_full` and `supersede_atomic` are redacted there; those of
`update_full` and `update` are written as they come.

Confidence, other counters of feedback and access, times of updates and the strengths of edges are
left out; nothing here reads them. Calls of the database succeed unless a constraint refuses them.
-/

namespace Aeqi.Ideas

open Aeqi.Lib

/-- What writers get from outside: the lower case of a tag, the hash of a body, and the uuids in
the order they are drawn. -/
structure IdeasCtx where
  toLowercase : String → String
  contentHash : String → String
  uuid : Nat → String

structure IdeaRow where
  name : String
  content : String
  agentId : Option String
  scope : Orchestrator.Scope
  status : String
  tags : List String
  contentHash : String
  embeddingPending : Bool
  authoredBy : Option String := none
  parentIdeaId : Option String := none
  properties : Option String := none
  kind : String := "note"
  fileId : Option String := none
  createdAt : Nat := 0
  expiresAt : Option Nat := none
  validFrom : Option Nat := none
  validUntil : Option Nat := none
  timeContext : String := "timeless"
  wrongFeedbackCount : Int := 0

structure StoreFull where
  name : String
  content : String
  tags : List String := []
  agentId : Option String := none
  scope : Orchestrator.Scope := .self
  authoredBy : Option String := none
  expiresAt : Option Nat := none
  validFrom : Option Nat := none
  validUntil : Option Nat := none
  timeContext : String := "timeless"
  status : String := "active"

/-- Where a field is missing the column is not touched. -/
structure UpdateFull where
  content : Option String := none
  tags : Option (List String) := none
  embeddingPending : Option Bool := none
  validUntil : Option Nat := none
  status : Option String := none

structure EntityEdge where
  sourceKind : String
  sourceId : String
  targetKind : String
  targetId : String
  relation : String
deriving DecidableEq

/-- `drawn` counts the uuids. -/
structure IdeaTable where
  rows : Accounts String IdeaRow
  edges : List EntityEdge
  drawn : Nat

inductive TableError
  | uniqueName
  | primaryKey
  | foreignKey
  | message (text : String)
deriving DecidableEq

namespace IdeaTable

variable (ctx : IdeasCtx) (t : IdeaTable)

/-! ## Queries -/

def row (id : String) : Option IdeaRow := t.rows.lookup id

/-- An active row of the owner has the name; no owner is the owner `""` here. -/
def isNamed (name : String) (agentId : Option String) (id : String) : Bool :=
  (t.row id).any fun r => r.name = name ∧ r.agentId.getD "" = agentId.getD "" ∧ r.status = "active"

def getActiveIdByName (name : String) (agentId : Option String) : Option String :=
  t.rows.keys.find? (t.isNamed name agentId)

/-- The partial unique index refuses a second active row, beside the row with the id. -/
def nameTaken (id name : String) (agentId : Option String) : Prop :=
  ∃ other ∈ t.rows.keys, other ≠ id ∧ t.isNamed name agentId other

instance (id name : String) (agentId : Option String) : Decidable (t.nameTaken id name agentId) :=
  inferInstanceAs (Decidable (∃ other ∈ t.rows.keys, _))

/-! ## Writes -/

/-- The `UPDATE` of one row; no row is no error. -/
def setRow (id : String) (f : IdeaRow → IdeaRow) : IdeaTable :=
  match t.row id with
  | none => t
  | some r => { t with rows := t.rows.insert id (f r) }

def insertFullRow (input : StoreFull) (content : String) (tags : List String) (now : Nat) :
    Except TableError String × IdeaTable :=
  let id := ctx.uuid t.drawn
  let t := { t with drawn := t.drawn + 1 }
  if (t.row id).isSome then (.error .primaryKey, t)
  else if input.status = "active" ∧ t.nameTaken id input.name input.agentId then
    (.error .uniqueName, t)
  else
    (.ok id, { t with rows := t.rows.insert id {
      name := input.name, content, agentId := input.agentId, scope := input.scope,
      status := input.status, tags, contentHash := ctx.contentHash content,
      embeddingPending := true, authoredBy := input.authoredBy, createdAt := now,
      expiresAt := input.expiresAt, validFrom := some (input.validFrom.getD now),
      validUntil := input.validUntil, timeContext := input.timeContext } })

def storeFull (input : StoreFull) (now : Nat) : Except TableError String × IdeaTable :=
  let content := redactSecrets input.content
  let tags := normalizeTags ctx.toLowercase input.tags
  t.insertFullRow ctx input content tags now

def storeEntityEdge (e : EntityEdge) : IdeaTable :=
  if e ∈ t.edges then t else { t with edges := t.edges ++ [e] }

/-- The transaction leaves nothing behind if the new row cannot be inserted. -/
def supersedeAtomic (oldId : String) (input : StoreFull) (now : Nat) :
    Except TableError String × IdeaTable :=
  let content := redactSecrets input.content
  let tags := normalizeTags ctx.toLowercase input.tags
  match t.row oldId with
  | none => (.error (.message ("supersede_atomic: old idea " ++ oldId ++ " not found")), t)
  | some _ =>
    let flipped := t.setRow oldId ({ · with status := "superseded" })
    match flipped.insertFullRow ctx input content tags now with
    | (.error e, t') => (.error e, { t with drawn := t'.drawn })
    | (.ok newId, t') => (.ok newId, t'.storeEntityEdge ⟨"idea", newId, "idea", oldId, "link"⟩)

/-- The columns before the status. -/
def patched (patch : UpdateFull) (r : IdeaRow) : IdeaRow :=
  { r with
    content := patch.content.getD r.content
    contentHash := (patch.content.map ctx.contentHash).getD r.contentHash
    embeddingPending := patch.embeddingPending.getD r.embeddingPending
    validUntil := patch.validUntil.or r.validUntil }

/-- The statements are carried out one after the other; the index may refuse a status. -/
def updateFull (id : String) (patch : UpdateFull) : Except TableError Unit × IdeaTable :=
  let t := t.setRow id (patched ctx patch)
  if ∃ status ∈ patch.status, status = "active" ∧
      ∃ r ∈ t.row id, t.nameTaken id r.name r.agentId then (.error .uniqueName, t)
  else
    (.ok (), t.setRow id fun r => { r with
      status := patch.status.getD r.status
      tags := (patch.tags.map (normalizeTags ctx.toLowercase)).getD r.tags })

/-- The first lock of `update_impl`; whether the body changed is what its second one asks. -/
def update (id : String) (name content : Option String) (tags : Option (List String)) :
    Except TableError Unit × IdeaTable :=
  match t.row id with
  | none => (.error (.message ("idea not found: " ++ id)), t)
  | some r =>
    if name = none ∧ content = none ∧ tags = none then
      (.error (.message "at least one field must be updated"), t)
    else if ∃ new ∈ name, r.status = "active" ∧ t.nameTaken id new r.agentId then
      (.error .uniqueName, t)
    else
      (.ok (), t.setRow id fun r => { r with
        name := name.getD r.name
        content := content.getD r.content
        contentHash := (content.map ctx.contentHash).getD r.contentHash
        tags := (tags.map (normalizeTags ctx.toLowercase)).getD r.tags })

def setParent (id : String) (parentId : Option String) : Except TableError Unit × IdeaTable :=
  if (t.row id).isSome ∧ parentId.any (fun p => (t.row p).isNone) then (.error .foreignKey, t)
  else (.ok (), t.setRow id ({ · with parentIdeaId := parentId }))

def setProperties (id : String) (properties : Option String) : IdeaTable :=
  t.setRow id ({ · with properties })

def setKind (id kind : String) (fileId : Option String) : IdeaTable :=
  t.setRow id ({ · with kind, fileId })

def setExpiresAt (id : String) (expiresAt : Nat) : IdeaTable :=
  t.setRow id ({ · with expiresAt := some expiresAt })

def setScope (id : String) (scope : Orchestrator.Scope) : IdeaTable :=
  t.setRow id ({ · with scope })

/-! ## What the writes leave -/

variable {ctx} {t} {id id' : String} {f : IdeaRow → IdeaRow}

theorem row_setRow : (t.setRow id f).row id' = if id' = id then (t.row id).map f else t.row id' := by
  unfold setRow
  by_cases hid : id' = id
  · subst hid
    cases h : t.row id' with
    | none => simp [h]
    | some r => simp [row]
  · rw [if_neg hid]
    cases t.row id with
    | none => rfl
    | some r => exact AList.lookup_insert_ne hid

theorem row_setRow_self : (t.setRow id f).row id = (t.row id).map f := by
  rw [row_setRow, if_pos rfl]

theorem row_setRow_ne (h : id' ≠ id) : (t.setRow id f).row id' = t.row id' := by
  rw [row_setRow, if_neg h]

theorem row_setRow_some {r : IdeaRow} (h : (t.setRow id f).row id' = some r) :
    t.row id' = some r ∨ id' = id ∧ ∃ old, t.row id = some old ∧ f old = r := by
  rw [row_setRow] at h
  split at h
  · rename_i hid
    exact .inr ⟨hid, Option.map_eq_some_iff.mp h⟩
  · exact .inl h

@[simp] theorem edges_setRow : (t.setRow id f).edges = t.edges := by
  unfold setRow
  cases t.row id <;> rfl

@[simp] theorem drawn_setRow : (t.setRow id f).drawn = t.drawn := by
  unfold setRow
  cases t.row id <;> rfl

@[simp] theorem row_storeEntityEdge {e : EntityEdge} : (t.storeEntityEdge e).row id = t.row id := by
  unfold storeEntityEdge
  split <;> rfl

end IdeaTable

end Aeqi.Ideas
