import Aeqi.Lib.Accounts
import Aeqi.Lib.Closure
import Aeqi.Lib.Handler
import Aeqi.Lib.Text

/-!
# RoleRegistry

The roles of an entity's org chart, their grants and the edges between them, the authority
that follows from them, and the requests of `ipc/roles.rs` that edit them. A request calls the
registry several times: what an earlier call has written stays when a later one is refused.

`updated_at` is left out, as nothing reads it but the response.
-/

namespace Aeqi.Orchestrator

open Aeqi.Lib

/-! ## Domain types -/

inductive OccupantKind
  | human
  | agent
  | trust
  | vacant
  deriving DecidableEq

inductive RoleType
  | director
  | operational
  | advisor
  deriving DecidableEq

/-- A row of `roles` beside its id. -/
structure Role where
  trustId : String
  title : String := ""
  occupantKind : OccupantKind
  occupantId : Option String := none
  roleType : RoleType := .operational
  founder : Bool := false
  descriptionIdeaId : Option String := none
  createdAt : Nat := 0
  deriving DecidableEq

inductive Constraint
  | primaryKey
  | foreignKey
  | check
  deriving DecidableEq

/-- The response to a refused request: an error text and its code, or what SQLite said. -/
inductive Refusal
  | message (error : String) (code : Option String := none)
  | sqlite (violated : Constraint)

def OccupantKind.fromStr (s : String) : Except Refusal OccupantKind :=
  if s = "human" then .ok .human
  else if s = "agent" then .ok .agent
  else if s = "trust" then .ok .trust
  else if s = "vacant" then .ok .vacant
  else .error (.message ("unknown occupant kind: " ++ s))

def RoleType.fromStr (s : String) : Except Refusal RoleType :=
  if s = "director" then .ok .director
  else if s = "operational" then .ok .operational
  else if s = "advisor" then .ok .advisor
  else .error (.message ("unknown role type: " ++ s))

def GRANT_ROLES_MANAGE : String := "roles.manage"
def GRANT_AGENTS_SPAWN : String := "agents.spawn"
def GRANT_AGENTS_CONFIGURE : String := "agents.configure"
def GRANT_TREASURY_READ : String := "treasury.read"
def GRANT_GOVERNANCE_READ : String := "governance.read"
def GRANT_SETTINGS_MODIFY : String := "settings.modify"

def ALL_GRANTS : List String :=
  [GRANT_ROLES_MANAGE, GRANT_AGENTS_SPAWN, GRANT_AGENTS_CONFIGURE, GRANT_TREASURY_READ,
    GRANT_GOVERNANCE_READ, GRANT_SETTINGS_MODIFY]

def defaultGrantsForType : RoleType → List String
  | .director => ALL_GRANTS
  | .operational =>
    [GRANT_ROLES_MANAGE, GRANT_AGENTS_SPAWN, GRANT_AGENTS_CONFIGURE, GRANT_TREASURY_READ]
  | .advisor => [GRANT_TREASURY_READ, GRANT_GOVERNANCE_READ]

/-- `Some(g) if !g.is_empty() => g, _ => default_grants_for_type(role_type)`. -/
def effectiveGrants (roleType : RoleType) : Option (List String) → List String
  | some (g :: gs) => g :: gs
  | _ => defaultGrantsForType roleType

/-- The tables; `entities` holds the time each entity was created at, in seconds, a grant is
(role, grant) and an edge (parent, child). -/
structure RoleStore where
  entities : Accounts String Int := ∅
  roles : Accounts String Role := ∅
  roleGrants : List (String × String) := []
  roleEdges : List (String × String) := []

namespace RoleStore

variable (s : RoleStore)

/-! ## Authority -/

/-- `SQL_ROLE_IN_ENTITY_EXISTS`. -/
def roleInEntity (trustId id : String) : Bool :=
  (s.roles.lookup id).any fun r => r.trustId = trustId

/-- `SQL_ROLE_HAS_PARENT`. -/
def hasParent (id : String) : Bool := s.roleEdges.any fun e => e.2 = id

/-- The user occupies the role, and it carries `roles.manage`. -/
def ownsManaging (trustId userId id : String) : Bool :=
  (s.roles.lookup id).any (fun r =>
    r.trustId = trustId ∧ r.occupantKind = .human ∧ r.occupantId = some userId) &&
    decide ((id, GRANT_ROLES_MANAGE) ∈ s.roleGrants)

def branchEdges (trustId : String) : List (String × String) :=
  s.roleEdges.filter fun e => s.roleInEntity trustId e.2

/-- The roles that the recursive query of `SQL_USER_CAN_MANAGE_ROLE` finds. -/
def branch (trustId userId : String) : List String :=
  closure (s.branchEdges trustId) (s.roles.keys.filter (s.ownsManaging trustId userId))

/-- `user_can_create_root_role`: the user occupies a director role that carries
`roles.manage`. -/
def userCanCreateRootRole (trustId userId : String) : Bool :=
  s.roles.keys.any fun id =>
    s.ownsManaging trustId userId id && (s.roles.lookup id).any fun r => r.roleType = .director

def userCanManageRole (trustId userId target : String) : Bool :=
  s.roleInEntity trustId target &&
    (!s.hasParent target && s.userCanCreateRootRole trustId userId ||
      decide (target ∈ s.branch trustId userId))

/-! ## Reads -/

/-- Where two roles were created at one time, SQLite is free to return either. -/
def getByOccupant (trustId occupantId : String) : Option String :=
  (s.roles.keys.filter fun id => (s.roles.lookup id).any fun r =>
      r.trustId = trustId ∧ r.occupantId = some occupantId).argmin
    fun id => ((s.roles.lookup id).map (·.createdAt)).getD 0

/-! ## Writes -/

/-- The `CHECK` of `roles`: a vacant role has no occupant, any other role has one. -/
def occupied (kind : OccupantKind) (occupantId : Option String) : Bool :=
  occupantId.isSome = (kind ≠ .vacant : Bool)

/-- `ON CONFLICT(role_id, grant) DO NOTHING`. -/
def addGrants (id : String) (grants : List String) (s : RoleStore) : RoleStore :=
  { s with roleGrants := grants.map (fun g => (id, g)) ∪ s.roleGrants }

def clearGrants (id : String) (s : RoleStore) : RoleStore :=
  { s with roleGrants := s.roleGrants.filter fun g => g.1 ≠ id }

/-- `UPDATE roles SET .. WHERE id = ..`. -/
def updateRow (id : String) (f : Role → Role) (s : RoleStore) : RoleStore :=
  match s.roles.lookup id with
  | none => s
  | some r => { s with roles := s.roles.insert id (f r) }

/-- `id` is the new UUID, `role` the row. -/
def createWithType (id : String) (role : Role) (grants : Option (List String)) (s : RoleStore) :
    Except Refusal RoleStore :=
  if (s.roles.lookup id).isSome then .error (.sqlite .primaryKey)
  else if (s.entities.lookup role.trustId).isNone then .error (.sqlite .foreignKey)
  else if occupied role.occupantKind role.occupantId = false then .error (.sqlite .check)
  else
    .ok (addGrants id (effectiveGrants role.roleType grants)
      { s with roles := s.roles.insert id role })

def updateRole (id : String) (title : Option String) (roleType : Option RoleType)
    (grants : Option (List String)) (s : RoleStore) : Except Refusal RoleStore :=
  let s := s.updateRow id fun r =>
    { r with title := title.getD r.title, roleType := roleType.getD r.roleType }
  match grants with
  | none => .ok s
  | some grants =>
    if (s.roles.lookup id).isNone ∧ grants ≠ [] then .error (.sqlite .foreignKey)
    else .ok (addGrants id grants (s.clearGrants id))

def setDescriptionIdea (id : String) (ideaId : Option String) (s : RoleStore) : RoleStore :=
  s.updateRow id fun r => { r with descriptionIdeaId := ideaId }

def updateOccupant (id : String) (kind : OccupantKind) (occupantId : Option String)
    (s : RoleStore) : Except Refusal RoleStore :=
  if (s.roles.lookup id).isSome ∧ occupied kind occupantId = false then .error (.sqlite .check)
  else .ok (s.updateRow id fun r => { r with occupantKind := kind, occupantId })

def selfLoop : Refusal := .message "self-loop edges are forbidden"

def addEdge (parentId childId : String) (s : RoleStore) : Except Refusal RoleStore :=
  if parentId = childId then .error selfLoop
  else if (s.roles.lookup parentId).isNone ∨ (s.roles.lookup childId).isNone then
    .error (.sqlite .foreignKey)
  else .ok { s with roleEdges := [(parentId, childId)] ∪ s.roleEdges }

/-- `BTreeSet` of the ids that are not empty. -/
def idSet (ids : List String) : List String :=
  (ids.filter (· ≠ "")).dedup.insertionSort (· ≤ ·)

/-- What `set_parent_edges` and `set_child_edges` check of every end of a new edge. -/
def checkEnds (trustId what : String) (wouldCycle : String → Bool) (s : RoleStore) :
    List String → Except Refusal Unit
  | [] => .ok ()
  | id :: rest =>
    match s.roles.lookup id with
    | none => .error (.message (what ++ " role not found: " ++ id))
    | some r =>
      if r.trustId ≠ trustId then .error (.message "role edge crosses entity boundary")
      else if wouldCycle id then .error (.message "role edge would create a cycle")
      else checkEnds trustId what wouldCycle s rest

def setParentEdges (roleId : String) (parentIds : List String) (s : RoleStore) :
    Except Refusal RoleStore :=
  let parents := idSet parentIds
  if roleId ∈ parents then .error selfLoop
  else
    match s.roles.lookup roleId with
    | none => .error (.message "role not found")
    | some r => do
      checkEnds r.trustId "parent" (fun p => decide (p ∈ descendants s.roleEdges roleId)) s
        parents
      pure { s with
        roleEdges := parents.map (fun p => (p, roleId)) ∪
          s.roleEdges.filter fun e => e.2 ≠ roleId }

def setChildEdges (roleId : String) (childIds : List String) (s : RoleStore) :
    Except Refusal RoleStore :=
  let children := idSet childIds
  if roleId ∈ children then .error selfLoop
  else
    match s.roles.lookup roleId with
    | none => .error (.message "role not found")
    | some r => do
      checkEnds r.trustId "child" (fun c => decide (roleId ∈ descendants s.roleEdges c)) s
        children
      pure { s with
        roleEdges := children.map (fun c => (roleId, c)) ∪
          s.roleEdges.filter fun e => e.1 ≠ roleId }

end RoleStore

/-! ## Requests -/

/-- `request_field`: an empty string counts as absent. -/
def requestField (field : Option String) : Option String := field.filter (· ≠ "")

abbrev RoleHandler := Handler Refusal RoleStore

open Handler

def missing (name : String) : Refusal := .message (name ++ " is required")

def forbidden (why : String) : Refusal := .message ("forbidden: " ++ why) (some "forbidden")

/-- `is_allowed` of `tenancy.rs`. -/
def isAllowed (allowed : Option (List String)) (id : String) : Bool :=
  match allowed with
  | none => true
  | some ids => ids.any (· = id)

def authenticated (callerId : String) : RoleHandler Unit :=
  pass (require (callerId ≠ "") (.message "authentication required"))

def requireCanManageRole (trustId roleId callerId : String) : RoleHandler Unit := do
  authenticated callerId
  let can ← ask (·.userCanManageRole trustId callerId roleId)
  pass (require (can = true) (forbidden "role is outside caller's managed branch"))

def requireCanCreateRootRole (trustId callerId : String) : RoleHandler Unit := do
  authenticated callerId
  let can ← ask (·.userCanCreateRootRole trustId callerId)
  pass (require (can = true) (forbidden "director role required to create root roles"))

/-- The fields of a request as they stand in the JSON. -/
structure CreateRole where
  trustId : Option String := none
  parentRoleId : Option String := none
  title : Option String := none
  occupantKind : Option String := none
  occupantId : Option String := none
  roleType : Option String := none
  founder : Bool := false
  grants : Option (List String) := none
  descriptionIdeaId : Option (Option String) := none

structure UpdateRole where
  roleId : Option String
  title : Option String := none
  roleType : Option String := none
  grants : Option (List String) := none
  descriptionIdeaId : Option (Option String) := none

structure UpdateRoleEdges where
  roleId : Option String
  parentRoleIds : Option (List String) := none
  childRoleIds : Option (List String) := none

structure ChangeOccupant where
  roleId : Option String
  occupantKind : Option String := none
  occupantId : Option String := none

/-- `occupant_kind` and `occupant_id` of a request. -/
def occupantOf (kind occupantId : Option String) :
    Except Refusal (OccupantKind × Option String) := do
  let kind ← OccupantKind.fromStr ((requestField kind).getD "vacant")
  let occupantId := requestField occupantId
  if kind ≠ .vacant ∧ occupantId.isNone then
    .error (.message "occupant_id is required when occupant_kind is human, agent, or trust")
  else
    pure (kind, occupantId)

/-- `description_idea_from_field` and its write; the field is null or a string. -/
def describe (roleId : String) (field : Option (Option String)) : RoleHandler Unit :=
  match field with
  | none => pure ()
  | some idea => call fun s => .ok (s.setDescriptionIdea roleId (requestField idea))

/-- The role that a `create_role` works on: the one that its occupant has in the entity
already, or a new one with the id `newId`, created at `now`. -/
def adoptOrCreate (req : CreateRole) (trustId callerId newId : String) (now : Nat)
    (kind : OccupantKind) (occupantId : Option String) (roleType : RoleType) :
    RoleHandler String := do
  let title := (requestField req.title).getD ""
  let create : RoleHandler String := do
    call (·.createWithType newId {
      trustId, title, occupantKind := kind, occupantId, roleType, founder := req.founder
      createdAt := now } req.grants)
    pure newId
  match occupantId with
  | none => create
  | some occId => do
    let existing ← ask (·.getByOccupant trustId occId)
    match existing with
    | none => create
    | some existing => do
      requireCanManageRole trustId existing callerId
      call (·.updateRole existing (some title) (some roleType)
        (some (effectiveGrants roleType req.grants)))
      pure existing

def authorizeCreate (trustId callerId : String) : Option String → RoleHandler Unit
  | some parentId => requireCanManageRole trustId parentId callerId
  | none => requireCanCreateRootRole trustId callerId

def addParent (roleId : String) : Option String → RoleHandler Unit
  | some parentId => call (·.addEdge parentId roleId)
  | none => pure ()

def handleCreateRole (req : CreateRole) (allowed : Option (List String))
    (callerId newId : String) (now : Nat) : RoleHandler String := do
  let trustId ← pass (okOr (requestField req.trustId) (missing "trust_id"))
  pass (require (isAllowed allowed trustId = true) (.message "access denied"))
  let parentRoleId := requestField req.parentRoleId
  authorizeCreate trustId callerId parentRoleId
  let (kind, occupantId) ← pass (occupantOf req.occupantKind req.occupantId)
  let roleType ← pass (RoleType.fromStr ((requestField req.roleType).getD "operational"))
  let roleId ← adoptOrCreate req trustId callerId newId now kind occupantId roleType
  addParent roleId parentRoleId
  describe roleId req.descriptionIdeaId
  pure roleId

def managedRole (roleId : Option String) (callerId : String) : RoleHandler (String × String) := do
  let roleId ← pass (okOr (requestField roleId) (missing "role_id"))
  let role ← ask (·.roles.lookup roleId)
  let role ← pass (okOr role (.message "role not found" (some "not_found")))
  requireCanManageRole role.trustId roleId callerId
  pure (role.trustId, roleId)

def handleUpdateRole (req : UpdateRole) (callerId : String) : RoleHandler Unit := do
  let (_, roleId) ← managedRole req.roleId callerId
  let roleType ← pass ((requestField req.roleType).mapM RoleType.fromStr)
  call (·.updateRole roleId (requestField req.title) roleType req.grants)
  describe roleId req.descriptionIdeaId

def requireCanManageAll (trustId callerId : String) : List String → RoleHandler Unit
  | [] => pure ()
  | id :: rest => do
    requireCanManageRole trustId id callerId
    requireCanManageAll trustId callerId rest

def replaceParents (trustId roleId callerId : String) :
    Option (List String) → RoleHandler Unit
  | none => pure ()
  | some parentIds => do
    requireCanManageAll trustId callerId parentIds
    call (·.setParentEdges roleId parentIds)

def replaceChildren (trustId roleId callerId : String) :
    Option (List String) → RoleHandler Unit
  | none => pure ()
  | some childIds => do
    requireCanManageAll trustId callerId childIds
    call (·.setChildEdges roleId childIds)

def handleUpdateRoleEdges (req : UpdateRoleEdges) (callerId : String) : RoleHandler Unit := do
  let (trustId, roleId) ← managedRole req.roleId callerId
  replaceParents trustId roleId callerId req.parentRoleIds
  replaceChildren trustId roleId callerId req.childRoleIds

/-- The sessions anchored to the role belong to the session store. -/
def handleChangeOccupant (req : ChangeOccupant) (callerId : String) : RoleHandler Unit := do
  let roleId ← pass (okOr (requestField req.roleId) (missing "role_id"))
  let (kind, occupantId) ← pass (occupantOf req.occupantKind req.occupantId)
  let role ← ask (·.roles.lookup roleId)
  let role ← pass (okOr role (.message "role not found"))
  requireCanManageRole role.trustId roleId callerId
  call (·.updateOccupant roleId kind occupantId)

end Aeqi.Orchestrator
