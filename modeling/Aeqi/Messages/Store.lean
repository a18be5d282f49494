import Aeqi.Orchestrator.RoleRegistry

/-!
# Sessions, their participants and messages

The tables that addressed messages read and write, the methods of `session_store.rs` on them,
and the reads of ideas, roles and agents beside them. Every method is one step, although
`find_or_create_dm_session` and `append_message_from` make more than one statement. A new id is
given with the call, and so is the row that SQLite picks where a query without an order asks for
one of several.

Times are left out, and so are errors of the database other than violated constraints.
-/

namespace Aeqi.Messages

open Aeqi.Lib Aeqi.Orchestrator
open AList (lookup_isSome mem_insert)

inductive Failure
  | message (error : String)
  | sqlite (violated : Constraint)
  /-- A text was cut inside a character. -/
  | panic
  deriving DecidableEq

structure Session where
  agentId : Option String := none
  sessionType : String
  name : String
  status : String := "active"
  firstMessage : Option String := none
  targetRoleId : Option String := none
  deriving DecidableEq

/-- The metadata of an activity row. -/
structure Activity where
  kind : String
  actorUserId : Option String
  actorKind : String

structure Message where
  id : Nat
  sessionId : String
  role : String
  content : String
  eventType : String
  fromKind : String
  fromId : Option String
  metadata : Option Activity := none

structure Idea where
  name : String
  agentId : Option String := none
  sessionId : Option String := none
  content : String := ""
  tags : List String := []
  status : String := "active"
  createdAt : Nat := 0
  parentIdeaId : Option String := none
  properties : Option String := none
  deriving DecidableEq

structure Agent where
  name : String
  active : Bool := true
  createdAt : Nat := 0
  trustId : Option String := none

/-- A row of `pending_messages` that a mention enqueues. -/
structure Spawn where
  sessionId : String
  agentId : String
  body : String
  deriving DecidableEq

/-- An identity that may take part in a session: a kind and an id. -/
abbrev Identity := String × String

/-- The tables; a participant is filed under its session and identity, with `joined_by`. -/
structure World where
  sessions : Accounts String Session := ∅
  participants : Accounts (String × Identity) (Option String) := ∅
  messages : List Message := []
  nextMessageId : Nat := 1
  spawns : List Spawn := []
  ideas : Accounts String Idea := ∅
  roles : Accounts String Role := ∅
  agents : Accounts String Agent := ∅

def choose (pick : Nat) (rows : List String) : Option String := rows[pick % rows.length]?

namespace World

variable (w : World)

def participates (sessionId : String) (who : Identity) : Prop :=
  (sessionId, who) ∈ w.participants

instance (sessionId : String) (who : Identity) : Decidable (w.participates sessionId who) :=
  inferInstanceAs (Decidable ((sessionId, who) ∈ w.participants))

def Referential : Prop := ∀ sid who, w.participates sid who →
  (w.sessions.lookup sid).isSome = true

/-- The `CHECK` of `session_participants`. -/
def KINDS : List String := ["user", "agent", "position", "external"]

/-! ## Methods of the session store -/

def appendMessageFrom (sessionId role content fromKind : String) (fromId payloadKind : Option String) :
    Except Failure Nat × World :=
  let row : Message :=
    { id := w.nextMessageId, sessionId, role, content, eventType := payloadKind.getD "message",
      fromKind, fromId }
  let w := { w with messages := w.messages ++ [row], nextMessageId := w.nextMessageId + 1 }
  if role = "user" ∧ content ≠ "" then
    match sliceTo 200 content.toList with
    | none => (.error .panic, w)
    | some first =>
      match w.sessions.lookup sessionId with
      | none => (.ok row.id, w)
      | some s =>
        let s := { s with firstMessage := s.firstMessage.or (some (String.ofList first)) }
        (.ok row.id, { w with sessions := w.sessions.insert sessionId s })
  else (.ok row.id, w)

/-- `INSERT OR IGNORE`: a kind that fails the `CHECK` is ignored like a row that is there. -/
def addSessionParticipant (sessionId : String) (who : Identity) (joinedBy : Option String) :
    Except Failure Bool × World :=
  if w.participates sessionId who ∨ who.1 ∉ KINDS then (.ok false, w)
  else if (w.sessions.lookup sessionId).isNone then (.error (.sqlite .foreignKey), w)
  else (.ok true, { w with participants := w.participants.insert (sessionId, who) joinedBy })

/-- The insertion of `create_standalone_session`, `create_role_session` and of a new DM. -/
def createSession (sessionId : String) (s : Session) : Except Failure Unit × World :=
  if (w.sessions.lookup sessionId).isSome then (.error (.sqlite .primaryKey), w)
  else (.ok (), { w with sessions := w.sessions.insert sessionId s })

def dmSessions (sessionType : String) (a b : Identity) : List String :=
  w.sessions.keys.filter fun id =>
    ((w.sessions.lookup id).any fun s => s.sessionType = sessionType ∧ s.status = "active") ∧
      w.participates id a ∧ w.participates id b

def findOrCreateDmSession (sessionType name : String) (a b : Identity) (newId : String)
    (pick : Nat) : Except Failure (String × Bool) × World :=
  match choose pick (w.dmSessions sessionType a b) with
  | some id => (.ok (id, false), w)
  | none =>
    match w.createSession newId { sessionType, name } with
    | (.error e, w) => (.error e, w)
    | (.ok (), w) =>
      let w := (w.addSessionParticipant newId a none).2
      let w := (w.addSessionParticipant newId b none).2
      (.ok (newId, true), w)

def roleSessions (roleId agentId : String) : List String :=
  w.sessions.keys.filter fun id =>
    ((w.sessions.lookup id).any fun s => s.targetRoleId = some roleId ∧ s.status = "active") ∧
      w.participates id ("agent", agentId)

/-! ## Beside the session store -/

/-- `UPDATE ideas SET session_id = .. WHERE id = ..`. -/
def setIdeaSession (ideaId sessionId : String) : World :=
  match w.ideas.lookup ideaId with
  | none => w
  | some i => { w with ideas := w.ideas.insert ideaId { i with sessionId := some sessionId } }

/-- `get_active_by_name`, the one created last. -/
def activeByName (name : String) : Option String :=
  (w.agents.keys.filter fun id => (w.agents.lookup id).any fun a =>
      a.active ∧ a.name.map Char.toLower = name.map Char.toLower).argmax
    fun id => ((w.agents.lookup id).map (·.createdAt)).getD 0

end World

/-! ## Accesses -/

/-- What a handler does under one lock. -/
inductive Access
  | getIdea (id : String)
  | setIdeaSession (ideaId sessionId : String)
  | getRole (id : String)
  | activeByName (name : String)
  | findRoleSession (roleId agentId : String) (pick : Nat)
  | findOrCreateDmSession (sessionType name : String) (a b : Identity) (newId : String) (pick : Nat)
  | createSession (sessionId : String) (s : Session)
  | addSessionParticipant (sessionId : String) (who : Identity) (joinedBy : Option String)
  | appendMessageFrom (sessionId role content fromKind : String) (fromId payloadKind : Option String)
  | enqueueSpawn (spawn : Spawn)
  deriving DecidableEq

namespace Access

def Reply : Access → Type
  | getIdea _ => Option Idea
  | setIdeaSession _ _ => Unit
  | getRole _ => Option Role
  | activeByName _ => Option String
  | findRoleSession _ _ _ => Option String
  | findOrCreateDmSession .. => Except Failure (String × Bool)
  | createSession _ _ => Except Failure Unit
  | addSessionParticipant _ _ _ => Except Failure Bool
  | appendMessageFrom .. => Except Failure Nat
  | enqueueSpawn _ => Unit

def run : (a : Access) → World → a.Reply × World
  | getIdea id, w => (w.ideas.lookup id, w)
  | setIdeaSession ideaId sessionId, w => ((), w.setIdeaSession ideaId sessionId)
  | getRole id, w => (w.roles.lookup id, w)
  | activeByName name, w => (w.activeByName name, w)
  | findRoleSession roleId agentId pick, w => (choose pick (w.roleSessions roleId agentId), w)
  | findOrCreateDmSession sessionType name a b newId pick, w =>
    w.findOrCreateDmSession sessionType name a b newId pick
  | createSession sessionId s, w => w.createSession sessionId s
  | addSessionParticipant sessionId who joinedBy, w => w.addSessionParticipant sessionId who joinedBy
  | appendMessageFrom sessionId role content fromKind fromId payloadKind, w =>
    w.appendMessageFrom sessionId role content fromKind fromId payloadKind
  | enqueueSpawn spawn, w => ((), { w with spawns := w.spawns ++ [spawn] })

end Access

/-! ## What the methods write -/

section Methods

variable {w : World} {sid id : String} {who j : Identity}

def SameSession (s s' : Session) : Prop := { s' with firstMessage := s.firstMessage } = s

variable {s s' : Session}

theorem SameSession.type (h : SameSession s s') :
    s'.sessionType = s.sessionType := by
  rw [← h]

theorem SameSession.status (h : SameSession s s') : s'.status = s.status := by
  rw [← h]

theorem SameSession.role (h : SameSession s s') :
    s'.targetRoleId = s.targetRoleId := by
  rw [← h]

theorem appendMessageFrom_frame (w : World) (sid role content fromKind : String)
    (fromId payloadKind : Option String) : ∃ sessions m,
    (w.appendMessageFrom sid role content fromKind fromId payloadKind).2 = { w with
          sessions := sessions
          messages := w.messages ++ [m]
          nextMessageId := w.nextMessageId + 1 } ∧
      m.id = w.nextMessageId ∧ m.sessionId = sid := by
  unfold World.appendMessageFrom
  dsimp only
  split
  · split
    · exact ⟨_, _, rfl, rfl, rfl⟩
    · split
      · exact ⟨_, _, rfl, rfl, rfl⟩
      · exact ⟨_, _, rfl, rfl, rfl⟩
  · exact ⟨_, _, rfl, rfl, rfl⟩

theorem appendMessageFrom_participants (role content fromKind : String)
    (fromId payloadKind : Option String) :
    (w.appendMessageFrom sid role content fromKind fromId payloadKind).2.participants =
      w.participants := by
  obtain ⟨_, _, h, -, -⟩ := appendMessageFrom_frame w sid role content fromKind fromId payloadKind
  rw [h]

theorem appendMessageFrom_agents (role content fromKind : String) (fromId payloadKind : Option String) :
    (w.appendMessageFrom sid role content fromKind fromId payloadKind).2.agents = w.agents := by
  obtain ⟨_, _, h, -, -⟩ := appendMessageFrom_frame w sid role content fromKind fromId payloadKind
  rw [h]

theorem appendMessageFrom_id {n : Nat} (role content fromKind : String)
    (fromId payloadKind : Option String)
    (h : (w.appendMessageFrom sid role content fromKind fromId payloadKind).1 = .ok n) :
    n = w.nextMessageId := by
  unfold World.appendMessageFrom at h
  dsimp only at h
  split at h
  · split at h
    · cases h
    · split at h
      · exact (Except.ok.inj h).symm
      · exact (Except.ok.inj h).symm
  · exact (Except.ok.inj h).symm

theorem appendMessageFrom_isSome (role content fromKind : String)
    (fromId payloadKind : Option String) (h : (w.sessions.lookup id).isSome = true) :
    ((w.appendMessageFrom sid role content fromKind fromId payloadKind).2.sessions.lookup id).isSome =
      true := by
  unfold World.appendMessageFrom
  dsimp only
  split
  · split
    · exact h
    · split
      · exact h
      · exact lookup_isSome.2 ((mem_insert _).2 (.inr (lookup_isSome.1 h)))
  · exact h

theorem appendMessageFrom_session (role content fromKind : String)
    (fromId payloadKind : Option String)
    (h : (w.appendMessageFrom sid role content fromKind fromId payloadKind).2.sessions.lookup id =
      some s') : ∃ s, w.sessions.lookup id = some s ∧ SameSession s s' := by
  unfold World.appendMessageFrom at h
  dsimp only at h
  split at h
  · split at h
    · exact ⟨s', h, rfl⟩
    · split at h
      · exact ⟨s', h, rfl⟩
      next s hs =>
        rcases Accounts.lookup_insert_some h with ⟨rfl, rfl⟩ | ⟨-, hold⟩
        · exact ⟨s, hs, rfl⟩
        · exact ⟨s', hold, rfl⟩
  · exact ⟨s', h, rfl⟩

theorem addSessionParticipant_frame (w : World) (sid : String) (who : Identity)
    (joinedBy : Option String) : ∃ participants,
    (w.addSessionParticipant sid who joinedBy).2 = { w with participants := participants } := by
  unfold World.addSessionParticipant
  split
  · exact ⟨_, rfl⟩
  · split
    · exact ⟨_, rfl⟩
    · exact ⟨_, rfl⟩

theorem addSessionParticipant_sessions (joinedBy : Option String) :
    (w.addSessionParticipant sid who joinedBy).2.sessions = w.sessions := by
  obtain ⟨_, h⟩ := addSessionParticipant_frame w sid who joinedBy
  rw [h]

theorem addSessionParticipant_agents (joinedBy : Option String) :
    (w.addSessionParticipant sid who joinedBy).2.agents = w.agents := by
  obtain ⟨_, h⟩ := addSessionParticipant_frame w sid who joinedBy
  rw [h]

variable {joinedBy : Option String}

theorem addSessionParticipant_participates
    (h : (w.addSessionParticipant sid who joinedBy).2.participates id j) :
    w.participates id j ∨ id = sid ∧ j = who ∧ (w.sessions.lookup sid).isSome = true := by
  unfold World.addSessionParticipant at h
  split at h
  · exact .inl h
  · split at h
    · exact .inl h
    next hsome =>
      rcases (mem_insert _).1 h with heq | hold
      · cases heq
        exact .inr ⟨rfl, rfl, by simpa [Option.isSome_iff_ne_none] using hsome⟩
      · exact .inl hold

theorem participates_addSessionParticipant (h : w.participates id j) :
    (w.addSessionParticipant sid who joinedBy).2.participates id j := by
  unfold World.addSessionParticipant
  split
  · exact h
  · split
    · exact h
    · exact (mem_insert _).2 (.inr h)

theorem joins_addSessionParticipant (hkind : who.1 ∈ World.KINDS)
    (hs : (w.sessions.lookup sid).isSome = true) :
    (w.addSessionParticipant sid who joinedBy).2.participates sid who := by
  unfold World.addSessionParticipant
  split
  next h =>
    rcases h with h | h
    · exact h
    · exact absurd hkind h
  · split
    next hnone => simp [Option.isNone_iff_eq_none.1 hnone] at hs
    · exact (mem_insert _).2 (.inl rfl)

theorem createSession_ok {w' : World} (h : w.createSession sid s = (.ok (), w')) :
    w.sessions.lookup sid = none ∧ w' = { w with sessions := w.sessions.insert sid s } := by
  unfold World.createSession at h
  split at h
  · cases h
  next hfresh => exact ⟨by simpa using hfresh, (Prod.mk.inj h).2.symm⟩

theorem lookup_createSession (h : (w.createSession sid s).1 = .ok ()) :
    (w.createSession sid s).2.sessions.lookup sid = some s := by
  unfold World.createSession at h ⊢
  split at h
  · cases h
  next hfresh =>
    rw [if_neg hfresh]
    exact AList.lookup_insert _

theorem createSession_error {e : Failure} {w' : World} (h : w.createSession sid s = (.error e, w')) :
    w' = w := by
  unfold World.createSession at h
  split at h
  · exact (Prod.mk.inj h).2.symm
  · cases h

variable {pick : Nat}

theorem choose_mem {rows : List String} (h : choose pick rows = some id) :
    id ∈ rows := List.mem_of_getElem? h

theorem choose_none {rows : List String} : choose pick rows = none ↔ rows = [] := by
  unfold choose
  rw [List.getElem?_eq_none_iff]
  constructor
  · intro h
    by_contra hne
    have hlt := Nat.mod_lt pick (List.length_pos_iff.2 hne)
    omega
  · rintro rfl
    exact Nat.zero_le _

theorem createSession_frame (w : World) (sid : String) (s : Session) : ∃ sessions,
    (w.createSession sid s).2 = { w with sessions := sessions } := by
  unfold World.createSession
  split
  · exact ⟨_, rfl⟩
  · exact ⟨_, rfl⟩

theorem findOrCreateDmSession_frame (w : World) (sessionType name : String) (a b : Identity)
    (newId : String) (pick : Nat) : ∃ sessions participants,
    (w.findOrCreateDmSession sessionType name a b newId pick).2 =
      { w with sessions := sessions, participants := participants } := by
  unfold World.findOrCreateDmSession
  split
  · exact ⟨_, _, rfl⟩
  · split
    next hcreate =>
      rw [createSession_error hcreate]
      exact ⟨_, _, rfl⟩
    next w₁ hcreate =>
      rw [(createSession_ok hcreate).2]
      obtain ⟨_, ha⟩ := addSessionParticipant_frame
        { w with sessions := w.sessions.insert newId { sessionType, name } } newId a none
      obtain ⟨_, hb⟩ := addSessionParticipant_frame
        { w with sessions := w.sessions.insert newId { sessionType, name }, participants := _ }
        newId b none
      rw [ha]
      exact ⟨_, _, hb⟩

variable {sessionType : String}

theorem findOrCreateDmSession_agents {name newId : String} {a b : Identity} :
    (w.findOrCreateDmSession sessionType name a b newId pick).2.agents = w.agents := by
  obtain ⟨_, _, h⟩ := findOrCreateDmSession_frame w sessionType name a b newId pick
  rw [h]

theorem mem_dmSessions {a b : Identity} :
    sid ∈ w.dmSessions sessionType a b ↔
      (∃ s, w.sessions.lookup sid = some s ∧ s.sessionType = sessionType ∧ s.status = "active") ∧
        w.participates sid a ∧ w.participates sid b := by
  unfold World.dmSessions
  rw [List.mem_filter]
  simp only [decide_eq_true_eq, Option.any_eq_true]
  refine and_iff_right_of_imp ?_
  rintro ⟨⟨s, hs, -⟩, -⟩
  exact AList.mem_keys.2 (lookup_isSome.1 (by rw [hs]; rfl))

theorem mem_roleSessions {roleId agentId : String} : sid ∈ w.roleSessions roleId agentId ↔
    (∃ s, w.sessions.lookup sid = some s ∧ s.targetRoleId = some roleId ∧ s.status = "active") ∧
      w.participates sid ("agent", agentId) := by
  unfold World.roleSessions
  rw [List.mem_filter]
  simp only [decide_eq_true_eq, Option.any_eq_true]
  refine and_iff_right_of_imp ?_
  rintro ⟨⟨s, hs, -⟩, -⟩
  exact AList.mem_keys.2 (lookup_isSome.1 (by rw [hs]; rfl))

theorem findOrCreateDmSession_cases {name newId : String} {a b : Identity}
     {r : Except Failure (String × Bool)} {w' : World}
    (h : w.findOrCreateDmSession sessionType name a b newId pick = (r, w')) :
    (∃ id ∈ w.dmSessions sessionType a b, r = .ok (id, false) ∧ w' = w) ∨
    (∃ e, r = .error e ∧ w' = w) ∨
    (r = .ok (newId, true) ∧ w.dmSessions sessionType a b = [] ∧ w.sessions.lookup newId = none ∧
      w'.sessions = w.sessions.insert newId { sessionType, name } ∧
      (∀ id j, w.participates id j → w'.participates id j) ∧
      (∀ id j, w'.participates id j → w.participates id j ∨ id = newId ∧ (j = a ∨ j = b)) ∧
      (a.1 ∈ World.KINDS → w'.participates newId a) ∧
      (b.1 ∈ World.KINDS → w'.participates newId b)) := by
  unfold World.findOrCreateDmSession at h
  split at h
  next id hid =>
    obtain ⟨rfl, rfl⟩ := Prod.mk.inj h
    exact .inl ⟨id, choose_mem hid, rfl, rfl⟩
  next hnone =>
    split at h
    next e w₁ hcreate =>
      obtain ⟨rfl, rfl⟩ := Prod.mk.inj h
      exact .inr (.inl ⟨e, rfl, createSession_error hcreate⟩)
    next w₁ hcreate =>
      obtain ⟨rfl, rfl⟩ := Prod.mk.inj h
      obtain ⟨hfresh, rfl⟩ := createSession_ok hcreate
      refine .inr (.inr ⟨rfl, choose_none.1 hnone, hfresh, ?_, ?_, ?_, ?_, ?_⟩)
      · rw [addSessionParticipant_sessions, addSessionParticipant_sessions]
      · intro id j hj
        exact participates_addSessionParticipant (participates_addSessionParticipant hj)
      · intro id j hj
        rcases addSessionParticipant_participates hj with hj | ⟨rfl, rfl, -⟩
        · rcases addSessionParticipant_participates hj with hj | ⟨rfl, rfl, -⟩
          · exact .inl hj
          · exact .inr ⟨rfl, .inl rfl⟩
        · exact .inr ⟨rfl, .inr rfl⟩
      · intro hkind
        exact participates_addSessionParticipant
          (joins_addSessionParticipant hkind (by simp))
      · intro hkind
        exact joins_addSessionParticipant hkind
          (by rw [addSessionParticipant_sessions]; simp)

theorem setIdeaSession_frame (w : World) (ideaId sid : String) :
    ∃ ideas, w.setIdeaSession ideaId sid = { w with ideas := ideas } := by
  unfold World.setIdeaSession
  split
  · exact ⟨_, rfl⟩
  · exact ⟨_, rfl⟩

theorem setIdeaSession_sessions {ideaId : String} :
    (w.setIdeaSession ideaId sid).sessions = w.sessions := by
  unfold World.setIdeaSession
  split <;> rfl

theorem setIdeaSession_participants {ideaId : String} :
    (w.setIdeaSession ideaId sid).participants = w.participants := by
  unfold World.setIdeaSession
  split <;> rfl

/-- The sessions and those who take part are as before, but for first messages. -/
structure SameSessions (w w' : World) : Prop where
  participants : w'.participants = w.participants
  isSome : ∀ id, (w.sessions.lookup id).isSome = true → (w'.sessions.lookup id).isSome = true
  session : ∀ id s', w'.sessions.lookup id = some s' →
    ∃ s, w.sessions.lookup id = some s ∧ SameSession s s'

/-- A session is new, and two take part in it at most. -/
structure NewSession (w w' : World) (sid : String) (s : Session) : Prop where
  fresh : w.sessions.lookup sid = none
  sessions : w'.sessions = w.sessions.insert sid s
  stay : ∀ id j, w.participates id j → w'.participates id j
  joined : ∃ a b, ∀ id j, w'.participates id j → w.participates id j ∨ id = sid ∧ (j = a ∨ j = b)

theorem Access.run_sessions (a : Access) (w : World) :
    SameSessions w (a.run w).2 ∨ (∃ sid who joinedBy, a = .addSessionParticipant sid who joinedBy) ∨
    ∃ sid s, NewSession w (a.run w).2 sid s ∧ (a = .createSession sid s ∨ s.targetRoleId = none) := by
  have hrefl (w : World) : SameSessions w w := ⟨rfl, fun _ hid => hid, fun _ s hs => ⟨s, hs, rfl⟩⟩
  cases a with
  | setIdeaSession ideaId sessionId =>
    left
    refine ⟨setIdeaSession_participants, fun id hid => ?_, fun id s hs => ⟨s, ?_, rfl⟩⟩
    · rwa [Access.run, setIdeaSession_sessions]
    · rwa [Access.run, setIdeaSession_sessions] at hs
  | findOrCreateDmSession sessionType name a b newId pick =>
    cases hfind : w.findOrCreateDmSession sessionType name a b newId pick with
    | mk r w' =>
      rw [Access.run, hfind]
      rcases findOrCreateDmSession_cases hfind with
        ⟨_, -, -, rfl⟩ | ⟨_, -, rfl⟩ | ⟨-, -, hfresh, hsessions, hstay, hpart, -, -⟩
      · exact .inl (hrefl _)
      · exact .inl (hrefl _)
      · exact .inr (.inr ⟨newId, _, ⟨hfresh, hsessions, hstay, a, b, hpart⟩, .inr rfl⟩)
  | createSession sessionId s =>
    cases hcreate : w.createSession sessionId s with
    | mk r w' =>
      rw [Access.run, hcreate]
      cases r with
      | error e =>
        rw [createSession_error hcreate]
        exact .inl (hrefl _)
      | ok u =>
        obtain ⟨hfresh, rfl⟩ := createSession_ok hcreate
        refine .inr (.inr ⟨sessionId, s, ⟨hfresh, rfl, fun _ _ hj => hj, ?_⟩, .inl rfl⟩)
        exact ⟨("", ""), ("", ""), fun _ _ hj => .inl hj⟩
  | addSessionParticipant sessionId who joinedBy =>
    exact .inr (.inl ⟨sessionId, who, joinedBy, rfl⟩)
  | appendMessageFrom sessionId role content fromKind fromId payloadKind =>
    left
    exact ⟨appendMessageFrom_participants _ _ _ _ _, fun _ => appendMessageFrom_isSome _ _ _ _ _,
      fun _ _ => appendMessageFrom_session _ _ _ _ _⟩
  | enqueueSpawn spawn => exact .inl ⟨rfl, fun _ hid => hid, fun _ s hs => ⟨s, hs, rfl⟩⟩
  | getIdea id | getRole id | activeByName name | findRoleSession roleId agentId pick =>
    exact .inl (hrefl w)

theorem World.Referential.nobody (h : w.Referential) (hnone : w.sessions.lookup sid = none) :
    ¬ w.participates sid who := by
  intro hwho
  have hsome := h sid who hwho
  rw [hnone] at hsome
  cases hsome

theorem World.Referential.run (h : w.Referential) (a : Access) : (a.run w).2.Referential := by
  intro id j hj
  rcases a.run_sessions w with hsame | ⟨sid, who, joinedBy, rfl⟩ | ⟨sid, s, hnew, -⟩
  · rw [World.participates, hsame.participants] at hj
    exact hsame.isSome id (h id j hj)
  · rw [Access.run, addSessionParticipant_sessions]
    rcases addSessionParticipant_participates hj with hj | ⟨rfl, -, hsome⟩
    · exact h id j hj
    · exact hsome
  · obtain ⟨a, b, hjoined⟩ := hnew.joined
    rw [hnew.sessions, lookup_isSome, mem_insert]
    rcases hjoined id j hj with hj | ⟨rfl, -⟩
    · exact .inr (lookup_isSome.1 (h id j hj))
    · exact .inl rfl

end Methods

end Aeqi.Messages
