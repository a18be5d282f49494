import Aeqi.Messages.Tenancy

/-!
# Addressed messages across tenants

Neither handler looks at the list of allowed entities. A request writes to its tenant only, and
its response says nothing of the rows of others, exactly when what it addresses is in scope.
-/

namespace Aeqi.Messages

open Aeqi.Lib Aeqi.Orchestrator Handler
open Access (run)

/-! ## What is claimed of a request -/

def Access.Confined (allowed : Option (List String)) : Access → World → Prop
  | .appendMessageFrom sid .., w => w.sessionInScope allowed sid = true
  | .addSessionParticipant sid who joinedBy, w =>
    (w.addSessionParticipant sid who joinedBy).1 = .ok true → w.sessionInScope allowed sid = true
  | .setIdeaSession ideaId _, w =>
    ∀ idea, w.ideas.lookup ideaId = some idea → w.ideaInScope allowed idea = true
  | .enqueueSpawn spawn, w => w.sessionInScope allowed spawn.sessionId = true
  | _, _ => True

/-- An id that is not in use yet. -/
structure World.Unused (w : World) (id : String) : Prop where
  session : w.sessions.lookup id = none
  participant : ∀ who, ¬ w.participates id who
  idea : ∀ ideaId idea, w.ideas.lookup ideaId = some idea → idea.sessionId ≠ some id

/-- A request that writes to its tenant only, and whose response is the same when the rows
outside are others. -/
abbrev Scoped {α : Type} (allowed : Option (List String)) (fresh : World → Prop)
    (handle : Routine α) (w : World) : Prop :=
  Isolated run (Access.Confined allowed) (World.within allowed) fresh handle w

/-! ## The condition -/

/-- The fields that every request has. -/
structure MessageTo.Asks (req : MessageTo) (kind id body : String) : Prop where
  kind : requestField req.targetKind = some kind
  id : requestField req.targetId = some id
  body : requestField req.body = some body

/-- The text cannot be cut for `first_message`: there is no response. -/
def MessageTo.CutInside (req : MessageTo) (body : String) : Prop :=
  roleForFromKind req.senderKind = "user" ∧ body ≠ "" ∧ sliceTo 200 body.toList = none

instance (req : MessageTo) (body : String) : Decidable (req.CutInside body) :=
  inferInstanceAs (Decidable (_ ∧ _ ∧ _))

def World.identityInScope (allowed : Option (List String)) (w : World) (who : Identity) : Prop :=
  who.1 = "agent" ∧ w.checkAgentAccess allowed who.2 = true

def MessageTo.PairInScope (allowed : Option (List String)) (req : MessageTo) (w : World)
    (sessionType : String) (target : Identity) (body : String) : Prop :=
  let caller : Identity := ("agent", req.senderId.getD "")
  w.identityInScope allowed caller ∨ w.identityInScope allowed target ∨
    req.CutInside body ∧ ∃ sid, choose req.pick (w.dmSessions sessionType caller target) = some sid ∧
      w.sessionInScope allowed sid = true

def MessageTo.InScope (allowed : Option (List String)) (req : MessageTo) (w : World) : Prop :=
  ∀ kind id body, req.Asks kind id body →
    (kind = "session" → w.sessionInScope allowed id = true) ∧
    (kind = "idea" → ∃ idea, w.ideas.lookup id = some idea ∧ w.ideaInScope allowed idea = true) ∧
    (kind = "role" → w.roleInScope allowed id = true) ∧
    (kind = "agent" → req.PairInScope allowed w "agent_agent_dm" ("agent", id) body) ∧
    (kind = "user" → req.PairInScope allowed w "agent_user_dm" ("user", id) body)

/-! ## Responses -/

section Responses

variable {α β : Type} {w : World} {ctx : Ctx} {req : MessageTo} {sid id body newId : String}

theorem alone_act {a : Access} {f : a.Reply → Routine α} :
    alone run (act a >>= f) w = alone run (f (a.run w).1) (a.run w).2 := rfl

theorem reply_act {a : Access} {f : a.Reply → Routine α} :
    (alone run (act a >>= f) w).1 = (alone run (f (a.run w).1) (a.run w).2).1 := rfl

theorem reply_give {x : Except Failure β} {f : β → Routine α} :
    (alone run (give x >>= f) w).1 = x.bind fun y => (alone run (f y) w).1 := by
  cases x <;> rfl

/-- The response to a message that reaches a session, the next id being `n`. -/
def MessageTo.delivered (req : MessageTo) (sid body : String) (n : Nat) : Except Failure Sent :=
  if req.CutInside body then .error .panic else .ok ⟨sid, n⟩

theorem delivered_ne_message {n : Nat} {error : String} :
    req.delivered sid body n ≠ .error (.message error) := by
  unfold MessageTo.delivered
  split <;> simp

theorem appendMessageFrom_reply {payloadKind : Option String} :
    (w.appendMessageFrom sid (roleForFromKind req.senderKind) body req.senderKind req.senderId
      payloadKind).1 = if req.CutInside body then .error .panic else .ok w.nextMessageId := by
  unfold World.appendMessageFrom
  split
  next huser =>
    cases hslice : sliceTo 200 body.toList with
    | none => rw [if_pos ⟨huser.1, huser.2, hslice⟩]
    | some first =>
      rw [if_neg fun hcut => by cases hslice.symm.trans hcut.2.2]
      dsimp only
      split <;> rfl
  next huser => rw [if_neg fun hcut => huser ⟨hcut.1, hcut.2.1⟩]

theorem reply_deliver : (alone run (deliver req sid body) w).1 =
    req.delivered sid body w.nextMessageId := by
  refine reply_act.trans (reply_give.trans ?_)
  change Except.bind (w.appendMessageFrom _ _ _ _ _ _).1 _ = _
  rw [appendMessageFrom_reply]
  unfold MessageTo.delivered
  split <;> rfl

theorem ends_wireMentions (mentions : List MentionRef) :
    Ends (alone run (wireMentions ctx sid body mentions)) w (fun _ _ => True) fun _ => False := by
  induction mentions generalizing w with
  | nil => trivial
  | cons m mentions ih =>
    have hresolve : ∀ w, Ends (alone run (resolveMention m)) w (fun _ _ => True)
        fun _ => False := by
      intro w
      unfold resolveMention
      split
      · trivial
      · split
        · exact ends_alone_bind.2 (ends_alone_perform.2 trivial)
        · trivial
    refine ends_alone_bind.2 ((hresolve w).mono (fun who w₁ _ => ?_) fun _ h => h)
    cases who with
    | none => exact ih
    | some who =>
      refine ends_alone_bind.2 (ends_alone_perform.2 ?_)
      split
      · exact ends_alone_bind.2 (ends_alone_perform.2 ih)
      · exact ih

theorem reply_deliverAndWire : (alone run (deliverAndWire ctx req sid body) w).1 =
    req.delivered sid body w.nextMessageId := by
  unfold deliverAndWire
  rw [alone_bind, ← reply_deliver (w := w)]
  generalize alone run (deliver req sid body) w = ended
  rcases ended with ⟨e | -, w'⟩
  · rfl
  · dsimp only
    rw [alone_bind]
    have hwired : Ends (alone run (wireAtMentionsInMessage ctx sid body)) w' (fun _ _ => True)
        fun _ => False := ends_wireMentions _
    unfold Ends at hwired
    split at hwired
    · rfl
    · exact absurd hwired id

theorem handleMessageTo_refused (h : ∀ kind id body, ¬ req.Asks kind id body) :
    ∃ e, handleMessageTo ctx req = give (.error e) := by
  unfold handleMessageTo required
  cases hkind : requestField req.targetKind with
  | none => exact ⟨_, rfl⟩
  | some kind =>
    cases hid : requestField req.targetId with
    | none => exact ⟨_, rfl⟩
    | some id =>
      cases hbody : requestField req.body with
      | none => exact ⟨_, rfl⟩
      | some body => exact absurd ⟨hkind, hid, hbody⟩ (h kind id body)

theorem handleMessageTo_asks {kind : String} (h : req.Asks kind id body) :
    handleMessageTo ctx req = if kind = "session" then deliverAndWire ctx req id body
      else if kind = "idea" then ideaSession req id >>= fun sid => deliverAndWire ctx req sid body
      else if kind = "role" then messageToRole req id body
      else if kind = "agent" then messageToDm ctx req "agent_agent_dm" "agent" id body
      else if kind = "user" then messageToDm ctx req "agent_user_dm" "user" id body
      else give (.error (.message ("unknown target_kind: " ++ kind))) := by
  unfold handleMessageTo required
  rw [h.kind, h.id, h.body]
  rfl

theorem createSession_unused {s : Session} (h : w.Unused newId) :
    w.createSession newId s = (.ok (), { w with sessions := w.sessions.insert newId s }) := by
  unfold World.createSession
  rw [if_neg (by rw [h.session]; exact Bool.false_ne_true)]

theorem reply_idea (hnew : w.Unused req.newId) :
    (alone run (ideaSession req id >>= fun sid => deliverAndWire ctx req sid body) w).1 =
      match w.ideas.lookup id with
      | none => .error (.message "idea not found")
      | some idea => req.delivered (idea.sessionId.getD req.newId) body w.nextMessageId := by
  have hread : alone run (ideaSession req id) w =
      alone run (give (okOr (w.ideas.lookup id) (.message "idea not found")) >>= _) w := rfl
  rw [alone_bind]
  cases hidea : w.ideas.lookup id with
  | none =>
    rw [hidea] at hread
    rw [hread]
    rfl
  | some idea =>
    rw [hidea] at hread
    obtain ⟨name, agentId, sessionId, content, tags, status, createdAt, parentIdeaId, properties⟩ := idea
    cases sessionId with
    | some sid =>
      rw [hread]
      exact reply_deliverAndWire
    | none =>
      have hcreate : alone run (ideaSession req id) w = alone run
          (give (w.createSession req.newId { sessionType := "idea", name := "idea:" ++ name }).1 >>= _)
          (w.createSession req.newId { sessionType := "idea", name := "idea:" ++ name }).2 := hread
      rw [createSession_unused hnew] at hcreate
      rw [hcreate]
      refine reply_deliverAndWire.trans ?_
      change req.delivered req.newId body (World.setIdeaSession _ id req.newId).nextMessageId = _
      obtain ⟨ideas, hframe⟩ := setIdeaSession_frame _ id req.newId
      rw [hframe]
      rfl

theorem addSessionParticipant_next (who : Identity) (joinedBy : Option String) :
    (w.addSessionParticipant sid who joinedBy).2.nextMessageId = w.nextMessageId := by
  obtain ⟨_, h⟩ := addSessionParticipant_frame w sid who joinedBy
  rw [h]

def MessageTo.roleSid (req : MessageTo) (w : World) (roleId : String) : String :=
  (req.senderId.bind fun callerId => choose req.pick (w.roleSessions roleId callerId)).getD req.newId

theorem alone_roleSession (hnew : w.Unused req.newId) :
    ∃ w', alone run (roleSession req id) w = (.ok (req.roleSid w id), w') ∧
      w'.nextMessageId = w.nextMessageId := by
  unfold roleSession MessageTo.roleSid
  cases req.senderId with
  | none =>
    have hcreate : alone run (newRoleSession req id >>= fun _ => pure req.newId) w =
        alone run (give (w.createSession req.newId _).1 >>= fun _ => pure req.newId)
          (w.createSession req.newId _).2 := rfl
    rw [createSession_unused hnew] at hcreate
    exact ⟨_, hcreate, rfl⟩
  | some callerId =>
    rw [Option.bind_some]
    cases hfound : choose req.pick (w.roleSessions id callerId) with
    | some sid =>
      refine ⟨w, alone_act.trans ?_, rfl⟩
      rw [show ((Access.findRoleSession id callerId req.pick).run w).1 = some sid from hfound]
      rfl
    | none =>
      have hcreate : alone run (newRoleSession req id >>= fun _ =>
          act (.addSessionParticipant req.newId ("agent", callerId) none) >>= fun _ => pure req.newId) w =
          alone run (give (w.createSession req.newId _).1 >>= fun _ =>
            act (.addSessionParticipant req.newId ("agent", callerId) none) >>= fun _ => pure req.newId)
            (w.createSession req.newId _).2 := rfl
      rw [createSession_unused hnew] at hcreate
      let s : Session := { sessionType := "role", name := "role:" ++ id, targetRoleId := some id }
      refine ⟨(World.addSessionParticipant { w with sessions := w.sessions.insert req.newId s }
        req.newId ("agent", callerId) none).2, alone_act.trans ?_, addSessionParticipant_next _ _⟩
      rw [show ((Access.findRoleSession id callerId req.pick).run w).1 = none from hfound]
      exact hcreate

theorem reply_role (hnew : w.Unused req.newId) :
    (alone run (messageToRole req id body) w).1 = match w.roles.lookup id with
      | none => .error (.message "role not found")
      | some role =>
        match occupantIdentity role with
        | none => .error (.message "role has no occupant")
        | some _ => req.delivered (req.roleSid w id) body w.nextMessageId := by
  have hread : (alone run (messageToRole req id body) w).1 = (alone run
      (give (okOr (w.roles.lookup id) (.message "role not found")) >>= _) w).1 := rfl
  rw [hread]
  cases w.roles.lookup id with
  | none => rfl
  | some role =>
    change (alone run
      (give (okOr (occupantIdentity role) (.message "role has no occupant")) >>= _) w).1 = _
    dsimp only
    cases occupantIdentity role with
    | none => rfl
    | some who =>
      change (alone run (roleSession req id >>= fun sid =>
        act (.addSessionParticipant sid who none) >>= fun _ => deliver req sid body) w).1 = _
      obtain ⟨w', hsession, hnext⟩ : ∃ w', alone run (roleSession req id) w =
          (.ok (req.roleSid w id), w') ∧ w'.nextMessageId = w.nextMessageId := alone_roleSession hnew
      rw [alone_bind, hsession]
      refine (reply_act.trans reply_deliver).trans ?_
      rw [← hnext]
      exact congrArg (req.delivered (req.roleSid w id) body) (addSessionParticipant_next who none)

def MessageTo.dmSid (req : MessageTo) (w : World) (sessionType : String) (target : Identity) : String :=
  (choose req.pick (w.dmSessions sessionType ("agent", req.senderId.getD "") target)).getD req.newId

theorem findOrCreateDmSession_unused {sessionType name : String} {a b : Identity} {pick : Nat}
    (hnew : w.Unused newId) : ∃ created w',
      w.findOrCreateDmSession sessionType name a b newId pick =
        (.ok ((choose pick (w.dmSessions sessionType a b)).getD newId, created), w') ∧
      w'.nextMessageId = w.nextMessageId := by
  unfold World.findOrCreateDmSession
  cases choose pick (w.dmSessions sessionType a b) with
  | some sid => exact ⟨_, _, rfl, rfl⟩
  | none =>
    rw [createSession_unused hnew]
    exact ⟨_, _, rfl, (addSessionParticipant_next b none).trans (addSessionParticipant_next a none)⟩

theorem reply_dm {sessionType kind : String} (hnew : w.Unused req.newId) :
    (alone run (messageToDm ctx req sessionType kind id body) w).1 =
      req.delivered (req.dmSid w sessionType (kind, id)) body w.nextMessageId := by
  obtain ⟨created, w', hfound, hnext⟩ : ∃ created w', (Access.findOrCreateDmSession sessionType
      ("dm:agent:" ++ req.senderId.getD "unknown" ++ ":" ++ kind ++ ":" ++ id)
      ("agent", req.senderId.getD "") (kind, id) req.newId req.pick).run w =
        (.ok (req.dmSid w sessionType (kind, id), created), w') ∧ w'.nextMessageId = w.nextMessageId :=
    findOrCreateDmSession_unused hnew
  unfold messageToDm
  rw [reply_act, hfound, ← hnext]
  exact reply_deliverAndWire

end Responses

/-! ## What is found in scope -/

section Found

variable {allowed : Option (List String)} {w w' : World} {sid roleId agentId sessionType : String}
  {a b : Identity}

theorem sessionInScope_of_role {s : Session} (hs : w.sessions.lookup sid = some s)
    (hrole : s.targetRoleId = some roleId) (hscope : w.roleInScope allowed roleId = true) :
    w.sessionInScope allowed sid = true := by
  refine World.sessionInScope_iff.2 (.inl ⟨s, hs, ?_⟩)
  unfold World.rowInScope
  simp [hrole, hscope]

theorem sessionInScope_of_identity {s : Session} (hs : w.sessions.lookup sid = some s)
    (htype : s.sessionType ∈ DM_TYPES) (ha : w.participates sid a)
    (hscope : w.identityInScope allowed a) : w.sessionInScope allowed sid = true := by
  refine World.sessionInScope_iff.2 (.inl ⟨s, hs, ?_⟩)
  have hagent : w.agentTakesPart allowed sid = true := by
    refine World.agentTakesPart_iff.2 ⟨a.2, ?_, hscope.2⟩
    rw [← hscope.1]
    exact ha
  unfold World.rowInScope
  simp [htype, hagent]

theorem sessionInScope_of_roleSessions (hscope : w.roleInScope allowed roleId = true)
    (hsid : sid ∈ w.roleSessions roleId agentId) : w.sessionInScope allowed sid = true := by
  obtain ⟨⟨s, hs, hrole, -⟩, -⟩ := mem_roleSessions.1 hsid
  exact sessionInScope_of_role hs hrole hscope

theorem sessionInScope_of_dmSessions (htype : sessionType ∈ DM_TYPES)
    (hscope : w.identityInScope allowed a ∨ w.identityInScope allowed b)
    (hsid : sid ∈ w.dmSessions sessionType a b) : w.sessionInScope allowed sid = true := by
  obtain ⟨⟨s, hs, rfl, -⟩, ha, hb⟩ := mem_dmSessions.1 hsid
  rcases hscope with hscope | hscope
  · exact sessionInScope_of_identity hs htype ha hscope
  · exact sessionInScope_of_identity hs htype hb hscope

variable (h : w'.within allowed = w.within allowed)
include h

theorem identityInScope_congr : w'.identityInScope allowed a ↔ w.identityInScope allowed a := by
  unfold World.identityInScope
  rw [World.checkAgentAccess_congr h]

theorem roleSessions_congr (hscope : w.roleInScope allowed roleId = true) :
    w'.roleSessions roleId agentId = w.roleSessions roleId agentId := by
  refine World.filter_sessions_congr h (r := fun v sid =>
    ((v.sessions.lookup sid).any fun s => s.targetRoleId = some roleId ∧ s.status = "active") ∧
      v.participates sid ("agent", agentId)) ?_ ?_
  · intro v hv sid hr
    have hv : v.roleInScope allowed roleId = true := by
      rcases hv with rfl | rfl
      · exact hscope
      · rwa [World.roleInScope_congr h]
    simp only [decide_eq_true_eq, Option.any_eq_true] at hr
    obtain ⟨⟨s, hs, hrole, -⟩, -⟩ := hr
    exact sessionInScope_of_role hs hrole hv
  · intro sid hsid
    simp [World.session_congr h hsid, World.participates_congr h hsid]

theorem dmSessions_congr (htype : sessionType ∈ DM_TYPES)
    (hscope : w.identityInScope allowed a ∨ w.identityInScope allowed b) :
    w'.dmSessions sessionType a b = w.dmSessions sessionType a b := by
  refine World.filter_sessions_congr h (r := fun v sid =>
    ((v.sessions.lookup sid).any fun s => s.sessionType = sessionType ∧ s.status = "active") ∧
      v.participates sid a ∧ v.participates sid b) ?_ ?_
  · intro v hv sid hr
    have hv : v.identityInScope allowed a ∨ v.identityInScope allowed b := by
      rcases hv with rfl | rfl
      · exact hscope
      · rwa [identityInScope_congr h, identityInScope_congr h]
    simp only [decide_eq_true_eq, Option.any_eq_true] at hr
    obtain ⟨⟨s, hs, hactive⟩, hwho⟩ := hr
    have hmem : sid ∈ v.dmSessions sessionType a b := mem_dmSessions.2 ⟨⟨s, hs, hactive⟩, hwho⟩
    exact sessionInScope_of_dmSessions htype hv hmem
  · intro sid hsid
    simp [World.session_congr h hsid, World.participates_congr h hsid]

end Found

/-! ## Requests for what is in scope -/

section InScope

variable {allowed : Option (List String)} {w w' : World} {ctx : Ctx} {req : MessageTo}
  {sid id body kind sessionType : String}

theorem reply_dm_congr (htype : sessionType ∈ DM_TYPES) (hnew : w.Unused req.newId)
    (hpair : req.PairInScope allowed w sessionType (kind, id) body)
    (h : w'.within allowed = w.within allowed) (hnew' : w'.Unused req.newId) :
    (alone run (messageToDm ctx req sessionType kind id body) w').1 =
      (alone run (messageToDm ctx req sessionType kind id body) w).1 := by
  rw [reply_dm hnew, reply_dm hnew', World.nextMessageId_congr h]
  have hfound : ∀ hscope : w.identityInScope allowed ("agent", req.senderId.getD "") ∨
      w.identityInScope allowed (kind, id), req.dmSid w' sessionType (kind, id) =
        req.dmSid w sessionType (kind, id) := by
    intro hscope
    unfold MessageTo.dmSid
    rw [dmSessions_congr h htype hscope]
  rcases hpair with hcaller | htarget | ⟨hcut, -⟩
  · rw [hfound (.inl hcaller)]
  · rw [hfound (.inr htarget)]
  · unfold MessageTo.delivered
    rw [if_pos hcut, if_pos hcut]

theorem reply_messageTo_congr (hscope : req.InScope allowed w) (hnew : w.Unused req.newId)
    (h : w'.within allowed = w.within allowed) (hnew' : w'.Unused req.newId) :
    (alone run (handleMessageTo ctx req) w').1 = (alone run (handleMessageTo ctx req) w).1 := by
  by_cases hasks : ∃ kind id body, req.Asks kind id body
  · obtain ⟨kind, id, body, hasks⟩ := hasks
    obtain ⟨-, hidea, hrole, hagent, huser⟩ := hscope kind id body hasks
    rw [handleMessageTo_asks hasks]
    split
    · rw [reply_deliverAndWire, reply_deliverAndWire, World.nextMessageId_congr h]
    · split
      next hkind =>
        obtain ⟨idea, hidea, hin⟩ := hidea hkind
        rw [reply_idea hnew, reply_idea hnew', hidea, World.idea_congr h hidea hin,
          World.nextMessageId_congr h]
      · split
        next hkind =>
          have hin := hrole hkind
          have hsid : req.roleSid w' id = req.roleSid w id := by
            unfold MessageTo.roleSid
            simp [roleSessions_congr h hin]
          rw [reply_role hnew, reply_role hnew', World.role_congr h hin, hsid,
            World.nextMessageId_congr h]
        · split
          next hkind => exact reply_dm_congr (by decide) hnew (hagent hkind) h hnew'
          · split
            next hkind => exact reply_dm_congr (by decide) hnew (huser hkind) h hnew'
            · rfl
  · obtain ⟨e, hrefused⟩ : ∃ e, handleMessageTo ctx req = give (.error e) :=
      handleMessageTo_refused fun kind id body hreq => hasks ⟨kind, id, body, hreq⟩
    rw [hrefused]
    rfl

/-! ### What they write to -/

theorem leads_deliverAndWire_inScope (hsid : w.sessionInScope allowed sid = true) :
    Leads run (Access.Confined allowed) (deliverAndWire ctx req sid body) w fun _ _ => True := by
  refine leads_deliverAndWire hsid ?_
  refine (leads_wireMentions (P := fun w => w.sessionInScope allowed sid = true) (fun _ _ => trivial) ?_ ?_
    (World.sessionInScope_appendMessageFrom _ _ _ _ _ hsid)).mono fun _ _ _ => trivial
  · intro m _ w who hin _
    exact ⟨fun _ => hin, World.sessionInScope_addSessionParticipant hin⟩
  · exact fun _ w hin => ⟨hin, World.sessionInScope_mono hin (fun s hs => ⟨s, hs, rfl⟩)
      (fun _ hwho => hwho) rfl rfl rfl⟩

theorem sessionInScope_of_idea {idea : Idea} (hidea : w.ideas.lookup id = some idea)
    (hin : w.ideaInScope allowed idea = true) (hsid : idea.sessionId = some sid) :
    w.sessionInScope allowed sid = true :=
  World.sessionInScope_iff.2 (.inr (World.ofIdeaInScope_iff.2 ⟨id, idea, hidea, hin, hsid⟩))

theorem leads_ideaSession_inScope {idea : Idea} (hidea : w.ideas.lookup id = some idea)
    (hin : w.ideaInScope allowed idea = true) :
    Leads run (Access.Confined allowed) (ideaSession req id) w
      fun sid w' => w'.sessionInScope allowed sid = true := by
  refine leads_bind.2 (leads_act.2 ⟨trivial, leads_bind.2 (leads_give.2 fun found hfound => ?_)⟩)
  cases hidea.symm.trans (okOr_eq_ok.1 hfound)
  split
  next sid hsid => exact leads_pure.2 (sessionInScope_of_idea hidea hin hsid)
  next hnone =>
    refine leads_bind.2 (leads_act.2 ⟨trivial, leads_bind.2 (leads_give.2 fun _ _ => ?_)⟩)
    obtain ⟨sessions, hframe⟩ := createSession_frame w req.newId
      { sessionType := "idea", name := "idea:" ++ idea.name }
    change Leads _ _ _ (w.createSession req.newId _).2 _
    rw [hframe]
    refine leads_bind.2 (leads_act.2 ⟨fun idea' hidea' => ?_, leads_pure.2 ?_⟩)
    · cases hidea.symm.trans hidea'
      exact hin
    · change (World.setIdeaSession _ id req.newId).sessionInScope allowed req.newId = true
      unfold World.setIdeaSession
      rw [hidea]
      have hset : (w.ideas.insert id { idea with sessionId := some req.newId }).lookup id =
          some { idea with sessionId := some req.newId } := AList.lookup_insert _
      exact sessionInScope_of_idea hset hin rfl

theorem leads_roleSession_inScope (hin : w.roleInScope allowed id = true) :
    Leads run (Access.Confined allowed) (roleSession req id) w
      fun sid w' => w'.sessionInScope allowed sid = true := by
  have hcreated : Leads run (Access.Confined allowed) (newRoleSession req id) w
      fun _ w' => w'.sessionInScope allowed req.newId = true := by
    refine leads_bind.2 (leads_act.2 ⟨trivial, leads_give.2 fun _ hok => ?_⟩)
    refine sessionInScope_of_role (lookup_createSession hok) rfl ?_
    obtain ⟨sessions, hframe⟩ := createSession_frame w req.newId
      { sessionType := "role", name := "role:" ++ id, targetRoleId := some id }
    change (w.createSession req.newId _).2.roleInScope allowed id = true
    rw [hframe]
    exact hin
  unfold roleSession
  split
  next callerId _ =>
    refine leads_bind.2 (leads_act.2 ⟨trivial, ?_⟩)
    split
    next sid hfound => exact leads_pure.2 (sessionInScope_of_roleSessions hin (choose_mem hfound))
    next =>
      refine leads_bind.2 (hcreated.mono fun _ w₁ hscope => leads_bind.2 (leads_act.2 ⟨fun _ => hscope, ?_⟩))
      exact leads_pure.2 (World.sessionInScope_addSessionParticipant hscope)
  next => exact leads_bind.2 (hcreated.mono fun _ _ hscope => leads_pure.2 hscope)

theorem leads_messageToRole_inScope (hin : w.roleInScope allowed id = true) :
    Leads run (Access.Confined allowed) (messageToRole req id body) w fun _ _ => True := by
  refine leads_bind.2 (leads_act.2 ⟨trivial, leads_bind.2 (leads_give.2 fun role _ => ?_)⟩)
  refine leads_bind.2 (leads_give.2 fun who _ => leads_bind.2 ?_)
  refine (leads_roleSession_inScope hin).mono fun sid w₁ hscope => ?_
  refine leads_bind.2 (leads_act.2 ⟨fun _ => hscope, ?_⟩)
  exact leads_deliver (World.sessionInScope_addSessionParticipant hscope) trivial

theorem sessionInScope_findOrCreateDm {name newId : String} {a b : Identity} {pick : Nat}
    {created : Bool} (htype : sessionType ∈ DM_TYPES)
    (hpair : w.identityInScope allowed a ∨ w.identityInScope allowed b ∨
      ∃ sid, choose pick (w.dmSessions sessionType a b) = some sid ∧ w.sessionInScope allowed sid = true)
    (hfound : w.findOrCreateDmSession sessionType name a b newId pick = (.ok (sid, created), w')) :
    w'.sessionInScope allowed sid = true := by
  have hagents : w'.agents = w.agents := by
    have hsame : (w.findOrCreateDmSession sessionType name a b newId pick).2.agents = w.agents :=
      findOrCreateDmSession_agents
    rwa [hfound] at hsame
  rcases findOrCreateDmSession_cases hfound with
    ⟨id, hid, hr, rfl⟩ | ⟨e, hr, -⟩ | ⟨hr, hnone, -, hsessions, -, -, ha, hb⟩
  · cases hr
    rcases hpair with hcaller | htarget | ⟨sid', hchosen, hin⟩
    · exact sessionInScope_of_dmSessions htype (.inl hcaller) hid
    · exact sessionInScope_of_dmSessions htype (.inr htarget) hid
    · unfold World.findOrCreateDmSession at hfound
      rw [hchosen] at hfound
      cases hfound
      exact hin
  · cases hr
  · cases hr
    have hsession : w'.sessions.lookup sid = some { sessionType, name } := by
      rw [hsessions]
      exact AList.lookup_insert _
    have hmoved : ∀ who, w.identityInScope allowed who → w'.identityInScope allowed who := by
      intro who hwho
      unfold World.identityInScope World.checkAgentAccess at ⊢
      rwa [hagents]
    have hkind : ∀ who : Identity, w.identityInScope allowed who → who.1 ∈ World.KINDS := by
      intro who hwho
      rw [hwho.1]
      decide
    rcases hpair with hcaller | htarget | ⟨sid', hchosen, -⟩
    · exact sessionInScope_of_identity hsession htype (ha (hkind a hcaller)) (hmoved a hcaller)
    · exact sessionInScope_of_identity hsession htype (hb (hkind b htarget)) (hmoved b htarget)
    · rw [hnone] at hchosen
      cases hchosen

theorem leads_messageToDm_inScope (htype : sessionType ∈ DM_TYPES)
    (hpair : req.PairInScope allowed w sessionType (kind, id) body) :
    Leads run (Access.Confined allowed) (messageToDm ctx req sessionType kind id body) w
      fun _ _ => True := by
  refine leads_bind.2 (leads_act.2 ⟨trivial, leads_bind.2 (leads_give.2 fun found hfound => ?_)⟩)
  obtain ⟨sid, created⟩ := found
  refine leads_deliverAndWire_inScope (sessionInScope_findOrCreateDm htype
    (hpair.imp_right fun hpair => hpair.imp_right And.right) (Prod.ext hfound rfl))

theorem messageTo_scoped (hscope : req.InScope allowed w) (hnew : w.Unused req.newId) :
    Scoped allowed (·.Unused req.newId) (handleMessageTo ctx req) w := by
  refine ⟨(leads_handleMessageTo (q := fun _ _ => True) fun kind id body hkind hid hbody => ?_).1,
    fun w' h hnew' => reply_messageTo_congr hscope hnew h hnew'⟩
  obtain ⟨hsession, hidea, hrole, hagent, huser⟩ := hscope kind id body ⟨hkind, hid, hbody⟩
  refine ⟨fun hk => leads_deliverAndWire_inScope (hsession hk), fun hk => ?_,
    fun hk => leads_messageToRole_inScope (hrole hk),
    fun hk => leads_messageToDm_inScope (by decide) (hagent hk),
    fun hk => leads_messageToDm_inScope (by decide) (huser hk)⟩
  obtain ⟨idea, hidea, hin⟩ := hidea hk
  exact leads_bind.2 ((leads_ideaSession_inScope hidea hin).mono fun sid w₁ hsid =>
    leads_deliverAndWire_inScope hsid)

end InScope

end Aeqi.Messages
