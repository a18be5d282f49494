import Aeqi.Messages.Address

/-!
# Direct messages

A message to an agent or a user goes to a session of its type that both parties take part in.
It is between the two as long as no third party joins such a session, the sender is an agent,
and an agent that writes to itself takes part in no other one (`direct_messages_private`).
-/

namespace Aeqi.Messages

open Aeqi.Lib Aeqi.Orchestrator Handler List
open Access (run)

/-! ## Runs -/

inductive Call
  | messageTo (req : MessageTo)
  | addParticipant (req : AddParticipant)
  /-- The tools of the agents look a direct session up themselves. -/
  | findOrCreateDm (sessionType name : String) (a b : Identity) (newId : String) (pick : Nat)

def Call.exec (ctx : Ctx) (w : World) : Call → Except Unit World
  | .messageTo req => .ok (alone run (handleMessageTo ctx req) w).2
  | .addParticipant req => .ok (alone run (handleAddParticipant req) w).2
  | .findOrCreateDm sessionType name a b newId pick =>
    .ok (w.findOrCreateDmSession sessionType name a b newId pick).2

def DM_TYPES : List String := ["agent_agent_dm", "agent_user_dm"]

namespace World

variable (w : World)

/-- The session is a direct one, and not closed. -/
def IsDm (sid : String) : Prop :=
  ∃ s, w.sessions.lookup sid = some s ∧ s.sessionType ∈ DM_TYPES ∧ s.status = "active"

def Mentions (ctx : Ctx) (body : String) (who : Identity) : Prop :=
  ∃ m ∈ parseMentions ctx.toLowercase body, w.mentioned m = some who

/-- Exactly these two take part. -/
def Between (sid : String) (a b : Identity) : Prop :=
  ∀ who, w.participates sid who ↔ who = a ∨ who = b

end World

def AtMostTwo (p : Identity → Prop) : Prop := ∃ a b, ∀ who, p who → who = a ∨ who = b

/-! ## What is claimed of a message -/

/-- The request is for an agent or a user. -/
def MessageTo.Direct (req : MessageTo) (target : Identity) : Prop :=
  (target.1 = "agent" ∨ target.1 = "user") ∧ requestField req.targetKind = some target.1 ∧
    requestField req.targetId = some target.2

def Appends (p : World → String → Prop) : Access → World → Prop
  | .appendMessageFrom sid .., w => p w sid
  | _, _ => True

/-- Whenever the handler appends, it appends between the caller and the target. -/
def Private (ctx : Ctx) (w : World) (req : MessageTo) (target : Identity) : Prop :=
  (handleMessageTo ctx req).run.Along run
    (Appends fun w' sid => ∃ caller, req.caller = some caller ∧ w'.Between sid caller target) w

/-! ## The condition -/

/-- Who takes part in a session, and who is mentioned in a text, are two at most. -/
def NoThird (ctx : Ctx) (w : World) (sid body : String) : Prop :=
  AtMostTwo fun who => w.participates sid who ∨ w.Mentions ctx body who

/-- An agent writes, no third party is mentioned, and an agent that writes to itself has no
direct session with another. -/
structure MessageTo.KeepsPrivate (ctx : Ctx) (w : World) (req : MessageTo) (target : Identity)
    (body callerId : String) : Prop where
  agent : req.senderKind = "agent"
  named : req.senderId = some callerId
  noThird : AtMostTwo fun who => who = ("agent", callerId) ∨ who = target ∨ w.Mentions ctx body who
  self : target = ("agent", callerId) → ∀ sid ∈ w.dmSessions "agent_agent_dm" target target,
    ∀ who, w.participates sid who → who = target

/-- No call makes a third party of a direct session. -/
def Call.Keeps (ctx : Ctx) (w : World) : Call → Prop
  | .messageTo req => ∀ kind id body, requestField req.targetKind = some kind →
      requestField req.targetId = some id → requestField req.body = some body →
      (kind = "session" → w.IsDm id → NoThird ctx w id body) ∧
      (kind = "idea" → ∀ idea sid, w.ideas.lookup id = some idea → idea.sessionId = some sid →
        w.IsDm sid → NoThird ctx w sid body) ∧
      (kind = "agent" ∨ kind = "user" → ∃ callerId, req.KeepsPrivate ctx w (kind, id) body callerId)
  | .addParticipant req => ∀ sid kind id, requestField req.sessionId = some sid →
      requestField req.identityKind = some kind → requestField req.identityId = some id →
      w.IsDm sid → kind ∈ World.KINDS → AtMostTwo fun who => w.participates sid who ∨ who = (kind, id)
  | .findOrCreateDm .. => True

/-! ## The invariant -/

/-- Two take part in a direct session at most, and it is not anchored on a role. -/
structure World.Kept (w : World) : Prop where
  known : w.Referential
  pair : ∀ sid, w.IsDm sid → AtMostTwo (w.participates sid)
  direct : ∀ sid s, w.sessions.lookup sid = some s → s.sessionType ∈ DM_TYPES →
    s.targetRoleId = none

/-- What keeps the invariant: nobody becomes a third party, and direct sessions are created by
the lookup only. -/
def Gentle : Access → World → Prop
  | .addSessionParticipant sid who _, w =>
    w.IsDm sid → who.1 ∈ World.KINDS → AtMostTwo fun j => w.participates sid j ∨ j = who
  | .createSession _ s, _ => s.sessionType ∉ DM_TYPES
  | _, _ => True

section Kept

variable {w w' : World} {sid : String}

theorem AtMostTwo.mono {p q : Identity → Prop} (h : AtMostTwo p) (hpq : ∀ who, q who → p who) :
    AtMostTwo q := by
  obtain ⟨a, b, hab⟩ := h
  exact ⟨a, b, fun who hq => hab who (hpq who hq)⟩

theorem World.Kept.of_same (h : w.Kept) (hknown : w'.Referential) (hsame : SameSessions w w') :
    w'.Kept where
  known := hknown
  pair := by
    rintro sid ⟨s', hs', hdm⟩
    obtain ⟨s, hs, hold⟩ := hsame.session sid s' hs'
    have hpair := h.pair sid ⟨s, hs, by rwa [← hold.type, ← hold.status]⟩
    refine hpair.mono fun who hwho => ?_
    rwa [World.participates, ← hsame.participants]
  direct := by
    intro sid s' hs' hdm
    obtain ⟨s, hs, hold⟩ := hsame.session sid s' hs'
    rw [hold.role]
    exact h.direct sid s hs (by rwa [← hold.type])

theorem World.Kept.join (h : w.Kept) {who : Identity} {joinedBy : Option String}
    (hknown : (w.addSessionParticipant sid who joinedBy).2.Referential)
    (htwo : w.IsDm sid → who.1 ∈ World.KINDS → AtMostTwo fun j => w.participates sid j ∨ j = who) :
    (w.addSessionParticipant sid who joinedBy).2.Kept where
  known := hknown
  pair := by
    rintro id ⟨s, hs, hdm⟩
    rw [addSessionParticipant_sessions] at hs
    by_cases hid : id = sid
    · subst hid
      by_cases hkind : who.1 ∈ World.KINDS
      · refine (htwo ⟨s, hs, hdm⟩ hkind).mono fun j hj => ?_
        rcases addSessionParticipant_participates hj with hj | ⟨-, rfl, -⟩
        · exact .inl hj
        · exact .inr rfl
      · rw [World.addSessionParticipant, if_pos (.inr hkind)]
        exact h.pair id ⟨s, hs, hdm⟩
    · refine (h.pair id ⟨s, hs, hdm⟩).mono fun j hj => ?_
      rcases addSessionParticipant_participates hj with hj | ⟨heq, -⟩
      · exact hj
      · exact absurd heq hid
  direct := by
    intro id s hs hdm
    rw [addSessionParticipant_sessions] at hs
    exact h.direct id s hs hdm

theorem World.Kept.found (h : w.Kept) {s : Session} (hknown : w'.Referential)
    (hnew : NewSession w w' sid s) (hrole : s.targetRoleId = none ∨ s.sessionType ∉ DM_TYPES) :
    w'.Kept where
  known := hknown
  pair := by
    rintro id ⟨s', hs', hdm⟩
    obtain ⟨a, b, hjoined⟩ := hnew.joined
    rw [hnew.sessions] at hs'
    rcases Accounts.lookup_insert_some hs' with ⟨rfl, rfl⟩ | ⟨hid, hold⟩
    · refine ⟨a, b, fun j hj => ?_⟩
      rcases hjoined id j hj with hj | ⟨-, hj⟩
      · exact absurd hj (h.known.nobody hnew.fresh)
      · exact hj
    · refine (h.pair id ⟨s', hold, hdm⟩).mono fun j hj => ?_
      rcases hjoined id j hj with hj | ⟨heq, -⟩
      · exact hj
      · exact absurd heq hid
  direct := by
    intro id s' hs' hdm
    rw [hnew.sessions] at hs'
    rcases Accounts.lookup_insert_some hs' with ⟨-, rfl⟩ | ⟨-, hold⟩
    · exact hrole.resolve_right fun hno => hno hdm
    · exact h.direct id s' hold hdm

theorem World.Kept.run (a : Access) (w : World) (hgentle : Gentle a w) (h : w.Kept) :
    (a.run w).2.Kept := by
  rcases a.run_sessions w with hsame | ⟨sid, who, joinedBy, rfl⟩ | ⟨sid, s, hnew, hcreate⟩
  · exact h.of_same (h.known.run a) hsame
  · exact h.join (h.known.run (.addSessionParticipant sid who joinedBy)) hgentle
  · refine h.found (h.known.run a) hnew (hcreate.symm.imp_right ?_)
    rintro rfl
    exact hgentle

end Kept

/-! ## Every call keeps the invariant -/

section Gentle

variable {ctx : Ctx} {w : World} {sid body : String} {req : MessageTo}

theorem gentle_wireAtMentions (h : w.IsDm sid → NoThird ctx w sid body) :
    Leads run Gentle (wireAtMentionsInMessage ctx sid body) w fun _ _ => True := by
  let P (v : World) : Prop := v.sessions = w.sessions ∧ v.agents = w.agents ∧
    ∀ who, v.participates sid who → w.participates sid who ∨ w.Mentions ctx body who
  have hP : P w := ⟨rfl, rfl, fun _ hj => .inl hj⟩
  refine (leads_wireMentions (P := P) (fun _ _ => trivial) ?_ ?_ hP).mono fun _ _ _ => trivial
  · rintro m hm v who ⟨hsessions, hagents, hpart⟩ hwho
    have hmentioned : w.Mentions ctx body who :=
      ⟨m, hm, (World.mentioned_congr hagents m).symm.trans hwho⟩
    refine ⟨?_, (addSessionParticipant_sessions _).trans hsessions,
      (addSessionParticipant_agents _).trans hagents, ?_⟩
    · rintro ⟨s, hs, hdm⟩ -
      refine (h ⟨s, by rwa [← hsessions], hdm⟩).mono ?_
      rintro j (hj | rfl)
      · exact hpart j hj
      · exact .inr hmentioned
    · intro j hj
      rcases addSessionParticipant_participates hj with hj | ⟨-, rfl, -⟩
      · exact hpart j hj
      · exact .inr hmentioned
  · exact fun _ _ hP => ⟨trivial, hP⟩

theorem gentle_deliverAndWire (h : w.IsDm sid → NoThird ctx w sid body) :
    Leads run Gentle (deliverAndWire ctx req sid body) w fun _ _ => True := by
  refine leads_deliverAndWire (q := fun _ => True) trivial (gentle_wireAtMentions ?_)
  rintro ⟨s', hs', hdm⟩
  obtain ⟨s, hs, hsame⟩ := appendMessageFrom_session _ _ _ _ _ hs'
  refine (h ⟨s, hs, by rwa [← hsame.type, ← hsame.status]⟩).mono ?_
  rintro who (hwho | ⟨m, hm, hwho⟩)
  · left
    rwa [World.participates, appendMessageFrom_participants] at hwho
  · right
    rw [World.mentioned_congr (appendMessageFrom_agents _ _ _ _ _)] at hwho
    exact ⟨m, hm, hwho⟩

theorem not_isDm_created {s : Session} (h : (w.createSession sid s).1 = .ok ())
    (htype : s.sessionType ∉ DM_TYPES) : ¬ (w.createSession sid s).2.IsDm sid := by
  rintro ⟨s', hs', hdm⟩
  cases (lookup_createSession h).symm.trans hs'
  exact htype hdm.1

theorem gentle_ideaSession {ideaId : String} (h : ∀ idea sid, w.ideas.lookup ideaId = some idea →
      idea.sessionId = some sid → w.IsDm sid → NoThird ctx w sid body) :
    Leads run Gentle (ideaSession req ideaId) w fun sid w' =>
      w'.IsDm sid → NoThird ctx w' sid body := by
  have htype : "idea" ∉ DM_TYPES := by decide
  refine leads_bind.2 (leads_act.2 ⟨trivial, leads_bind.2 (leads_give.2 fun idea hidea => ?_)⟩)
  have hlookup : w.ideas.lookup ideaId = some idea := okOr_eq_ok.1 hidea
  cases hsid : idea.sessionId with
  | some sid => exact leads_pure.2 (h idea sid hlookup hsid)
  | none =>
    refine leads_bind.2 (leads_act.2 ⟨htype, leads_bind.2 (leads_give.2 fun _ hok => ?_)⟩)
    refine leads_bind.2 (leads_act.2 ⟨trivial, leads_pure.2 ?_⟩)
    rintro ⟨s, hs, hdm⟩
    refine absurd ⟨s, ?_, hdm⟩ (not_isDm_created hok htype)
    exact (congrArg (AList.lookup req.newId) setIdeaSession_sessions).symm.trans hs

theorem gentle_roleSession {roleId : String} (hw : w.Kept) :
    Leads run Gentle (roleSession req roleId) w fun sid w' => ¬ w'.IsDm sid := by
  have htype : "role" ∉ DM_TYPES := by decide
  have hnew : Leads run Gentle (newRoleSession req roleId) w fun _ w' =>
      ¬ w'.IsDm req.newId := by
    refine leads_bind.2 (leads_act.2 ⟨htype, leads_give.2 fun _ hok => ?_⟩)
    exact not_isDm_created hok htype
  unfold roleSession
  split
  · refine leads_bind.2 (leads_act.2 ⟨trivial, ?_⟩)
    split
    next sid hfound =>
      refine leads_pure.2 ?_
      rintro ⟨s, hs, hdm⟩
      obtain ⟨⟨s', hs', hrole, -⟩, -⟩ := mem_roleSessions.1 (choose_mem hfound)
      cases hs.symm.trans hs'
      rw [hw.direct sid s hs' hdm.1] at hrole
      cases hrole
    · refine leads_bind.2 (hnew.mono fun _ w' hno => ?_)
      refine leads_bind.2 (leads_act.2 ⟨fun hdm => absurd hdm hno, leads_pure.2 ?_⟩)
      rintro ⟨s, hs, hdm⟩
      exact hno ⟨s, (congrArg (AList.lookup req.newId) (addSessionParticipant_sessions _)).symm.trans hs,
        hdm⟩
  · exact leads_bind.2 (hnew.mono fun _ w' hno => leads_pure.2 hno)

theorem gentle_messageToRole {roleId : String} (hw : w.Kept) :
    Leads run Gentle (messageToRole req roleId body) w fun _ _ => True := by
  refine leads_bind.2 (leads_act.2 ⟨trivial, leads_bind.2 (leads_give.2 fun _ _ => ?_)⟩)
  refine leads_bind.2 (leads_give.2 fun who _ => leads_bind.2 ?_)
  refine (gentle_roleSession hw).mono fun sid w' hno => ?_
  exact leads_bind.2 (leads_act.2 ⟨fun hdm => absurd hdm hno, leads_deliver trivial trivial⟩)

variable {sessionType : String}

theorem findDm_between {w' : World} {name newId : String} {a b : Identity} {pick : Nat}
    {new : Bool} (hw : w.Kept) (htype : sessionType ∈ DM_TYPES) (ha : a.1 ∈ World.KINDS)
    (hb : b.1 ∈ World.KINDS) (hself : b = a → ∀ sid ∈ w.dmSessions sessionType b b,
      ∀ who, w.participates sid who → who = b)
    (h : w.findOrCreateDmSession sessionType name a b newId pick = (.ok (sid, new), w')) :
    w'.Between sid a b := by
  rcases findOrCreateDmSession_cases h with
    ⟨_, hfound, hok, rfl⟩ | ⟨_, herr, -⟩ | ⟨hok, -, hfresh, -, -, hpart, hjoinsA, hjoinsB⟩
  · cases hok
    obtain ⟨⟨s, hs, rfl, hactive⟩, hina, hinb⟩ := mem_dmSessions.1 hfound
    intro who
    refine ⟨fun hwho => ?_, by rintro (rfl | rfl) <;> assumption⟩
    by_cases hba : b = a
    · subst hba
      exact .inl (hself rfl sid hfound who hwho)
    · obtain ⟨x, y, htwo⟩ := hw.pair sid ⟨s, hs, htype, hactive⟩
      -- Two different participants are all that there are.
      rcases htwo a hina with rfl | rfl <;> rcases htwo b hinb with rfl | rfl
      · exact absurd rfl hba
      · exact htwo who hwho
      · exact (htwo who hwho).symm
      · exact absurd rfl hba
  · cases herr
  · cases hok
    intro who
    refine ⟨fun hwho => ?_, ?_⟩
    · rcases hpart sid who hwho with hold | ⟨-, hwho⟩
      · exact absurd hold (hw.known.nobody hfresh)
      · exact hwho
    · rintro (rfl | rfl)
      · exact hjoinsA ha
      · exact hjoinsB hb

/-- The types that the two branches for direct messages look for. -/
def DmType (sessionType targetKind : String) : Prop :=
  sessionType = "agent_agent_dm" ∧ targetKind = "agent" ∨
    sessionType = "agent_user_dm" ∧ targetKind = "user"

variable {callerId : String}

theorem leads_messageToDm {good : Access → World → Prop} {target : Identity} (hw : w.Kept)
    (hkeeps : req.KeepsPrivate ctx w target body callerId) (hkind : DmType sessionType target.1)
    (hfind : ∀ name, good (.findOrCreateDmSession sessionType
      name ("agent", callerId) target req.newId req.pick) w)
    (h : ∀ w' sid, w'.Between sid ("agent", callerId) target → w'.agents = w.agents →
      Leads run good (deliverAndWire ctx req sid body) w' fun _ _ => True) :
    Leads run good (messageToDm ctx req sessionType target.1 target.2 body) w
      fun _ _ => True := by
  have hcaller : req.senderId.getD "" = callerId := by rw [hkeeps.named]; rfl
  have htype : sessionType ∈ DM_TYPES ∧ target.1 ∈ World.KINDS := by
    rcases hkind with ⟨rfl, hkind⟩ | ⟨rfl, hkind⟩ <;> rw [hkind] <;> decide
  have hself (heq : target = ("agent", callerId)) : ∀ sid ∈ w.dmSessions sessionType target target,
      ∀ who, w.participates sid who → who = target := by
    rcases hkind with ⟨rfl, -⟩ | ⟨-, hkind⟩
    · exact hkeeps.self heq
    · rw [heq] at hkind
      simp at hkind
  unfold messageToDm
  rw [hcaller]
  refine leads_bind.2 (leads_act.2 ⟨hfind _, leads_bind.2 (leads_give.2 ?_)⟩)
  rintro ⟨sid, new⟩ hok
  refine h _ sid ?_ findOrCreateDmSession_agents
  exact findDm_between hw htype.1 (by simp [World.KINDS]) htype.2 hself (Prod.ext hok rfl)

theorem gentle_messageToDm (target : Identity) (hw : w.Kept)
    (hkeeps : req.KeepsPrivate ctx w target body callerId) (hkind : DmType sessionType target.1) :
    Leads run Gentle (messageToDm ctx req sessionType target.1 target.2 body) w
      fun _ _ => True := by
  refine leads_messageToDm hw hkeeps hkind (fun _ => trivial) fun w' sid hbetween hagents => ?_
  refine gentle_deliverAndWire fun _ => hkeeps.noThird.mono ?_
  rintro who (hwho | ⟨m, hm, hwho⟩)
  · exact ((hbetween who).1 hwho).imp_right .inl
  · rw [World.mentioned_congr hagents] at hwho
    exact .inr (.inr ⟨m, hm, hwho⟩)

theorem private_messageToDm (target : Identity) (hw : w.Kept)
    (hkeeps : req.KeepsPrivate ctx w target body callerId) (hkind : DmType sessionType target.1) :
    Leads run (Appends fun w' sid => ∃ caller, req.caller = some caller ∧
        w'.Between sid caller target)
      (messageToDm ctx req sessionType target.1 target.2 body) w fun _ _ => True := by
  have hcaller : req.caller = some ("agent", callerId) := by
    rw [MessageTo.caller, hkeeps.named, hkeeps.agent]
    rfl
  refine leads_messageToDm hw hkeeps hkind (fun _ => trivial) fun w' sid hbetween _ => ?_
  refine leads_deliverAndWire (q := fun _ => True) ⟨_, hcaller, hbetween⟩ ?_
  exact leads_wireMentions (P := fun _ => True) (fun _ _ => trivial)
    (fun _ _ _ _ _ _ => ⟨trivial, trivial⟩) (fun _ _ _ => ⟨trivial, trivial⟩) trivial

/-! ### Requests -/

theorem gentle_handleMessageTo (hw : w.Kept) (hkeeps : (Call.messageTo req).Keeps ctx w) :
    Leads run Gentle (handleMessageTo ctx req) w fun _ _ => True := by
  refine leads_handleMessageTo fun kind id body hkind hid hbody => ?_
  obtain ⟨hsession, hidea, hdirect⟩ := hkeeps kind id body hkind hid hbody
  refine ⟨fun hc => gentle_deliverAndWire (hsession hc), fun hc => ?_, fun _ =>
    gentle_messageToRole hw, fun hc => ?_, fun hc => ?_⟩
  · refine leads_bind.2 ((gentle_ideaSession (hidea hc)).mono fun sid w' hno => ?_)
    exact gentle_deliverAndWire hno
  · subst hc
    obtain ⟨callerId, hprivate⟩ := hdirect (.inl rfl)
    exact gentle_messageToDm ("agent", id) hw hprivate (.inl ⟨rfl, rfl⟩)
  · subst hc
    obtain ⟨callerId, hprivate⟩ := hdirect (.inr rfl)
    exact gentle_messageToDm ("user", id) hw hprivate (.inr ⟨rfl, rfl⟩)

theorem gentle_handleAddParticipant {req : AddParticipant}
    (hkeeps : (Call.addParticipant req).Keeps ctx w) :
    Leads run Gentle (handleAddParticipant req) w fun _ _ => True := by
  refine leads_bind.2 (leads_required.2 fun sid hsid => ?_)
  refine leads_bind.2 (leads_required.2 fun kind hkind => ?_)
  refine leads_bind.2 (leads_required.2 fun id hid => ?_)
  refine leads_bind.2 (leads_act.2 ⟨hkeeps sid kind id hsid hkind hid, ?_⟩)
  refine leads_bind.2 (leads_give.2 fun inserted _ => ?_)
  split
  · exact leads_bind.2 (leads_act.2 ⟨trivial, leads_pure.2 trivial⟩)
  · exact leads_pure.2 trivial

end Gentle

theorem World.Kept.exec {ctx : Ctx} {w w' : World} {call : Call} (hw : w.Kept)
    (hkeeps : call.Keeps ctx w) (h : call.exec ctx w = .ok w') : w'.Kept := by
  cases call with
  | messageTo req =>
    cases h
    exact (gentle_handleMessageTo hw hkeeps).1.invariant hw World.Kept.run
  | addParticipant req =>
    cases h
    exact (gentle_handleAddParticipant hkeeps).1.invariant hw World.Kept.run
  | findOrCreateDm sessionType name a b newId pick =>
    cases h
    exact World.Kept.run (.findOrCreateDmSession sessionType name a b newId pick) w trivial hw

theorem private_handleMessageTo {ctx : Ctx} {w : World} {req : MessageTo} {target : Identity}
    (hw : w.Kept) (hkeeps : (Call.messageTo req).Keeps ctx w) (hdirect : req.Direct target) :
    Private ctx w req target := by
  obtain ⟨hkind, htargetKind, htargetId⟩ := hdirect
  obtain ⟨targetKind, targetId⟩ := target
  refine (leads_handleMessageTo (q := fun _ _ => True) fun kind id body hkind' hid' hbody => ?_).1
  cases htargetKind.symm.trans hkind'
  cases htargetId.symm.trans hid'
  obtain ⟨callerId, hprivate⟩ := (hkeeps targetKind targetId body htargetKind htargetId hbody).2.2 hkind
  refine ⟨fun hc => ?_, fun hc => ?_, fun hc => ?_, fun hc => ?_, fun hc => ?_⟩
  · subst hc
    simp at hkind
  · subst hc
    simp at hkind
  · subst hc
    simp at hkind
  · subst hc
    exact private_messageToDm ("agent", targetId) hw hprivate (.inl ⟨rfl, rfl⟩)
  · subst hc
    exact private_messageToDm ("user", targetId) hw hprivate (.inr ⟨rfl, rfl⟩)

/-- **Direct messages are private** in every run whose calls make no third party of a direct
session. -/
theorem direct_messages_private {ctx : Ctx} {w w' : World} {hist : List (World × Call)}
    (run : Run (okStep (Call.exec ctx)) w hist w') (hw : w.Kept)
    (hkeeps : ∀ e ∈ hist, e.2.Keeps ctx e.1) :
    ∀ e ∈ hist, ∀ req target, e.2 = .messageTo req → req.Direct target → Private ctx e.1 req target := by
  induction run with
  | nil => exact fun _ he => nomatch he
  | @step hist t t' call run hstep ih =>
    obtain ⟨hhead, htail⟩ := forall_mem_cons.1 hkeeps
    refine forall_mem_cons.2 ⟨?_, ih htail⟩
    rintro req target hcall hdirect
    have ht : t.Kept := by
      refine (Run.guarded_iff.2 ⟨run, htail⟩).invariant hw ?_
      exact fun _ _ _ hkept hguarded => hkept.exec hguarded.1 hguarded.2
    obtain rfl : call = .messageTo req := hcall
    exact private_handleMessageTo ht hhead hdirect

/-! ### Two that write to each other -/

def adaToBob : MessageTo :=
  { targetKind := some "agent", targetId := some "bob", body := some "hi",
    fromKind := some "agent", fromId := some "ada", newId := "s1" }

def bobToAda : MessageTo :=
  { targetKind := some "agent", targetId := some "ada", body := some "hello",
    fromKind := some "agent", fromId := some "bob", newId := "s2" }

def plainCtx : Ctx := { toLowercase := id }

theorem keeps_of_unmentioned {ctx : Ctx} {w : World} {req : MessageTo}
    (callerId targetId body : String)
    (hreq : requestField req.targetKind = some "agent" ∧ requestField req.targetId = some targetId ∧
      requestField req.body = some body ∧ req.senderKind = "agent" ∧ req.senderId = some callerId)
    (hne : targetId ≠ callerId) (hbody : parseMentions ctx.toLowercase body = []) :
    (Call.messageTo req).Keeps ctx w := by
  obtain ⟨hkind, htarget, hbody', hagent, hnamed⟩ := hreq
  intro kind id text hkind' hid hbodyText
  cases hkind.symm.trans hkind'
  cases htarget.symm.trans hid
  cases hbody'.symm.trans hbodyText
  refine ⟨fun hc => ?_, fun hc => ?_, fun _ => ⟨callerId, hagent, hnamed, ?_, fun heq => ?_⟩⟩
  · simp at hc
  · simp at hc
  · refine ⟨("agent", callerId), ("agent", targetId), ?_⟩
    rintro who (hwho | hwho | ⟨m, hm, -⟩)
    · exact .inl hwho
    · exact .inr hwho
    · rw [hbody] at hm
      exact nomatch hm
  · exact absurd (Prod.mk.inj heq).2 hne

theorem World.Kept.empty : ({} : World).Kept where
  known := nofun
  pair := by
    rintro sid ⟨s, hs, -⟩
    cases hs
  direct := by
    intro sid s hs
    cases hs

theorem direct_messages_private_both_ways : ∃ hist w', Run (okStep (Call.exec plainCtx)) {} hist w' ∧
    hist.map Prod.snd = [.messageTo bobToAda, .messageTo adaToBob] ∧
    ∀ e ∈ hist, ∀ req target, e.2 = .messageTo req → req.Direct target →
      Private plainCtx e.1 req target := by
  have hkeeps : ∀ call ∈ [Call.messageTo adaToBob, .messageTo bobToAda], ∀ w,
      call.Keeps plainCtx w := by
    intro call hcall w
    rcases mem_cons.1 hcall with rfl | hcall
    · exact keeps_of_unmentioned "ada" "bob" "hi" (by decide +kernel) (by decide) (by decide +kernel)
    · rw [mem_singleton.1 hcall]
      exact keeps_of_unmentioned "bob" "ada" "hello" (by decide +kernel) (by decide)
        (by decide +kernel)
  have hstart : Run (Guarded (fun w call => call.Keeps plainCtx w) (okStep (Call.exec plainCtx)))
      {} [] {} := .nil
  obtain ⟨hist, run, hcalls⟩ := hstart.guarded hkeeps rfl
  obtain ⟨run, hkept⟩ := Run.guarded_iff.1 run
  exact ⟨hist, _, run, by simpa using hcalls, direct_messages_private run .empty hkept⟩

/-! ### A third party joins -/

def zoeJoins : AddParticipant :=
  { sessionId := some "s1", identityKind := some "user", identityId := some "zoe" }

/-- A direct session that a third party has joined is found again. -/
theorem not_direct_messages_private : ¬ ∀ (ctx : Ctx) (w' : World) (hist : List (World × Call)),
    Run (okStep (Call.exec ctx)) {} hist w' → ∀ e ∈ hist, ∀ req target,
      e.2 = .messageTo req → req.Direct target → Private ctx e.1 req target := by
  intro hall
  let w₁ := (alone Access.run (handleMessageTo plainCtx adaToBob) {}).2
  let w₂ := (alone Access.run (handleAddParticipant zoeJoins) w₁).2
  have run : Run (okStep (Call.exec plainCtx)) {}
      [(w₂, .messageTo adaToBob), (w₁, .addParticipant zoeJoins), ({}, .messageTo adaToBob)] _ :=
    .step (.step (.step .nil rfl) rfl) rfl
  have hprivate := hall plainCtx _ _ run _ mem_cons_self adaToBob ("agent", "bob") rfl
    ⟨.inl rfl, by decide +kernel, by decide +kernel⟩
  have happended : ∃ e ∈ (handleMessageTo plainCtx adaToBob).run.trail Access.run w₂,
      e.1 = .appendMessageFrom "s1" "assistant" "hi" "agent" (some "ada") none ∧
        e.2.participates "s1" ("user", "zoe") := by decide +kernel
  obtain ⟨⟨a, w⟩, he, rfl, hzoe⟩ := happended
  obtain ⟨caller, hcaller, hbetween⟩ := Prog.along_iff_trail.1 hprivate _ he
  cases hcaller
  have htwo := (hbetween ("user", "zoe")).1 hzoe
  simp at htwo

end Aeqi.Messages
