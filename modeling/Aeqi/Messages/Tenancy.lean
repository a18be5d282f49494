import Aeqi.Messages.Direct

/-!
# Whose rows are whose

`check_agent_access` and `is_allowed` of `tenancy.rs`, and what they make of the tables: an idea
belongs to its agent, a role to its entity, and a session to its agent, the entity of its role,
the agents that take part in it directly, or the agent of an idea whose session it is. What a
caller may see of the tables are the rows in its scope (`World.within`).
-/

namespace Aeqi.Messages

open Aeqi.Lib Aeqi.Orchestrator Accounts
open AList (lookup_insert_ne lookup_isSome)

namespace World

section Scope

variable (allowed : Option (List String)) (w : World)

/-- `check_agent_access`. -/
def checkAgentAccess (agentId : String) : Bool :=
  match allowed with
  | none => true
  | some _ => (w.agents.lookup agentId).any fun agent =>
    agent.trustId.any (isAllowed allowed) || isAllowed allowed agent.name || isAllowed allowed agentId

def ideaInScope (idea : Idea) : Bool := idea.agentId.any (w.checkAgentAccess allowed)

def roleInScope (roleId : String) : Bool :=
  (w.roles.lookup roleId).any fun role => isAllowed allowed role.trustId

def agentTakesPart (sid : String) : Bool :=
  w.participants.keys.any fun key =>
    key.1 = sid && key.2.1 = "agent" && w.checkAgentAccess allowed key.2.2

def rowInScope (sid : String) (s : Session) : Bool :=
  s.agentId.any (w.checkAgentAccess allowed) || s.targetRoleId.any (w.roleInScope allowed) ||
    (s.sessionType ∈ DM_TYPES && w.agentTakesPart allowed sid)

def ofIdeaInScope (sid : String) : Bool :=
  w.ideas.keys.any fun id => (w.ideas.lookup id).any fun idea =>
    w.ideaInScope allowed idea && idea.sessionId = some sid

def sessionInScope (sid : String) : Bool :=
  (w.sessions.lookup sid).any (w.rowInScope allowed sid) || w.ofIdeaInScope allowed sid

/-- The rows in scope. -/
def within : World :=
  { w with
    sessions := restrict (fun sid _ => w.sessionInScope allowed sid) w.sessions
    participants := restrict (fun key _ => w.sessionInScope allowed key.1) w.participants
    messages := w.messages.filter fun m => w.sessionInScope allowed m.sessionId
    spawns := w.spawns.filter fun spawn => w.sessionInScope allowed spawn.sessionId
    ideas := restrict (fun _ idea => w.ideaInScope allowed idea) w.ideas
    roles := restrict (fun roleId _ => w.roleInScope allowed roleId) w.roles
    agents := restrict (fun agentId _ => w.checkAgentAccess allowed agentId) w.agents }

end Scope

section Within

variable {allowed : Option (List String)} {w w' : World} {sid id : String}

theorem agentTakesPart_iff : w.agentTakesPart allowed sid = true ↔
    ∃ agentId, w.participates sid ("agent", agentId) ∧ w.checkAgentAccess allowed agentId = true := by
  unfold agentTakesPart
  rw [List.any_eq_true]
  constructor
  · rintro ⟨⟨_, kind, agentId⟩, hkey, h⟩
    simp only [Bool.and_eq_true, decide_eq_true_eq] at h
    obtain ⟨⟨rfl, rfl⟩, haccess⟩ := h
    exact ⟨agentId, AList.mem_keys.2 hkey, haccess⟩
  · rintro ⟨agentId, hwho, haccess⟩
    exact ⟨_, AList.mem_keys.1 hwho, by simp [haccess]⟩

theorem ofIdeaInScope_iff : w.ofIdeaInScope allowed sid = true ↔
    ∃ id idea, w.ideas.lookup id = some idea ∧ w.ideaInScope allowed idea = true ∧
      idea.sessionId = some sid := by
  unfold ofIdeaInScope
  simp only [List.any_eq_true, Option.any_eq_true, Bool.and_eq_true, decide_eq_true_eq]
  constructor
  · rintro ⟨id, -, idea, hidea, hscope⟩
    exact ⟨id, idea, hidea, hscope⟩
  · rintro ⟨id, idea, hidea, hscope⟩
    exact ⟨id, AList.mem_keys.1 (lookup_isSome.1 (by rw [hidea]; rfl)), idea, hidea, hscope⟩

theorem sessionInScope_iff : w.sessionInScope allowed sid = true ↔
    (∃ s, w.sessions.lookup sid = some s ∧ w.rowInScope allowed sid s = true) ∨
      w.ofIdeaInScope allowed sid = true := by
  unfold sessionInScope
  rw [Bool.or_eq_true, Option.any_eq_true]

theorem any_filter_any {α : Type} {o : Option α} {p : α → Bool} :
    (o.filter fun _ => o.any p).any p = o.any p := by
  cases o with
  | none => rfl
  | some x => cases hp : p x <;> simp

@[simp] theorem checkAgentAccess_within :
    (w.within allowed).checkAgentAccess allowed = w.checkAgentAccess allowed := by
  funext agentId
  cases allowed with
  | none => rfl
  | some ids =>
    change ((restrict _ w.agents).lookup agentId).any _ = (w.agents.lookup agentId).any _
    rw [lookup_restrict]
    exact any_filter_any

@[simp] theorem ideaInScope_within :
    (w.within allowed).ideaInScope allowed = w.ideaInScope allowed := by
  unfold ideaInScope
  rw [checkAgentAccess_within]

@[simp] theorem roleInScope_within :
    (w.within allowed).roleInScope allowed = w.roleInScope allowed := by
  funext roleId
  change ((restrict _ w.roles).lookup roleId).any _ = (w.roles.lookup roleId).any _
  rw [lookup_restrict]
  exact any_filter_any

theorem lookup_ideas_within {idea : Idea} : (w.within allowed).ideas.lookup id = some idea ↔
    w.ideas.lookup id = some idea ∧ w.ideaInScope allowed idea = true := lookup_restrict_some

theorem lookup_sessions_within {s : Session} : (w.within allowed).sessions.lookup sid = some s ↔
    w.sessions.lookup sid = some s ∧ w.sessionInScope allowed sid = true := lookup_restrict_some

theorem participates_within {who : Identity} : (w.within allowed).participates sid who ↔
    w.participates sid who ∧ w.sessionInScope allowed sid = true := by
  unfold participates
  rw [← lookup_isSome, ← lookup_isSome]
  change ((restrict _ w.participants).lookup (sid, who)).isSome = true ↔ _
  rw [lookup_restrict]
  cases w.participants.lookup (sid, who) <;> simp

theorem ofIdeaInScope_within :
    (w.within allowed).ofIdeaInScope allowed sid = w.ofIdeaInScope allowed sid := by
  rw [Bool.eq_iff_iff, ofIdeaInScope_iff, ofIdeaInScope_iff]
  simp only [lookup_ideas_within, ideaInScope_within]
  exact exists_congr fun id => exists_congr fun idea => by tauto

theorem rowInScope_within {s : Session} (h : w.sessionInScope allowed sid = true) :
    (w.within allowed).rowInScope allowed sid s = w.rowInScope allowed sid s := by
  have hagents : (w.within allowed).agentTakesPart allowed sid = w.agentTakesPart allowed sid := by
    rw [Bool.eq_iff_iff, agentTakesPart_iff, agentTakesPart_iff]
    simp [participates_within, h]
  unfold rowInScope
  rw [hagents, checkAgentAccess_within, roleInScope_within]

@[simp] theorem sessionInScope_within :
    (w.within allowed).sessionInScope allowed = w.sessionInScope allowed := by
  funext sid
  by_cases hscope : w.sessionInScope allowed sid = true
  · rw [hscope, sessionInScope_iff, ofIdeaInScope_within]
    refine (sessionInScope_iff.1 hscope).imp_left ?_
    rintro ⟨s, hs, hrow⟩
    exact ⟨s, lookup_sessions_within.2 ⟨hs, hscope⟩, by rwa [rowInScope_within hscope]⟩
  · rw [Bool.eq_false_iff.2 hscope, Bool.eq_false_iff]
    intro hwithin
    rcases sessionInScope_iff.1 hwithin with ⟨s, hs, -⟩ | hidea
    · exact hscope (lookup_sessions_within.1 hs).2
    · rw [ofIdeaInScope_within] at hidea
      exact hscope (sessionInScope_iff.2 (.inr hidea))

theorem within_self (hsessions : ∀ sid s, w.sessions.lookup sid = some s →
      w.sessionInScope allowed sid = true)
    (hparticipants : ∀ sid who, w.participates sid who → w.sessionInScope allowed sid = true)
    (hmessages : ∀ m ∈ w.messages, w.sessionInScope allowed m.sessionId = true)
    (hspawns : ∀ spawn ∈ w.spawns, w.sessionInScope allowed spawn.sessionId = true)
    (hideas : ∀ id idea, w.ideas.lookup id = some idea → w.ideaInScope allowed idea = true)
    (hroles : ∀ id role, w.roles.lookup id = some role → w.roleInScope allowed id = true)
    (hagents : ∀ id agent, w.agents.lookup id = some agent → w.checkAgentAccess allowed id = true) :
    w.within allowed = w := by
  have hkeys : ∀ key joinedBy, w.participants.lookup key = some joinedBy →
      w.sessionInScope allowed key.1 = true := fun key _ hkey =>
    hparticipants key.1 key.2 (lookup_isSome.1 (by rw [hkey]; rfl))
  unfold within
  rw [restrict_self hsessions, restrict_self hkeys, List.filter_eq_self.2 hmessages,
    List.filter_eq_self.2 hspawns, restrict_self hideas, restrict_self hroles, restrict_self hagents]

theorem within_within : (w.within allowed).within allowed = w.within allowed := by
  refine within_self ?_ ?_ ?_ ?_ ?_ ?_ ?_
  · intro sid s hs
    rw [sessionInScope_within]
    exact (lookup_sessions_within.1 hs).2
  · intro sid who hwho
    rw [sessionInScope_within]
    exact (participates_within.1 hwho).2
  · intro m hm
    rw [sessionInScope_within]
    exact (List.mem_filter.1 hm).2
  · intro spawn hspawn
    rw [sessionInScope_within]
    exact (List.mem_filter.1 hspawn).2
  · intro id idea hidea
    rw [ideaInScope_within]
    exact (lookup_ideas_within.1 hidea).2
  · intro id role hrole
    rw [roleInScope_within]
    exact (lookup_restrict_some.1 hrole).2
  · intro id agent hagent
    rw [checkAgentAccess_within]
    exact (lookup_restrict_some.1 hagent).2

/-! ### Worlds with the same rows in scope -/

section Same

variable (h : w'.within allowed = w.within allowed)
include h

theorem checkAgentAccess_congr : w'.checkAgentAccess allowed = w.checkAgentAccess allowed := by
  rw [← checkAgentAccess_within (w := w'), h, checkAgentAccess_within]

theorem ideaInScope_congr : w'.ideaInScope allowed = w.ideaInScope allowed := by
  rw [← ideaInScope_within (w := w'), h, ideaInScope_within]

theorem roleInScope_congr : w'.roleInScope allowed = w.roleInScope allowed := by
  rw [← roleInScope_within (w := w'), h, roleInScope_within]

theorem sessionInScope_congr : w'.sessionInScope allowed = w.sessionInScope allowed := by
  rw [← sessionInScope_within (w := w'), h, sessionInScope_within]

theorem nextMessageId_congr : w'.nextMessageId = w.nextMessageId :=
  congrArg (fun w => w.nextMessageId) h

theorem idea_congr {idea : Idea} (hidea : w.ideas.lookup id = some idea)
    (hscope : w.ideaInScope allowed idea = true) : w'.ideas.lookup id = some idea := by
  have hwithin := lookup_ideas_within.2 ⟨hidea, hscope⟩
  rw [← h] at hwithin
  exact (lookup_ideas_within.1 hwithin).1

theorem role_congr (hscope : w.roleInScope allowed id = true) :
    w'.roles.lookup id = w.roles.lookup id := by
  have hscope' : w'.roleInScope allowed id = true := by rwa [roleInScope_congr h]
  have hlookup : ∀ v : World, v.roleInScope allowed id = true →
      (v.within allowed).roles.lookup id = v.roles.lookup id := by
    intro v hv
    change (restrict _ v.roles).lookup id = _
    rw [lookup_restrict, hv]
    cases v.roles.lookup id <;> rfl
  rw [← hlookup w' hscope', h, hlookup w hscope]

theorem session_congr (hscope : w.sessionInScope allowed sid = true) :
    w'.sessions.lookup sid = w.sessions.lookup sid := by
  have hscope' : w'.sessionInScope allowed sid = true := by rwa [sessionInScope_congr h]
  refine Option.ext fun s => ?_
  have hleft : (w'.within allowed).sessions.lookup sid = some s ↔
      w'.sessions.lookup sid = some s ∧ w'.sessionInScope allowed sid = true := lookup_sessions_within
  have hright : (w.within allowed).sessions.lookup sid = some s ↔
      w.sessions.lookup sid = some s ∧ w.sessionInScope allowed sid = true := lookup_sessions_within
  rw [h] at hleft
  simp only [hscope, hscope', and_true] at hleft hright
  exact hleft.symm.trans hright

theorem participates_congr {who : Identity} (hscope : w.sessionInScope allowed sid = true) :
    w'.participates sid who ↔ w.participates sid who := by
  have hscope' : w'.sessionInScope allowed sid = true := by rwa [sessionInScope_congr h]
  have hleft : (w'.within allowed).participates sid who ↔
      w'.participates sid who ∧ w'.sessionInScope allowed sid = true := participates_within
  have hright : (w.within allowed).participates sid who ↔
      w.participates sid who ∧ w.sessionInScope allowed sid = true := participates_within
  rw [h] at hleft
  simp only [hscope, hscope', and_true] at hleft hright
  exact hleft.symm.trans hright

theorem filter_sessions_congr {r : World → String → Bool}
    (hin : ∀ v : World, v = w ∨ v = w' → ∀ sid, r v sid = true → v.sessionInScope allowed sid = true)
    (hsame : ∀ sid, w.sessionInScope allowed sid = true → r w' sid = r w sid) :
    w'.sessions.keys.filter (r w') = w.sessions.keys.filter (r w) := by
  have hkeys : ∀ v : World, v = w ∨ v = w' →
      (v.within allowed).sessions.keys.filter (r v) = v.sessions.keys.filter (r v) :=
    fun v hv => filter_keys_restrict fun sid _ _ hr => hin v hv sid hr
  rw [← hkeys w' (.inr rfl), ← hkeys w (.inl rfl), h]
  refine List.filter_congr fun sid hsid => hsame sid ?_
  obtain ⟨s, hs⟩ := Option.isSome_iff_exists.1 (lookup_isSome.2 (AList.mem_keys.2 hsid))
  exact (lookup_sessions_within.1 hs).2

end Same

/-! ### Rows outside -/

theorem within_insertIdea {idea : Idea} (hid : id ∉ w.ideas) (hout : w.ideaInScope allowed idea = false) :
    { w with ideas := w.ideas.insert id idea }.within allowed = w.within allowed := by
  have hscope : { w with ideas := w.ideas.insert id idea }.sessionInScope allowed =
      w.sessionInScope allowed := by
    funext sid
    have hideas : { w with ideas := w.ideas.insert id idea }.ofIdeaInScope allowed sid =
        w.ofIdeaInScope allowed sid := by
      rw [Bool.eq_iff_iff, ofIdeaInScope_iff, ofIdeaInScope_iff]
      constructor
      · rintro ⟨id', idea', hidea', hscoped, hsid⟩
        have hin : w.ideaInScope allowed idea' = true := hscoped
        rcases lookup_insert_some hidea' with ⟨-, rfl⟩ | ⟨-, hold⟩
        · rw [hout] at hin
          cases hin
        · exact ⟨id', idea', hold, hin, hsid⟩
      · rintro ⟨id', idea', hidea', hin, hsid⟩
        refine ⟨id', idea', ?_, hin, hsid⟩
        rw [lookup_insert_ne, hidea']
        rintro rfl
        exact hid (lookup_isSome.1 (by rw [hidea']; rfl))
    unfold sessionInScope
    rw [hideas]
    rfl
  have hideas : restrict (fun _ idea => w.ideaInScope allowed idea) (w.ideas.insert id idea) =
      restrict (fun _ idea => w.ideaInScope allowed idea) w.ideas := restrict_insert hid hout
  unfold within
  rw [hscope]
  exact congrArg (fun ideas => { w.within allowed with ideas := ideas }) hideas

theorem within_insertRole {role : Role} (hid : id ∉ w.roles)
    (hout : isAllowed allowed role.trustId = false) :
    { w with roles := w.roles.insert id role }.within allowed = w.within allowed := by
  have hrole : { w with roles := w.roles.insert id role }.roleInScope allowed = w.roleInScope allowed := by
    funext roleId
    unfold roleInScope
    by_cases hroleId : roleId = id
    · subst hroleId
      rw [AList.lookup_eq_none.2 hid]
      rw [AList.lookup_insert]
      exact hout
    · rw [lookup_insert_ne hroleId]
  have hscope : { w with roles := w.roles.insert id role }.sessionInScope allowed =
      w.sessionInScope allowed := by
    unfold sessionInScope rowInScope
    rw [hrole]
    rfl
  have hnew : w.roleInScope allowed id = false := by
    unfold roleInScope
    rw [AList.lookup_eq_none.2 hid]
    rfl
  have hroles : restrict (fun roleId _ => w.roleInScope allowed roleId) (w.roles.insert id role) =
      restrict (fun roleId _ => w.roleInScope allowed roleId) w.roles := restrict_insert hid hnew
  unfold within
  rw [hscope, hrole]
  exact congrArg (fun roles => { w.within allowed with roles := roles }) hroles

theorem sessionInScope_mono (h : w.sessionInScope allowed id = true)
    (hsession : ∀ s, w.sessions.lookup id = some s →
      ∃ s', w'.sessions.lookup id = some s' ∧ SameSession s s')
    (hparticipants : ∀ who, w.participates id who → w'.participates id who)
    (hideas : w'.ideas = w.ideas) (hroles : w'.roles = w.roles) (hagents : w'.agents = w.agents) :
    w'.sessionInScope allowed id = true := by
  have haccess : w'.checkAgentAccess allowed = w.checkAgentAccess allowed := by
    unfold checkAgentAccess
    rw [hagents]
  have hrole : w'.roleInScope allowed = w.roleInScope allowed := by
    unfold roleInScope
    rw [hroles]
  refine sessionInScope_iff.2 ((sessionInScope_iff.1 h).imp ?_ ?_)
  · rintro ⟨s, hs, hrow⟩
    obtain ⟨s', hs', hsame⟩ := hsession s hs
    have hgrows : w.agentTakesPart allowed id = true → w'.agentTakesPart allowed id = true := by
      rw [agentTakesPart_iff, agentTakesPart_iff, haccess]
      exact fun ⟨agentId, hwho, hagent⟩ => ⟨agentId, hparticipants _ hwho, hagent⟩
    refine ⟨s', hs', ?_⟩
    rw [← hsame] at hrow
    unfold rowInScope at hrow ⊢
    rw [haccess, hrole]
    simp only [Bool.or_eq_true, Bool.and_eq_true] at hrow ⊢
    exact hrow.imp_right fun hdirect => hdirect.imp_right hgrows
  · unfold ofIdeaInScope ideaInScope
    rw [hideas, haccess]
    exact fun hidea => hidea

theorem sessionInScope_addSessionParticipant {who : Identity} {joinedBy : Option String}
    (h : w.sessionInScope allowed id = true) :
    (w.addSessionParticipant sid who joinedBy).2.sessionInScope allowed id = true := by
  have hjoined : ∀ who', w.participates id who' →
      (w.addSessionParticipant sid who joinedBy).2.participates id who' :=
    fun _ => participates_addSessionParticipant
  obtain ⟨participants, hframe⟩ := addSessionParticipant_frame w sid who joinedBy
  rw [hframe] at hjoined ⊢
  exact sessionInScope_mono h (fun s hs => ⟨s, hs, rfl⟩) hjoined rfl rfl rfl

theorem sessionInScope_appendMessageFrom (role content fromKind : String)
    (fromId payloadKind : Option String) (h : w.sessionInScope allowed id = true) :
    (w.appendMessageFrom sid role content fromKind fromId payloadKind).2.sessionInScope allowed id =
      true := by
  have hsession : ∀ s, w.sessions.lookup id = some s → ∃ s',
      (w.appendMessageFrom sid role content fromKind fromId payloadKind).2.sessions.lookup id =
        some s' ∧ SameSession s s' := by
    intro s hs
    have hthere : ((w.appendMessageFrom sid role content fromKind fromId payloadKind).2.sessions.lookup
        id).isSome = true :=
      appendMessageFrom_isSome role content fromKind fromId payloadKind (by rw [hs]; rfl)
    obtain ⟨s', hs'⟩ := Option.isSome_iff_exists.1 hthere
    obtain ⟨s₀, hs₀, hsame⟩ := appendMessageFrom_session role content fromKind fromId payloadKind hs'
    cases hs.symm.trans hs₀
    exact ⟨s', hs', hsame⟩
  obtain ⟨sessions, m, hframe, -, -⟩ :=
    appendMessageFrom_frame w sid role content fromKind fromId payloadKind
  rw [hframe] at hsession ⊢
  exact sessionInScope_mono h hsession (fun _ hwho => hwho) rfl rfl rfl

theorem within_addSessionParticipant {who : Identity} {joinedBy : Option String}
    (hout : (w.addSessionParticipant sid who joinedBy).2.sessionInScope allowed sid = false) :
    (w.addSessionParticipant sid who joinedBy).2.within allowed = w.within allowed := by
  have hothers : ∀ id, id ≠ sid → (w.addSessionParticipant sid who joinedBy).2.agentTakesPart allowed id =
      w.agentTakesPart allowed id := by
    intro id hne
    obtain ⟨participants, hframe⟩ := addSessionParticipant_frame w sid who joinedBy
    have haccess : (w.addSessionParticipant sid who joinedBy).2.checkAgentAccess allowed =
        w.checkAgentAccess allowed := by
      rw [hframe]
      rfl
    rw [Bool.eq_iff_iff, agentTakesPart_iff, agentTakesPart_iff, haccess]
    refine exists_congr fun agentId => and_congr_left fun _ => ⟨fun hwho => ?_, ?_⟩
    · rcases addSessionParticipant_participates hwho with hold | ⟨rfl, -⟩
      · exact hold
      · exact absurd rfl hne
    · exact participates_addSessionParticipant
  have hscope : (w.addSessionParticipant sid who joinedBy).2.sessionInScope allowed =
      w.sessionInScope allowed := by
    funext id
    by_cases hid : id = sid
    · subst hid
      rw [hout, eq_comm, Bool.eq_false_iff]
      intro hin
      rw [sessionInScope_addSessionParticipant hin] at hout
      cases hout
    · have hrow := hothers id hid
      obtain ⟨participants, hframe⟩ := addSessionParticipant_frame w sid who joinedBy
      rw [hframe] at hrow ⊢
      unfold sessionInScope rowInScope
      rw [hrow]
      rfl
  have hclosed : w.sessionInScope allowed sid = false := by rw [← hscope, hout]
  unfold addSessionParticipant at hscope ⊢
  split at hscope
  next hsame => rw [if_pos hsame]
  next hnew =>
    rw [if_neg hnew]
    split at hscope
    next hnone => rw [if_pos hnone]
    next hsome =>
      rw [if_neg hsome]
      have hkeys : restrict (fun key _ => w.sessionInScope allowed key.1)
          (w.participants.insert (sid, who) joinedBy) =
            restrict (fun key _ => w.sessionInScope allowed key.1) w.participants :=
        restrict_insert (fun hmem => hnew (.inl hmem)) hclosed
      unfold within
      rw [hscope]
      exact congrArg (fun participants => { w.within allowed with participants := participants }) hkeys

theorem within_createSession {s : Session}
    (hout : (w.createSession sid s).2.sessionInScope allowed sid = false) :
    (w.createSession sid s).2.within allowed = w.within allowed := by
  unfold createSession at hout ⊢
  split at hout
  next hthere => rw [if_pos hthere]
  next hnew =>
    rw [if_neg hnew]
    have hmem : sid ∉ w.sessions := by
      rw [← lookup_isSome]
      exact hnew
    have hscope : { w with sessions := w.sessions.insert sid s }.sessionInScope allowed =
        w.sessionInScope allowed := by
      funext id
      by_cases hid : id = sid
      · subst hid
        rw [hout, eq_comm, Bool.eq_false_iff, Ne, sessionInScope_iff]
        rintro (⟨s', hs', -⟩ | hidea)
        · exact hmem (lookup_isSome.1 (by rw [hs']; rfl))
        · have hin : { w with sessions := w.sessions.insert id s }.sessionInScope allowed id = true :=
            sessionInScope_iff.2 (.inr hidea)
          cases hout.symm.trans hin
      · unfold sessionInScope
        rw [lookup_insert_ne hid]
        rfl
    have hsessions : restrict (fun id _ => w.sessionInScope allowed id) (w.sessions.insert sid s) =
        restrict (fun id _ => w.sessionInScope allowed id) w.sessions :=
      restrict_insert hmem (by rw [← hscope, hout])
    unfold within
    rw [hscope]
    exact congrArg (fun sessions => { w.within allowed with sessions := sessions }) hsessions

end Within

end World

end Aeqi.Messages
