import Aeqi.Lib.Guarantee
import Aeqi.Messages.Address
import Mathlib.Data.Fin.VecNotation

/-!
# One conversation for every target

`message_to` looks the session of an idea or of a role up, creates it and records it under
different locks. Calls that run side by side find one session of an idea as long as nobody
records one where there is one (`SetsOnce`), and a caller finds one session of a role as long
as it joins no second one (`JoinsOnce`).
-/

namespace Aeqi.Messages

open Aeqi.Lib Aeqi.Orchestrator Option

section World

variable (w : World)

namespace World

def sessionOfIdea (ideaId : String) : Option String :=
  (w.ideas.lookup ideaId).bind (·.sessionId)

def Anchored (sid roleId : String) : Prop :=
  ∃ s ∈ w.sessions.lookup sid, s.targetRoleId = some roleId ∧ s.status = "active"

instance (sid roleId : String) : Decidable (w.Anchored sid roleId) :=
  inferInstanceAs (Decidable (∃ s ∈ w.sessions.lookup sid, _))

/-- The message that was accepted is in the session that the answer names. -/
def Filed (sent : Sent) : Prop :=
  ∃ m ∈ w.messages, m.id = sent.messageId ∧ m.sessionId = sent.sessionId

def occupant (roleId : String) : Option Identity := (w.roles.lookup roleId).bind occupantIdentity

def OneSession (roleId agentId : String) : Prop :=
  ∀ sid ∈ w.roleSessions roleId agentId, ∀ sid' ∈ w.roleSessions roleId agentId, sid' = sid

end World

end World

/-! ## Calls side by side -/

section Calls

variable {ι : Type} [DecidableEq ι]

abbrev Calls (ι : Type) := Pool World ι (Prog Access Access.Reply (Except Failure Sent))

def Calls.start (ctx : Ctx) (req : ι → MessageTo) (w : World) : Calls ι :=
  ⟨w, fun i => (handleMessageTo ctx (req i)).run⟩

def MessageTo.For (req : MessageTo) (kind id : String) : Prop :=
  requestField req.targetKind = some kind ∧ requestField req.targetId = some id

def Calls.Accepted (c : Calls ι) (i : ι) (sent : Sent) : Prop := c.threads i = .done (.ok sent)

def IdeaConversation (req : ι → MessageTo) (c : Calls ι) (ideaId : String) : Prop :=
  ∀ i sent, (req i).For "idea" ideaId → c.Accepted i sent →
    c.state.Filed sent ∧ c.state.sessionOfIdea ideaId = some sent.sessionId

def RoleConversations (req : ι → MessageTo) (c : Calls ι) (roleId : String) : Prop :=
  ∀ i sent, (req i).For "role" roleId → c.Accepted i sent →
    c.state.Filed sent ∧ c.state.Anchored sent.sessionId roleId

def RoleConversation (req : ι → MessageTo) (c : Calls ι) (roleId : String) (caller : Identity) :
    Prop :=
  ∃ sid, ∀ i sent, (req i).For "role" roleId → (req i).caller = some caller → c.Accepted i sent →
    sent.sessionId = sid ∧ c.state.participates sid caller ∧
      ∃ who, c.state.occupant roleId = some who ∧ c.state.participates sid who

end Calls

/-! ## The conditions -/

def SetsOnce (ideaId : String) : Access → World → Prop
  | .setIdeaSession id _, w => id = ideaId → w.sessionOfIdea ideaId = none
  | _, _ => True

def JoinsOnce (roleId agentId : String) : Access → World → Prop
  | .addSessionParticipant sid who _, w => who = ("agent", agentId) → w.Anchored sid roleId →
    ∀ sid' ∈ w.roleSessions roleId agentId, sid' = sid
  | _, _ => True

instance (ideaId : String) : ∀ a w, Decidable (SetsOnce ideaId a w) := by
  intro a w
  unfold SetsOnce
  split <;> infer_instance

instance (roleId agentId : String) : ∀ a w, Decidable (JoinsOnce roleId agentId a w) := by
  intro a w
  unfold JoinsOnce
  split <;> infer_instance

/-! ## What only grows -/

section Ideas

variable {w : World} {ideaId id sid : String}

theorem sessionOfIdea_setIdeaSession (h : (w.ideas.lookup ideaId).isSome = true) :
    (w.setIdeaSession ideaId sid).sessionOfIdea ideaId = some sid := by
  obtain ⟨idea, hidea⟩ := isSome_iff_exists.1 h
  unfold World.setIdeaSession World.sessionOfIdea
  rw [hidea]
  simp

theorem lookup_setIdeaSession_ne (hne : id ≠ ideaId) :
    (w.setIdeaSession ideaId sid).ideas.lookup id = w.ideas.lookup id := by
  unfold World.setIdeaSession
  split
  · rfl
  · exact AList.lookup_insert_ne hne

theorem isSome_setIdeaSession (h : (w.ideas.lookup id).isSome = true) :
    ((w.setIdeaSession ideaId sid).ideas.lookup id).isSome = true := by
  by_cases hid : id = ideaId
  · subst hid
    unfold World.setIdeaSession
    split
    · exact h
    · simp
  · rwa [lookup_setIdeaSession_ne hid]

end Ideas

theorem Access.run_else (a : Access) (w : World) :
    (a.run w).2.roles = w.roles ∧ w.messages ⊆ (a.run w).2.messages ∧
      ((∃ ideaId sid, a = .setIdeaSession ideaId sid) ∨ (a.run w).2.ideas = w.ideas) := by
  cases a with
  | setIdeaSession ideaId sessionId =>
    obtain ⟨_, h⟩ := setIdeaSession_frame w ideaId sessionId
    rw [Access.run, h]
    exact ⟨rfl, List.Subset.refl _, .inl ⟨ideaId, sessionId, rfl⟩⟩
  | findOrCreateDmSession sessionType name a b newId pick =>
    obtain ⟨_, _, h⟩ := findOrCreateDmSession_frame w sessionType name a b newId pick
    rw [Access.run, h]
    exact ⟨rfl, List.Subset.refl _, .inr rfl⟩
  | createSession sessionId s =>
    obtain ⟨_, h⟩ := createSession_frame w sessionId s
    rw [Access.run, h]
    exact ⟨rfl, List.Subset.refl _, .inr rfl⟩
  | addSessionParticipant sessionId who joinedBy =>
    obtain ⟨_, h⟩ := addSessionParticipant_frame w sessionId who joinedBy
    rw [Access.run, h]
    exact ⟨rfl, List.Subset.refl _, .inr rfl⟩
  | appendMessageFrom sessionId role content fromKind fromId payloadKind =>
    obtain ⟨_, m, h, -, -⟩ :=
      appendMessageFrom_frame w sessionId role content fromKind fromId payloadKind
    rw [Access.run, h]
    exact ⟨rfl, List.subset_append_left _ _, .inr rfl⟩
  | enqueueSpawn spawn | getIdea id | getRole id | activeByName name
  | findRoleSession roleId agentId pick => exact ⟨rfl, List.Subset.refl _, .inr rfl⟩

/-- What no access takes back. -/
structure Grows (w w' : World) : Prop where
  roles : w'.roles = w.roles
  messages : w.messages ⊆ w'.messages
  stay : ∀ sid who, w.participates sid who → w'.participates sid who
  session : ∀ sid s, w.sessions.lookup sid = some s →
    ∃ s', w'.sessions.lookup sid = some s' ∧ SameSession s s'
  idea : ∀ id, (w.ideas.lookup id).isSome = true → (w'.ideas.lookup id).isSome = true

namespace Grows

variable {w w' w'' : World} {sid roleId : String}

theorem refl (w : World) : Grows w w :=
  ⟨rfl, List.Subset.refl _, fun _ _ h => h, fun _ s hs => ⟨s, hs, rfl⟩, fun _ h => h⟩

theorem trans (h : Grows w w') (h' : Grows w' w'') : Grows w w'' where
  roles := h'.roles.trans h.roles
  messages := List.Subset.trans h.messages h'.messages
  stay := fun sid who hwho => h'.stay sid who (h.stay sid who hwho)
  session := by
    intro sid s hs
    obtain ⟨s', hs', hsame⟩ := h.session sid s hs
    obtain ⟨s'', hs'', hsame'⟩ := h'.session sid s' hs'
    refine ⟨s'', hs'', ?_⟩
    rw [← hsame'] at hsame
    exact hsame
  idea := fun id hid => h'.idea id (h.idea id hid)

theorem filed {sent : Sent} (h : Grows w w') (hfiled : w.Filed sent) : w'.Filed sent := by
  obtain ⟨m, hm, hsent⟩ := hfiled
  exact ⟨m, h.messages hm, hsent⟩

theorem anchored (h : Grows w w') (hanchored : w.Anchored sid roleId) : w'.Anchored sid roleId := by
  obtain ⟨s, hs, hrole, hactive⟩ := hanchored
  obtain ⟨s', hs', hsame⟩ := h.session sid s hs
  exact ⟨s', hs', hsame.role.trans hrole, hsame.status.trans hactive⟩

theorem occupant (h : Grows w w') : w'.occupant roleId = w.occupant roleId := by
  unfold World.occupant
  rw [h.roles]

theorem run (a : Access) (w : World) : Grows w (a.run w).2 := by
  obtain ⟨hroles, hmessages, hideas⟩ := a.run_else w
  have hidea : ∀ id, (w.ideas.lookup id).isSome = true →
      ((a.run w).2.ideas.lookup id).isSome = true := by
    intro id hid
    rcases hideas with ⟨-, -, rfl⟩ | hideas
    · exact isSome_setIdeaSession hid
    · rwa [hideas]
  rcases a.run_sessions w with hsame | ⟨sid, who, joinedBy, rfl⟩ | ⟨sid, s, hnew, -⟩
  · refine ⟨hroles, hmessages, fun sid who hwho => ?_, fun sid s hs => ?_, hidea⟩
    · rwa [World.participates, hsame.participants]
    · obtain ⟨s', hs'⟩ := isSome_iff_exists.1 (hsame.isSome sid (by rw [hs]; rfl))
      obtain ⟨s₀, hs₀, hold⟩ := hsame.session sid s' hs'
      cases hs₀.symm.trans hs
      exact ⟨s', hs', hold⟩
  · refine ⟨hroles, hmessages, fun _ _ => participates_addSessionParticipant, fun sid s hs => ?_, hidea⟩
    refine ⟨s, ?_, rfl⟩
    rwa [Access.run, addSessionParticipant_sessions]
  · refine ⟨hroles, hmessages, hnew.stay, fun id s' hs' => ⟨s', ?_, rfl⟩, hidea⟩
    rw [hnew.sessions, AList.lookup_insert_ne, hs']
    rintro rfl
    rw [hnew.fresh] at hs'
    cases hs'

end Grows

/-! ## What a call relies on -/

def serving (good : Access → World → Prop) (answer : World → Option String)
    (hstay : ∀ a w sid, good a w → answer w = some sid → answer (a.run w).2 = some sid) :
    Rely Access Access.Reply World where
  run := Access.run
  good := good
  may w w' := Grows w w' ∧ ∀ sid, answer w = some sid → answer w' = some sid
  refl w := ⟨Grows.refl w, fun _ h => h⟩
  trans h h' := ⟨h.1.trans h'.1, fun sid hsid => h'.2 sid (h.2 sid hsid)⟩
  step a w hgood := ⟨Grows.run a w, fun sid => hstay a w sid hgood⟩

theorem sessionOfIdea_stays (ideaId : String) (a : Access) (w : World) (sid : String)
    (hgood : SetsOnce ideaId a w) (h : w.sessionOfIdea ideaId = some sid) :
    (a.run w).2.sessionOfIdea ideaId = some sid := by
  rcases (a.run_else w).2.2 with ⟨id, sessionId, rfl⟩ | hideas
  · by_cases hid : id = ideaId
    · rw [hgood hid] at h
      cases h
    · rwa [World.sessionOfIdea, Access.run, lookup_setIdeaSession_ne (Ne.symm hid)]
  · rwa [World.sessionOfIdea, hideas]

section Serving

variable {good : Access → World → Prop} {answer : World → Option String}
  {hstay : ∀ a w sid, good a w → answer w = some sid → answer (a.run w).2 = some sid}
  {ctx : Ctx} {req : MessageTo} {w : World} {sid body : String}

theorem assures_deliver : Assures (serving good answer hstay) (deliver req sid body) w
    fun sent w' => sent.sessionId = sid ∧ w'.Filed sent := by
  refine assures_bindPerform.2 fun w₁ _ _ => assures_bindResult.2 fun n hn => assures_pure.2 ?_
  intro w₂ hmay
  refine ⟨rfl, hmay.1.filed ?_⟩
  obtain ⟨_, m, hrun, hid, hsession⟩ := appendMessageFrom_frame w₁ sid
    (roleForFromKind req.senderKind) body req.senderKind req.senderId (requestField req.payloadKind)
  refine ⟨m, ?_, hid.trans (appendMessageFrom_id _ _ _ _ _ hn).symm, hsession⟩
  change m ∈ (w₁.appendMessageFrom sid _ body _ _ _).2.messages
  rw [hrun]
  exact List.mem_append_right _ List.mem_cons_self

theorem assures_deliverAndWire : Assures (serving good answer hstay)
    (deliverAndWire ctx req sid body) w fun sent w' => sent.sessionId = sid ∧ w'.Filed sent := by
  refine assures_bind.2 (assures_deliver.mono fun sent w₁ ⟨hsid, hfiled⟩ => ?_)
  refine assures_bind.2 (assures_true.since.mono fun _ w₂ ⟨_, hmay⟩ => assures_pure.2 ?_)
  exact fun w₃ hmay' => ⟨hsid, hmay'.1.filed (hmay.1.filed hfiled)⟩

/-! ### Ideas -/

variable {ideaId : String}

theorem assures_ideaSession :
    Assures (serving (SetsOnce ideaId) (·.sessionOfIdea ideaId) (sessionOfIdea_stays ideaId))
      (ideaSession req ideaId) w fun sid w' => w'.sessionOfIdea ideaId = some sid := by
  refine assures_bindPerform.2 fun w₁ _ _ => assures_bindResult.2 fun idea hidea => ?_
  have hlookup : w₁.ideas.lookup ideaId = some idea := okOr_eq_ok.1 hidea
  cases hsid : idea.sessionId with
  | some sid =>
    refine assures_pure.2 fun w₂ hmay => hmay.2 sid ?_
    change (w₁.ideas.lookup ideaId).bind _ = _
    rw [hlookup]
    exact hsid
  | none =>
    refine assures_bindPerform.2 fun w₂ hmay₂ _ => assures_bindResult.2 fun _ _ => ?_
    refine assures_bindPerform.2 fun w₃ hmay₃ _ => assures_pure.2 fun w₄ hmay₄ => ?_
    -- The idea is still there when its session is recorded.
    have hthere : (w₁.ideas.lookup ideaId).isSome = true := by rw [hlookup]; rfl
    have hstill := hmay₃.1.idea ideaId ((Grows.run _ w₂).idea ideaId (hmay₂.1.idea ideaId hthere))
    exact hmay₄.2 _ (sessionOfIdea_setIdeaSession hstill)

theorem handleMessageTo_idea (h : req.For "idea" ideaId) :
    handleMessageTo ctx req = required req.body "body" >>= fun body =>
      ideaSession req ideaId >>= fun sid => deliverAndWire ctx req sid body := by
  unfold handleMessageTo required
  rw [h.1, h.2]
  rfl

theorem assures_messageToIdea (h : req.For "idea" ideaId) :
    Assures (serving (SetsOnce ideaId) (·.sessionOfIdea ideaId) (sessionOfIdea_stays ideaId))
      (handleMessageTo ctx req) w fun sent w' =>
        w'.Filed sent ∧ w'.sessionOfIdea ideaId = some sent.sessionId := by
  rw [handleMessageTo_idea h]
  refine assures_bindResult.2 fun body _ => assures_bind.2 (assures_ideaSession.mono ?_)
  intro sid w₁ hsid
  refine assures_deliverAndWire.since.mono fun sent w₂ ⟨⟨hsent, hfiled⟩, hmay⟩ => ⟨hfiled, ?_⟩
  rw [hsent]
  exact hmay.2 sid hsid

/-! ### Roles -/

def anyCalls : Rely Access Access.Reply World :=
  serving (fun _ _ => True) (fun _ => none) fun _ _ _ _ h => h

variable {roleId : String}

theorem assures_newRoleSession :
    Assures anyCalls (newRoleSession req roleId) w fun _ w' => w'.Anchored req.newId roleId := by
  refine assures_bindPerform.2 fun w₁ _ _ => assures_result.2 fun w₂ hmay _ hok => hmay.1.anchored ?_
  exact ⟨_, lookup_createSession hok, rfl, rfl⟩

theorem assures_roleSession :
    Assures anyCalls (roleSession req roleId) w fun sid w' => w'.Anchored sid roleId ∧
      ∀ callerId, req.senderId = some callerId → w'.participates sid ("agent", callerId) := by
  unfold roleSession
  split
  next callerId hcaller =>
    refine assures_bindPerform.2 fun w₁ _ _ => ?_
    split
    next sid hfound =>
      obtain ⟨hanchored, hwho⟩ := mem_roleSessions.1 (choose_mem hfound)
      refine assures_pure.2 fun w₂ hmay => ⟨hmay.1.anchored hanchored, fun callerId' hcaller' => ?_⟩
      cases hcaller.symm.trans hcaller'
      exact hmay.1.stay _ _ hwho
    next =>
      refine assures_bind.2 (assures_newRoleSession.mono fun _ w₂ hnew => ?_)
      refine assures_bindPerform.2 fun w₃ hmay₃ _ => assures_pure.2 fun w₄ hmay₄ => ?_
      have hanchored := hmay₃.1.anchored hnew
      refine ⟨hmay₄.1.anchored ((Grows.run _ w₃).anchored hanchored), fun callerId' hcaller' => ?_⟩
      cases hcaller.symm.trans hcaller'
      obtain ⟨s, hs, -⟩ := hanchored
      refine hmay₄.1.stay _ _ (joins_addSessionParticipant (by simp [World.KINDS]) ?_)
      rw [hs]
      rfl
  next hnobody =>
    refine assures_bind.2 (assures_newRoleSession.mono fun _ w₂ hnew => ?_)
    refine assures_pure.2 fun w₃ hmay => ⟨hmay.1.anchored hnew, fun callerId hcaller => ?_⟩
    cases hnobody.symm.trans hcaller

theorem handleMessageTo_role (h : req.For "role" roleId) :
    handleMessageTo ctx req = required req.body "body" >>= fun body =>
      messageToRole req roleId body := by
  unfold handleMessageTo required
  rw [h.1, h.2]
  rfl

/-- What a call for a role leaves, whatever other calls do. -/
structure InRole (req : MessageTo) (roleId : String) (sent : Sent) (w : World) : Prop where
  filed : w.Filed sent
  anchored : w.Anchored sent.sessionId roleId
  caller : ∀ callerId, req.senderId = some callerId → w.participates sent.sessionId ("agent", callerId)
  occupant : ∃ who, w.occupant roleId = some who ∧
    (who.1 ∈ World.KINDS → w.participates sent.sessionId who)

theorem assures_messageToRole (h : req.For "role" roleId) :
    Assures anyCalls (handleMessageTo ctx req) w (InRole req roleId) := by
  rw [handleMessageTo_role h]
  refine assures_bindResult.2 fun body _ => ?_
  refine assures_bindPerform.2 fun w₁ _ _ => assures_bindResult.2 fun role hrole => ?_
  refine assures_bindResult.2 fun who hwho => assures_bind.2 (assures_roleSession.since.mono ?_)
  rintro sid w₂ ⟨⟨hanchored, hcaller⟩, hmay₂⟩
  refine assures_bindPerform.2 fun w₃ hmay₃ _ => assures_deliver.since.mono ?_
  rintro sent w₄ ⟨⟨rfl, hfiled⟩, hmay₄⟩
  have hjoined : Grows w₃ w₄ := (Grows.run _ w₃).trans hmay₄.1
  have hsession := hmay₃.1.anchored hanchored
  refine ⟨hfiled, hjoined.anchored hsession, fun callerId hid => ?_, who, ?_, fun hkind => ?_⟩
  · exact (hmay₃.1.trans hjoined).stay _ _ (hcaller callerId hid)
  · have hoccupant : w₁.occupant roleId = some who := by
      have hlookup : w₁.roles.lookup roleId = some role := okOr_eq_ok.1 hrole
      rw [World.occupant, hlookup]
      exact okOr_eq_ok.1 hwho
    rw [(hmay₂.1.trans (hmay₃.1.trans hjoined)).occupant]
    exact hoccupant
  · obtain ⟨s, hs, -⟩ := hsession
    refine hmay₄.1.stay _ _ (joins_addSessionParticipant hkind ?_)
    rw [hs]
    rfl

end Serving

/-! ## One session of an agent and a role -/

section OneSession

variable {w : World} {roleId agentId : String}

theorem mem_roleSessions_iff {sid : String} : sid ∈ w.roleSessions roleId agentId ↔
    w.Anchored sid roleId ∧ w.participates sid ("agent", agentId) := mem_roleSessions

theorem mem_roleSessions_of_run {a : Access} {sid : String} (hw : w.Referential)
    (h : sid ∈ (a.run w).2.roleSessions roleId agentId) :
    sid ∈ w.roleSessions roleId agentId ∨
      w.Anchored sid roleId ∧ ∃ joinedBy, a = .addSessionParticipant sid ("agent", agentId) joinedBy := by
  obtain ⟨⟨s', hs', hrole, hactive⟩, hwho⟩ := mem_roleSessions_iff.1 h
  rcases a.run_sessions w with hsame | ⟨sid', who, joinedBy, rfl⟩ | ⟨sid', s, hnew, hcreate⟩
  · obtain ⟨s, hs, hold⟩ := hsame.session sid s' hs'
    rw [World.participates, hsame.participants] at hwho
    exact .inl (mem_roleSessions_iff.2
      ⟨⟨s, hs, hold.role.symm.trans hrole, hold.status.symm.trans hactive⟩, hwho⟩)
  · have hanchored : w.Anchored sid roleId :=
      ⟨s', (congrArg (AList.lookup sid) (addSessionParticipant_sessions _)).symm.trans hs', hrole, hactive⟩
    rcases addSessionParticipant_participates hwho with hwho | ⟨rfl, rfl, -⟩
    · exact .inl (mem_roleSessions_iff.2 ⟨hanchored, hwho⟩)
    · exact .inr ⟨hanchored, joinedBy, rfl⟩
  · left
    obtain ⟨x, y, hjoined⟩ := hnew.joined
    rw [hnew.sessions] at hs'
    rcases Accounts.lookup_insert_some hs' with ⟨rfl, rfl⟩ | ⟨hne, hold⟩
    · -- Nobody takes part in a session that was just created for a role.
      rcases hcreate with rfl | hnone
      · obtain ⟨_, hframe⟩ := createSession_frame w sid s'
        rw [Access.run, hframe] at hwho
        exact absurd hwho (hw.nobody hnew.fresh)
      · rw [hnone] at hrole
        cases hrole
    · rcases hjoined sid _ hwho with hwho | ⟨heq, -⟩
      · exact mem_roleSessions_iff.2 ⟨⟨s', hold, hrole, hactive⟩, hwho⟩
      · exact absurd heq hne

theorem OneSession.run (a : Access) (w : World) (hgood : JoinsOnce roleId agentId a w)
    (h : w.Referential ∧ w.OneSession roleId agentId) :
    (a.run w).2.Referential ∧ (a.run w).2.OneSession roleId agentId := by
  refine ⟨h.1.run a, fun sid hsid sid' hsid' => ?_⟩
  rcases mem_roleSessions_of_run h.1 hsid with hold | ⟨hanchored, joinedBy, rfl⟩
  · rcases mem_roleSessions_of_run h.1 hsid' with hold' | ⟨hanchored, joinedBy, rfl⟩
    · exact h.2 sid hold sid' hold'
    · exact (hgood rfl hanchored sid hold).symm
  · rcases mem_roleSessions_of_run h.1 hsid' with hold' | ⟨-, _, heq⟩
    · exact hgood rfl hanchored sid' hold'
    · cases heq
      rfl

end OneSession

/-! ## Every run -/

section Run

variable {ι : Type} [DecidableEq ι] {ctx : Ctx} {req : ι → MessageTo} {w : World}
  {hist : List (Calls ι × ι)} {c : Calls ι}

theorem Calls.Accepted.assured {e : Rely Access Access.Reply World} {i : ι} {sent : Sent}
    {q : Sent → World → Prop}
    (run : Run (Guarded (Pool.NextMeets e.good) (okStep (Pool.step e.run))) (Calls.start ctx req w)
      hist c)
    (h : Assures e (handleMessageTo ctx (req i)) w q) (haccepted : c.Accepted i sent) :
    q sent c.state := by
  have hleft := run.secures (i := i) h
  rw [haccepted] at hleft
  exact hleft c.state (e.refl _) sent rfl

/-- **The store takes nothing back** in any run of calls side by side, and who takes part in a
session does so in one that exists. -/
theorem store_grows {c₀ : Calls ι} (run : Run (okStep (Pool.step Access.run)) c₀ hist c) :
    Grows c₀.state c.state ∧ (c₀.state.Referential → c.state.Referential) := by
  refine run.invariant
    (P := fun c => Grows c₀.state c.state ∧ (c₀.state.Referential → c.state.Referential))
    ⟨Grows.refl _, id⟩ ?_
  rintro t i t' ⟨hgrows, hknown⟩ h
  obtain ⟨a, k, -, rfl⟩ := Pool.step_ok h
  exact ⟨hgrows.trans (Grows.run a t.state), fun h₀ => (hknown h₀).run a⟩

/-- **One conversation for every target** in every run of calls side by side, if the idea's session
is recorded once and the agent joins one session of the role only. -/
theorem one_conversation (run : Run (okStep (Pool.step Access.run)) (Calls.start ctx req w) hist c) :
    (∀ ideaId, (∀ e ∈ hist, Pool.NextMeets (SetsOnce ideaId) e.1 e.2) →
      IdeaConversation req c ideaId) ∧
    (∀ roleId, RoleConversations req c roleId) ∧
    ∀ roleId agentId, w.Referential → w.OneSession roleId agentId →
      (∀ who, w.occupant roleId = some who → who.1 ∈ World.KINDS) →
      (∀ e ∈ hist, Pool.NextMeets (JoinsOnce roleId agentId) e.1 e.2) →
      RoleConversation req c roleId ("agent", agentId) := by
  have hany : Run (Guarded (Pool.NextMeets anyCalls.good) (okStep (Pool.step anyCalls.run)))
      (Calls.start ctx req w) hist c := by
    refine Run.guarded_iff.2 ⟨run, fun e _ => ?_⟩
    unfold Pool.NextMeets
    split <;> trivial
  refine ⟨fun ideaId hset i sent hfor haccepted => ?_, fun roleId i sent hfor haccepted => ?_,
    fun roleId agentId hknown hone hkind hjoin => ?_⟩
  · have hrun := Run.guarded_iff.2 ⟨run, hset⟩
    exact haccepted.assured (e := serving (SetsOnce ideaId) (·.sessionOfIdea ideaId)
      (sessionOfIdea_stays ideaId)) hrun (assures_messageToIdea hfor)
  · have hrole := haccepted.assured hany (assures_messageToRole hfor)
    exact ⟨hrole.filed, hrole.anchored⟩
  · have hend : c.state.OneSession roleId agentId :=
      (Pool.invariant (Run.guarded_iff.2 ⟨run, hjoin⟩) ⟨hknown, hone⟩ OneSession.run).2
    have hroles : c.state.occupant roleId = w.occupant roleId :=
      Grows.occupant (hany.invariant (P := fun c => Grows w c.state) (Grows.refl w) (by
        intro t i t' ht h
        obtain ⟨a, k, -, -, rfl⟩ := Pool.guardedStep h
        exact ht.trans (Grows.run a t.state)))
    -- Every accepted message of the agent is in a session of the role that it takes part in.
    have hmem : ∀ i sent, (req i).For "role" roleId → (req i).caller = some ("agent", agentId) →
        c.Accepted i sent → sent.sessionId ∈ c.state.roleSessions roleId agentId ∧
          ∃ who, c.state.occupant roleId = some who ∧ c.state.participates sent.sessionId who := by
      intro i sent hfor hcaller haccepted
      have hrole := haccepted.assured hany (assures_messageToRole hfor)
      obtain ⟨id, hid, heq⟩ := map_eq_some_iff.1 hcaller
      cases (Prod.mk.inj heq).2
      obtain ⟨who, hwho, hjoined⟩ := hrole.occupant
      refine ⟨mem_roleSessions_iff.2 ⟨hrole.anchored, hrole.caller agentId hid⟩, who, hwho, hjoined ?_⟩
      exact hkind who (hroles.symm.trans hwho)
    by_cases hsome : ∃ i sent, (req i).For "role" roleId ∧
        (req i).caller = some ("agent", agentId) ∧ c.Accepted i sent
    · obtain ⟨i, sent, hfor, hcaller, haccepted⟩ := hsome
      have hfirst := (hmem i sent hfor hcaller haccepted).1
      refine ⟨sent.sessionId, fun i' sent' hfor' hcaller' haccepted' => ?_⟩
      obtain ⟨hsession, who, hwho, hjoined⟩ := hmem i' sent' hfor' hcaller' haccepted'
      have hsame := hend _ hfirst _ hsession
      rw [hsame] at hjoined
      exact ⟨hsame, (mem_roleSessions_iff.1 hfirst).2, who, hwho, hjoined⟩
    · refine ⟨"", fun i sent hfor hcaller haccepted => absurd ?_ hsome⟩
      exact ⟨i, sent, hfor, hcaller, haccepted⟩

end Run

/-! ### First messages -/

/-- An idea without a session, and a role that a human occupies. -/
def officeWorld : World where
  ideas := (∅ : Accounts String Idea).insert "plan" { name := "Plan" }
  roles := (∅ : Accounts String Role).insert "lead"
    { trustId := "acme", occupantKind := .human, occupantId := some "eve" }

/-- Agent `ada` writes. -/
def fromAda (kind id newId : String) : MessageTo :=
  { targetKind := some kind, targetId := some id, body := some "hi", fromKind := some "agent",
    fromId := some "ada", newId }

abbrev officeCalls : Fin 4 → MessageTo :=
  ![fromAda "idea" "plan" "s1", fromAda "idea" "plan" "s2", fromAda "role" "lead" "s3",
    fromAda "role" "lead" "s4"]

/-- One call after the other. -/
theorem officeCalls_one_conversation : ∃ hist c,
    Run (okStep (Pool.step Access.run)) (Calls.start { toLowercase := id } officeCalls officeWorld) hist c ∧
      c.state.messages.map (·.sessionId) = ["s1", "s1", "s3", "s3"] ∧
      IdeaConversation officeCalls c "plan" ∧ RoleConversation officeCalls c "lead" ("agent", "ada") := by
  have hgood : AllGood (Pool.NextMeets fun a w => SetsOnce "plan" a w ∧ JoinsOnce "lead" "ada" a w)
      (Pool.step Access.run) (Calls.start { toLowercase := id } officeCalls officeWorld)
      [0, 0, 0, 0, 1, 1, 2, 2, 2, 2, 2, 2, 3, 3, 3, 3] := by decide +kernel
  obtain ⟨hist, c, hc, run⟩ := Run.of_allGood .nil hgood
  obtain ⟨run, hkept⟩ := Run.guarded_iff.1 run
  have hfacts : (execAll (Pool.step Access.run)
      (Calls.start { toLowercase := id } officeCalls officeWorld)
      [0, 0, 0, 0, 1, 1, 2, 2, 2, 2, 2, 2, 3, 3, 3, 3]).toOption.map
        (fun c => c.state.messages.map (·.sessionId)) = some ["s1", "s1", "s3", "s3"] := by
    decide +kernel
  simp only [toOption_map_eq_some, hc, Except.ok.injEq] at hfacts
  obtain ⟨_, rfl, hmessages⟩ := hfacts
  obtain ⟨hidea, -, hrole⟩ := one_conversation run
  refine ⟨hist, c, run, hmessages, hidea "plan" fun e he => ?_, hrole "lead" "ada" ?_ ?_ ?_ fun e he => ?_⟩
  · exact (hkept e he).mono fun _ _ h => h.1
  · exact nofun
  · exact nofun
  · decide +kernel
  · exact (hkept e he).mono fun _ _ h => h.2

theorem officeCalls_grow : ∃ c, execAll (Pool.step Access.run)
      (Calls.start { toLowercase := id } officeCalls officeWorld) [0, 2, 0, 2, 0, 2] = .ok c ∧
    Grows officeWorld c.state := by
  have hok : (execAll (Pool.step Access.run)
      (Calls.start { toLowercase := id } officeCalls officeWorld) [0, 2, 0, 2, 0, 2]).isOk =
      true := by decide +kernel
  obtain ⟨c, hc⟩ := isOk_eq_true.1 hok
  obtain ⟨hist, run⟩ := Run.execAll hc
  exact ⟨c, hc, (store_grows run).1⟩

/-- Two first messages for an idea, each of which finds that it has no session. -/
theorem not_one_conversation : ¬ ∀ (n : Nat) (ctx : Ctx) (req : Fin n → MessageTo) (w : World) hist c,
    Run (okStep (Pool.step Access.run)) (Calls.start ctx req w) hist c → w.Referential →
      (∀ i, ∃ r, c.threads i = .done r) → ∀ ideaId, IdeaConversation req c ideaId := by
  intro hall
  let calls : Fin 2 → MessageTo := ![fromAda "idea" "plan" "s1", fromAda "idea" "plan" "s2"]
  have hfacts : (execAll (Pool.step Access.run) (Calls.start { toLowercase := id } calls officeWorld)
      [0, 1, 0, 0, 0, 1, 1, 1]).toOption.map
        (fun c => ((c.threads 0).result, (c.threads 1).result, c.state.sessionOfIdea "plan")) =
      some (some (.ok ⟨"s1", 1⟩), some (.ok ⟨"s2", 2⟩), some "s2") := by
    decide +kernel
  simp only [map_eq_some_iff, toOption_eq_some, Prod.mk.injEq, Prog.result_eq_some] at hfacts
  obtain ⟨c, hc, hfirst, hsecond, hsession⟩ := hfacts
  obtain ⟨hist, run⟩ := Run.execAll hc
  have hreturned : ∀ i, ∃ r, c.threads i = .done r := by
    intro i
    match i with
    | 0 => exact ⟨_, hfirst⟩
    | 1 => exact ⟨_, hsecond⟩
  have hidea := hall 2 _ calls _ hist c run (nofun)
    hreturned "plan" 0 ⟨"s1", 1⟩ (by constructor <;> decide +kernel) hfirst
  rw [hsession] at hidea
  simp at hidea

end Aeqi.Messages
