import Aeqi.Messages.Isolation

/-!
# What gives rows outside away

A message to what is not in scope reaches it, or is answered as the rows outside have it; and so
is an addition to a session that is not in scope.
-/

namespace Aeqi.Messages

open Aeqi.Lib Aeqi.Orchestrator Accounts Handler List Option

/-! ## A new direct session -/

section NewDm

variable {allowed : Option (List String)} {w : World} {sessionType name sid id : String}
  {a b who : Identity}

def World.newDm (w : World) (sessionType name : String) (a b : Identity) (sid : String) : World :=
  let w := (w.createSession sid { sessionType, name }).2
  ((w.addSessionParticipant sid a none).2.addSessionParticipant sid b none).2

theorem findOrCreateDmSession_chosen {newId : String} {pick : Nat}
    (h : choose pick (w.dmSessions sessionType a b) = some sid) :
    w.findOrCreateDmSession sessionType name a b newId pick = (.ok (sid, false), w) := by
  unfold World.findOrCreateDmSession
  rw [h]

theorem findOrCreateDmSession_new {pick : Nat} (hnew : w.Unused sid)
    (h : choose pick (w.dmSessions sessionType a b) = none) :
    w.findOrCreateDmSession sessionType name a b sid pick =
      (.ok (sid, true), w.newDm sessionType name a b sid) := by
  unfold World.findOrCreateDmSession World.newDm
  rw [h, createSession_unused hnew]

theorem newDm_frame (hnew : w.Unused sid) : ∃ participants,
    w.newDm sessionType name a b sid = { w with
      sessions := w.sessions.insert sid { sessionType, name }, participants := participants } := by
  unfold World.newDm
  rw [createSession_unused hnew]
  obtain ⟨_, ha⟩ := addSessionParticipant_frame
    { w with sessions := w.sessions.insert sid { sessionType, name } } sid a none
  dsimp only
  rw [ha]
  exact addSessionParticipant_frame _ sid b none

theorem participates_newDm (hnew : w.Unused sid) (ha : a.1 ∈ World.KINDS) (hb : b.1 ∈ World.KINDS) :
    (w.newDm sessionType name a b sid).participates id who ↔
      w.participates id who ∨ id = sid ∧ (who = a ∨ who = b) := by
  unfold World.newDm
  rw [createSession_unused hnew]
  have hthere : ∀ w' : World, w'.sessions = w.sessions.insert sid { sessionType, name } →
      (w'.sessions.lookup sid).isSome = true := fun w' hw' => by
    rw [hw', AList.lookup_insert]
    rfl
  constructor
  · intro h
    rcases addSessionParticipant_participates h with h | ⟨rfl, rfl, -⟩
    · rcases addSessionParticipant_participates h with h | ⟨rfl, rfl, -⟩
      · exact .inl h
      · exact .inr ⟨rfl, .inl rfl⟩
    · exact .inr ⟨rfl, .inr rfl⟩
  · rintro (h | ⟨rfl, rfl | rfl⟩)
    · exact participates_addSessionParticipant (participates_addSessionParticipant h)
    · exact participates_addSessionParticipant (joins_addSessionParticipant ha (hthere _ rfl))
    · exact joins_addSessionParticipant hb (hthere _ (addSessionParticipant_sessions _))

theorem newDm_spec (sessionType name : String) (hnew : w.Unused sid) (ha : a.1 ∈ World.KINDS)
    (hb : b.1 ∈ World.KINDS) : ∃ w', w.newDm sessionType name a b sid = w' ∧
      (∃ participants, w' = { w with
        sessions := w.sessions.insert sid { sessionType, name }, participants := participants }) ∧
      ∀ id who, w'.participates id who ↔ w.participates id who ∨ id = sid ∧ (who = a ∨ who = b) :=
  ⟨_, rfl, newDm_frame hnew, fun _ _ => participates_newDm hnew ha hb⟩

theorem newDm_outside (hnew : w.Unused sid) (ha : a.1 ∈ World.KINDS) (hb : b.1 ∈ World.KINDS)
    (houtA : ¬ w.identityInScope allowed a) (houtB : ¬ w.identityInScope allowed b) :
    (w.newDm sessionType name a b sid).sessionInScope allowed sid = false := by
  obtain ⟨_, hdm, ⟨participants, rfl⟩, hjoined⟩ := newDm_spec sessionType name hnew ha hb
  rw [hdm]
  rw [Bool.eq_false_iff, Ne, World.sessionInScope_iff, World.ofIdeaInScope_iff]
  rintro (⟨s, hs, hrow⟩ | ⟨ideaId, idea, hidea, -, hsid⟩)
  · cases (AList.lookup_insert (a := sid) w.sessions).symm.trans hs
    simp only [World.rowInScope, any_none, Bool.false_or, Bool.and_eq_true] at hrow
    obtain ⟨agentId, hwho, hagent⟩ := World.agentTakesPart_iff.1 hrow.2
    rcases (hjoined _ _).1 hwho with hwho | ⟨-, rfl | rfl⟩
    · exact hnew.participant _ hwho
    · exact houtA ⟨rfl, hagent⟩
    · exact houtB ⟨rfl, hagent⟩
  · exact hnew.idea ideaId idea hidea hsid

theorem within_newDm (hnew : w.Unused sid) (ha : a.1 ∈ World.KINDS) (hb : b.1 ∈ World.KINDS)
    (houtA : ¬ w.identityInScope allowed a) (houtB : ¬ w.identityInScope allowed b) :
    (w.newDm sessionType name a b sid).within allowed = w.within allowed := by
  have hlast : (w.newDm sessionType name a b sid).sessionInScope allowed sid = false :=
    newDm_outside hnew ha hb houtA houtB
  unfold World.newDm at ⊢
  have hfirst := Bool.eq_false_iff.2 fun hin =>
    Bool.eq_false_iff.1 hlast (World.sessionInScope_addSessionParticipant hin)
  have hcreated := Bool.eq_false_iff.2 fun hin =>
    Bool.eq_false_iff.1 hfirst (World.sessionInScope_addSessionParticipant hin)
  rw [World.within_addSessionParticipant hlast, World.within_addSessionParticipant hfirst,
    World.within_createSession hcreated]

theorem dmSessions_newDm (hnew : w.Unused sid) (ha : a.1 ∈ World.KINDS) (hb : b.1 ∈ World.KINDS) :
    (w.newDm sessionType name a b sid).dmSessions sessionType a b =
      sid :: w.dmSessions sessionType a b := by
  obtain ⟨_, hdm, ⟨participants, rfl⟩, hjoined⟩ := newDm_spec sessionType name hnew ha hb
  have hmem : sid ∉ w.sessions.keys := by
    rw [← AList.mem_keys, ← AList.lookup_isSome, hnew.session]
    exact Bool.false_ne_true
  rw [hdm]
  unfold World.dmSessions
  rw [AList.keys_insert, erase_of_not_mem hmem, filter_cons_of_pos]
  · refine congrArg (sid :: ·) (filter_congr fun id hid => ?_)
    have hne : id ≠ sid := fun h => hmem (h ▸ hid)
    rw [AList.lookup_insert_ne hne]
    simp [hjoined, hne]
  · simp only [hjoined]
    simp

theorem unused_newDm {newId : String} (hnew : w.Unused sid) (ha : a.1 ∈ World.KINDS)
    (hb : b.1 ∈ World.KINDS) (hne : newId ≠ sid) (h : w.Unused newId) :
    (w.newDm sessionType name a b sid).Unused newId := by
  obtain ⟨_, hdm, ⟨participants, rfl⟩, hjoined⟩ := newDm_spec sessionType name hnew ha hb
  rw [hdm]
  refine ⟨?_, fun who hwho => ?_, h.idea⟩
  · exact (AList.lookup_insert_ne hne).trans h.session
  · rcases (hjoined newId who).1 hwho with hold | ⟨heq, -⟩
    · exact h.participant who hold
    · exact hne heq

theorem exists_unused (w : World) (ids : List String) : ∃ id, id ∉ ids ∧ w.Unused id := by
  let used := ids ++ w.sessions.keys ++ w.participants.keys.map Prod.fst ++
    w.ideas.keys.filterMap fun ideaId => (w.ideas.lookup ideaId).bind (·.sessionId)
  obtain ⟨id, hid⟩ := Infinite.exists_notMem_finset used.toFinset
  simp only [used, List.mem_toFinset, mem_append, not_or] at hid
  obtain ⟨⟨⟨hids, hsessions⟩, hparticipants⟩, hideas⟩ := hid
  refine ⟨id, hids, ?_, fun who hwho => hparticipants ?_, fun ideaId idea hidea hsid => hideas ?_⟩
  · rw [AList.lookup_eq_none]
    exact hsessions
  · exact List.mem_map.2 ⟨_, AList.mem_keys.1 hwho, rfl⟩
  · refine mem_filterMap.2 ⟨ideaId, AList.mem_keys.1 (AList.lookup_isSome.1 (by rw [hidea]; rfl)), ?_⟩
    rw [hidea]
    exact hsid

theorem exists_crowd {newId : String} (ids : List String) (ha : a.1 ∈ World.KINDS)
    (hb : b.1 ∈ World.KINDS) (houtA : ¬ w.identityInScope allowed a)
    (houtB : ¬ w.identityInScope allowed b) (h : w.Unused newId) (n : Nat) :
    ∃ (w' : World) (rows : List String), w'.within allowed = w.within allowed ∧ w'.Unused newId ∧
      rows.length = n ∧
      (∀ sid ∈ rows, sid ∉ ids) ∧
      w'.dmSessions sessionType a b = rows ++ w.dmSessions sessionType a b := by
  induction n with
  | zero => exact ⟨w, [], rfl, h, rfl, nofun, rfl⟩
  | succ n ih =>
    obtain ⟨w', rows, hwithin, hnew', hlength, hrows, hsessions⟩ := ih
    obtain ⟨sid, hsid, hnew⟩ := exists_unused w' (newId :: ids)
    have houtA' : ¬ w'.identityInScope allowed a := by rwa [identityInScope_congr hwithin]
    have houtB' : ¬ w'.identityInScope allowed b := by rwa [identityInScope_congr hwithin]
    refine ⟨w'.newDm sessionType "" a b sid, sid :: rows,
      (within_newDm hnew ha hb houtA' houtB').trans hwithin,
      unused_newDm hnew ha hb (fun heq => hsid (heq ▸ mem_cons_self)) hnew', ?_, ?_, ?_⟩
    · rw [length_cons, hlength]
    · intro sid' hsid'
      rcases mem_cons.1 hsid' with rfl | hsid'
      · exact fun hmem => hsid (mem_cons_of_mem _ hmem)
      · exact hrows sid' hsid'
    · rw [dmSessions_newDm hnew ha hb, hsessions]
      rfl

end NewDm

/-! ## Requests that are isolated -/

section Converse

variable {ids : List String} {allowed : Option (List String)} {w : World} {ctx : Ctx}
  {req : MessageTo} {id body kind sessionType newId : String}

theorem unused_within (h : w.Unused newId) : (w.within allowed).Unused newId := by
  refine ⟨?_, fun who hwho => h.participant who (World.participates_within.1 hwho).1,
    fun ideaId idea hidea => h.idea ideaId idea (World.lookup_ideas_within.1 hidea).1⟩
  rw [eq_none_iff_forall_ne_some]
  intro s hs
  cases h.session.symm.trans (World.lookup_sessions_within.1 hs).1

theorem sessionInScope_of_scoped {fresh : World → Prop}
    (hiso : Scoped allowed fresh (deliverAndWire ctx req id body) w) :
    w.sessionInScope allowed id = true :=
  (along_bind_iff.1 (along_bind_iff.1 hiso.confined).1).1.1

theorem ideaInScope_of_scoped (hnew : w.Unused req.newId)
    (hiso : Scoped allowed (·.Unused req.newId)
      (ideaSession req id >>= fun sid => deliverAndWire ctx req sid body) w) :
    ∃ idea, w.ideas.lookup id = some idea ∧ w.ideaInScope allowed idea = true := by
  by_contra hout
  have hnone : (w.within allowed).ideas.lookup id = none := by
    rw [eq_none_iff_forall_ne_some]
    intro idea hidea
    exact hout ⟨idea, World.lookup_ideas_within.1 hidea⟩
  let idea : Idea := { name := "" }
  let w' : World := { w.within allowed with ideas := (w.within allowed).ideas.insert id idea }
  have hsame : w'.within allowed = w.within allowed :=
    (World.within_insertIdea (AList.lookup_eq_none.1 hnone) rfl).trans World.within_within
  have hwithin : (w.within allowed).Unused req.newId := unused_within hnew
  have hnew' : w'.Unused req.newId := by
    refine ⟨hwithin.session, hwithin.participant, fun ideaId idea' hidea' => ?_⟩
    rcases lookup_insert_some hidea' with ⟨-, rfl⟩ | ⟨-, hold⟩
    · simp
    · exact hwithin.idea ideaId idea' hold
  have hreply := hiso.same World.within_within hwithin hsame hnew'
  rw [reply_idea hwithin, reply_idea hnew', hnone,
    show w'.ideas.lookup id = some idea from AList.lookup_insert _] at hreply
  exact delivered_ne_message hreply.symm

theorem roleInScope_of_scoped (hnew : w.Unused req.newId)
    (hiso : Scoped (some ids) (·.Unused req.newId) (messageToRole req id body) w) :
    w.roleInScope (some ids) id = true := by
  by_contra hout
  have hnone : (w.within (some ids)).roles.lookup id = none := by
    rw [eq_none_iff_forall_ne_some]
    intro role hrole
    exact hout (lookup_restrict_some.1 hrole).2
  obtain ⟨trustId, htrust⟩ := Infinite.exists_notMem_finset ids.toFinset
  let role : Role := { trustId, occupantKind := .vacant }
  let w' : World := { w.within (some ids) with roles := (w.within (some ids)).roles.insert id role }
  have hforeign : isAllowed (some ids) role.trustId = false := by
    rw [List.mem_toFinset] at htrust
    refine List.any_eq_false.2 fun c hc => ?_
    rw [decide_eq_true_eq]
    rintro rfl
    exact htrust hc
  have hsame : w'.within (some ids) = w.within (some ids) :=
    (World.within_insertRole (AList.lookup_eq_none.1 hnone) hforeign).trans World.within_within
  have hwithin : (w.within (some ids)).Unused req.newId := unused_within hnew
  have hnew' : w'.Unused req.newId := ⟨hwithin.session, hwithin.participant, hwithin.idea⟩
  have hreply := hiso.same World.within_within hwithin hsame hnew'
  rw [reply_role hwithin, reply_role hnew', hnone,
    show w'.roles.lookup id = some role from AList.lookup_insert _] at hreply
  simp [role, occupantIdentity] at hreply

theorem dm_confined (hnew : w.Unused req.newId) (hkind : kind ∈ World.KINDS)
    (hcaller : ¬ w.identityInScope allowed ("agent", req.senderId.getD ""))
    (htarget : ¬ w.identityInScope allowed (kind, id))
    (hiso : Scoped allowed (·.Unused req.newId) (messageToDm ctx req sessionType kind id body) w) :
    ∃ sid, choose req.pick (w.dmSessions sessionType ("agent", req.senderId.getD "") (kind, id)) =
      some sid ∧ w.sessionInScope allowed sid = true := by
  have hagent : "agent" ∈ World.KINDS := by decide
  obtain ⟨name, hthen⟩ : ∃ name, ∀ found : String × Bool,
      (w.findOrCreateDmSession sessionType name ("agent", req.senderId.getD "") (kind, id) req.newId
        req.pick).1 = .ok found → Leads Access.run (Access.Confined allowed)
          (deliverAndWire ctx req found.1 body)
          (w.findOrCreateDmSession sessionType name ("agent", req.senderId.getD "") (kind, id) req.newId
            req.pick).2 fun _ _ => True :=
    ⟨_, leads_give.1 (leads_bind.1 (leads_act.1 (leads_bind.1 (leads_true.2 hiso.confined))).2)⟩
  have hreached : ∀ {sid w'}, Leads Access.run (Access.Confined allowed)
      (deliverAndWire ctx req sid body) w' (fun _ _ => True) → w'.sessionInScope allowed sid = true :=
    fun h => (leads_act.1 (leads_bind.1 (leads_bind.1 h))).1
  cases hchosen : choose req.pick
      (w.dmSessions sessionType ("agent", req.senderId.getD "") (kind, id)) with
  | some sid =>
    have hfound : w.findOrCreateDmSession sessionType name ("agent", req.senderId.getD "") (kind, id)
        req.newId req.pick = (.ok (sid, false), w) := findOrCreateDmSession_chosen hchosen
    rw [hfound] at hthen
    have hled := hthen (sid, false) rfl
    exact ⟨sid, rfl, hreached hled⟩
  | none =>
    have hfound : w.findOrCreateDmSession sessionType name ("agent", req.senderId.getD "") (kind, id)
        req.newId req.pick = (.ok (req.newId, true), w.newDm sessionType name
          ("agent", req.senderId.getD "") (kind, id) req.newId) :=
      findOrCreateDmSession_new hnew hchosen
    rw [hfound] at hthen
    have hled := hthen (req.newId, true) rfl
    cases (newDm_outside hnew hagent hkind hcaller htarget).symm.trans (hreached hled)

theorem pairInScope_of_scoped (hnew : w.Unused req.newId) (hkind : kind ∈ World.KINDS)
    (hiso : Scoped allowed (·.Unused req.newId) (messageToDm ctx req sessionType kind id body) w) :
    req.PairInScope allowed w sessionType (kind, id) body := by
  by_contra hnot
  obtain ⟨hcaller, hnot⟩ := not_or.1 hnot
  obtain ⟨htarget, hnot⟩ := not_or.1 hnot
  have hagent : "agent" ∈ World.KINDS := by decide
  have hcut : ¬ req.CutInside body := fun hcut =>
    hnot ⟨hcut, dm_confined hnew hkind hcaller htarget hiso⟩
  -- a crowd of other sessions of the two, none of them the one that was reached
  obtain ⟨w', rows, hwithin, hnew', hlength, hrows, hsessions⟩ := exists_crowd
    [req.dmSid w sessionType (kind, id)] hagent hkind hcaller htarget hnew (req.pick + 1)
  have hchosen : ∃ sid ∈ rows, req.dmSid w' sessionType (kind, id) = sid := by
    unfold MessageTo.dmSid choose
    rw [hsessions]
    have hlt : req.pick < (rows ++ w.dmSessions sessionType ("agent", req.senderId.getD "")
        (kind, id)).length := by
      rw [length_append]
      omega
    have hpick : req.pick < rows.length := by omega
    rw [Nat.mod_eq_of_lt hlt, getElem?_append_left hpick, getElem?_eq_getElem hpick]
    exact ⟨_, getElem_mem hpick, rfl⟩
  obtain ⟨sid, hsid, hreached⟩ := hchosen
  have hreply := hiso.uninfluenced w' hwithin hnew'
  rw [reply_dm hnew, reply_dm hnew', hreached] at hreply
  unfold MessageTo.delivered at hreply
  rw [if_neg hcut, if_neg hcut] at hreply
  injection hreply with hsent
  injection hsent with hsame
  exact hrows sid hsid (hsame ▸ mem_singleton_self _)

theorem messageTo_scoped_iff (hnew : w.Unused req.newId) :
    Scoped (some ids) (·.Unused req.newId) (handleMessageTo ctx req) w ↔ req.InScope (some ids) w := by
  refine ⟨fun hiso kind id body hasks => ?_, fun hscope => messageTo_scoped hscope hnew⟩
  rw [handleMessageTo_asks hasks] at hiso
  refine ⟨?_, ?_, ?_, ?_, ?_⟩
  · rintro rfl
    exact sessionInScope_of_scoped hiso
  · rintro rfl
    exact ideaInScope_of_scoped hnew hiso
  · rintro rfl
    exact roleInScope_of_scoped hnew hiso
  · rintro rfl
    exact pairInScope_of_scoped hnew (by decide) hiso
  · rintro rfl
    exact pairInScope_of_scoped hnew (by decide) hiso

end Converse

/-! ## `add_participant` -/

section AddParticipant

variable {allowed : Option (List String)} {w w' : World} {req : AddParticipant}
  {sid kind id : String} {who : Identity} {joinedBy : Option String}

/-- The fields that every request has. -/
structure AddParticipant.Asks (req : AddParticipant) (sid kind id : String) : Prop where
  session : requestField req.sessionId = some sid
  kind : requestField req.identityKind = some kind
  id : requestField req.identityId = some id

def AddParticipant.InScope (allowed : Option (List String)) (req : AddParticipant) (w : World) : Prop :=
  ∀ sid kind id, req.Asks sid kind id → kind ∈ World.KINDS → w.sessionInScope allowed sid = true

theorem handleAddParticipant_refused (h : ∀ sid kind id, ¬ req.Asks sid kind id) :
    ∃ e, handleAddParticipant req = give (.error e) := by
  unfold handleAddParticipant required
  cases hsid : requestField req.sessionId with
  | none => exact ⟨_, rfl⟩
  | some sid =>
    cases hkind : requestField req.identityKind with
    | none => exact ⟨_, rfl⟩
    | some kind =>
      cases hid : requestField req.identityId with
      | none => exact ⟨_, rfl⟩
      | some id => exact absurd ⟨hsid, hkind, hid⟩ (h sid kind id)

/-- The addition, and its message. -/
def join (sid kind id : String) (joinedBy : Option String) : Routine Added := do
  let added ← act (.addSessionParticipant sid (kind, id) joinedBy)
  let inserted ← give (added : Except Failure Bool)
  if inserted then
    let _ ← act (.appendMessageFrom sid "system" (kind ++ ":" ++ id ++ " joined") "system" none none)
  pure { sessionId := sid, inserted }

theorem handleAddParticipant_asks (h : req.Asks sid kind id) :
    handleAddParticipant req = join sid kind id (requestField req.joinedBy) := by
  unfold handleAddParticipant required
  rw [h.session, h.kind, h.id]
  rfl

theorem reply_join : (alone Access.run (join sid kind id joinedBy) w).1 =
    (w.addSessionParticipant sid (kind, id) joinedBy).1.map fun inserted =>
      { sessionId := sid, inserted } := by
  have hread : (alone Access.run (join sid kind id joinedBy) w).1 =
      (w.addSessionParticipant sid (kind, id) joinedBy).1.bind fun inserted => (alone Access.run _
        (w.addSessionParticipant sid (kind, id) joinedBy).2).1 := reply_act.trans reply_give
  rw [hread]
  cases (w.addSessionParticipant sid (kind, id) joinedBy).1 with
  | error e => rfl
  | ok inserted => cases inserted <;> rfl

theorem addSessionParticipant_kind (h : who.1 ∉ World.KINDS) :
    (w.addSessionParticipant sid who joinedBy).1 = .ok false := by
  unfold World.addSessionParticipant
  rw [if_pos (.inr h)]

theorem addSessionParticipant_congr (h : w'.within allowed = w.within allowed)
    (hscope : w.sessionInScope allowed sid = true) :
    (w'.addSessionParticipant sid who joinedBy).1 = (w.addSessionParticipant sid who joinedBy).1 := by
  unfold World.addSessionParticipant
  simp only [World.participates_congr h hscope, World.session_congr h hscope]
  split
  · rfl
  · split <;> rfl

theorem leads_join_inScope (hscope : kind ∈ World.KINDS → w.sessionInScope allowed sid = true) :
    Leads Access.run (Access.Confined allowed) (join sid kind id joinedBy) w fun _ _ => True := by
  have hadded : (w.addSessionParticipant sid (kind, id) joinedBy).1 = .ok true →
      w.sessionInScope allowed sid = true := by
    intro hok
    refine hscope ?_
    by_contra hkind
    rw [addSessionParticipant_kind hkind] at hok
    cases hok
  refine leads_bind.2 (leads_act.2 ⟨hadded, leads_bind.2 (leads_give.2 fun inserted hok => ?_)⟩)
  cases inserted with
  | false => exact leads_pure.2 trivial
  | true =>
    refine leads_bind.2 (leads_act.2 ⟨?_, leads_pure.2 trivial⟩)
    exact World.sessionInScope_addSessionParticipant (hadded hok)

theorem outside_session (hout : ¬ w.sessionInScope allowed sid = true) :
    (w.within allowed).sessions.lookup sid = none ∧ ∀ who, ¬ (w.within allowed).participates sid who := by
  refine ⟨?_, fun who hwho => hout (World.participates_within.1 hwho).2⟩
  rw [eq_none_iff_forall_ne_some]
  intro s hs
  exact hout (World.lookup_sessions_within.1 hs).2

theorem exists_session (hout : ¬ w.sessionInScope allowed sid = true) :
    ∃ w' : World, w'.within allowed = w.within allowed ∧ (w'.sessions.lookup sid).isSome = true ∧
      ∀ who, ¬ w'.participates sid who := by
  obtain ⟨hnone, hnobody⟩ := outside_session hout
  let s : Session := { sessionType := "", name := "" }
  have hcreated : (w.within allowed).createSession sid s = (.ok (),
      { w.within allowed with sessions := (w.within allowed).sessions.insert sid s }) := by
    unfold World.createSession
    rw [if_neg (by rw [hnone]; exact Bool.false_ne_true)]
  have houtside : ((w.within allowed).createSession sid s).2.sessionInScope allowed sid = false := by
    rw [hcreated, Bool.eq_false_iff, Ne, World.sessionInScope_iff]
    rintro (⟨s', hs', hrow⟩ | hidea)
    · cases (AList.lookup_insert (a := sid) (w.within allowed).sessions).symm.trans hs'
      simp [World.rowInScope, s, DM_TYPES] at hrow
    · have hin : (w.within allowed).ofIdeaInScope allowed sid = true := hidea
      rw [World.ofIdeaInScope_within] at hin
      exact hout (World.sessionInScope_iff.2 (.inr hin))
  have hsame := (World.within_createSession houtside).trans World.within_within
  rw [hcreated] at hsame
  refine ⟨_, hsame, ?_, hnobody⟩
  rw [AList.lookup_insert]
  rfl

theorem sessionInScope_of_join (hkind : kind ∈ World.KINDS)
    (hiso : Scoped allowed (fun _ => True) (join sid kind id joinedBy) w) :
    w.sessionInScope allowed sid = true := by
  by_contra hout
  obtain ⟨hnone, hnobody⟩ := outside_session hout
  obtain ⟨w', hsame, hsome, hnobody'⟩ := exists_session hout
  have hreply := hiso.same World.within_within trivial hsame trivial
  have hrefused : ((w.within allowed).addSessionParticipant sid (kind, id) joinedBy).1 =
      .error (.sqlite .foreignKey) := by
    unfold World.addSessionParticipant
    rw [if_neg (not_or.2 ⟨hnobody _, not_not_intro hkind⟩), if_pos (by rw [hnone]; rfl)]
  have hadded : (w'.addSessionParticipant sid (kind, id) joinedBy).1 = .ok true := by
    unfold World.addSessionParticipant
    rw [if_neg (not_or.2 ⟨hnobody' _, not_not_intro hkind⟩), if_neg]
    rw [isNone_eq_false_iff.2 hsome]
    exact Bool.false_ne_true
  rw [reply_join, reply_join, hrefused, hadded] at hreply
  cases hreply

theorem addParticipant_scoped_iff :
    Scoped allowed (fun _ => True) (handleAddParticipant req) w ↔ req.InScope allowed w := by
  constructor
  · intro hiso sid kind id hasks hkind
    rw [handleAddParticipant_asks hasks] at hiso
    exact sessionInScope_of_join hkind hiso
  · intro hscope
    by_cases hasks : ∃ sid kind id, req.Asks sid kind id
    · obtain ⟨sid, kind, id, hasks⟩ := hasks
      rw [handleAddParticipant_asks hasks]
      refine ⟨(leads_join_inScope (hscope sid kind id hasks)).1, fun w' h _ => ?_⟩
      rw [reply_join, reply_join]
      by_cases hkind : kind ∈ World.KINDS
      · rw [addSessionParticipant_congr h (hscope sid kind id hasks hkind)]
      · rw [addSessionParticipant_kind hkind, addSessionParticipant_kind hkind]
    · obtain ⟨e, hrefused⟩ : ∃ e, handleAddParticipant req = give (.error e) :=
        handleAddParticipant_refused fun sid kind id hreq => hasks ⟨sid, kind, id, hreq⟩
      rw [hrefused]
      exact isolated_result _

end AddParticipant

end Aeqi.Messages
