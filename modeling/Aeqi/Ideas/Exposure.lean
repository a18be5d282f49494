import Aeqi.Ideas.Isolation
import Aeqi.Messages.Exposure

/-!
# Requests across tenants

`message_to`, `add_participant`, `update_idea` and `delete_idea` are isolated exactly when what
they name is in scope. A deletion that names an idea never is, for its response names the quests
of everybody (`request_scoped_iff`).
-/

namespace Aeqi.Ideas

open Aeqi.Lib Aeqi.Orchestrator Aeqi.Messages Accounts Handler Option
open IdeaAccess (delete run)

/-! ## Updates that are isolated -/

section Converse

variable {allowed : Option (List String)} {s s' : Store} {ctx : Ctx} {req : UpdateIdea}
  {id agentId : String} {idea : Idea}

theorem within_outside {g : String} {o : Idea} (hg : (s.within allowed).ideas.lookup g = none)
    (hout : o.agentId = none) :
    Store.within allowed { s.within allowed with ideas := (s.within allowed).ideas.insert g o } =
      s.within allowed := by
  have hclosed : (s.within allowed).ideaInScope allowed o = false := by
    unfold World.ideaInScope
    rw [hout]
    rfl
  exact (Store.within_ofWorld (World.within_insertIdea (AList.lookup_eq_none.1 hg) hclosed)).trans
    Store.within_within

theorem unique_ne_missing : Store.UNIQUE_NAME ≠ "idea not found: " ++ id := by
  intro h
  have hhead := congrArg (fun text => text.toList.head?) h
  rw [String.toList_append] at hhead
  cases hhead

theorem unused_insertIdea {w : World} {newId g : String} {o : Idea} (h : w.Unused newId)
    (ho : o.sessionId = none) :
    World.Unused { w with ideas := w.ideas.insert g o } newId := by
  refine ⟨h.session, h.participant, fun i o' hi => ?_⟩
  rcases lookup_insert_some hi with ⟨-, rfl⟩ | ⟨-, hold⟩
  · rw [ho]
    exact some_ne_none _ |>.symm
  · exact h.idea i o' hold

theorem reply_found (hasks : req.Asks id) (hcore : req.CoreChange)
    (hidea : s.ideas.lookup id = some idea) :
    (alone run (handleUpdateIdea ctx req) s).1 ≠ .error (.message ("idea not found: " ++ id)) := by
  intro h
  by_cases htaken : req.Taken s id idea
  · rw [reply_taken hasks hcore hidea htaken] at h
    exact unique_ne_missing (Failure.message.inj (Except.error.inj h))
  · obtain ⟨l, hreply, -⟩ : ∃ l, (alone run (handleUpdateIdea ctx req) s).1 = .ok l ∧
        ∀ agentId, idea.agentId = some agentId →
          Reported ctx req (s.setIdea id (req.edit ctx)) agentId l := reply_free hasks hcore hidea htaken
    cases hreply.symm.trans h

theorem holds_of_scoped (hasks : req.Asks id) (hcore : req.CoreChange)
    (hnew : s.Unused req.newId)
    (hiso : Scoped allowed (·.Unused req.newId) (handleUpdateIdea ctx req) s) : s.Holds allowed id := by
  by_contra hout
  have hnone : (s.within allowed).ideas.lookup id = none := by
    rw [eq_none_iff_forall_ne_some]
    intro idea hidea
    exact hout ⟨idea, World.lookup_ideas_within.1 hidea⟩
  let o : Idea := { name := "" }
  have hthere : ((s.within allowed).ideas.insert id o).lookup id = some o := AList.lookup_insert _
  have hwithin : (s.within allowed).Unused req.newId := unused_within hnew
  have hsame := hiso.same Store.within_within hwithin (within_outside hnone (o := o) rfl)
    (unused_insertIdea hwithin rfl)
  rw [reply_missing hasks hcore hnone] at hsame
  exact reply_found hasks hcore hthere hsame.symm

theorem exists_ownerless (name : String) (hnew : s.Unused req.newId)
    (hidea : (s.within allowed).ideas.lookup id = some idea) :
    ∃ (s' : Store) (g : String), s'.within allowed = s.within allowed ∧ s'.Unused req.newId ∧ g ≠ id ∧
      s'.roles = (s.within allowed).roles ∧ s'.roleEdges = (s.within allowed).roleEdges ∧
      s'.ideas.lookup g = some { name } ∧
      ∀ i, i ≠ g → s'.ideas.lookup i = (s.within allowed).ideas.lookup i := by
  obtain ⟨g, hg⟩ := Infinite.exists_notMem_finset (s.within allowed).ideas.keys.toFinset
  rw [List.mem_toFinset] at hg
  have hnone : (s.within allowed).ideas.lookup g = none := by
    rw [AList.lookup_eq_none]
    exact hg
  refine ⟨_, g, within_outside hnone (o := { name }) rfl, unused_insertIdea (unused_within hnew) rfl, ?_,
    rfl, rfl, AList.lookup_insert _, fun i hi => AList.lookup_insert_ne hi⟩
  rintro rfl
  cases hnone.symm.trans hidea

theorem shield_name (hasks : req.Asks id) (hcore : req.CoreChange)
    (hnew : s.Unused req.newId)
    (hiso : Scoped allowed (·.Unused req.newId) (handleUpdateIdea ctx req) s)
    (hidea : (s.within allowed).ideas.lookup id = some idea) (hagent : idea.agentId = some agentId)
    (hfree : ¬ req.Taken (s.within allowed) id idea) :
    ∀ new ∈ req.newName, idea.status = "active" → agentId ≠ "" := by
  rintro new hrename hactive rfl
  obtain ⟨s', g, hwithin, hnew', hg, -, -, hnamed, hothers⟩ := exists_ownerless new hnew hidea
  have hidea' : s'.ideas.lookup id = some idea := by rw [hothers id hg.symm, hidea]
  have htaken : req.Taken s' id idea := by
    refine ⟨new, hrename, hactive, g, AList.mem_keys.1 (AList.lookup_isSome.1 (by rw [hnamed]; rfl)), hg, ?_⟩
    rw [hnamed, hagent]
    simp
  have hsame := hiso.same Store.within_within (unused_within hnew) hwithin hnew'
  obtain ⟨l, hreply, -⟩ : ∃ l, (alone run (handleUpdateIdea ctx req) (s.within allowed)).1 =
      .ok l ∧ ∀ agentId, idea.agentId = some agentId →
        Reported ctx req ((s.within allowed).setIdea id (req.edit ctx)) agentId l :=
    reply_free hasks hcore hidea hfree
  rw [reply_taken hasks hcore hidea' htaken, hreply] at hsame
  cases hsame

theorem shield_links (hasks : req.Asks id) (hcore : req.CoreChange)
    (hnew : s.Unused req.newId)
    (hiso : Scoped allowed (·.Unused req.newId) (handleUpdateIdea ctx req) s)
    (hidea : (s.within allowed).ideas.lookup id = some idea) (hagent : idea.agentId = some agentId)
    (hfree : ¬ req.Taken (s.within allowed) id idea)
    (hname : ∀ new ∈ req.newName, idea.status = "active" → agentId ≠ "") :
    ∀ body ∈ req.newContent, ∀ r ∈ parseLinks ctx.toLowercase body, r.targetKind = "idea" →
      ((s.within allowed).setIdea id (req.edit ctx)).Resolves ctx.toLowercase agentId r.targetId := by
  intro body hbody r hr hkind
  by_contra hopen
  obtain ⟨s', g, hwithin, hnew', hg, -, -, hnamed, hothers⟩ := exists_ownerless r.targetId hnew hidea
  have hidea' : s'.ideas.lookup id = some idea := by rw [hothers id hg.symm, hidea]
  have hfree' : ¬ req.Taken s' id idea := by
    rintro ⟨new, hrename, hactive, other, -, hother, hrow⟩
    obtain ⟨o, ho, hsame⟩ := (Option.any_eq_true _ _).1 hrow
    by_cases hog : other = g
    · subst hog
      cases hnamed.symm.trans ho
      simp only [hagent, decide_eq_true_eq] at hsame
      exact hname new hrename hactive hsame.2.1.symm
    · rw [hothers other hog] at ho
      refine hfree ⟨new, hrename, hactive, other, ?_, hother, (Option.any_eq_true _ _).2 ⟨o, ho, hsame⟩⟩
      exact AList.mem_keys.1 (AList.lookup_isSome.1 (by rw [ho]; rfl))
  have hsame := hiso.same Store.within_within (unused_within hnew) hwithin hnew'
  obtain ⟨l, hreply, hl⟩ : ∃ l, (alone run (handleUpdateIdea ctx req) (s.within allowed)).1 =
      .ok l ∧ ∀ agentId, idea.agentId = some agentId →
        Reported ctx req ((s.within allowed).setIdea id (req.edit ctx)) agentId l :=
    reply_free hasks hcore hidea hfree
  obtain ⟨l', hreply', hl'⟩ : ∃ l, (alone run (handleUpdateIdea ctx req) s').1 = .ok l ∧
      ∀ agentId, idea.agentId = some agentId →
        Reported ctx req (s'.setIdea id (req.edit ctx)) agentId l :=
    reply_free hasks hcore hidea' hfree'
  rw [hreply, hreply'] at hsame
  obtain rfl := Except.ok.inj hsame
  obtain ⟨resolver, hresolver, hreported⟩ := (hl agentId hagent).2 body hbody
  obtain ⟨resolver', hresolver', hreported'⟩ := (hl' agentId hagent).2 body hbody
  obtain ⟨t, ht, hlower⟩ : ∃ t ∈ l, ctx.toLowercase t = ctx.toLowercase r.targetId := by
    rw [hreported]
    exact mem_unresolvedRefs.2 ⟨r, hr, hkind, (hresolver _).2 hopen, rfl⟩
  rw [hreported'] at ht
  obtain ⟨r', -, -, hnone, hlower'⟩ := mem_unresolvedRefs.1 ⟨t, ht, hlower⟩
  refine (hresolver' _).1 hnone ⟨g, { name := r.targetId }, ?_, .inl rfl, hlower'.symm⟩
  rw [lookup_setIdea_ne hg]
  exact hnamed

theorem coreInScope_of_scoped (hasks : req.Asks id) (hcore : req.CoreChange)
    (hnew : s.Unused req.newId)
    (hiso : Scoped allowed (·.Unused req.newId) (handleUpdateIdea ctx req) s) :
    req.CoreInScope ctx allowed s id := by
  obtain ⟨idea, hidea, hin⟩ := holds_of_scoped hasks hcore hnew hiso
  obtain ⟨agentId, hagent, haccess⟩ := (Option.any_eq_true _ _).1 hin
  have hwithin : (s.within allowed).ideas.lookup id = some idea :=
    World.lookup_ideas_within.2 ⟨hidea, hin⟩
  refine ⟨idea, agentId, hidea, hagent, haccess, or_iff_not_imp_left.2 fun hfree => ?_⟩
  have hname := shield_name hasks hcore hnew hiso hwithin hagent hfree
  exact ⟨hname, shield_links hasks hcore hnew hiso hwithin hagent hfree hname⟩

theorem session_of_emit {newId verb : String} {actorUserId : Option String}
    {q : Unit → Store → Prop} (hnew : s.Unused newId) (hidea : s.ideas.lookup id = some idea)
    (hout : ¬ s.ideaInScope allowed idea = true)
    (h : Leads run (IdeaAccess.Confined allowed) (emitIdeaActivity newId id verb actorUserId)
      s q) : ∃ sid, idea.sessionId = some sid ∧ s.sessionInScope allowed sid = true := by
  have hread := (leads_reach.1 (leads_bind.1 (leads_bind.1 h))).2
  split at hread
  next hnone => cases hidea.symm.trans hnone
  next idea' hidea' =>
    cases hidea.symm.trans hidea'
    cases hsid : idea.sessionId with
    | some sid =>
      rw [hsid] at hread
      have hwrite := leads_pure.1 hread
      exact ⟨sid, rfl, (leads_reach.1 (leads_bind.1 hwrite)).1⟩
    | none =>
      rw [hsid] at hread
      have hcreate := (leads_reach.1 (leads_bind.1 hread)).2
      let row : Session := { sessionType := "idea", name := "idea:" ++ idea.name }
      have hcreated : (s.toWorld.createSession newId row).1 = .ok () := by
        rw [createSession_unused hnew]
      split at hcreate
      next hrefused => cases hcreated.symm.trans hrefused
      next =>
        have hset : ∀ idea', (s.toWorld.createSession newId row).2.ideas.lookup id = some idea' →
            (s.toWorld.createSession newId row).2.ideaInScope allowed idea' = true :=
          (leads_reach.1 (leads_bind.1 hcreate)).1
        rw [createSession_unused hnew] at hset
        exact absurd (hset idea hidea) hout

theorem columnsInScope_of_scoped (hasks : req.Asks id) (hcore : ¬ req.CoreChange)
    (hnew : s.Unused req.newId)
    (hiso : Scoped allowed (·.Unused req.newId) (handleUpdateIdea ctx req) s) :
    req.ColumnsInScope allowed s id := by
  intro idea hidea
  refine or_iff_not_imp_left.2 fun hout => ?_
  have hmay : ¬ s.MayWrite allowed id := fun hmay => hout (hmay idea hidea)
  have hleads := leads_true.2 hiso.confined
  rw [handleUpdateIdea_asks hasks] at hleads
  unfold updateCore restOfUpdate at hleads
  rw [if_neg hcore] at hleads
  have hcoreDone := leads_bind.1 hleads
  have hafterCore := leads_pure.1 hcoreDone
  have hparent := leads_bind.1 hafterCore
  have hcontent : req.newContent = none := by
    by_contra hsome
    exact hcore (.inr (.inl hsome))
  -- the properties are not written
  have hproperties : ∀ s', s' = s → Leads run (IdeaAccess.Confined allowed)
      (updateProperties req id) s' (fun _ s'' => Leads run (IdeaAccess.Confined allowed)
        (unresolvedOf ctx req id >>= fun unresolved => emitIdeaActivity req.newId id "edited"
          (requestField req.callerUserId) >>= fun _ => pure unresolved) s'' fun _ _ => True) →
      req.properties = none ∧ ∃ sid, idea.sessionId = some sid ∧
        s.sessionInScope allowed sid = true := by
    rintro s' rfl h
    unfold updateProperties at h
    cases hgiven : req.properties with
    | some properties =>
      rw [hgiven] at h
      exact absurd (leads_reach.1 (leads_bind.1 h)).1 hmay
    | none =>
      rw [hgiven] at h
      refine ⟨rfl, ?_⟩
      have hrest := leads_pure.1 h
      unfold unresolvedOf at hrest
      rw [hcontent] at hrest
      have hreported := leads_bind.1 hrest
      have hemit := leads_pure.1 hreported
      exact session_of_emit hnew hidea hout (leads_bind.1 hemit)
  unfold updateParent at hparent
  cases hgiven : req.parentIdeaId with
  | none =>
    rw [hgiven] at hparent
    have hafter := leads_pure.1 hparent
    obtain ⟨hnone, -⟩ := hproperties s rfl (leads_bind.1 hafter)
    rcases hasks.something with h | h | h
    · exact absurd h hcore
    · exact absurd hgiven h
    · exact absurd hnone h
  | some parent =>
    rw [hgiven] at hparent
    have hwrite := leads_bind.1 hparent
    obtain ⟨hset, hrest⟩ := leads_reach.1 hwrite
    have hkept : ∀ s', (s.setParent id (requestField parent)).2 = s' → s' = s ∧
        ∃ p ∈ requestField parent, s.ideas.lookup p = none := by
      rintro - rfl
      unfold Store.setParent
      split
      next hrefused =>
        obtain ⟨p, hp, hnone⟩ := (Option.any_eq_true _ _).1 hrefused.2
        exact ⟨rfl, p, hp, isNone_iff_eq_none.1 hnone⟩
      next hdone =>
        refine absurd (hset ?_) hmay
        unfold Store.setParent
        rw [if_neg hdone]
    obtain ⟨hsame, p, hp, hnone⟩ := hkept _ rfl
    have hafter := leads_pure.1 hrest
    obtain ⟨hnoProperties, hsession⟩ := hproperties _ hsame (leads_bind.1 hafter)
    exact ⟨hnoProperties, ⟨parent, rfl, p, hp, hnone⟩, hsession⟩

end Converse

/-! ## `delete_idea` -/

section Delete

variable {ids : List String} {s : Store} {req : DeleteIdea} {id : String} {fresh : Store → Prop}

theorem exists_quest (ids : List String) (s : Store) (ideaId : String) : ∃ questId agentId, questId ∉ s.quests ∧
    s.questInScope (some ids) { ideaId, agentId := some agentId } = false := by
  obtain ⟨questId, hquest⟩ := Infinite.exists_notMem_finset s.quests.keys.toFinset
  obtain ⟨agentId, hagent⟩ := Infinite.exists_notMem_finset s.agents.keys.toFinset
  rw [List.mem_toFinset] at hquest hagent
  refine ⟨questId, agentId, hquest, ?_⟩
  have hnone : s.agents.lookup agentId = none := by
    rw [AList.lookup_eq_none]
    exact hagent
  change s.checkAgentAccess (some ids) agentId = false
  unfold World.checkAgentAccess
  rw [hnone]
  rfl

theorem mem_findQuestsByIdeaId {questId : String} : questId ∈ s.findQuestsByIdeaId id ↔
    ∃ q, s.quests.lookup questId = some q ∧ q.ideaId = id := by
  unfold Store.findQuestsByIdeaId
  rw [List.mem_insertionSort, List.mem_filter, Option.any_eq_true]
  constructor
  · rintro ⟨-, q, hq, hid⟩
    exact ⟨q, hq, of_decide_eq_true hid⟩
  · rintro ⟨q, hq, hid⟩
    exact ⟨AList.mem_keys.1 (AList.lookup_isSome.1 (by rw [hq]; rfl)), q, hq, decide_eq_true hid⟩

theorem reply_delete (hid : requestField req.id = some id) (ids : List String)
    (hfound : s.findQuestsByIdeaId id = ids) : (alone run (handleDeleteIdea req) s).1 =
      if ids ≠ [] then .ok (.inUse ids) else .ok .done := by
  have hne : id ≠ "" := of_decide_eq_true (filter_eq_some_iff.1 hid).2
  unfold handleDeleteIdea
  rw [hid, getD_some]
  rw [if_neg hne, reply_reach]
  rw [show ((IdeaAccess.findQuestsByIdeaId id).run s).1 = ids from hfound]
  by_cases hids : ids = []
  · rw [if_neg (not_not_intro hids), if_neg (not_not_intro hids)]
    refine reply_reach.trans (reply_reach.trans ?_)
    split <;> rfl
  · rw [if_pos hids, if_pos hids]
    rfl

theorem deleteIdea_scoped_iff (hfresh : ∀ s' : Store, s'.toWorld = s.toWorld → fresh s') :
    Scoped (some ids) fresh (handleDeleteIdea req) s ↔ requestField req.id = none := by
  constructor
  · intro hiso
    by_contra hsome
    obtain ⟨id, hid⟩ := ne_none_iff_exists'.1 hsome
    obtain ⟨questId, agentId, hquest, hout⟩ := exists_quest ids s id
    let s' : Store := { s with quests := s.quests.insert questId { ideaId := id, agentId := some agentId } }
    have hnamed : questId ∈ s'.findQuestsByIdeaId id :=
      mem_findQuestsByIdeaId.2 ⟨_, AList.lookup_insert _, rfl⟩
    have hsame := hiso.uninfluenced s' (Store.within_insertQuest hquest hout) (hfresh s' rfl)
    rw [reply_delete hid _ rfl, reply_delete hid _ rfl, if_pos (List.ne_nil_of_mem hnamed)] at hsame
    split at hsame
    · have hsameIds := Deletion.inUse.inj (Except.ok.inj hsame)
      rw [hsameIds] at hnamed
      obtain ⟨q, hq, -⟩ := mem_findQuestsByIdeaId.1 hnamed
      exact hquest (AList.lookup_isSome.1 (by rw [hq]; rfl))
    · cases hsame
  · intro hnone
    have hrefused : handleDeleteIdea req = answer (.error (.message "id is required")) := by
      unfold handleDeleteIdea
      rw [hnone]
      rfl
    rw [hrefused]
    exact isolated_result _

end Delete

/-! ## Every request -/

inductive Request
  | messageTo (req : MessageTo)
  | addParticipant (req : AddParticipant)
  | updateIdea (req : UpdateIdea)
  | deleteIdea (req : DeleteIdea)

inductive Response
  | sent (sent : Sent)
  | added (added : Added)
  | updated (unresolvedRefs : List String)
  | deleted (deletion : Deletion)

namespace Request

def handle (ctx : Ctx) : Request → IdeaRoutine Response
  | messageTo req => ofMessages (handleMessageTo ctx req) >>= fun sent => pure (.sent sent)
  | addParticipant req => ofMessages (handleAddParticipant req) >>= fun added => pure (.added added)
  | updateIdea req => handleUpdateIdea ctx req >>= fun refs => pure (.updated refs)
  | deleteIdea req => handleDeleteIdea req >>= fun deletion => pure (.deleted deletion)

/-- An id that the request brings for a new session is new. -/
def Fresh : Request → Store → Prop
  | messageTo req, s => s.Unused req.newId
  | updateIdea req, s => s.Unused req.newId
  | _, _ => True

def InScope (ctx : Ctx) (allowed : Option (List String)) : Request → Store → Prop
  | messageTo req, s => req.InScope allowed s.toWorld
  | addParticipant req, s => req.InScope allowed s.toWorld
  | updateIdea req, s => req.InScope ctx allowed s
  | deleteIdea req, _ => requestField req.id = none

end Request

/-- A request writes to sessions and ideas in scope only, and is answered alike by stores alike in
scope, if and only if what it names is in scope. -/
theorem request_scoped_iff (ctx : Ctx) (ids : List String) (req : Request) (s : Store)
    (hfresh : req.Fresh s) :
    Scoped (some ids) req.Fresh (req.handle ctx) s ↔ req.InScope ctx (some ids) s := by
  cases req with
  | messageTo req =>
    refine (isolated_wrap fun _ _ h => Response.sent.inj h).trans ?_
    exact ofMessages_scoped_iff.trans (messageTo_scoped_iff hfresh)
  | addParticipant req =>
    refine (isolated_wrap fun _ _ h => Response.added.inj h).trans ?_
    exact ofMessages_scoped_iff.trans addParticipant_scoped_iff
  | updateIdea req =>
    refine (isolated_wrap fun _ _ h => Response.updated.inj h).trans ⟨fun hiso id hasks => ?_,
      updateIdea_scoped⟩
    exact ⟨fun hcore => coreInScope_of_scoped hasks hcore hfresh hiso,
      fun hcore => columnsInScope_of_scoped hasks hcore hfresh hiso⟩
  | deleteIdea req =>
    refine (isolated_wrap fun _ _ h => Response.deleted.inj h).trans ?_
    exact deleteIdea_scoped_iff fun _ _ => trivial

/-- Ada of one entity and an idea of Bob, of another. -/
def twoTenants : Store where
  agents := ((∅ : Accounts String Agent).insert "ada" { name := "Ada", trustId := some "acme" }).insert
    "bob" { name := "Bob", trustId := some "initech" }
  sessions := (∅ : Accounts String Session).insert "s-ada"
    { agentId := some "ada", sessionType := "chat", name := "Ada" }
  ideas := (∅ : Accounts String Idea).insert "plan" { name := "plan", agentId := some "bob" }

def toAda : Request := .messageTo
  { targetKind := some "session", targetId := some "s-ada", body := some "hello", newId := "s-new" }

theorem toAda_scoped : toAda.Fresh twoTenants ∧
    Scoped (some ["acme"]) toAda.Fresh (toAda.handle { toLowercase := id }) twoTenants := by
  have hfresh : toAda.Fresh twoTenants := by
    refine ⟨by decide, fun who hwho => ?_, fun ideaId idea hidea => ?_⟩
    · exact nomatch (AList.lookup_isSome.2 hwho)
    · rcases lookup_insert_some hidea with ⟨-, rfl⟩ | ⟨-, hold⟩
      · exact (some_ne_none _).symm
      · cases hold
  refine ⟨hfresh, (request_scoped_iff { toLowercase := id } ["acme"] toAda twoTenants hfresh).2 ?_⟩
  rintro kind id - ⟨hkind, hid, -⟩
  cases hkind
  cases hid
  refine ⟨fun _ => by decide, ?_, ?_, ?_, ?_⟩
  · intro h
    exact nomatch h
  · intro h
    exact nomatch h
  · intro h
    exact nomatch h
  · intro h
    exact nomatch h

/-- With a list of allowed entities that has only the one, the idea of the other is deleted. -/
theorem not_request_scoped : ¬ ∀ (ctx : Ctx) (ids : List String) (req : Request) (s : Store),
    req.Fresh s → Scoped (some ids) req.Fresh (req.handle ctx) s := by
  intro hall
  have hiso := hall { toLowercase := id } ["acme"] (.deleteIdea { id := some "plan" }) twoTenants trivial
  have hplan : ∃ idea, twoTenants.ideas.lookup "plan" = some idea ∧
      twoTenants.ideaInScope (some ["acme"]) idea = false :=
    ⟨{ name := "plan", agentId := some "bob" }, by decide, by decide⟩
  obtain ⟨idea, hidea, hout⟩ := hplan
  have hdelete : (delete "plan").Confined (some ["acme"]) twoTenants := hiso.confined.2.2.1
  cases hout.symm.trans (hdelete idea hidea).1

end Aeqi.Ideas
