import Aeqi.Ideas.Editing
import Aeqi.Messages.Isolation

/-!
# Updates across tenants

`update_idea` takes the list of allowed entities and does not look at it. An update is isolated
when the idea is in scope, no name that it takes can be taken outside, and no link of its new
content is left for an idea outside to resolve.
-/

/-!
## Whose rows the ideas' handlers see

What is in scope of the tables beside those of the messages: a quest whose agent is, as the
handlers of the quests check, and an edge between two roles of the scope.
-/

namespace Aeqi.Ideas

open Aeqi.Lib Aeqi.Orchestrator Aeqi.Messages Accounts Handler Relation

namespace Store

section Scope

variable (allowed : Option (List String)) (s : Store)

def questInScope (q : QuestRow) : Bool := q.agentId.all (s.checkAgentAccess allowed)

/-- The rows in scope. -/
def within : Store where
  toWorld := s.toWorld.within allowed
  quests := restrict (fun _ q => s.questInScope allowed q) s.quests
  roleEdges := s.roleEdges.filter fun e => s.roleInScope allowed e.1 && s.roleInScope allowed e.2

end Scope

section Within

variable {allowed : Option (List String)} {s s' : Store} {w : World} {id agentId : String}

theorem within_ofWorld (h : w.within allowed = s.toWorld.within allowed) :
    Store.within allowed { s with toWorld := w } = s.within allowed := by
  have haccess := World.checkAgentAccess_congr h
  have hrole := World.roleInScope_congr h
  unfold within questInScope
  rw [h, haccess, hrole]

theorem toWorld_congr (h : s'.within allowed = s.within allowed) :
    s'.toWorld.within allowed = s.toWorld.within allowed := congrArg Store.toWorld h

theorem within_within : (s.within allowed).within allowed = s.within allowed := by
  have haccess : (s.toWorld.within allowed).checkAgentAccess allowed =
      s.toWorld.checkAgentAccess allowed := World.checkAgentAccess_within
  have hrole : (s.toWorld.within allowed).roleInScope allowed = s.toWorld.roleInScope allowed :=
    World.roleInScope_within
  unfold within questInScope
  rw [World.within_within, haccess, hrole, List.filter_filter, restrict_restrict]
  simp

theorem within_insertQuest {q : QuestRow} (hid : id ∉ s.quests)
    (hout : s.questInScope allowed q = false) :
    { s with quests := s.quests.insert id q }.within allowed = s.within allowed := by
  have hquests : restrict (fun _ q => s.questInScope allowed q) (s.quests.insert id q) =
      restrict (fun _ q => s.questInScope allowed q) s.quests := restrict_insert hid hout
  exact congrArg (fun quests => { s.within allowed with quests := quests }) hquests

/-! ### What an agent sees -/

theorem lookup_roles_within {role : Role} (h : (s.within allowed).roles.lookup id = some role) :
    s.roles.lookup id = some role := (lookup_restrict_some.1 h).1

theorem occupantAgent_within (h : (s.within allowed).occupantAgent id = some agentId) :
    s.occupantAgent id = some agentId := by
  obtain ⟨role, hrole, hoccupant⟩ := Option.bind_eq_some_iff.1 h
  exact Option.bind_eq_some_iff.2 ⟨role, lookup_roles_within hrole, hoccupant⟩

theorem mem_descendantRoles : id ∈ s.descendantRoles agentId ↔
    ∃ root, s.occupantAgent root = some agentId ∧ ReflTransGen (Linked s.roleEdges) root id := by
  unfold descendantRoles
  rw [mem_closure]
  constructor
  · rintro ⟨root, hroot, hpath⟩
    exact ⟨root, of_decide_eq_true (List.mem_filter.1 hroot).2, hpath⟩
  · rintro ⟨root, hroot, hpath⟩
    refine ⟨root, List.mem_filter.2 ⟨?_, decide_eq_true hroot⟩, hpath⟩
    obtain ⟨role, hrole, -⟩ := Option.bind_eq_some_iff.1 hroot
    exact AList.mem_keys.1 (AList.lookup_isSome.1 (by rw [hrole]; rfl))

theorem sees_within {owner : Option String} (h : (s.within allowed).sees agentId owner) :
    s.sees agentId owner := by
  rcases h with hnone | hown | hbelow
  · exact .inl hnone
  · exact .inr (.inl hown)
  · obtain ⟨id, hid, rfl⟩ := List.mem_map.1 hbelow
    cases howner : (s.within allowed).occupantAgent id with
    | none => exact .inl rfl
    | some owner =>
      obtain ⟨root, hroot, hpath⟩ := mem_descendantRoles.1 hid
      have hedges : ∀ a b, Linked (s.within allowed).roleEdges a b → Linked s.roleEdges a b :=
        fun a b hedge => (List.mem_filter.1 hedge).1
      have hbelow := mem_descendantRoles.2
        ⟨root, occupantAgent_within hroot, ReflTransGen.mono hedges root id hpath⟩
      exact .inr (.inr (List.mem_map.2 ⟨id, hbelow, occupantAgent_within howner⟩))

theorem sees_congr {owner : Option String} (hroles : s'.roles = s.roles)
    (hedges : s'.roleEdges = s.roleEdges) : s'.sees agentId owner ↔ s.sees agentId owner := by
  have hoccupant : s'.occupantAgent = s.occupantAgent := by
    unfold occupantAgent
    rw [hroles]
  unfold sees descendantRoles
  rw [hoccupant, hroles, hedges]

end Within

end Store

open Option
open IdeaAccess (message run)

/-! ## What is claimed of a request -/

/-- The idea, if there is one, is in scope. -/
def Store.MayWrite (allowed : Option (List String)) (s : Store) (id : String) : Prop :=
  ∀ idea, s.ideas.lookup id = some idea → s.ideaInScope allowed idea = true

def IdeaAccess.Confined (allowed : Option (List String)) : IdeaAccess → Store → Prop
  | .message a, s => a.Confined allowed s.toWorld
  | .update id name content tags, s => (s.update id name content tags).1 = .ok () → s.MayWrite allowed id
  | .setParent id parentId, s => (s.setParent id parentId).1 = .ok () → s.MayWrite allowed id
  | .setProperties id _, s => s.MayWrite allowed id
  | .delete id, s => ∀ idea, s.ideas.lookup id = some idea → s.ideaInScope allowed idea = true ∧
    ∀ child o, s.ideas.lookup child = some o → o.parentIdeaId = some id →
      s.ideaInScope allowed o = true
  | .appendSystemActivity sid .., s => s.sessionInScope allowed sid = true
  | _, _ => True

/-- A request that writes to its tenant only, and whose response is the same when the rows
outside are others. -/
abbrev Scoped {α : Type} (allowed : Option (List String)) (fresh : Store → Prop)
    (handle : IdeaRoutine α) (s : Store) : Prop :=
  Isolated run (IdeaAccess.Confined allowed) (Store.within allowed) fresh handle s

/-! ## The condition -/

namespace UpdateIdea

variable (ctx : Ctx) (req : UpdateIdea) (s : Store) (id : String)

/-- The fields that every request has. -/
structure Asks : Prop where
  id : requestField req.id = some id
  something : req.CoreChange ∨ req.parentIdeaId ≠ none ∨ req.properties ≠ none

def edit : Idea → Idea :=
  Ideas.edit req.newName req.newContent (req.tags.map (normalizeTags ctx.toLowercase))

def Taken (idea : Idea) : Prop := ∃ new ∈ req.newName, s.nameTaken id idea new

end UpdateIdea

def Store.Resolves (lower : String → String) (s : Store) (agentId name : String) : Prop :=
  ∃ id idea, s.ideas.lookup id = some idea ∧ s.sees agentId idea.agentId ∧ lower idea.name = lower name

namespace UpdateIdea

variable (ctx : Ctx) (allowed : Option (List String)) (req : UpdateIdea) (s : Store) (id : String)

/-- No row outside can be in the way of the new name, or have a name that is missed. The owner
`""` shares its names with ideas that have no owner. -/
structure Shielded (idea : Idea) (agentId : String) : Prop where
  name : ∀ new ∈ req.newName, idea.status = "active" → agentId ≠ ""
  links : ∀ body ∈ req.newContent, ∀ r ∈ parseLinks ctx.toLowercase body, r.targetKind = "idea" →
    ((s.within allowed).setIdea id (req.edit ctx)).Resolves ctx.toLowercase agentId r.targetId

def CoreInScope : Prop :=
  ∃ idea agentId, s.ideas.lookup id = some idea ∧ idea.agentId = some agentId ∧
    s.checkAgentAccess allowed agentId = true ∧
    (req.Taken (s.within allowed) id idea ∨ req.Shielded ctx allowed s id idea agentId)

def ColumnsInScope : Prop :=
  ∀ idea, s.ideas.lookup id = some idea → s.ideaInScope allowed idea = true ∨
    req.properties = none ∧
      (∃ parent ∈ req.parentIdeaId, ∃ p ∈ requestField parent, s.ideas.lookup p = none) ∧
      ∃ sid, idea.sessionId = some sid ∧ s.sessionInScope allowed sid = true

def InScope : Prop :=
  ∀ id, req.Asks id → (req.CoreChange → req.CoreInScope ctx allowed s id) ∧
    (¬ req.CoreChange → req.ColumnsInScope allowed s id)

end UpdateIdea

/-! ## Programs of the messages -/

section OfMessages

variable {allowed : Option (List String)} {s : Store} {α : Type}

theorem message_onPart :
    OnPart run message Store.toWorld Access.run := ⟨fun _ _ => rfl, fun _ _ => rfl⟩

theorem ofMessages_scoped_iff {x : Routine α} {fresh : World → Prop} :
    Scoped allowed (fun s => fresh s.toWorld) (ofMessages x) s ↔
      Messages.Scoped allowed fresh x s.toWorld := by
  refine message_onPart.isolated_iff (fun _ _ => Iff.rfl) (fun s' h => Store.toWorld_congr h) ?_
    fun _ => Iff.rfl
  intro w hw
  exact ⟨{ s with toWorld := w }, rfl, Store.within_ofWorld hw⟩

end OfMessages

/-! ## Writes to an idea -/

section Writes

variable {s s' : Store} {id i : String} {f : Idea → Idea} {idea : Idea} {lower : String → String}
  {agentId name : String}

theorem setIdea_missing (h : s.ideas.lookup id = none) : s.setIdea id f = s := by
  unfold Store.setIdea
  rw [h]

theorem setIdea_found (h : s.ideas.lookup id = some idea) :
    s.setIdea id f = { s with ideas := s.ideas.insert id (f idea) } := by
  unfold Store.setIdea
  rw [h]

theorem setIdea_frame : ∃ ideas, s.setIdea id f = { s with ideas := ideas } := by
  unfold Store.setIdea
  split
  · exact ⟨_, rfl⟩
  · exact ⟨_, rfl⟩

theorem lookup_setIdea (h : s.ideas.lookup id = some idea) :
    (s.setIdea id f).ideas.lookup id = some (f idea) := by
  rw [setIdea_found h]
  exact AList.lookup_insert _

theorem lookup_setIdea_ne (hne : i ≠ id) : (s.setIdea id f).ideas.lookup i = s.ideas.lookup i := by
  unfold Store.setIdea
  split
  · rfl
  · exact AList.lookup_insert_ne hne

/-- Roles, and the owners and names of the ideas, are the same. -/
structure Alike (s s' : Store) : Prop where
  roles : s'.roles = s.roles
  edges : s'.roleEdges = s.roleEdges
  ideas : ∀ id, (s'.ideas.lookup id).map (fun o => (o.agentId, o.name)) =
    (s.ideas.lookup id).map fun o => (o.agentId, o.name)

theorem Alike.refl (s : Store) : Alike s s := ⟨rfl, rfl, fun _ => rfl⟩

theorem Alike.trans {s'' : Store} (h : Alike s s') (h' : Alike s' s'') : Alike s s'' :=
  ⟨h'.roles.trans h.roles, h'.edges.trans h.edges, fun id => (h'.ideas id).trans (h.ideas id)⟩

theorem Alike.symm (h : Alike s s') : Alike s' s :=
  ⟨h.roles.symm, h.edges.symm, fun id => (h.ideas id).symm⟩

theorem Alike.setIdea (hf : ∀ o, (f o).agentId = o.agentId ∧ (f o).name = o.name) :
    Alike s (s.setIdea id f) := by
  obtain ⟨ideas, hframe⟩ : ∃ ideas, s.setIdea id f = { s with ideas := ideas } := setIdea_frame
  refine ⟨by rw [hframe], by rw [hframe], fun i => ?_⟩
  by_cases hi : i = id
  · subst hi
    cases hidea : s.ideas.lookup i with
    | none => rw [setIdea_missing hidea, hidea]
    | some o =>
      rw [lookup_setIdea hidea]
      exact congrArg some (Prod.ext (hf o).1 (hf o).2)
  · rw [lookup_setIdea_ne hi]

theorem Alike.lookup (h : Alike s s') {o' : Idea} (ho' : s'.ideas.lookup id = some o') :
    ∃ o, s.ideas.lookup id = some o ∧ o.agentId = o'.agentId ∧ o.name = o'.name := by
  have hview := h.ideas id
  rw [ho'] at hview
  obtain ⟨o, ho, hsame⟩ := map_eq_some_iff.1 hview.symm
  obtain ⟨hagent, hname⟩ := Prod.mk.inj hsame
  exact ⟨o, ho, hagent, hname⟩

theorem Alike.resolves (h : Alike s s') (hresolves : s'.Resolves lower agentId name) :
    s.Resolves lower agentId name := by
  obtain ⟨i, o', ho', hsees, hname⟩ := hresolves
  obtain ⟨o, ho, hagent, hsame⟩ := h.lookup ho'
  refine ⟨i, o, ho, ?_, hsame ▸ hname⟩
  rw [hagent]
  exact (Store.sees_congr h.roles h.edges).1 hsees

/-! ### `update` -/

section Update

variable {newName content : Option String} {tags : Option (List String)}

theorem update_missing (h : s.ideas.lookup id = none) :
    s.update id newName content tags = (.error (.message ("idea not found: " ++ id)), s) := by
  unfold Store.update
  rw [h]

theorem update_taken (h : s.ideas.lookup id = some idea)
    (hcore : ¬ (newName = none ∧ content = none ∧ tags = none))
    (htaken : ∃ new ∈ newName, s.nameTaken id idea new) :
    s.update id newName content tags = (.error (.message Store.UNIQUE_NAME), s) := by
  unfold Store.update
  rw [h]
  dsimp only
  rw [if_neg hcore, if_pos htaken]

theorem update_free (h : s.ideas.lookup id = some idea)
    (hcore : ¬ (newName = none ∧ content = none ∧ tags = none))
    (hfree : ¬ ∃ new ∈ newName, s.nameTaken id idea new) :
    s.update id newName content tags = (.ok (), s.setIdea id (edit newName content tags)) := by
  rw [setIdea_found h]
  unfold Store.update
  rw [h]
  dsimp only
  rw [if_neg hcore, if_neg hfree]

end Update

end Writes

/-! ## Responses -/

section Responses

variable {s s' : Store} {ctx : Ctx} {req : UpdateIdea} {id newId verb : String} {α : Type}

theorem reply_reach {a : IdeaAccess} {f : a.Reply → IdeaRoutine α} :
    (alone run (reach a >>= f) s).1 = (alone run (f (a.run s).1) (a.run s).2).1 := rfl

theorem ends_reach {a : IdeaAccess} {q : a.Reply → Store → Prop} {r : Store → Prop} :
    Ends (alone run (reach a)) s q r ↔ q (a.run s).1 (a.run s).2 := ends_alone_perform

theorem reply_of_ends {x : IdeaRoutine α} {q : α → Store → Prop}
    (h : Ends (alone run x) s q fun _ => False) :
    ∃ a s', alone run x s = (.ok a, s') ∧ q a s' := by
  unfold Ends at h
  split at h
  next a s' hrun => exact ⟨a, s', hrun, h⟩
  next => exact h.elim

theorem ends_ensureIdeaSession :
    Ends (alone run (ensureIdeaSession newId id)) s (fun _ _ => True) fun _ => False := by
  refine ends_alone_bind.2 (ends_reach.2 ?_)
  split
  · trivial
  · split
    · trivial
    · refine ends_alone_bind.2 (ends_reach.2 ?_)
      split
      · trivial
      · exact ends_alone_bind.2 (ends_reach.2 trivial)

theorem ends_updateParent : Ends (alone run (updateParent req id)) s
    (fun _ s' => Alike s s') fun _ => False := by
  unfold updateParent
  split
  · exact Alike.refl s
  next parent _ =>
    refine ends_alone_bind.2 (ends_reach.2 ?_)
    change Alike s (s.setParent id (requestField parent)).2
    unfold Store.setParent
    split
    · exact Alike.refl s
    · exact Alike.setIdea fun _ => ⟨rfl, rfl⟩

theorem ends_updateProperties : Ends (alone run (updateProperties req id)) s
    (fun _ s' => Alike s s') fun _ => False := by
  unfold updateProperties
  split
  · exact Alike.refl s
  · exact ends_alone_bind.2 (ends_reach.2 (Alike.setIdea fun _ => ⟨rfl, rfl⟩))

theorem ends_emitIdeaActivity {actorUserId : Option String} :
    Ends (alone run (emitIdeaActivity newId id verb actorUserId)) s (fun _ _ => True)
      fun _ => False := by
  refine ends_alone_bind.2 (ends_ensureIdeaSession.mono (fun found s' _ => ?_) fun _ h => h)
  split
  · trivial
  · exact ends_alone_bind.2 (ends_reach.2 trivial)

theorem mem_ideasBy {p : Option String → Bool} {row : String × Idea} : row ∈ s.ideasBy p ↔
    s.ideas.lookup row.1 = some row.2 ∧ p row.2.agentId = true := by
  unfold Store.ideasBy
  rw [List.mem_insertionSort, List.mem_filterMap]
  constructor
  · rintro ⟨id, -, hid⟩
    obtain ⟨idea, hidea, rfl⟩ := map_eq_some_iff.1 hid
    exact filter_eq_some_iff.1 hidea
  · rintro ⟨hidea, hp⟩
    refine ⟨row.1, AList.mem_keys.1 (AList.lookup_isSome.1 (by rw [hidea]; rfl)), ?_⟩
    exact map_eq_some_iff.2 ⟨row.2, filter_eq_some_iff.2 ⟨hidea, hp⟩, rfl⟩

theorem resolverOf_none {lower : String → String} {agentId name : String} :
    resolverOf lower (s.listIdeasVisibleTo agentId) name = none ↔ ¬ s.Resolves lower agentId name := by
  unfold resolverOf
  rw [map_eq_none_iff, List.find?_eq_none]
  constructor
  · rintro h ⟨id, idea, hidea, hsees, hname⟩
    exact h (id, idea) (mem_ideasBy.2 ⟨hidea, decide_eq_true hsees⟩) (decide_eq_true hname)
  · intro h row hrow hname
    obtain ⟨hidea, hsees⟩ := mem_ideasBy.1 hrow
    exact h ⟨row.1, row.2, hidea, of_decide_eq_true hsees, of_decide_eq_true hname⟩

/-- What a response reports, the ideas being as in `s`. -/
def Reported (ctx : Ctx) (req : UpdateIdea) (s : Store) (agentId : String) (l : List String) : Prop :=
  (req.newContent = none → l = []) ∧ ∀ body ∈ req.newContent, ∃ resolver : String → Option String,
    (∀ name, resolver name = none ↔ ¬ s.Resolves ctx.toLowercase agentId name) ∧
      l = unresolvedRefs ctx.toLowercase resolver (parseLinks ctx.toLowercase body)

theorem Alike.reported {agentId : String} {l : List String} (h : Alike s s')
    (hreported : Reported ctx req s' agentId l) : Reported ctx req s agentId l := by
  refine hreported.imp_right fun hbody body hcontent => ?_
  obtain ⟨resolver, hresolver, hl⟩ := hbody body hcontent
  refine ⟨resolver, fun name => (hresolver name).trans (not_congr ?_), hl⟩
  exact ⟨h.resolves, h.symm.resolves⟩

variable {idea : Idea}

theorem ends_unresolvedOf (hidea : s.ideas.lookup id = some idea) :
    Ends (alone run (unresolvedOf ctx req id)) s
      (fun l _ => ∀ agentId, idea.agentId = some agentId → Reported ctx req s agentId l)
      fun _ => False := by
  unfold unresolvedOf
  cases hcontent : req.newContent with
  | none =>
    intro agentId _
    exact ⟨fun _ => rfl, fun body hbody => by cases hcontent.symm.trans hbody⟩
  | some body =>
    refine ends_alone_bind.2 (ends_alone_bind.2 (ends_reach.2 ?_))
    change Ends (alone run (reconcileInlineEdgesInScope ctx body
      ((s.ideas.lookup id).bind (·.agentId)))) s _ _
    rw [hidea, bind_some]
    cases hagent : idea.agentId with
    | none =>
      exact ends_alone_bind.2 (ends_reach.2 nofun)
    | some owner =>
      refine ends_alone_bind.2 (ends_reach.2 fun agentId hsome => ?_)
      cases hsome
      refine ⟨fun hnone => (by cases hnone.symm.trans hcontent), fun body' hbody' => ?_⟩
      cases hcontent.symm.trans hbody'
      exact ⟨_, fun name => resolverOf_none, rfl⟩

def restOfUpdate (ctx : Ctx) (req : UpdateIdea) (id : String) : IdeaRoutine (List String) := do
  updateParent req id
  updateProperties req id
  let unresolved ← unresolvedOf ctx req id
  emitIdeaActivity req.newId id "edited" (requestField req.callerUserId)
  pure unresolved

theorem ends_restOfUpdate (hidea : s.ideas.lookup id = some idea) :
    Ends (alone run (restOfUpdate ctx req id)) s
      (fun l _ => ∀ agentId, idea.agentId = some agentId → Reported ctx req s agentId l)
      fun _ => False := by
  refine ends_alone_bind.2 (ends_updateParent.mono (fun _ s₁ h₁ => ?_) fun _ h => h)
  refine ends_alone_bind.2 (ends_updateProperties.mono (fun _ s₂ h₂ => ?_) fun _ h => h)
  have h := h₁.trans h₂
  obtain ⟨idea', hidea', hagent, -⟩ := h.symm.lookup hidea
  refine ends_alone_bind.2 ((ends_unresolvedOf hidea').mono (fun l _ hl => ?_) fun _ h => h)
  refine ends_alone_bind.2 (ends_emitIdeaActivity.mono (fun _ _ _ agentId howner => ?_) fun _ h => h)
  exact h.reported (hl agentId (hagent.trans howner))

theorem handleUpdateIdea_refused (h : ∀ id, ¬ req.Asks id) :
    ∃ e, handleUpdateIdea ctx req = answer (.error e) := by
  unfold handleUpdateIdea
  dsimp only
  split
  · exact ⟨_, rfl⟩
  next hid =>
    split
    · exact ⟨_, rfl⟩
    next hsomething =>
      refine absurd ⟨?_, ?_⟩ (h ((requestField req.id).getD ""))
      · cases hfield : requestField req.id with
        | none =>
          rw [hfield] at hid
          exact absurd rfl hid
        | some id => rfl
      · by_contra hnothing
        simp only [not_or, not_not] at hnothing
        exact hsomething ⟨hnothing.1, hnothing.2.1, hnothing.2.2⟩

theorem handleUpdateIdea_asks (h : req.Asks id) : handleUpdateIdea ctx req =
    updateCore ctx req id >>= fun _ => restOfUpdate ctx req id := by
  have hid : id ≠ "" := of_decide_eq_true (filter_eq_some_iff.1 h.id).2
  have hsomething : ¬ (¬ req.CoreChange ∧ req.parentIdeaId = none ∧ req.properties = none) := by
    rintro ⟨hcore, hparent, hproperties⟩
    rcases h.something with h | h | h
    · exact hcore h
    · exact h hparent
    · exact h hproperties
  unfold handleUpdateIdea
  rw [h.id, getD_some]
  rw [if_neg hid, if_neg hsomething]
  rfl

theorem core_given (hcore : req.CoreChange) : ¬ (req.newName = none ∧ req.newContent = none ∧
    req.tags.map (normalizeTags ctx.toLowercase) = none) := by
  rintro ⟨hname, hcontent, htags⟩
  rcases hcore with h | h | h
  · exact h hname
  · exact h hcontent
  · exact h (map_eq_none_iff.1 htags)

theorem reply_core (h : req.Asks id) (hcore : req.CoreChange) :
    (alone run (handleUpdateIdea ctx req) s).1 =
      match s.update id req.newName req.newContent (req.tags.map (normalizeTags ctx.toLowercase)) with
      | (.error e, _) => .error e
      | (.ok (), s') => (alone run (restOfUpdate ctx req id) s').1 := by
  have hcoreRun : alone run (updateCore ctx req id) s =
      s.update id req.newName req.newContent (req.tags.map (normalizeTags ctx.toLowercase)) := by
    unfold updateCore
    rw [if_pos hcore]
    rfl
  rw [handleUpdateIdea_asks h, alone_bind, hcoreRun]
  rcases s.update id req.newName req.newContent _ with ⟨_ | _, _⟩ <;> rfl

theorem reply_missing (h : req.Asks id) (hcore : req.CoreChange) (hnone : s.ideas.lookup id = none) :
    (alone run (handleUpdateIdea ctx req) s).1 = .error (.message ("idea not found: " ++ id)) := by
  rw [reply_core h hcore, update_missing hnone]

theorem reply_taken (h : req.Asks id) (hcore : req.CoreChange)
    (hidea : s.ideas.lookup id = some idea) (htaken : req.Taken s id idea) :
    (alone run (handleUpdateIdea ctx req) s).1 = .error (.message Store.UNIQUE_NAME) := by
  rw [reply_core h hcore, update_taken hidea (core_given hcore) htaken]

theorem reply_free (h : req.Asks id) (hcore : req.CoreChange)
    (hidea : s.ideas.lookup id = some idea) (hfree : ¬ req.Taken s id idea) :
    ∃ l, (alone run (handleUpdateIdea ctx req) s).1 = .ok l ∧
      ∀ agentId, idea.agentId = some agentId →
        Reported ctx req (s.setIdea id (req.edit ctx)) agentId l := by
  rw [reply_core h hcore, update_free hidea (core_given hcore) hfree]
  have hedited : (s.setIdea id (req.edit ctx)).ideas.lookup id = some (req.edit ctx idea) :=
    lookup_setIdea hidea
  have hends : Ends (alone run (restOfUpdate ctx req id)) (s.setIdea id (req.edit ctx))
      (fun l _ => ∀ agentId, (req.edit ctx idea).agentId = some agentId →
        Reported ctx req (s.setIdea id (req.edit ctx)) agentId l) fun _ => False :=
    ends_restOfUpdate hedited
  obtain ⟨l, s', hrun, hl⟩ := reply_of_ends hends
  refine ⟨l, ?_, hl⟩
  exact congrArg Prod.fst hrun

theorem reply_columns (h : req.Asks id) (hcore : ¬ req.CoreChange) :
    (alone run (handleUpdateIdea ctx req) s).1 = .ok [] := by
  have hcontent : req.newContent = none := by
    by_contra hsome
    exact hcore (.inr (.inl hsome))
  have hends : Ends (alone run (restOfUpdate ctx req id)) s (fun l _ => l = [])
      fun _ => False := by
    unfold restOfUpdate unresolvedOf
    rw [hcontent]
    refine ends_alone_bind.2 (ends_updateParent.mono (fun _ s₁ _ => ?_) fun _ h => h)
    refine ends_alone_bind.2 (ends_updateProperties.mono (fun _ s₂ _ => ?_) fun _ h => h)
    refine ends_alone_bind.2 ?_
    exact ends_alone_bind.2 (ends_emitIdeaActivity.mono (fun _ _ _ => rfl) fun _ h => h)
  obtain ⟨l, s', hrun, rfl⟩ := reply_of_ends hends
  rw [handleUpdateIdea_asks h]
  unfold updateCore
  rw [if_neg hcore]
  exact congrArg Prod.fst hrun

end Responses

/-! ## Updates of what is in scope -/

section InScope

variable {allowed : Option (List String)} {s s' : Store} {ctx : Ctx} {req : UpdateIdea}
  {id newId verb agentId name : String} {idea : Idea} {lower : String → String}

/-- The idea is there, and in scope. -/
def Store.Holds (allowed : Option (List String)) (s : Store) (id : String) : Prop :=
  ∃ idea, s.ideas.lookup id = some idea ∧ s.ideaInScope allowed idea = true

theorem Store.Holds.mayWrite (h : s.Holds allowed id) : s.MayWrite allowed id := by
  obtain ⟨idea, hidea, hin⟩ := h
  intro idea' hidea'
  cases hidea.symm.trans hidea'
  exact hin

theorem Store.Holds.setIdea {f : Idea → Idea} (h : s.Holds allowed id)
    (hf : ∀ o, (f o).agentId = o.agentId) : (s.setIdea id f).Holds allowed id := by
  obtain ⟨idea, hidea, hin⟩ := h
  refine ⟨f idea, lookup_setIdea hidea, ?_⟩
  obtain ⟨ideas, hframe⟩ : ∃ ideas, s.setIdea id f = { s with ideas := ideas } := setIdea_frame
  rw [hframe]
  unfold World.ideaInScope at ⊢
  rwa [hf]

theorem leads_reach {a : IdeaAccess} {good : IdeaAccess → Store → Prop} {q : a.Reply → Store → Prop} :
    Leads run good (reach a) s q ↔ good a s ∧ q (a.run s).1 (a.run s).2 := leads_perform

theorem leads_updateCore (h : s.Holds allowed id) :
    Leads run (IdeaAccess.Confined allowed) (updateCore ctx req id) s
      fun _ s' => s'.Holds allowed id := by
  unfold updateCore
  split
  · refine leads_bind.2 (leads_reach.2 ⟨fun _ => h.mayWrite, leads_result.2 fun _ hok => ?_⟩)
    change (s.update id _ _ _).2.Holds allowed id
    change (s.update id _ _ _).1 = .ok _ at hok
    have hholds := h
    obtain ⟨idea, hidea, -⟩ := hholds
    unfold Store.update at hok ⊢
    rw [hidea] at hok ⊢
    dsimp only at hok ⊢
    split at hok
    · cases hok
    next hsome =>
      rw [if_neg hsome]
      split at hok
      · cases hok
      next hfree =>
        rw [if_neg hfree, ← setIdea_found hidea]
        exact h.setIdea fun _ => rfl
  · exact leads_pure.2 h

theorem leads_updateParent (h : s.Holds allowed id) :
    Leads run (IdeaAccess.Confined allowed) (updateParent req id) s
      fun _ s' => s'.Holds allowed id := by
  unfold updateParent
  split
  · exact leads_pure.2 h
  next parent _ =>
    refine leads_bind.2 (leads_reach.2 ⟨fun _ => h.mayWrite, leads_pure.2 ?_⟩)
    change (s.setParent id (requestField parent)).2.Holds allowed id
    unfold Store.setParent
    split
    · exact h
    · exact h.setIdea fun _ => rfl

theorem leads_updateProperties (h : s.Holds allowed id) :
    Leads run (IdeaAccess.Confined allowed) (updateProperties req id) s
      fun _ s' => s'.Holds allowed id := by
  unfold updateProperties
  split
  · exact leads_pure.2 h
  · exact leads_bind.2 (leads_reach.2 ⟨h.mayWrite, leads_pure.2 (h.setIdea fun _ => rfl)⟩)

theorem leads_unresolvedOf {P : Store → Prop} (h : P s) :
    Leads run (IdeaAccess.Confined allowed) (unresolvedOf ctx req id) s fun _ => P := by
  unfold unresolvedOf
  split
  · exact leads_pure.2 h
  · refine leads_bind.2 (leads_bind.2 (leads_reach.2 ⟨trivial, leads_pure.2 ?_⟩))
    unfold reconcileInlineEdgesInScope
    split
    · exact leads_bind.2 (leads_reach.2 ⟨trivial, leads_pure.2 h⟩)
    · exact leads_bind.2 (leads_reach.2 ⟨trivial, leads_pure.2 h⟩)

section NewSession

variable {w : World} (hw : w.ideas = s.ideas ∧ w.agents = s.agents)
  (hidea : s.ideas.lookup id = some idea) (hin : s.ideaInScope allowed idea = true)
include hw hidea hin

theorem mayWrite_created (idea' : Idea) (hidea' : w.ideas.lookup id = some idea') :
    w.ideaInScope allowed idea' = true := by
  rw [hw.1] at hidea'
  cases hidea.symm.trans hidea'
  unfold World.ideaInScope World.checkAgentAccess at ⊢
  rwa [hw.2]

theorem sessionInScope_setIdeaSession :
    (w.setIdeaSession id newId).sessionInScope allowed newId = true := by
  have hscope : w.ideaInScope allowed idea = true := by
    unfold World.ideaInScope World.checkAgentAccess at ⊢
    rwa [hw.2]
  rw [← hw.1] at hidea
  unfold World.setIdeaSession
  rw [hidea]
  have hset : (w.ideas.insert id { idea with sessionId := some newId }).lookup id =
      some { idea with sessionId := some newId } := AList.lookup_insert _
  exact sessionInScope_of_idea hset hscope rfl

end NewSession

theorem leads_emitIdeaActivity {actorUserId : Option String} (h : s.Holds allowed id) :
    Leads run (IdeaAccess.Confined allowed) (emitIdeaActivity newId id verb actorUserId) s
      fun _ _ => True := by
  obtain ⟨idea, hidea, hin⟩ := h
  have hsession : Leads run (IdeaAccess.Confined allowed) (ensureIdeaSession newId id) s
      fun found s' => ∀ sid, found = .ok sid → s'.sessionInScope allowed sid = true := by
    refine leads_bind.2 (leads_reach.2 ⟨trivial, ?_⟩)
    split
    next hnone => cases hidea.symm.trans hnone
    next idea' hidea' =>
      cases hidea.symm.trans hidea'
      split
      next sid hsid =>
        refine leads_pure.2 ?_
        rintro _ ⟨⟩
        exact sessionInScope_of_idea hidea hin hsid
      next hnone =>
        refine leads_bind.2 (leads_reach.2 ⟨trivial, ?_⟩)
        have hideas : (s.toWorld.createSession newId
            { sessionType := "idea", name := "idea:" ++ idea.name }).2.ideas = s.ideas ∧
            (s.toWorld.createSession newId
              { sessionType := "idea", name := "idea:" ++ idea.name }).2.agents = s.agents := by
          obtain ⟨sessions, hframe⟩ := createSession_frame s.toWorld newId
            { sessionType := "idea", name := "idea:" ++ idea.name }
          rw [hframe]
          exact ⟨rfl, rfl⟩
        split
        · refine leads_pure.2 ?_
          rintro _ ⟨⟩
        · refine leads_bind.2 (leads_reach.2 ⟨?_, leads_pure.2 ?_⟩)
          · exact mayWrite_created hideas hidea hin
          · rintro _ ⟨⟩
            exact sessionInScope_setIdeaSession hideas hidea hin
  refine leads_bind.2 (hsession.mono fun found s' hfound => ?_)
  cases found with
  | error e => exact leads_pure.2 trivial
  | ok sid => exact leads_bind.2 (leads_reach.2 ⟨hfound sid rfl, leads_pure.2 trivial⟩)

theorem leads_handleUpdateIdea (h : req.Asks id) (hholds : s.Holds allowed id) :
    Leads run (IdeaAccess.Confined allowed) (handleUpdateIdea ctx req) s fun _ _ => True := by
  rw [handleUpdateIdea_asks h]
  refine leads_bind.2 ((leads_updateCore hholds).mono fun _ s₁ h₁ => ?_)
  refine leads_bind.2 ((leads_updateParent h₁).mono fun _ s₂ h₂ => ?_)
  refine leads_bind.2 ((leads_updateProperties h₂).mono fun _ s₃ h₃ => ?_)
  refine leads_bind.2 ((leads_unresolvedOf (P := fun s => s.Holds allowed id) h₃).mono fun _ s₄ h₄ => ?_)
  exact leads_bind.2 ((leads_emitIdeaActivity h₄).mono fun _ _ _ => leads_pure.2 trivial)

theorem leads_untouched (hasks : req.Asks id) (hcore : ¬ req.CoreChange)
    (hparent : Leads run (IdeaAccess.Confined allowed) (updateParent req id) s
      fun _ s' => s' = s)
    (hproperties : Leads run (IdeaAccess.Confined allowed) (updateProperties req id) s
      fun _ s' => s' = s)
    (hemit : Leads run (IdeaAccess.Confined allowed)
      (emitIdeaActivity req.newId id "edited" (requestField req.callerUserId)) s fun _ _ => True) :
    Leads run (IdeaAccess.Confined allowed) (handleUpdateIdea ctx req) s fun _ _ => True := by
  rw [handleUpdateIdea_asks hasks]
  unfold updateCore restOfUpdate
  rw [if_neg hcore]
  refine leads_bind.2 (leads_pure.2 (leads_bind.2 (hparent.mono ?_)))
  rintro _ _ rfl
  refine leads_bind.2 (hproperties.mono ?_)
  rintro _ s₁ rfl
  refine leads_bind.2 ((leads_unresolvedOf (P := fun s => s = s₁) rfl).mono ?_)
  rintro _ _ rfl
  exact leads_bind.2 (hemit.mono fun _ _ _ => leads_pure.2 trivial)

theorem leads_columns (hasks : req.Asks id) (hcore : ¬ req.CoreChange)
    (hcolumns : req.ColumnsInScope allowed s id) :
    Leads run (IdeaAccess.Confined allowed) (handleUpdateIdea ctx req) s fun _ _ => True := by
  cases hidea : s.ideas.lookup id with
  | none =>
    have hmay : s.MayWrite allowed id := fun idea h => by cases hidea.symm.trans h
    have hmissing : ∀ f, s.setIdea id f = s := fun f => setIdea_missing hidea
    refine leads_untouched hasks hcore ?_ ?_ ?_
    · unfold updateParent
      split
      · exact leads_pure.2 rfl
      next parent _ =>
        refine leads_bind.2 (leads_reach.2 ⟨fun _ => hmay, leads_pure.2 ?_⟩)
        change (s.setParent id (requestField parent)).2 = s
        unfold Store.setParent
        split
        · rfl
        · exact hmissing _
    · unfold updateProperties
      split
      · exact leads_pure.2 rfl
      · exact leads_bind.2 (leads_reach.2 ⟨hmay, leads_pure.2 (hmissing _)⟩)
    · refine leads_bind.2 (leads_bind.2 (leads_reach.2 ⟨trivial, ?_⟩))
      split
      · exact leads_pure.2 (leads_pure.2 trivial)
      next idea hsome => cases hidea.symm.trans hsome
  | some idea =>
    rcases hcolumns idea hidea with hin | ⟨hproperties, ⟨parent, hparent, p, hp, hnone⟩, sid, hsid, hsession⟩
    · exact leads_handleUpdateIdea hasks ⟨idea, hidea, hin⟩
    · have hrefused : s.setParent id (requestField parent) = (.error (.sqlite .foreignKey), s) := by
        unfold Store.setParent
        rw [if_pos]
        rw [hidea, show requestField parent = some p from hp, any_some, hnone]
        exact ⟨rfl, rfl⟩
      refine leads_untouched hasks hcore ?_ ?_ ?_
      · unfold updateParent
        rw [show req.parentIdeaId = some parent from hparent]
        refine leads_bind.2 (leads_reach.2 ⟨fun hok => ?_, leads_pure.2 (congrArg Prod.snd hrefused)⟩)
        rw [hrefused] at hok
        cases hok
      · unfold updateProperties
        rw [hproperties]
        exact leads_pure.2 rfl
      · refine leads_bind.2 (leads_bind.2 (leads_reach.2 ⟨trivial, ?_⟩))
        split
        next hmissing => cases hidea.symm.trans hmissing
        next idea' hsome =>
          cases hidea.symm.trans hsome
          rw [hsid]
          exact leads_pure.2 (leads_bind.2 (leads_reach.2 ⟨hsession, leads_pure.2 trivial⟩))

/-! ### The response -/

theorem nameTaken_within (h : (s.within allowed).nameTaken id idea name) : s.nameTaken id idea name := by
  obtain ⟨hactive, other, -, hne, hrow⟩ := h
  obtain ⟨o, ho, hsame⟩ := Option.any_eq_true _ _ |>.1 hrow
  have ho' : s.ideas.lookup other = some o := (World.lookup_ideas_within.1 ho).1
  refine ⟨hactive, other, AList.mem_keys.1 (AList.lookup_isSome.1 (by rw [ho']; rfl)), hne, ?_⟩
  exact Option.any_eq_true _ _ |>.2 ⟨o, ho', hsame⟩

/-- Of an owner that is in scope, and not `""`, no names are taken outside. -/
theorem nameTaken_inScope (hagent : idea.agentId = some agentId) (hne : agentId ≠ "")
    (haccess : s.checkAgentAccess allowed agentId = true) (h : s.nameTaken id idea name) :
    (s.within allowed).nameTaken id idea name := by
  obtain ⟨hactive, other, -, hother, hrow⟩ := h
  obtain ⟨o, ho, hsame⟩ := Option.any_eq_true _ _ |>.1 hrow
  have howner : o.agentId = some agentId := by
    simp only [decide_eq_true_eq] at hsame
    have hgetD := hsame.2.1
    rw [hagent, getD_some] at hgetD
    cases howner : o.agentId with
    | none =>
      rw [howner] at hgetD
      exact absurd hgetD.symm hne
    | some owner =>
      rw [howner, getD_some] at hgetD
      rw [hgetD]
  have hin : s.ideaInScope allowed o = true := by
    unfold World.ideaInScope
    rw [howner]
    exact haccess
  have ho' : (s.within allowed).ideas.lookup other = some o := World.lookup_ideas_within.2 ⟨ho, hin⟩
  refine ⟨hactive, other, AList.mem_keys.1 (AList.lookup_isSome.1 (by rw [ho']; rfl)), hother, ?_⟩
  exact Option.any_eq_true _ _ |>.2 ⟨o, ho', hsame⟩

theorem resolves_within {f : Idea → Idea} (hidea : s.ideas.lookup id = some idea)
    (hin : s.ideaInScope allowed idea = true)
    (h : ((s.within allowed).setIdea id f).Resolves lower agentId name) :
    (s.setIdea id f).Resolves lower agentId name := by
  have hwithin : (s.within allowed).ideas.lookup id = some idea :=
    World.lookup_ideas_within.2 ⟨hidea, hin⟩
  obtain ⟨i, o, ho, hsees, hname⟩ := h
  refine ⟨i, o, ?_, ?_, hname⟩
  · by_cases hi : i = id
    · subst hi
      rw [lookup_setIdea hwithin] at ho
      rwa [lookup_setIdea hidea]
    · rw [lookup_setIdea_ne hi] at ho ⊢
      exact (World.lookup_ideas_within.1 ho).1
  · rw [setIdea_found hwithin] at hsees
    rw [setIdea_found hidea]
    exact Store.sees_within hsees

theorem holds_congr (h : s'.within allowed = s.within allowed) (hidea : s.ideas.lookup id = some idea)
    (hin : s.ideaInScope allowed idea = true) :
    s'.ideas.lookup id = some idea ∧ s'.ideaInScope allowed idea = true := by
  refine ⟨World.idea_congr (Store.toWorld_congr h) hidea hin, ?_⟩
  rw [World.ideaInScope_congr (Store.toWorld_congr h)]
  exact hin

theorem ideaInScope_of_agent (hagent : idea.agentId = some agentId)
    (haccess : s.checkAgentAccess allowed agentId = true) : s.ideaInScope allowed idea = true := by
  unfold World.ideaInScope
  rw [hagent]
  exact haccess

theorem not_taken (hshield : req.Shielded ctx allowed s id idea agentId)
    (hagent : idea.agentId = some agentId) (haccess : s.checkAgentAccess allowed agentId = true)
    (hfree : ¬ req.Taken (s.within allowed) id idea) (h : s'.within allowed = s.within allowed) :
    ¬ req.Taken s' id idea := by
  rintro ⟨new, hnew, htaken⟩
  refine hfree ⟨new, hnew, ?_⟩
  rw [← h]
  refine nameTaken_inScope hagent (hshield.name new hnew htaken.1) ?_ htaken
  rwa [World.checkAgentAccess_congr (Store.toWorld_congr h)]

theorem reply_shielded (hasks : req.Asks id) (hcore : req.CoreChange)
    (hshield : req.Shielded ctx allowed s id idea agentId)
    (hidea : s.ideas.lookup id = some idea) (hagent : idea.agentId = some agentId)
    (haccess : s.checkAgentAccess allowed agentId = true)
    (hfree : ¬ req.Taken (s.within allowed) id idea) (h : s'.within allowed = s.within allowed) :
    (alone run (handleUpdateIdea ctx req) s').1 = .ok [] := by
  obtain ⟨hidea', hin'⟩ := holds_congr h hidea (ideaInScope_of_agent hagent haccess)
  obtain ⟨l, hreply, hl⟩ : ∃ l, (alone run (handleUpdateIdea ctx req) s').1 = .ok l ∧
      ∀ agentId, idea.agentId = some agentId → Reported ctx req (s'.setIdea id (req.edit ctx)) agentId l :=
    reply_free hasks hcore hidea' (not_taken hshield hagent haccess hfree h)
  obtain ⟨hnone, hsome⟩ := hl agentId hagent
  rw [hreply]
  cases hcontent : req.newContent with
  | none => rw [hnone hcontent]
  | some body =>
    obtain ⟨resolver, hresolver, rfl⟩ := hsome body hcontent
    refine congrArg Except.ok (unresolvedRefs_eq_nil.2 fun r hr hkind hnone => ?_)
    have hlink := hshield.links body hcontent r hr hkind
    rw [← h] at hlink
    exact (hresolver _).1 hnone (resolves_within hidea' hin' hlink)

theorem updateIdea_scoped {fresh : Store → Prop} (hscope : req.InScope ctx allowed s) :
    Scoped allowed fresh (handleUpdateIdea ctx req) s := by
  by_cases hasks : ∃ id, req.Asks id
  · obtain ⟨id, hasks⟩ := hasks
    obtain ⟨hcoreScope, hcolumns⟩ := hscope id hasks
    by_cases hcore : req.CoreChange
    · obtain ⟨idea, agentId, hidea, hagent, haccess, hname⟩ := hcoreScope hcore
      have hin := ideaInScope_of_agent hagent haccess
      refine ⟨(leads_handleUpdateIdea hasks ⟨idea, hidea, hin⟩).1, fun s' h _ => ?_⟩
      obtain ⟨hidea', -⟩ := holds_congr h hidea hin
      by_cases htaken : req.Taken (s.within allowed) id idea
      · obtain ⟨new, hnew, htaken⟩ := htaken
        rw [reply_taken hasks hcore hidea ⟨new, hnew, nameTaken_within htaken⟩]
        rw [← h] at htaken
        rw [reply_taken hasks hcore hidea' ⟨new, hnew, nameTaken_within htaken⟩]
      · have hshield := hname.resolve_left htaken
        rw [reply_shielded hasks hcore hshield hidea hagent haccess htaken h,
          reply_shielded hasks hcore hshield hidea hagent haccess htaken rfl]
    · refine ⟨?_, fun s' _ _ => ?_⟩
      · exact (leads_columns hasks hcore (hcolumns hcore)).1
      · rw [reply_columns hasks hcore, reply_columns hasks hcore]
  · obtain ⟨e, hrefused⟩ : ∃ e, handleUpdateIdea ctx req = answer (.error e) :=
      handleUpdateIdea_refused fun id hid => hasks ⟨id, hid⟩
    rw [hrefused]
    exact isolated_result _

end InScope

end Aeqi.Ideas
