import Aeqi.Ideas.Coherence

/-!
# Which ideas a search shows to an agent

A search with an `agent_id` flattens the anchors of all scopes into one list, and admits every row
with an anchor on it or with none, whatever the row's own scope; without the list it admits the
agent's own rows. `leaks_iff` says which rows it admits that the visibility clause does not, and
`shown_seen` that without such rows, and with keys that tell agents apart, no answer shows any idea
that its agent does not see, be it fresh or from the cache.
-/

namespace Aeqi.Ideas

open Aeqi.Lib Aeqi.Orchestrator Option

/-! ## The two clauses -/

section Clauses

variable {roles : RoleStore} {req : SearchIdeas} {x a : String} {r : IdeaRow}

theorem bindParams_buildInClause {scope : Scope} {anchors : List String} {c : VisibilityClause} :
    (buildInClause scope anchors c).bindParams = c.bindParams ++ anchors := by
  unfold buildInClause
  split
  · next h => rw [h, List.append_nil]
  · rfl

theorem mem_bindParams {c : VisibilityClause} (hc : roles.visibilitySqlClause x = some c) :
    a ∈ c.bindParams ↔ (a = x ∧ roles.Seated x ∨ roles.Above a x) ∨ a ∈ roles.listSiblings x := by
  obtain ⟨ids, hids, hc⟩ := bind_eq_some_iff.1 hc
  obtain rfl := some.inj hc
  rw [← RoleStore.mem_getAncestorIds hids]
  simp only [bindParams_buildInClause, List.mem_append, mem_pushMissing]
  tauto

def Seen (roles : RoleStore) (x : String) (r : IdeaRow) : Prop :=
  roles.SeesRow x ⟨r.scope, r.agentId⟩

/-- The row is not global, and has no anchor, or that of a sibling that is not above the agent while
its scope leaves siblings out; without a list of anchors, it is that of an agent without a role. -/
def Leaks (roles : RoleStore) (x : String) (listed : Bool) (r : IdeaRow) : Prop :=
  r.scope ≠ .global ∧ if listed then
    r.agentId = none ∨ ∃ a ∈ r.agentId, a ∈ roles.listSiblings x ∧ ¬ roles.Above a x ∧
      (r.scope = .self ∨ r.scope = .children)
  else r.agentId = some x ∧ roles.agentRoles x = []

instance Leaks.decidable (roles : RoleStore) (x : String) (listed : Bool) (r : IdeaRow) :
    Decidable (Leaks roles x listed r) :=
  inferInstanceAs (Decidable (_ ∧ if listed then _ else _))

theorem seated_iff : roles.Seated x ↔ roles.agentRoles x ≠ [] := by
  constructor
  · rintro ⟨id, hid⟩
    exact List.ne_nil_of_mem (RoleStore.mem_agentRoles.2 hid)
  · intro hne
    obtain ⟨id, hid⟩ := List.exists_mem_of_ne_nil _ hne
    exact ⟨id, RoleStore.mem_agentRoles.1 hid⟩

theorem sees_own {scope : Scope} (hscope : scope ≠ .global) :
    roles.Sees x x scope ↔ roles.Seated x := by
  have habove : roles.Above x x → roles.Seated x := RoleStore.seated_of_above
  cases scope <;> simp_all [RoleStore.Sees]

theorem listed_and_not_sees {scope : Scope} (hscope : scope ≠ .global) :
    ((a = x ∧ roles.Seated x ∨ roles.Above a x) ∨ a ∈ roles.listSiblings x) ∧
        ¬ roles.Sees x a scope ↔
      a ∈ roles.listSiblings x ∧ ¬ roles.Above a x ∧ (scope = .self ∨ scope = .children) := by
  rw [RoleStore.mem_listSiblings]
  cases scope <;> simp only [RoleStore.Sees] <;> grind

theorem leaks_iff (hx : requestField req.agentId = some x) :
    ScopeAdmits (req.toQuery roles) r ∧ ¬ Seen roles x r ↔
      Leaks roles x (req.toQuery roles).visibleAnchorIds.isSome r := by
  have hagent : (req.toQuery roles).agentId = some x := hx
  have hanchors : (req.toQuery roles).visibleAnchorIds = visibleAnchors roles req.lookupFails x := by
    change (requestField req.agentId).bind _ = _
    rw [hx, bind_some]
  by_cases hglobal : r.scope = .global
  · exact iff_of_false (fun h => h.2 (.inl hglobal)) fun h => h.1 hglobal
  have hseen : Seen roles x r ↔ ∃ a, r.agentId = some a ∧ roles.Sees x a r.scope :=
    or_iff_right hglobal
  rw [hseen, Leaks, ScopeAdmits, hanchors, hagent, and_iff_right hglobal]
  cases hlist : visibleAnchors roles req.lookupFails x with
  | none =>
    have hown : roles.agentRoles x = [] ↔ ¬ roles.Sees x x r.scope := by
      rw [sees_own hglobal, seated_iff, not_not]
    simp only [hown]
    constructor
    · rintro ⟨hr, hnot⟩
      exact ⟨hr, fun hsees => hnot ⟨x, hr, hsees⟩⟩
    · rintro ⟨hr, hnot⟩
      refine ⟨hr, ?_⟩
      rintro ⟨a, ha, hsees⟩
      obtain rfl := some.inj (hr.symm.trans ha)
      exact hnot hsees
  | some anchors =>
    have hmem (a : String) : a ∈ anchors ↔
        (a = x ∧ roles.Seated x ∨ roles.Above a x) ∨ a ∈ roles.listSiblings x := by
      unfold visibleAnchors at hlist
      split at hlist
      · cases hlist
      · obtain ⟨c, hc, rfl⟩ := map_eq_some_iff.1 hlist
        exact mem_bindParams hc
    simp only [hglobal]
    cases r.agentId with
    | none => simp
    | some a =>
      have hiff := @listed_and_not_sees roles x a r.scope hglobal
      simp only [reduceCtorEq, false_or, Option.some.injEq, mem_def, exists_eq_left',
        exists_eq_right', hmem]
      exact hiff

end Clauses

/-! ## Answers -/

section Answers

variable (ctx : RecallCtx)

def AskedFor (m : Moment) (query : IdeaQuery) (r : IdeaRow) : Prop :=
  r.ValidAt m.now ∧ ∃ policy ∈ planTags ctx.search none m.corpus query,
    Carries ctx.search policy.tag r ∧ StatusAdmits (passOf query policy).includeSuperseded r ∧
      BanAdmits (passOf query policy).banAfterWrong r

instance AskedFor.decidable (m : Moment) (query : IdeaQuery) (r : IdeaRow) :
    Decidable (AskedFor ctx m query r) :=
  inferInstanceAs (Decidable (_ ∧ ∃ policy ∈ planTags ctx.search none m.corpus query, _))

def LeaksNone (m : Moment) (query : IdeaQuery) : Prop :=
  ∀ x ∈ query.agentId,
    ∀ id ∈ (ctx.search.fts m.corpus query.text).map Prod.fst ++ m.corpus.embeddings.keys,
      ∀ r ∈ m.corpus.table.row id, AskedFor ctx m query r →
        ¬ Leaks ctx.roles x query.visibleAnchorIds.isSome r

/-- A search leaks nothing, and an entry that is found was put for the same agent. -/
def KeepsApart : RecallAccess → RecallWorld → Prop
  | .search query, w => LeaksNone ctx w.toMoment query
  | .cacheGet key query _, w => ∀ entry ∈ (RecallAccess.get ctx.ttl w.now w.cache key).1,
      entry.query.agentId = query.agentId
  | _, _ => True

instance KeepsApart.decidable (w : RecallWorld) : (a : RecallAccess) → Decidable (KeepsApart ctx a w)
  | .search query => inferInstanceAs (Decidable (∀ x ∈ query.agentId,
      ∀ id ∈ (ctx.search.fts w.corpus query.text).map Prod.fst ++ w.corpus.embeddings.keys,
        ∀ r ∈ w.corpus.table.row id, AskedFor ctx w.toMoment query r → _))
  | .cacheGet .. => inferInstanceAs (Decidable (∀ entry ∈ _, _))
  | .request | .cachePut .. | .table _ | .change _ | .bumpGeneration | .clear | .ended
  | .tick _ => inferInstanceAs (Decidable True)

def AllSeen (agentId : Option String) (hits : List SearchHit) : Prop :=
  ∀ x ∈ agentId, ∀ h ∈ hits, Seen ctx.roles x h.idea

variable {ctx} {w : RecallWorld} {req : SearchIdeas}

theorem allSeen_searchAt (h : LeaksNone ctx w.toMoment (req.toQuery ctx.roles)) :
    AllSeen ctx (req.toQuery ctx.roles).agentId
      (searchAt ctx w.toMoment (req.toQuery ctx.roles)) := by
  intro x hx hit hhit
  obtain ⟨hr, hvalid, policy, hpolicy, hretrieves⟩ := retrieves_of_mem hhit
  obtain ⟨r, hrow, hcarries, hstatus, hscope, hban⟩ := hretrieves.admits
  obtain rfl := some.inj (hr.symm.trans hrow)
  have hasked : AskedFor ctx w.toMoment (req.toQuery ctx.roles) hit.idea :=
    ⟨hvalid, policy, hpolicy, hcarries, hstatus, hban⟩
  by_contra hnot
  exact h x hx hit.id hretrieves.known hit.idea hr hasked ((leaks_iff hx).1 ⟨hscope, hnot⟩)

/-- The guarantee of the calls: whatever is put is seen by the agent it is put for. -/
def showing (ctx : RecallCtx) : Guarantee RecallAccess RecallAccess.Reply RecallWorld where
  run := RecallAccess.run ctx
  good := KeepsApart ctx
  proper a _ := ∀ key query hits ran,
    a = .cachePut key query hits ran → AllSeen ctx query.agentId hits
  inv w := ∀ key entry, w.cache.map.lookup key = some entry →
    AllSeen ctx entry.query.agentId entry.hits
  may _ _ := True
  refl _ := trivial
  trans _ _ := trivial
  keeps a w _ hputs hinv := by
    intro key entry hentry
    rcases RecallAccess.lookup_run hentry with ⟨hold, -⟩ | ⟨key', query, hits, ran, ha, rfl⟩
    · exact hinv key entry hold
    · exact hputs key' query hits ran ha
  moves _ _ _ _ _ := trivial

theorem showing_proper {a : RecallAccess} (ha : a.puts = false) (w : RecallWorld) :
    (showing ctx).proper a w := by
  rintro key query hits ran rfl
  cases ha

theorem shows_handleSearchIdeas : (handleSearchIdeas ctx req).Minds (showing ctx) w
    fun answer _ => AllSeen ctx (req.toQuery ctx.roles).agentId answer.hits := by
  refine RecallCall.minds_handleSearchIdeas (fun _ w h => showing_proper h w) rfl rfl ?_ ?_ ?_
  · intro w₁ w₂ w₃ key entry _ hinv hfound hget _
    have hseen := hinv _ entry (RecallAccess.lookup_get.1 hget)
    rwa [hfound entry hget] at hseen
  · intro w₁ w₂ key hleaks _ _ _ _ _ hput
    cases hput
    exact allSeen_searchAt hleaks
  · intro _ w₁ _ hleaks
    exact allSeen_searchAt hleaks

theorem RecallCall.shows (call : RecallCall) : (call.program ctx).Minds (showing ctx) w
    fun result _ => ∀ req answer, call = .searchIdeas req → result = some answer →
      AllSeen ctx (req.toQuery ctx.roles).agentId answer.hits :=
  RecallCall.minds_of_search (fun _ w h => showing_proper h w)
    (Q := fun req answer _ => AllSeen ctx (req.toQuery ctx.roles).agentId answer.hits) call
    (fun _ _ _ _ _ h => h) fun _ _ => shows_handleSearchIdeas

end Answers

section Run

variable {ι : Type} [DecidableEq ι] {ctx : RecallCtx} {calls : ι → RecallCall} {corpus : Corpus}
  {now capacity : Nat} {hist : List (RecallPool ι × ι)} {c : RecallPool ι}

/-- **An agent is shown what it sees** in every run whose searches leak nothing and find entries of
the same agent only. -/
theorem shown_seen (run : Run (okStep (Pool.step (RecallAccess.run ctx)))
      (RecallPool.start ctx calls corpus now capacity) hist c)
    (hkept : ∀ e ∈ hist, Pool.NextMeets (KeepsApart ctx) e.1 e.2) {i : ι} {req : SearchIdeas}
    {answer : Recalled} {x : String} (hcall : calls i = .searchIdeas req)
    (hx : requestField req.agentId = some x) (hdone : c.threads i = .done (some answer)) :
    ∀ h ∈ answer.hits, Seen ctx.roles x h.idea := by
  have hguarded : Run (Guarded (Pool.NextMeets (showing ctx).good)
      (okStep (Pool.step (showing ctx).run))) _ _ c := Run.guarded_iff.2 ⟨run, hkept⟩
  have hstart : (showing ctx).inv (RecallPool.start ctx calls corpus now capacity).state :=
    nofun
  obtain ⟨hinv, hthreads⟩ := hguarded.minds hstart fun j => (calls j).shows
  have hthread := hthreads i
  rw [hdone] at hthread
  exact hthread.of_done hinv req answer hcall rfl x hx

end Run

/-! ### A sibling's idea -/

/-- Two agents under one head. -/
def teamRoles : RoleStore where
  entities := (∅ : Accounts String Int).insert "acme" 0
  roles := (((∅ : Accounts String Role).insert "head"
      { trustId := "acme", occupantKind := .agent, occupantId := some "lead" }).insert
    "desk-1" { trustId := "acme", occupantKind := .agent, occupantId := some "ann" }).insert
    "desk-2" { trustId := "acme", occupantKind := .agent, occupantId := some "bob" }
  roleEdges := [("head", "desk-1"), ("head", "desk-2")]

def teamCtx : RecallCtx := { recallCtx with roles := teamRoles }

def bobRow (scope : Scope) : IdeaRow :=
  { pastRow with agentId := some "bob", scope, expiresAt := none }

/-- What the other one asks, and asks again. -/
abbrev annQuery : SearchIdeas := { fridayQuery false with agentId := some "ann" }

abbrev annCalls : Fin 2 → RecallCall := ![.searchIdeas annQuery, .searchIdeas annQuery]

/-- With the scope of siblings it is seen. -/
theorem annCalls_seen : ∃ hist c answer, Run (okStep (Pool.step (RecallAccess.run teamCtx)))
      (RecallPool.start teamCtx annCalls (localCorpus (bobRow .siblings)) 20 8) hist c ∧
      RecallPool.served c = some answer ∧ ∀ h ∈ answer.hits, Seen teamRoles "ann" h.idea := by
  have hgood : AllGood (Pool.NextMeets (KeepsApart teamCtx))
      (Pool.step (RecallAccess.run teamCtx))
      (RecallPool.start teamCtx annCalls (localCorpus (bobRow .siblings)) 20 8) [0, 0, 0, 0, 1, 1] := by
    decide +kernel
  obtain ⟨hist, c, hc, run⟩ := Run.of_allGood .nil hgood
  obtain ⟨run, hkept⟩ := Run.guarded_iff.1 run
  have hserved : (execAll (Pool.step (RecallAccess.run teamCtx))
      (RecallPool.start teamCtx annCalls (localCorpus (bobRow .siblings)) 20 8)
      [0, 0, 0, 0, 1, 1]).toOption.map (fun c => (RecallPool.served c).isSome) = some true := by
    decide +kernel
  simp only [toOption_map_eq_some, hc, Except.ok.injEq] at hserved
  obtain ⟨_, rfl, hserved⟩ := hserved
  obtain ⟨answer, hanswer⟩ := isSome_iff_exists.1 hserved
  obtain ⟨hdone, -⟩ := RecallPool.done_of_served hanswer
  exact ⟨hist, c, answer, run, hanswer, shown_seen run hkept rfl rfl hdone⟩

/-- With the scope of itself it is shown all the same. -/
theorem not_shown_seen : ¬ ∀ (n : Nat) (ctx : RecallCtx) (calls : Fin n → RecallCall)
    (corpus : Corpus) (now capacity : Nat) hist c, Run (okStep (Pool.step (RecallAccess.run ctx)))
        (RecallPool.start ctx calls corpus now capacity) hist c →
      ∀ i req answer x, calls i = .searchIdeas req → requestField req.agentId = some x →
        c.threads i = .done (some answer) → ∀ h ∈ answer.hits, Seen ctx.roles x h.idea := by
  intro hall
  have hhits : (execAll (Pool.step (RecallAccess.run teamCtx))
      (RecallPool.start teamCtx annCalls (localCorpus (bobRow .self)) 20 8)
      [0, 0, 0, 0]).toOption.bind (fun c => (c.threads 0).result.bind fun answer =>
        answer.map (·.hits)) =
        some (searchAt teamCtx ⟨localCorpus (bobRow .self), 20, 0, 0⟩ (annQuery.toQuery teamRoles)) :=
    rfl
  obtain ⟨c, hc, hhits⟩ := bind_eq_some_iff.1 hhits
  obtain ⟨result, hresult, hhits⟩ := bind_eq_some_iff.1 hhits
  obtain ⟨answer, rfl, hsearch⟩ := map_eq_some_iff.1 hhits
  obtain ⟨hist, run⟩ := Run.execAll (toOption_eq_some.1 hc)
  have hleaks : Leaks teamRoles "ann" (annQuery.toQuery teamRoles).visibleAnchorIds.isSome
      (bobRow .self) := by
    decide +kernel
  obtain ⟨hscope, hnot⟩ := (leaks_iff rfl).2 hleaks
  obtain ⟨hit, hhit, -, hidea⟩ := @exists_hit_localCorpus (annQuery.toQuery teamRoles) (bobRow .self)
    20 rfl (by decide) rfl rfl rfl (.inr rfl) hscope
  have hseen := hall 2 teamCtx annCalls (localCorpus (bobRow .self)) 20 8 hist c run 0 annQuery answer
    "ann" rfl rfl (Prog.result_eq_some.1 hresult) hit (hsearch ▸ hhit)
  rw [hidea] at hseen
  exact hnot hseen

end Aeqi.Ideas
