import Aeqi.Ideas.Exclusions
import Aeqi.Ideas.RecallCache
import Aeqi.Ideas.Secrets

/-!
# When the recall cache is coherent

An entry stays in the cache until an invalidation ends, so what is found was put after the last one.
It is what a search of the same query would have found since the last write that had ended when the
request came, unless the key forgets a field of the query, a write has ended that does not
invalidate, or an invalidation has ended between the search of the entry and its insertion.
-/

namespace Aeqi.Ideas

open Aeqi.Lib Option

section Coherence

variable (ctx : RecallCtx)

def Ran (past : List Moment) (ran : Moment) (query : IdeaQuery) (hits : List SearchHit) : Prop :=
  ran ∈ past ∧ hits = searchAt ctx ran query

/-- Entries were put after the last invalidation that has ended, and hold what a search has found. -/
def Filed (w : RecallWorld) : Prop :=
  ∀ key entry, w.cache.map.lookup key = some entry →
    entry.filed = w.cleared ∧ Ran ctx w.past entry.ran entry.query entry.hits

/-- An entry that is found is of the same query; no store or link has ended between its search and
the arrival of the request, and no invalidation that had ended at that arrival has ended between
the search and the insertion of the entry. -/
def FoundFresh : RecallAccess → RecallWorld → Prop
  | .cacheGet key query began, w =>
    ∀ entry ∈ (RecallAccess.get ctx.ttl w.now w.cache key).1, entry.query = query ∧
      began.stored ≤ entry.ran.stored ∧ min entry.filed began.cleared ≤ entry.ran.cleared
  | _, _ => True

instance FoundFresh.decidable (w : RecallWorld) :
    (a : RecallAccess) → Decidable (FoundFresh ctx a w)
  | .cacheGet .. => inferInstanceAs (Decidable (∀ entry ∈ _, _))
  | .request | .search _ | .cachePut .. | .table _ | .change _ | .bumpGeneration | .clear | .ended
  | .tick _ => inferInstanceAs (Decidable True)

def PutsFound : RecallAccess → RecallWorld → Prop
  | .cachePut _ query hits ran, w => Ran ctx w.past ran query hits
  | _, _ => True

/-- Moments are added, and calls end. -/
structure Later (w w' : RecallWorld) : Prop where
  past : w.past ⊆ w'.past
  cleared : w.cleared ≤ w'.cleared
  stored : w.stored ≤ w'.stored

variable {ctx} {w w' : RecallWorld} {a : RecallAccess}

theorem Later.refl (w : RecallWorld) : Later w w := ⟨List.Subset.refl _, le_rfl, le_rfl⟩

theorem Later.trans {w₁ w₂ w₃ : RecallWorld} (h : Later w₁ w₂) (h' : Later w₂ w₃) : Later w₁ w₃ :=
  ⟨List.Subset.trans h.past h'.past, h.cleared.trans h'.cleared, h.stored.trans h'.stored⟩

theorem past_run : (a.run ctx w).2.past = w.past ∨ (a.run ctx w).2.past = w.toMoment :: w.past := by
  cases a <;> first | exact .inl rfl | exact .inr rfl

theorem later_run : Later w (a.run ctx w).2 := by
  have hpast : w.past ⊆ (a.run ctx w).2.past := by
    rcases @past_run ctx w a with h | h
    · rw [h]
      exact List.Subset.refl _
    · rw [h]
      exact List.subset_cons_self _ _
  refine ⟨hpast, ?_, ?_⟩
  · cases a <;> first | exact le_rfl | exact Nat.le_succ _
  · cases a <;> first | exact le_rfl | exact Nat.le_succ _

theorem Ran.later {ran : Moment} {query : IdeaQuery} {hits : List SearchHit}
    (h : Ran ctx w.past ran query hits) (hlater : Later w w') : Ran ctx w'.past ran query hits :=
  ⟨hlater.past h.1, h.2⟩

theorem Filed.run (h : Filed ctx w) (hputs : PutsFound ctx a w) : Filed ctx (a.run ctx w).2 := by
  intro key entry hentry
  rcases RecallAccess.lookup_run hentry with ⟨hold, hcleared⟩ | ⟨_, query, hits, ran, rfl, rfl⟩
  · obtain ⟨hfiled, hran⟩ := h key entry hold
    exact ⟨hfiled.trans hcleared.symm, hran.later later_run⟩
  · exact ⟨rfl, hputs⟩

def coherence (ctx : RecallCtx) : Guarantee RecallAccess RecallAccess.Reply RecallWorld where
  run := RecallAccess.run ctx
  good := FoundFresh ctx
  proper := PutsFound ctx
  inv := Filed ctx
  may := Later
  refl := Later.refl
  trans := Later.trans
  keeps _ _ _ hputs hfiled := hfiled.run hputs
  moves _ _ _ _ _ := later_run

/-! ## Calls -/

def Fresh (ctx : RecallCtx) (query : IdeaQuery) (answer : Recalled) (w : RecallWorld) : Prop :=
  answer.cached → ∃ m ∈ w.past, m.Since answer.began ∧ answer.hits = searchAt ctx m query

theorem coherence_proper (ha : a.puts = false) (w : RecallWorld) :
    (coherence ctx).proper a w := by
  cases a with
  | cachePut key query hits ran => cases ha
  | _ => trivial

theorem coherent_handleSearchIdeas {req : SearchIdeas} : (handleSearchIdeas ctx req).Minds
    (coherence ctx) w (Fresh ctx (req.toQuery ctx.roles)) := by
  refine RecallCall.minds_handleSearchIdeas (fun _ w h => coherence_proper h w) rfl rfl ?_ ?_ ?_
  · intro w₁ w₂ w₃ key entry hlater hfiled hfound hget hlater₃ _
    obtain ⟨hquery, hstored, hcleared⟩ := hfound entry hget
    obtain ⟨hfiled, hmem, hran⟩ := hfiled _ entry (RecallAccess.lookup_get.1 hget)
    have hbegan : w₁.cleared ≤ entry.filed := hlater.cleared.trans_eq hfiled.symm
    have hsince : w₁.cleared ≤ entry.ran.cleared := (min_eq_right hbegan).ge.trans hcleared
    exact ⟨entry.ran, hlater₃.past hmem, ⟨hsince, hstored⟩, hquery ▸ hran⟩
  · intro w₁ w₂ _ _ hlater
    exact ⟨hlater.past List.mem_cons_self, rfl⟩
  · intro _ _ _ _ hcached
    cases hcached

theorem RecallCall.minds (call : RecallCall) : (call.program ctx).Minds (coherence ctx) w
    fun result w' => ∀ req answer, call = .searchIdeas req → result = some answer →
      Fresh ctx (req.toQuery ctx.roles) answer w' := by
  refine RecallCall.minds_of_search (fun _ w h => coherence_proper h w)
    (Q := fun req => Fresh ctx (req.toQuery ctx.roles)) call ?_ fun _ _ => coherent_handleSearchIdeas
  intro req answer w₁ w₂ hlater hfresh hcached
  obtain ⟨m, hmem, hsince, hhits⟩ := hfresh hcached
  exact ⟨m, hlater.past hmem, hsince, hhits⟩

end Coherence

/-! ## Every run -/

section Run

variable {ι : Type} [DecidableEq ι] {ctx : RecallCtx} {calls : ι → RecallCall} {corpus : Corpus}
  {now capacity : Nat} {hist : List (RecallPool ι × ι)} {c : RecallPool ι}

theorem exists_of_mem_past (run : Run (okStep (Pool.step (RecallAccess.run ctx)))
      (RecallPool.start ctx calls corpus now capacity) hist c) {m : Moment}
    (hm : m ∈ c.state.past) : ∃ e ∈ hist, e.1.state.toMoment = m := by
  induction run with
  | nil => cases hm
  | @step hist t t' i _ hstep ih =>
    obtain ⟨a, k, -, rfl⟩ := Pool.step_ok hstep
    have hold (hold : m ∈ t.state.past) : ∃ e ∈ (t, i) :: hist, e.1.state.toMoment = m := by
      obtain ⟨e, he, hmoment⟩ := ih hold
      exact ⟨e, List.mem_cons_of_mem _ he, hmoment⟩
    rcases @past_run ctx t.state a with hpast | hpast
    · exact hold (hpast ▸ hm)
    · rcases List.mem_cons.1 (hpast ▸ hm) with hnew | hrest
      · exact ⟨(t, i), List.mem_cons_self, hnew.symm⟩
      · exact hold hrest

/-- **Cached answers are fresh** in every run whose searches find fresh entries only. -/
theorem coherent (run : Run (okStep (Pool.step (RecallAccess.run ctx)))
      (RecallPool.start ctx calls corpus now capacity) hist c)
    (hfound : ∀ e ∈ hist, Pool.NextMeets (FoundFresh ctx) e.1 e.2) {i : ι} {req : SearchIdeas}
    {answer : Recalled} (hcall : calls i = .searchIdeas req)
    (hdone : c.threads i = .done (some answer)) (hcached : answer.cached = true) :
    ∃ e ∈ hist, e.1.state.toMoment.Since answer.began ∧ answer.hits.map (·.id) =
      (searchAt ctx e.1.state.toMoment (req.toQuery ctx.roles)).map (·.id) := by
  have hguarded : Run (Guarded (Pool.NextMeets (coherence ctx).good)
      (okStep (Pool.step (coherence ctx).run))) _ _ c := Run.guarded_iff.2 ⟨run, hfound⟩
  have hstart : Filed ctx (RecallPool.start ctx calls corpus now capacity).state :=
    nofun
  obtain ⟨hfiled, hthreads⟩ := hguarded.minds hstart fun j => (calls j).minds
  have hthread := hthreads i
  rw [hdone] at hthread
  obtain ⟨m, hm, hsince, hhits⟩ := hthread.of_done hfiled req answer hcall rfl hcached
  obtain ⟨e, he, rfl⟩ := exists_of_mem_past run hm
  exact ⟨e, he, hsince, by rw [hhits]⟩

end Run

/-! ### One search after another -/

def recallCtx : RecallCtx where
  storing := plainCtx
  search := localCtx
  roles := {}
  hashOne text := text.length.toUInt64
  hashMany texts := texts.length.toUInt64
  ttl := 60

abbrev fridayQuery (includeSuperseded : Bool) : SearchIdeas where
  query := some "friday"
  topK := some 5
  tags := ["fact"]
  includeSuperseded

/-- Two searches for the same text and tag. -/
abbrev fridayCalls (first second : Bool) : Fin 2 → RecallCall :=
  ![.searchIdeas (fridayQuery first), .searchIdeas (fridayQuery second)]

abbrev RecallPool.served (c : RecallPool (Fin 2)) : Option Recalled :=
  ((c.threads 1).result.bind id).filter (·.cached)

theorem RecallPool.done_of_served {c : RecallPool (Fin 2)} {answer : Recalled}
    (h : c.served = some answer) : c.threads 1 = .done (some answer) ∧ answer.cached = true := by
  obtain ⟨hresult, hcached⟩ := filter_eq_some_iff.1 h
  obtain ⟨result, hdone, hsome⟩ := bind_eq_some_iff.1 hresult
  exact ⟨hsome ▸ Prog.result_eq_some.1 hdone, hcached⟩

theorem fridayCalls_coherent : ∃ hist c answer,
    Run (okStep (Pool.step (RecallAccess.run recallCtx)))
      (RecallPool.start recallCtx (fridayCalls false false) pastCorpus 20 8) hist c ∧
      RecallPool.served c = some answer ∧
      ∃ e ∈ hist, e.1.state.toMoment.Since answer.began ∧ answer.hits.map (·.id) =
        (searchAt recallCtx e.1.state.toMoment
          ((fridayQuery false).toQuery recallCtx.roles)).map (·.id) := by
  have hgood : AllGood (Pool.NextMeets (FoundFresh recallCtx))
      (Pool.step (RecallAccess.run recallCtx))
      (RecallPool.start recallCtx (fridayCalls false false) pastCorpus 20 8) [0, 0, 0, 0, 1, 1] := by
    decide +kernel
  obtain ⟨hist, c, hc, run⟩ := Run.of_allGood .nil hgood
  obtain ⟨run, hfound⟩ := Run.guarded_iff.1 run
  have hserved : (execAll (Pool.step (RecallAccess.run recallCtx))
      (RecallPool.start recallCtx (fridayCalls false false) pastCorpus 20 8)
      [0, 0, 0, 0, 1, 1]).toOption.map (fun c => (RecallPool.served c).isSome) = some true := by
    decide +kernel
  simp only [toOption_map_eq_some, hc, Except.ok.injEq] at hserved
  obtain ⟨_, rfl, hserved⟩ := hserved
  obtain ⟨answer, hanswer⟩ := isSome_iff_exists.1 hserved
  obtain ⟨hdone, hcached⟩ := RecallPool.done_of_served hanswer
  exact ⟨hist, c, answer, run, hanswer, coherent run hfound rfl hdone hcached⟩

theorem active_of_mem {ctx : RecallCtx} {m : Moment} {query : IdeaQuery} {h : SearchHit}
    (hinc : query.includeSuperseded = false) (hmem : h ∈ searchAt ctx m query) :
    (m.corpus.table.row h.id).map (·.status) = some "active" := by
  obtain ⟨-, -, policy, hpolicy, hretrieves⟩ := retrieves_of_mem hmem
  obtain ⟨r, hr, -, hstatus, -⟩ := hretrieves.admits
  obtain ⟨x, rfl⟩ := exists_of_mem_planTags hpolicy
  rw [hr, map_some, Option.some.injEq]
  exact hstatus.resolve_left (by simp [passOf, hinc, resolvePolicy, TagPolicy.defaultFor])

def supersededRow : IdeaRow := { pastRow with status := "superseded" }

/-- A search with superseded ideas, and then one without them. -/
theorem not_coherent : ¬ ∀ (n : Nat) (ctx : RecallCtx) (calls : Fin n → RecallCall)
    (corpus : Corpus) (now capacity : Nat) hist c, Run (okStep (Pool.step (RecallAccess.run ctx)))
        (RecallPool.start ctx calls corpus now capacity) hist c →
      ∀ i req answer, calls i = .searchIdeas req → c.threads i = .done (some answer) →
        answer.cached = true → ∃ e ∈ hist, e.1.state.toMoment.Since answer.began ∧
          answer.hits.map (·.id) =
            (searchAt ctx e.1.state.toMoment (req.toQuery ctx.roles)).map (·.id) := by
  intro hall
  -- The row stays superseded.
  have hgood : AllGood (fun c _ => (c.state.corpus.table.row "idea-0").map (·.status) ≠ some "active")
      (Pool.step (RecallAccess.run recallCtx))
      (RecallPool.start recallCtx (fridayCalls true false) (localCorpus supersededRow) 20 8)
      [0, 0, 0, 0, 1, 1] := by
    decide +kernel
  obtain ⟨hist, c, hc, run⟩ := Run.of_allGood .nil hgood
  obtain ⟨run, hkept⟩ := Run.guarded_iff.1 run
  have hhits : (execAll (Pool.step (RecallAccess.run recallCtx))
      (RecallPool.start recallCtx (fridayCalls true false) (localCorpus supersededRow) 20 8)
      [0, 0, 0, 0, 1, 1]).toOption.bind (fun c => (RecallPool.served c).map (·.hits)) =
        some (searchAt recallCtx ⟨localCorpus supersededRow, 20, 0, 0⟩
          ((fridayQuery true).toQuery recallCtx.roles)) := rfl
  rw [hc] at hhits
  obtain ⟨answer, hanswer, hsearch⟩ := map_eq_some_iff.1 hhits
  obtain ⟨hdone, hcached⟩ := RecallPool.done_of_served hanswer
  obtain ⟨e, he, -, hids⟩ := hall 2 recallCtx (fridayCalls true false) (localCorpus supersededRow) 20 8 hist c run
    1 (fridayQuery false) answer rfl hdone hcached
  have hmem : "idea-0" ∈ answer.hits.map (·.id) := by
    obtain ⟨hit, hhit, hid, -⟩ := @exists_hit_localCorpus
      ((fridayQuery true).toQuery recallCtx.roles) supersededRow 20 rfl (by decide) rfl rfl rfl
        (.inl rfl) trivial
    rw [hsearch]
    exact List.mem_map.2 ⟨hit, hhit, hid⟩
  rw [hids] at hmem
  obtain ⟨hit, hhit, hid⟩ := List.mem_map.1 hmem
  have hactive := active_of_mem rfl hhit
  rw [hid] at hactive
  exact hkept e he hactive

end Aeqi.Ideas
