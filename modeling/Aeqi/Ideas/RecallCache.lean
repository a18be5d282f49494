import Aeqi.Ideas.Search
import Aeqi.Ideas.Storing
import Aeqi.Lib.Guarantee

/-!
# The recall cache

`recall_cache.rs`, and the handlers of `ipc/ideas.rs` that read it, fill it and wipe it, as programs
over the tables of the ideas and the cache. A search looks its key up, runs on a miss, and puts what
it has found; a store and a link do not touch the cache, and an update, a deletion and a feedback
invalidate it at their end.

Deletions, links and feedback, and what goes on in the background (embeddings, records of access),
may change the tables in any way or fail. The role graph stays as it is, and a lookup of the visible anchors
may fail. Requests, ended calls and the moments of searches are counted and noted for the statements
alone; the code reads none of it.
-/

namespace Aeqi.Ideas

open Aeqi.Lib Aeqi.Orchestrator

structure CacheKey where
  textHash : UInt64
  tagsHash : UInt64
  topK : Nat
  agentIdHash : UInt64
  anchorsHash : UInt64
deriving DecidableEq

/-- The hasher, and everything else that comes from outside; times to live are in seconds. -/
structure RecallCtx where
  storing : StoringCtx
  search : SearchCtx
  roles : RoleStore
  hashOne : String → UInt64
  hashMany : List String → UInt64
  ttl : Nat

def CacheKey.build (ctx : RecallCtx) (text : String) (tags : List String) (topK : Nat)
    (agentId : Option String) (anchors : Option (List String)) : CacheKey where
  textHash := ctx.hashOne text
  tagsHash := ctx.hashMany tags
  topK
  agentIdHash := (agentId.map ctx.hashOne).getD 0
  anchorsHash := (anchors.map ctx.hashMany).getD 0

/-! ## State -/

/-- A moment of a run: the tables, the clock, and how many calls have ended that invalidate the cache
and that do not. -/
structure Moment where
  corpus : Corpus
  now : Nat
  cleared : Nat
  stored : Nat

/-- No call that had ended then has not ended now. -/
def Moment.Since (m began : Moment) : Prop := began.cleared ≤ m.cleared ∧ began.stored ≤ m.stored

/-- Beside the hits and the time of insertion an entry names its query, the moment of its search,
and how many invalidations had ended when it was put. -/
structure Entry where
  insertedAt : Nat
  hits : List SearchHit
  query : IdeaQuery
  ran : Moment
  filed : Nat

/-- `past` are the moments at which a search has run. -/
structure RecallWorld extends Moment where
  cache : Lru CacheKey Entry
  generation : Nat
  past : List Moment

def searchAt (ctx : RecallCtx) (m : Moment) (query : IdeaQuery) : List SearchHit :=
  searchExplained { ctx.search with now := m.now } none m.corpus query none

/-! ## Accesses -/

inductive RecallAccess
  | request
  | cacheGet (key : CacheKey) (query : IdeaQuery) (began : Moment)
  | search (query : IdeaQuery)
  | cachePut (key : CacheKey) (query : IdeaQuery) (hits : List SearchHit) (ran : Moment)
  | table (a : TableAccess)
  | change (f : Corpus → Option Corpus)
  | bumpGeneration
  | clear
  | ended
  | tick (n : Nat)

namespace RecallAccess

def Reply : RecallAccess → Type
  | request => Moment
  | cacheGet .. => Option Entry
  | search _ => List SearchHit × Moment
  | table a => a.Reply
  | change _ => Bool
  | _ => Unit

/-- `RecallCache::get`: an entry that is too old is evicted. -/
def get (ttl now : Nat) (cache : Lru CacheKey Entry) (key : CacheKey) :
    Option Entry × Lru CacheKey Entry :=
  match cache.get key with
  | (some entry, cache') =>
    if now - entry.insertedAt < ttl then (some entry, cache') else (none, cache'.remove key)
  | (none, cache') => (none, cache')

def puts : RecallAccess → Bool
  | cachePut .. => true
  | _ => false

variable (ctx : RecallCtx)

def run : (a : RecallAccess) → RecallWorld → a.Reply × RecallWorld
  | request, w => (w.toMoment, w)
  | cacheGet key _ _, w =>
    ((get ctx.ttl w.now w.cache key).1,
      { w with cache := (get ctx.ttl w.now w.cache key).2 })
  | search query, w =>
    ((searchAt ctx w.toMoment query, w.toMoment), { w with past := w.toMoment :: w.past })
  | cachePut key query hits ran, w =>
    ((), { w with cache := w.cache.insert key ⟨w.now, hits, query, ran, w.cleared⟩ })
  | table a, w =>
    ((a.run ctx.storing w.corpus.table).1,
      { w with corpus := { w.corpus with table := (a.run ctx.storing w.corpus.table).2 } })
  | change f, w => ((f w.corpus).isSome, { w with corpus := (f w.corpus).getD w.corpus })
  | bumpGeneration, w => ((), { w with generation := w.generation + 1 })
  | clear, w => ((), { w with cache := w.cache.clear, cleared := w.cleared + 1 })
  | ended, w => ((), { w with stored := w.stored + 1 })
  | tick n, w => ((), { w with now := w.now + n })

/-! ### What lies in the cache after an access -/

variable {ctx} {w : RecallWorld} {a : RecallAccess} {key : CacheKey} {entry : Entry}

theorem lookup_get {ttl now : Nat} {cache : Lru CacheKey Entry} :
    ((get ttl now cache key).1 = some entry → cache.map.lookup key = some entry) ∧
      ∀ key', (get ttl now cache key).2.map.lookup key' = some entry →
        cache.map.lookup key' = some entry := by
  unfold get
  have hfst := @Lru.get_fst _ _ _ cache key
  have hmap := @Lru.map_get _ _ _ cache key
  split
  next found cache' hget =>
    rw [hget] at hfst hmap
    split
    · exact ⟨fun h => hfst ▸ h, fun key' h => by rwa [← hmap]⟩
    · refine ⟨fun h => (by cases h), fun key' h => ?_⟩
      rw [← hmap]
      exact Lru.lookup_remove h
  next cache' hget =>
    rw [hget] at hmap
    exact ⟨fun h => (by cases h), fun key' h => by rwa [← hmap]⟩

theorem lookup_run (h : (a.run ctx w).2.cache.map.lookup key = some entry) :
    w.cache.map.lookup key = some entry ∧ (a.run ctx w).2.cleared = w.cleared ∨
      ∃ key' query hits ran, a = .cachePut key' query hits ran ∧
        entry = ⟨w.now, hits, query, ran, w.cleared⟩ := by
  cases a with
  | cacheGet key' query began => exact .inl ⟨lookup_get.2 key h, rfl⟩
  | cachePut key' query hits ran =>
    rcases Lru.lookup_insert h with ⟨-, rfl⟩ | hold
    · exact .inr ⟨key', query, hits, ran, rfl, rfl⟩
    · exact .inl ⟨hold, rfl⟩
  | clear => cases h
  | _ => exact .inl ⟨h, rfl⟩

end RecallAccess

abbrev RecallProg (α : Type) := Prog RecallAccess RecallAccess.Reply α

def consult (a : RecallAccess) : RecallProg a.Reply := Prog.perform a

/-! ## Handlers -/

/-- The request; whether the lookup of the anchors fails is not its own. -/
structure SearchIdeas where
  query : Option String := none
  topK : Option Nat := none
  agentId : Option String := none
  tags : List String := []
  includeSuperseded : Bool := false
  lookupFails : Bool := false

def visibleAnchors (roles : RoleStore) (lookupFails : Bool) (agentId : String) :
    Option (List String) :=
  if lookupFails then none else (roles.visibilitySqlClause agentId).map (·.bindParams)

def SearchIdeas.toQuery (roles : RoleStore) (req : SearchIdeas) : IdeaQuery where
  text := (requestField req.query).getD ""
  topK := req.topK.getD 20
  tags := req.tags
  agentId := requestField req.agentId
  visibleAnchorIds := (requestField req.agentId).bind (visibleAnchors roles req.lookupFails)
  includeSuperseded := req.includeSuperseded

/-- The ideas of the response, whether they come from the cache, and when the request came. -/
structure Recalled where
  hits : List SearchHit
  cached : Bool
  began : Moment

def handleSearchIdeas (ctx : RecallCtx) (req : SearchIdeas) : RecallProg Recalled := do
  let began ← consult .request
  let query := req.toQuery ctx.roles
  let key := CacheKey.build ctx query.text query.tags query.topK query.agentId query.visibleAnchorIds
  let found ← consult (.cacheGet key query began)
  match (found : Option Entry) with
  | some entry => pure ⟨entry.hits, true, began⟩
  | none =>
    let ran ← consult (.search query)
    let _ ← consult (.cachePut key query (ran : List SearchHit × Moment).1
      (ran : List SearchHit × Moment).2)
    pure ⟨(ran : List SearchHit × Moment).1, false, began⟩

/-- The generation is bumped before the entries are wiped. -/
def invalidate : RecallProg Unit := do
  let _ ← consult .bumpGeneration
  let _ ← consult .clear
  pure ()

def ofTable {α : Type} (p : IdeaProg α) : RecallProg α := Prog.lift RecallAccess.table p

inductive RecallCall
  | searchIdeas (req : SearchIdeas)
  | storeIdea (effective : EffectivePolicy) (clock : Reading) (req : StoreIdea)
  | linkIdea (link : Corpus → Option Corpus)
  | updateIdea (req : UpdateIdea)
  | deleteIdea (delete : Corpus → Option Corpus)
  | feedbackIdea (record : Corpus → Option Corpus)
  | background (f : Corpus → Option Corpus)
  | time (n : Nat)

namespace RecallCall

/-- A write that invalidates the cache at its end, unless it fails. -/
def invalidating (f : Corpus → Option Corpus) : RecallProg (Option Recalled) := do
  let changed ← consult (.change f)
  match (changed : Bool) with
  | true =>
    invalidate
    pure none
  | false => pure none

def program (ctx : RecallCtx) : RecallCall → RecallProg (Option Recalled)
  | searchIdeas req => do
    let answer ← handleSearchIdeas ctx req
    pure (some answer)
  | storeIdea effective clock req => do
    let _ ← ofTable (handleStoreIdea ctx.storing effective clock req)
    let _ ← consult .ended
    pure none
  | linkIdea link => do
    let _ ← consult (.change link)
    let _ ← consult .ended
    pure none
  | updateIdea req => do
    match ← ofTable (Ideas.updateIdea req) with
    | .error _ => pure none
    | .ok () =>
      invalidate
      pure none
  | deleteIdea delete => invalidating delete
  | feedbackIdea record => invalidating record
  | background f => do
    let _ ← consult (.change f)
    pure none
  | time n => do
    let _ ← consult (.tick n)
    pure none

/-! ### What they owe -/

section Minds

variable {ctx : RecallCtx} {e : Guarantee RecallAccess RecallAccess.Reply RecallWorld}
  {w : RecallWorld} {α β : Type}

theorem minds_step {a : RecallAccess} {f : a.Reply → RecallProg β} {Q : β → RecallWorld → Prop}
    (ha : ∀ w, e.proper a w) (hf : ∀ r w', (f r).Minds e w' Q) : (consult a >>= f).Minds e w Q :=
  fun w' _ _ _ => ⟨ha w', hf _ _⟩

variable {Q : Option Recalled → RecallWorld → Prop}

theorem minds_none (hQ : ∀ w', Q none w') :
    (pure none : RecallProg (Option Recalled)).Minds e w Q := fun w' _ _ => hQ w'

variable (hproper : ∀ a w, a.puts = false → e.proper a w)
include hproper

theorem minds_ofTable {p : IdeaProg α} : (ofTable p).Minds e w fun _ _ => True := by
  induction p generalizing w with
  | done x => exact fun _ _ _ => trivial
  | act a k ih =>
    exact fun w' _ _ _ => ⟨hproper _ w' rfl, ih _⟩

theorem minds_invalidate (hQ : ∀ w', Q none w') :
    (do invalidate; pure none : RecallProg (Option Recalled)).Minds e w Q := by
  refine minds_step (fun w' => hproper _ w' rfl) fun _ _ => ?_
  refine minds_step (fun w' => hproper _ w' rfl) fun _ _ => ?_
  exact minds_none hQ

theorem minds_invalidating {f : Corpus → Option Corpus} (hQ : ∀ w', Q none w') :
    (invalidating f).Minds e w Q := by
  refine minds_step (fun w' => hproper _ w' rfl) fun changed _ => ?_
  cases changed with
  | true => exact minds_invalidate hproper hQ
  | false => exact minds_none hQ

theorem minds_handleSearchIdeas {req : SearchIdeas} {query : IdeaQuery}
    {Q : Recalled → RecallWorld → Prop} (hrun : e.run = RecallAccess.run ctx)
    (hquery : req.toQuery ctx.roles = query)
    (hserved : ∀ w₁ w₂ w₃ key entry, e.may w₁ w₂ → e.inv w₂ →
      e.good (.cacheGet key query w₁.toMoment) w₂ →
      (RecallAccess.get ctx.ttl w₂.now w₂.cache key).1 = some entry →
      e.may ((RecallAccess.cacheGet key query w₁.toMoment).run ctx w₂).2 w₃ →
      Q ⟨entry.hits, true, w₁.toMoment⟩ w₃)
    (hput : ∀ w₁ w₂ key, e.good (.search query) w₁ →
      e.may ((RecallAccess.search query).run ctx w₁).2 w₂ →
      e.proper (.cachePut key query (searchAt ctx w₁.toMoment query) w₁.toMoment) w₂)
    (hfresh : ∀ began w₁ w₂, e.good (.search query) w₁ →
      Q ⟨searchAt ctx w₁.toMoment query, false, began⟩ w₂) :
    (handleSearchIdeas ctx req).Minds e w Q := by
  obtain ⟨run, good, proper, inv, may, refl, trans, keeps, moves⟩ := e
  subst hrun
  subst hquery
  intro w₁ _ _ _
  refine ⟨hproper _ w₁ rfl, ?_⟩
  change Prog.Minds _ (consult (.cacheGet _ (req.toQuery ctx.roles) w₁.toMoment) >>= _) _ _
  intro w₂ hmay hinv hgood
  refine ⟨hproper _ w₂ rfl, ?_⟩
  have hsome := fun entry h w₃ => hserved w₁ w₂ w₃ _ entry hmay hinv hgood h
  generalize hget : ((RecallAccess.cacheGet _ (req.toQuery ctx.roles) w₁.toMoment).run ctx w₂).1 =
    found
  cases found with
  | some entry => exact fun w₃ hmay₃ _ => hsome entry hget w₃ hmay₃
  | none =>
    intro w₃ _ _ hsearch
    refine ⟨hproper _ w₃ rfl, ?_⟩
    intro w₄ hmay₄ _ _
    refine ⟨hput w₃ w₄ _ hsearch hmay₄, ?_⟩
    exact fun w₅ _ _ => hfresh _ w₃ w₅ hsearch

theorem minds_of_search {Q : SearchIdeas → Recalled → RecallWorld → Prop} (call : RecallCall)
    (hlater : ∀ req answer w₁ w₂, e.may w₁ w₂ → Q req answer w₁ → Q req answer w₂)
    (hsearch : ∀ req, call = .searchIdeas req → (handleSearchIdeas ctx req).Minds e w (Q req)) :
    (call.program ctx).Minds e w fun result w' =>
      ∀ req answer, call = .searchIdeas req → result = some answer → Q req answer w' := by
  have hnone {call : RecallCall} (w' : RecallWorld) : ∀ req answer, call = .searchIdeas req →
      (none : Option Recalled) = some answer → Q req answer w' :=
    fun _ _ _ h => by cases h
  cases call with
  | searchIdeas req =>
    refine Prog.minds_bind.2 ((hsearch req rfl).mono ?_)
    intro answer w₁ hanswer _ w₂ hmay _ req' answer' hreq hsome
    cases hreq
    cases hsome
    exact hlater req answer w₁ w₂ hmay hanswer
  | storeIdea effective clock req =>
    refine Prog.minds_bind.2 ((minds_ofTable hproper).mono fun _ _ _ _ => ?_)
    refine minds_step (fun w' => hproper _ w' rfl) fun _ _ => ?_
    exact minds_none hnone
  | linkIdea link =>
    refine minds_step (fun w' => hproper _ w' rfl) fun _ _ => ?_
    refine minds_step (fun w' => hproper _ w' rfl) fun _ _ => ?_
    exact minds_none hnone
  | updateIdea req =>
    refine Prog.minds_bind.2 ((minds_ofTable hproper).mono fun updated _ _ _ => ?_)
    cases updated with
    | error e => exact minds_none hnone
    | ok done => exact minds_invalidate hproper hnone
  | deleteIdea delete | feedbackIdea record => exact minds_invalidating hproper hnone
  | background f | time n =>
    refine minds_step (fun w' => hproper _ w' rfl) fun _ _ => ?_
    exact minds_none hnone

end Minds

end RecallCall

/-- Calls side by side. -/
abbrev RecallPool (ι : Type) := Pool RecallWorld ι (RecallProg (Option Recalled))

def RecallPool.start {ι : Type} (ctx : RecallCtx) (calls : ι → RecallCall) (corpus : Corpus)
    (now capacity : Nat) : RecallPool ι where
  state := { corpus, now, cleared := 0, stored := 0, cache := .empty capacity, generation := 0
             past := [] }
  threads i := (calls i).program ctx

end Aeqi.Ideas
