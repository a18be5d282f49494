import Aeqi.Ideas.Table

/-!
# Searching ideas

The staged pipeline of `sqlite/search.rs`: every planned tag retrieves by full text and by vector,
the candidates are merged by id, filtered by their validity and chosen one after the other for
relevance and diversity.

The index of full text, the embedder, the nearest neighbours of `sqlite-vec`, and the scores that
come from counters and edges are parameters. A search takes one reading of the clock; what it
records about its hits is left out, and so are errors of the database.
-/

namespace Aeqi.Ideas

open Aeqi.Lib

abbrev Vector := List Float32

structure EmbeddingProfile where
  provider : String
  model : String
  dimensions : Nat

/-- A row of `idea_embeddings`. -/
structure EmbeddingRow where
  embedding : Vector
  dimensions : Nat
  contentHash : Option String
  provider : Option String
  model : Option String

/-- The tables that a search reads. -/
structure Corpus where
  table : IdeaTable
  embeddings : Accounts String EmbeddingRow

/-- What the pipeline reads of a policy. -/
structure TagPolicy where
  tag : String
  bm25Weight : Float32 := 1.0
  vectorWeight : Float32 := 1.0
  hotnessWeight : Float32 := 0.5
  graphWeight : Float32 := 0.5
  confidenceWeight : Float32 := 0.5
  decayHalfLifeDays : Float32 := 30.0
  includeSupersededDefault : Option Bool := none
  banAfterWrong : Option Int := none

def TagPolicy.defaultFor (tag : String) : TagPolicy := { tag }

/-- The lower case of `to_lowercase`; that of SQLite, for ASCII only, may go before it. -/
structure Lowercase where
  lower : String → String
  lower_lower : ∀ s, lower (lower s) = lower s
  lower_toLower : ∀ s : String, lower s.toLower = lower s

theorem toLower_toLower (s : String) : s.toLower.toLower = s.toLower := by
  have hchar (c : Char) : c.toLower.toLower = c.toLower := by
    unfold Char.toLower
    grind
  apply String.toList_injective
  have hlower (s : String) : s.toLower = s.map Char.toLower := rfl
  simp [hlower, hchar]

def asciiLowercase : Lowercase := ⟨String.toLower, toLower_toLower, toLower_toLower⟩

structure TagPolicyCache (lc : Lowercase) where
  policies : String → Option TagPolicy
  keyed : ∀ key p, policies key = some p → lc.lower p.tag = key

def TagPolicyCache.getOrDefault {lc : Lowercase} (cache : TagPolicyCache lc) (tag : String) :
    TagPolicy :=
  (cache.policies (lc.lower tag)).getD (.defaultFor tag)

def resolvePolicy {lc : Lowercase} (cache : Option (TagPolicyCache lc)) (tag : String) : TagPolicy :=
  match cache with
  | some c => c.getOrDefault tag
  | none => .defaultFor tag

structure IdeaQuery where
  text : String
  topK : Nat
  tags : List String := []
  agentId : Option String := none
  visibleAnchorIds : Option (List String) := none
  includeSuperseded : Bool := false
deriving DecidableEq

/-- What a search gets from outside. `fts` gives the ideas that match a text, with their ranks, in
the order of the ranks; `embed` may fail; `ann` gives so many nearest neighbours, if the extension
is there and answers; `hashOrder` is the order in which a hash map is walked. -/
structure SearchCtx where
  lc : Lowercase
  fts : Corpus → String → List (String × Float32)
  embed : String → Option Vector
  profile : Option EmbeddingProfile
  ann : Corpus → Vector → Nat → Option (List String)
  hotness : Corpus → String → Float32
  confidence : Corpus → String → Float32
  graphBoost : Corpus → String → List String → Float32
  hashOrder : List String → List String
  hashOrder_perm : ∀ l, (hashOrder l).Perm l
  mmrLambda : Float
  now : Nat

structure StagedHit where
  id : String
  bm25 : Float32
  vector : Float32
  hotness : Float32
  graph : Float32
  confidence : Float32
  decay : Float32
  finalScore : Float32
  pickedByTag : String

structure SearchHit where
  id : String
  idea : IdeaRow
  why : StagedHit

/-! ## Floats -/

def maxF32 (a b : Float32) : Float32 := if a.isNaN then b else if b.isNaN then a else
  if a < b then b else a

def minF32 (a b : Float32) : Float32 := if a.isNaN then b else if b.isNaN then a else
  if b < a then b else a

def clampF32 (lo hi x : Float32) : Float32 := if x < lo then lo else if hi < x then hi else x

def infinityF32 : Float32 := 1.0 / 0.0

def maxF64 (a b : Float) : Float := if a.isNaN then b else if b.isNaN then a else
  if a < b then b else a

def cosineSimilarity (a b : Vector) : Float32 :=
  if a.length ≠ b.length ∨ a = [] then 0.0
  else
    let dot := (a.zip b).foldl (fun acc (p : Float32 × Float32) => acc + p.1 * p.2) 0.0
    let norm (v : Vector) := v.foldl (fun acc x => acc + x * x) 0.0
    let denom := (norm a).sqrt * (norm b).sqrt
    if denom == 0.0 then 0.0 else dot / denom

/-- `sort_by` with the higher score first. -/
def sortByScore {α : Type} (score : α → Float32) (l : List α) : List α :=
  l.mergeSort fun a b => decide (¬ score a < score b)

/-- What `HashMap::from_iter` leaves of a list of pairs. -/
def collectLast (l : List (String × Float32)) (id : String) : Option Float32 :=
  (l.reverse.find? (·.1 = id)).map Prod.snd

/-! ## Planning -/

section Pipeline

variable (ctx : SearchCtx) (cache : Option (TagPolicyCache ctx.lc)) (c : Corpus) (query : IdeaQuery)
  (asOf : Option Nat)

def tagCount (tag : String) : Nat :=
  (c.table.rows.keys.filter fun id => (c.table.row id).any fun r => tag ∈ r.tags).length

def observedTags : List String :=
  let tags := (c.table.rows.keys.flatMap fun id =>
    ((c.table.row id).map (·.tags)).getD []).dedup
  ((ctx.hashOrder tags).mergeSort fun a b => tagCount c b ≤ tagCount c a).take 6

def planTags : List TagPolicy :=
  if query.tags ≠ [] then query.tags.map (resolvePolicy cache)
  else
    let observed := observedTags ctx c
    if observed = [] then [resolvePolicy cache "fact"] else observed.map (resolvePolicy cache)

/-! ## Retrieval -/

/-- `EXISTS(.. LOWER(it.tag) = ?)`. -/
def Carries (tag : String) (r : IdeaRow) : Prop := ∃ t ∈ r.tags, t.toLower = ctx.lc.lower tag

/-- The clause of visibility, without that of the ban. -/
def ScopeAdmits (r : IdeaRow) : Prop :=
  match query.visibleAnchorIds with
  | some anchors => r.scope = .global ∨ r.agentId = none ∨ ∃ a ∈ anchors, r.agentId = some a
  | none =>
    match query.agentId with
    | some agentId => r.agentId = some agentId
    | none => True

/-- `wrong_feedback_count < ?`, if there is a threshold. -/
def BanAdmits (banAfterWrong : Option Int) (r : IdeaRow) : Prop :=
  ∀ n ∈ banAfterWrong, r.wrongFeedbackCount < n

def StatusAdmits (includeSuperseded : Bool) (r : IdeaRow) : Prop :=
  includeSuperseded ∨ r.status = "active"

def NotExpired (r : IdeaRow) : Prop := ∀ e ∈ r.expiresAt, ctx.now < e

structure TagPass where
  tag : String
  includeSuperseded : Bool
  banAfterWrong : Option Int

def passOf (policy : TagPolicy) : TagPass where
  tag := policy.tag
  includeSuperseded := query.includeSuperseded || policy.includeSupersededDefault == some true
  banAfterWrong := if query.includeSuperseded then none else policy.banAfterWrong

variable (pass : TagPass)

def Bm25Admits (r : IdeaRow) : Prop :=
  Carries ctx pass.tag r ∧ NotExpired ctx r ∧ StatusAdmits pass.includeSuperseded r ∧
    ScopeAdmits query r ∧ BanAdmits pass.banAfterWrong r

def ProfileAdmits (profile : EmbeddingProfile) (e : EmbeddingRow) : Prop :=
  e.provider = some profile.provider ∧ e.model = some profile.model ∧
    e.dimensions = profile.dimensions

def VectorAdmits (profile : EmbeddingProfile) (r : IdeaRow) (e : EmbeddingRow) : Prop :=
  Carries ctx pass.tag r ∧ ProfileAdmits profile e ∧ StatusAdmits pass.includeSuperseded r ∧
    r.embeddingPending = false ∧ ScopeAdmits query r ∧ BanAdmits pass.banAfterWrong r

instance Carries.decidable (tag : String) (r : IdeaRow) : Decidable (Carries ctx tag r) :=
  inferInstanceAs (Decidable (∃ t ∈ r.tags, _))

instance ScopeAdmits.decidable (r : IdeaRow) : Decidable (ScopeAdmits query r) :=
  match query with
  | { visibleAnchorIds := some _, .. } => inferInstanceAs (Decidable (_ ∨ _))
  | { visibleAnchorIds := none, agentId := some _, .. } => inferInstanceAs (Decidable (_ = _))
  | { visibleAnchorIds := none, agentId := none, .. } => inferInstanceAs (Decidable True)

instance BanAdmits.decidable (ban : Option Int) (r : IdeaRow) : Decidable (BanAdmits ban r) :=
  inferInstanceAs (Decidable (∀ n ∈ ban, _))

instance StatusAdmits.decidable (includeSuperseded : Bool) (r : IdeaRow) :
    Decidable (StatusAdmits includeSuperseded r) :=
  inferInstanceAs (Decidable (_ ∨ _))

instance NotExpired.decidable (r : IdeaRow) : Decidable (NotExpired ctx r) :=
  inferInstanceAs (Decidable (∀ e ∈ r.expiresAt, _))

instance Bm25Admits.decidable (r : IdeaRow) : Decidable (Bm25Admits ctx query pass r) :=
  inferInstanceAs (Decidable (_ ∧ _))

instance ProfileAdmits.decidable (profile : EmbeddingProfile) (e : EmbeddingRow) :
    Decidable (ProfileAdmits profile e) :=
  inferInstanceAs (Decidable (_ ∧ _))

instance VectorAdmits.decidable (profile : EmbeddingProfile) (r : IdeaRow) (e : EmbeddingRow) :
    Decidable (VectorAdmits ctx query pass profile r e) :=
  inferInstanceAs (Decidable (_ ∧ _))

def bm25Row (id : String) : Bool := (c.table.row id).any fun r => Bm25Admits ctx query pass r

def bm25SearchFiltered (limit : Nat) : List (String × Float32) :=
  (((ctx.fts c query.text).filter fun hit => bm25Row ctx c query pass hit.1).take limit).map
    fun hit => (hit.1, -hit.2)

def vectorRow (profile : EmbeddingProfile) (id : String) : Option EmbeddingRow :=
  (c.embeddings.lookup id).filter fun e =>
    (c.table.row id).any fun r => VectorAdmits ctx query pass profile r e

def scored (queryVec : Vector) (profile : EmbeddingProfile) (ids : List String) (limit : Nat) :
    List (String × Float32) :=
  (sortByScore Prod.snd (ids.filterMap fun id => (vectorRow ctx c query pass profile id).map fun e =>
    (id, cosineSimilarity queryVec e.embedding))).take limit

/-- `iv.k = ?` with four times the limit. -/
def tryAnnSearch (queryVec : Vector) (profile : EmbeddingProfile) (limit : Nat) :
    Option (List (String × Float32)) :=
  (ctx.ann c queryVec (limit * 4)).map fun ids => scored ctx c query pass queryVec profile ids limit

def vectorSearchFiltered (queryVec : Vector) (profile : EmbeddingProfile) (limit : Nat) :
    List (String × Float32) :=
  match tryAnnSearch ctx c query pass queryVec profile limit with
  | some hits => hits
  | none => scored ctx c query pass queryVec profile c.embeddings.keys limit

def vectorList (limit : Nat) : List (String × Float32) :=
  match ctx.embed query.text, ctx.profile with
  | some queryVec, some profile => vectorSearchFiltered ctx c query pass queryVec profile limit
  | _, _ => []

/-! ## Scores -/

def bm25Norm (list : List (String × Float32)) (raw : Float32) : Float32 :=
  let bm25Max := (list.map Prod.snd).foldl maxF32 (-infinityF32)
  let bm25Min := (list.map Prod.snd).foldl minF32 infinityF32
  if ¬ bm25Max.isFinite ∨ bm25Max ≤ bm25Min then 0.0 else (raw - bm25Min) / (bm25Max - bm25Min)

variable (policy : TagPolicy)

def scoreComponents (bm25 vector hotness graph confidence decay : Float32) : Float32 :=
  let linear := policy.bm25Weight * bm25 + policy.vectorWeight * vector +
    policy.hotnessWeight * hotness + policy.graphWeight * graph +
    policy.confidenceWeight * confidence
  linear * clampF32 0.0 1.0 decay

def decayFactor (createdAt : Nat) : Float32 :=
  if policy.decayHalfLifeDays ≤ 0.0 then 1.0
  else if ctx.now ≤ createdAt then 1.0
  else
    let ageDays := Float32.ofNat (ctx.now - createdAt) / 86400.0
    let lambda := Float32.log 2.0 / policy.decayHalfLifeDays
    Float32.exp (-lambda * ageDays)

/-! ## The pipeline -/

def perTagWidth : Nat := max (max query.topK 1 * 3) 5

def passHit (bm25List vecList : List (String × Float32)) (id : String) : StagedHit :=
  let bm25 := ((collectLast bm25List id).filter (·.isFinite)).elim 0.0 (bm25Norm bm25List)
  let vector := clampF32 0.0 1.0 ((collectLast vecList id).getD 0.0)
  let createdAt := ((c.table.row id).map (·.createdAt)).getD ctx.now
  let hotness := ctx.hotness c id
  let confidence := ctx.confidence c id
  let decay := decayFactor ctx policy createdAt
  { id, bm25, vector, hotness, graph := 0.0, confidence, decay
    finalScore := scoreComponents policy bm25 vector hotness 0.0 confidence decay
    pickedByTag := policy.tag }

def passHits : List StagedHit :=
  let pass := passOf query policy
  let bm25List := bm25SearchFiltered ctx c query pass (perTagWidth query)
  let vecList := vectorList ctx c query pass (perTagWidth query)
  (ctx.hashOrder (bm25List.map Prod.fst ++ vecList.map Prod.fst).dedup).map
    (passHit ctx c policy bm25List vecList)

def mergeHit (byId : Accounts String StagedHit) (hit : StagedHit) : Accounts String StagedHit :=
  match byId.lookup hit.id with
  | none => byId.insert hit.id hit
  | some existing =>
    if existing.finalScore < hit.finalScore then byId.insert hit.id hit else byId

def byId : Accounts String StagedHit :=
  ((planTags ctx cache c query).flatMap (passHits ctx c query)).foldl mergeHit ∅

def withGraph (policies : List TagPolicy) (candidateIds : List String) (hit : StagedHit) :
    StagedHit :=
  let graph := clampF32 0.0 1.0 (ctx.graphBoost c hit.id candidateIds)
  { hit with
    graph
    finalScore := ((policies.find? (·.tag = hit.pickedByTag)).map fun policy =>
      scoreComponents policy hit.bm25 hit.vector hit.hotness graph hit.confidence hit.decay).getD
        hit.finalScore }

def IdeaRow.ValidAt (ts : Nat) (r : IdeaRow) : Prop :=
  r.timeContext = "timeless" ∨ (∀ vf ∈ r.validFrom, vf ≤ ts) ∧ ∀ vu ∈ r.validUntil, ts < vu

instance IdeaRow.ValidAt.decidable (ts : Nat) (r : IdeaRow) : Decidable (r.ValidAt ts) :=
  inferInstanceAs (Decidable (_ ∨ _))

def candidates : List StagedHit :=
  let merged := byId ctx cache c query
  let policies := planTags ctx cache c query
  let ts := asOf.getD ctx.now
  let hits := (ctx.hashOrder merged.keys).filterMap fun id =>
    (merged.lookup id).map (withGraph ctx c policies merged.keys)
  sortByScore (·.finalScore) (hits.filter fun h => ∀ r ∈ c.table.row h.id, r.ValidAt ts)

/-! ## Diversity -/

def tagSetJaccard (a b : List String) : Float32 :=
  let shared := (a.filter (· ∈ b)).length
  let union := (a ++ b).dedup.length
  if union = 0 then 0.0 else Float32.ofNat shared / Float32.ofNat union

def loadedEmbedding (id : String) : Option Vector :=
  ctx.profile.bind fun profile =>
    ((c.embeddings.lookup id).filter fun e => ProfileAdmits profile e).map (·.embedding)

def similarity (a b : String) : Float :=
  if a = b then 1.0
  else
    match loadedEmbedding ctx c a, loadedEmbedding ctx c b with
    | some va, some vb => (cosineSimilarity va vb).toFloat
    | _, _ =>
      (tagSetJaccard (((c.table.row a).map (·.tags)).getD [])
        (((c.table.row b).map (·.tags)).getD [])).toFloat

section Mmr

variable (lambda : Float) (similarityFn : String → String → Float)

def mmrScore (selected : List StagedHit) (candidate : StagedHit) : Float :=
  let maxSim := (selected.map fun s => similarityFn candidate.id s.id).foldl maxF64 0.0
  lambda * candidate.finalScore.toFloat - (1.0 - lambda) * maxSim

/-- The scan for the best of what remains: its index so far, its score, and the next index. -/
def mmrBest (selected : List StagedHit) : List StagedHit → Nat → Float → Nat → Nat
  | [], bestIdx, _, _ => bestIdx
  | candidate :: remaining, bestIdx, bestMmr, i =>
    let mmr := mmrScore lambda similarityFn selected candidate
    if bestMmr < mmr then mmrBest selected remaining i mmr (i + 1)
    else mmrBest selected remaining bestIdx bestMmr (i + 1)

def mmrSelect : Nat → List StagedHit → List StagedHit → List StagedHit
  | 0, selected, _ => selected
  | k + 1, selected, remaining =>
    let bestIdx := mmrBest lambda similarityFn selected remaining 0 (-1.0 / 0.0) 0
    match remaining[bestIdx]? with
    | none => selected
    | some chosen => mmrSelect k (selected ++ [chosen]) (remaining.eraseIdx bestIdx)

def mmrRerank (hits : List StagedHit) (topK : Nat) : List StagedHit :=
  mmrSelect lambda similarityFn topK [] hits

end Mmr

def runStagedPipeline : List StagedHit :=
  mmrRerank ctx.mmrLambda (similarity ctx c) (candidates ctx cache c query asOf) (max query.topK 1)

def searchExplained : List SearchHit :=
  (runStagedPipeline ctx cache c query asOf).filterMap fun hit =>
    (c.table.row hit.id).map fun idea => ⟨hit.id, idea, hit⟩

end Pipeline

end Aeqi.Ideas
