import Aeqi.Ideas.Hits

/-!
# What both ways of retrieval exclude

Rows that have expired, are superseded, have drawn too many wrongs or are not valid are to be kept
out of every search, by full text and by vector alike, and a row with several tags by the smallest
of their thresholds. The vector searches do not ask whether a row has expired, and a pass knows the
threshold of its own tag only; `excludes_iff` says for which ideas and policies that makes no
difference.
-/

namespace Aeqi.Ideas

open Aeqi.Lib List Option

/-! ## Policies of tags -/

section Policies

variable {lc : Lowercase} {cache : Option (TagPolicyCache lc)} {t x : String}

theorem lower_tag_resolvePolicy : lc.lower (resolvePolicy cache t).tag = lc.lower t := by
  cases cache with
  | none => rfl
  | some cache =>
    change lc.lower (cache.getOrDefault t).tag = lc.lower t
    unfold TagPolicyCache.getOrDefault
    cases hp : cache.policies (lc.lower t) with
    | none => rfl
    | some p => exact cache.keyed _ p hp

theorem resolvePolicy_congr (h : lc.lower t = lc.lower x) :
    (resolvePolicy cache t).banAfterWrong = (resolvePolicy cache x).banAfterWrong ∧
      (resolvePolicy cache t).includeSupersededDefault =
        (resolvePolicy cache x).includeSupersededDefault := by
  cases cache with
  | none => exact ⟨rfl, rfl⟩
  | some cache =>
    simp only [resolvePolicy, TagPolicyCache.getOrDefault, h]
    cases cache.policies (lc.lower x) <;> exact ⟨rfl, rfl⟩

end Policies

/-! ## Exclusions -/

section Exclusions

variable (ctx : SearchCtx) (cache : Option (TagPolicyCache ctx.lc)) (c : Corpus)

def smallestBan (r : IdeaRow) : Option Int :=
  (r.tags.filterMap fun t => (resolvePolicy cache t).banAfterWrong).min?

/-- What is to be kept out of a search at a moment. -/
def Barred (ts : Nat) (r : IdeaRow) : Prop :=
  ¬ NotExpired ctx r ∨
    (r.status ≠ "active" ∧
      ¬ ∃ t ∈ r.tags, (resolvePolicy cache t).includeSupersededDefault = some true) ∨
    (∃ n ∈ smallestBan ctx cache r, n ≤ r.wrongFeedbackCount) ∨ ¬ r.ValidAt ts

def Bm25Grounds (pass : TagPass) (r : IdeaRow) : Prop :=
  NotExpired ctx r ∧ StatusAdmits pass.includeSuperseded r ∧ BanAdmits pass.banAfterWrong r

def VectorGrounds (pass : TagPass) (r : IdeaRow) : Prop :=
  StatusAdmits pass.includeSuperseded r ∧ BanAdmits pass.banAfterWrong r

/-- No hit is barred, and what one way retrieves the other does not exclude. -/
def Excludes (query : IdeaQuery) (asOf : Option Nat) : Prop :=
  (∀ h ∈ searchExplained ctx cache c query asOf, ¬ Barred ctx cache (asOf.getD ctx.now) h.idea) ∧
    ∀ policy ∈ planTags ctx cache c query, ∀ id r, c.table.row id = some r →
      (id ∈ (bm25SearchFiltered ctx c query (passOf query policy) (perTagWidth query)).map Prod.fst →
        VectorGrounds (passOf query policy) r) ∧
      (id ∈ (vectorList ctx c query (passOf query policy) (perTagWidth query)).map Prod.fst →
        Bm25Grounds ctx (passOf query policy) r)

/-- Some text is embedded, and the row has an embedding that is not being renewed. -/
def VectorReady (id : String) (r : IdeaRow) : Prop :=
  r.embeddingPending = false ∧ (∃ text v, ctx.embed text = some v) ∧
    ∃ profile e, ctx.profile = some profile ∧ c.embeddings.lookup id = some e ∧
      ProfileAdmits profile e

def TextReady (id : String) : Prop := ∃ text, id ∈ (ctx.fts c text).map Prod.fst

/-- A tag of the row opens a pass to it: SQLite finds it in lower case, and the policy lets the
row's status and wrongs through. -/
def OpenedBy (r : IdeaRow) (t : String) : Prop :=
  t ∈ r.tags ∧ t.toLower = ctx.lc.lower t ∧
    ((resolvePolicy cache t).includeSupersededDefault = some true ∨ r.status = "active") ∧
    BanAdmits (resolvePolicy cache t).banAfterWrong r

/-- A row that a tag opens has not expired if it can be found by vector, and if it can be found at
all and is ever valid it is below the thresholds of all its tags. -/
def Consistent : Prop :=
  ∀ id r, c.table.row id = some r → ∀ t, OpenedBy ctx cache r t →
    (VectorReady ctx c id r → NotExpired ctx r) ∧
    (VectorReady ctx c id r ∨ TextReady ctx c id → (∃ ts, r.ValidAt ts) → NotExpired ctx r →
      ∀ t' ∈ r.tags, BanAdmits (resolvePolicy cache t').banAfterWrong r)

end Exclusions

section Iff

variable {ctx : SearchCtx} {cache : Option (TagPolicyCache ctx.lc)} {c : Corpus}
  {query : IdeaQuery} {asOf : Option Nat} {policy : TagPolicy} {id t : String} {r : IdeaRow}

theorem exists_smallestBan_iff : (∃ n ∈ smallestBan ctx cache r, n ≤ r.wrongFeedbackCount) ↔
    ∃ t ∈ r.tags, ¬ BanAdmits (resolvePolicy cache t).banAfterWrong r := by
  have hban (t : String) : ¬ BanAdmits (resolvePolicy cache t).banAfterWrong r ↔
      ∃ n, (resolvePolicy cache t).banAfterWrong = some n ∧ n ≤ r.wrongFeedbackCount := by
    simp [BanAdmits]
  simp only [hban, smallestBan]
  constructor
  · rintro ⟨n, hmin, hn⟩
    obtain ⟨t, ht, hpolicy⟩ := mem_filterMap.1 (min?_mem hmin)
    exact ⟨t, ht, n, hpolicy, hn⟩
  · rintro ⟨t, ht, n, hpolicy, hn⟩
    have hmem : n ∈ r.tags.filterMap fun t => (resolvePolicy cache t).banAfterWrong :=
      mem_filterMap.2 ⟨t, ht, hpolicy⟩
    cases hmin : (r.tags.filterMap fun t => (resolvePolicy cache t).banAfterWrong).min? with
    | none =>
      rw [min?_eq_none_iff] at hmin
      rw [hmin] at hmem
      exact nomatch hmem
    | some m => exact ⟨m, rfl, ((min?_eq_some_iff.1 hmin).2 n hmem).trans hn⟩

theorem exists_of_mem_planTags (h : policy ∈ planTags ctx cache c query) :
    ∃ x, policy = resolvePolicy cache x := by
  have hmap (l : List String) (hl : policy ∈ l.map (resolvePolicy cache)) :
      ∃ x, policy = resolvePolicy cache x := by
    obtain ⟨x, -, hx⟩ := List.mem_map.1 hl
    exact ⟨x, hx.symm⟩
  unfold planTags at h
  split at h
  · exact hmap _ h
  · simp only at h
    split at h
    · exact ⟨"fact", mem_singleton.1 h⟩
    · exact hmap _ h

theorem exists_of_carries {x : String} (h : Carries ctx (resolvePolicy cache x).tag r) :
    ∃ t ∈ r.tags, t.toLower = ctx.lc.lower t ∧ ctx.lc.lower t = ctx.lc.lower x := by
  obtain ⟨t, ht, hlower⟩ := h
  rw [lower_tag_resolvePolicy] at hlower
  have hx : ctx.lc.lower t = ctx.lc.lower x := by
    rw [← ctx.lc.lower_toLower, hlower, ctx.lc.lower_lower]
  exact ⟨t, ht, hlower.trans hx.symm, hx⟩

theorem opened_of_grounds {x : String} (hinc : query.includeSuperseded = false)
    (hcarries : Carries ctx (resolvePolicy cache x).tag r)
    (hgrounds : VectorGrounds (passOf query (resolvePolicy cache x)) r) :
    ∃ t, OpenedBy ctx cache r t ∧ (r.status ≠ "active" →
      (resolvePolicy cache t).includeSupersededDefault = some true) := by
  obtain ⟨t, ht, hlower, hx⟩ := exists_of_carries hcarries
  obtain ⟨hban, hdefault⟩ := @resolvePolicy_congr ctx.lc cache t x hx
  obtain ⟨hstatus, hadmits⟩ := hgrounds
  simp only [passOf, hinc, StatusAdmits, Bool.false_or, beq_iff_eq] at hstatus hadmits
  rw [← hdefault] at hstatus
  rw [← hban] at hadmits
  exact ⟨t, ⟨ht, hlower, hstatus, hadmits⟩, fun hne => hstatus.resolve_right hne⟩

theorem grounds_of_opened (h : OpenedBy ctx cache r t) (hinc : query.includeSuperseded = false) :
    Carries ctx (resolvePolicy cache t).tag r ∧
      VectorGrounds (passOf query (resolvePolicy cache t)) r := by
  obtain ⟨ht, hlower, hstatus, hadmits⟩ := h
  refine ⟨⟨t, ht, hlower.trans lower_tag_resolvePolicy.symm⟩, ?_⟩
  simp only [VectorGrounds, passOf, hinc, StatusAdmits, Bool.false_or, beq_iff_eq]
  exact ⟨hstatus, hadmits⟩

theorem excludes_of_consistent (h : Consistent ctx cache c)
    (hinc : query.includeSuperseded = false) : Excludes ctx cache c query asOf := by
  -- What is retrieved by vector has not expired.
  have hvector (policy) (hpolicy : policy ∈ planTags ctx cache c query) (id r)
      (hr : c.table.row id = some r) (hmem : id ∈ (vectorList ctx c query
        (passOf query policy) (perTagWidth query)).map Prod.fst) :
      VectorReady ctx c id r ∧ NotExpired ctx r ∧ Carries ctx policy.tag r ∧
        VectorGrounds (passOf query policy) r := by
    obtain ⟨v, profile, e, hv, hprofile, he⟩ := mem_vectorList_of_mem hmem
    obtain ⟨hlookup, r', hr', hcarries, hrow, hstatus, hpending, -, hban⟩ :=
      vectorRow_eq_some.1 he
    obtain rfl := some.inj (hr.symm.trans hr')
    obtain ⟨x, rfl⟩ := exists_of_mem_planTags hpolicy
    obtain ⟨t, hopened, -⟩ := opened_of_grounds hinc hcarries ⟨hstatus, hban⟩
    have hready : VectorReady ctx c id r :=
      ⟨hpending, ⟨query.text, v, hv⟩, profile, e, hprofile, hlookup, hrow⟩
    exact ⟨hready, (h id r hr t hopened).1 hready, hcarries, hstatus, hban⟩
  have hbm25 (policy) (id r) (hr : c.table.row id = some r) (hmem : id ∈ (bm25SearchFiltered ctx c
      query (passOf query policy) (perTagWidth query)).map Prod.fst) :
      NotExpired ctx r ∧ Carries ctx policy.tag r ∧ VectorGrounds (passOf query policy) r := by
    obtain ⟨r', hr', hcarries, hexpired, hstatus, -, hban⟩ := mem_bm25_of_mem hmem
    obtain rfl := some.inj (hr.symm.trans hr')
    exact ⟨hexpired, hcarries, hstatus, hban⟩
  refine ⟨fun hit hhit => ?_, fun policy hpolicy id r hr => ⟨fun hmem => ?_, fun hmem => ?_⟩⟩
  · obtain ⟨hr, hvalid, policy, hpolicy, hretrieves⟩ := retrieves_of_mem hhit
    have hfound : (VectorReady ctx c hit.id hit.idea ∨ TextReady ctx c hit.id) ∧
        NotExpired ctx hit.idea ∧ Carries ctx policy.tag hit.idea ∧
          VectorGrounds (passOf query policy) hit.idea := by
      rcases hretrieves with hmem | hmem
      · exact ⟨.inr ⟨query.text, mem_matches_of_mem_bm25 hmem⟩, hbm25 policy hit.id hit.idea hr hmem⟩
      · obtain ⟨hready, hrest⟩ := hvector policy hpolicy hit.id hit.idea hr hmem
        exact ⟨.inl hready, hrest⟩
    obtain ⟨hready, hexpired, hcarries, hgrounds⟩ := hfound
    obtain ⟨x, rfl⟩ := exists_of_mem_planTags hpolicy
    obtain ⟨t, hopened, hdefault⟩ := opened_of_grounds hinc hcarries hgrounds
    have hbans := (h hit.id hit.idea hr t hopened).2 hready ⟨_, hvalid⟩ hexpired
    rintro (hbarred | ⟨hstatus, hnone⟩ | hban | hbarred)
    · exact hbarred hexpired
    · exact hnone ⟨t, hopened.1, hdefault hstatus⟩
    · obtain ⟨t', ht', hnot⟩ := exists_smallestBan_iff.1 hban
      exact hnot (hbans t' ht')
    · exact hbarred hvalid
  · exact (hbm25 policy id r hr hmem).2.2
  · obtain ⟨-, hexpired, -, hgrounds⟩ := hvector policy hpolicy id r hr hmem
    exact ⟨hexpired, hgrounds⟩

def wideQuery (ctx : SearchCtx) (c : Corpus) (text tag : String) : IdeaQuery where
  text
  topK := (ctx.fts c text).length + c.embeddings.keys.length
  tags := [tag]

theorem mem_planTags_wideQuery {text : String} :
    resolvePolicy cache t ∈ planTags ctx cache c (wideQuery ctx c text t) := by
  simp [planTags, wideQuery]

theorem le_perTagWidth : query.topK ≤ perTagWidth query := by
  unfold perTagWidth
  omega

theorem wide_wideQuery {text : String} : Wide ctx c (wideQuery ctx c text t) := le_rfl

theorem mem_vectorList_of_ready (hann : ∀ v k, ctx.ann c v k = none)
    (hr : c.table.row id = some r) (hopened : OpenedBy ctx cache r t)
    (hready : VectorReady ctx c id r) : ∃ text, id ∈ (vectorList ctx c (wideQuery ctx c text t)
      (passOf (wideQuery ctx c text t) (resolvePolicy cache t))
        (perTagWidth (wideQuery ctx c text t))).map Prod.fst := by
  obtain ⟨hpending, ⟨text, v, hv⟩, profile, e, hprofile, hlookup, hrow⟩ := hready
  obtain ⟨hcarries, hstatus, hban⟩ := @grounds_of_opened ctx cache (wideQuery ctx c text t) t r hopened rfl
  refine ⟨text, mem_vectorList_of_row hv hprofile (hann v) (e := e) ?_ ?_⟩
  · exact vectorRow_eq_some.2 ⟨hlookup, r, hr, hcarries, hrow, hstatus, hpending, trivial, hban⟩
  · have hall : c.embeddings.keys.length ≤ (wideQuery ctx c text t).topK := Nat.le_add_left _ _
    exact hall.trans le_perTagWidth

theorem mem_bm25_of_ready (hr : c.table.row id = some r) (hopened : OpenedBy ctx cache r t)
    (hexpired : NotExpired ctx r) (hready : TextReady ctx c id) :
    ∃ text, id ∈ (bm25SearchFiltered ctx c (wideQuery ctx c text t)
      (passOf (wideQuery ctx c text t) (resolvePolicy cache t))
        (perTagWidth (wideQuery ctx c text t))).map Prod.fst := by
  obtain ⟨text, hmatch⟩ := hready
  obtain ⟨hcarries, hstatus, hban⟩ := @grounds_of_opened ctx cache (wideQuery ctx c text t) t r hopened rfl
  refine ⟨text, mem_bm25_of_admits hmatch hr ⟨hcarries, hexpired, hstatus, trivial, hban⟩ ?_⟩
  have hall : (ctx.fts c text).length ≤ (wideQuery ctx c text t).topK := Nat.le_add_right _ _
  exact hall.trans le_perTagWidth

theorem consistent_of_excludes (hann : ∀ v k, ctx.ann c v k = none)
    (h : ∀ query asOf, query.includeSuperseded = false → Excludes ctx cache c query asOf) :
    Consistent ctx cache c := by
  intro id r hr t hopened
  refine ⟨fun hready => ?_, fun hready hts hexpired t' ht' => ?_⟩
  · obtain ⟨text, hmem⟩ := mem_vectorList_of_ready hann hr hopened hready
    exact (((h (wideQuery ctx c text t) none rfl).2 _ mem_planTags_wideQuery id r hr).2 hmem).1
  · obtain ⟨ts, hvalid⟩ := hts
    have hretrieves : ∃ text, Retrieves ctx c (wideQuery ctx c text t) (resolvePolicy cache t) id := by
      rcases hready with hready | hready
      · exact (mem_vectorList_of_ready hann hr hopened hready).imp fun _ => .inr
      · exact (mem_bm25_of_ready hr hopened hexpired hready).imp fun _ => .inl
    obtain ⟨text, hretrieves⟩ := hretrieves
    obtain ⟨hit, hmem, -, rfl⟩ := @mem_of_retrieves ctx cache c _ (some ts) _ id r wide_wideQuery
      mem_planTags_wideQuery hretrieves hr hvalid
    have hbarred := (h (wideQuery ctx c text t) (some ts) rfl).1 hit hmem
    by_contra hban
    exact hbarred (.inr (.inr (.inl (exists_smallestBan_iff.2 ⟨t', ht', hban⟩))))

end Iff

/-- Any neighbours, or none. -/
abbrev SearchCtx.withAnn (ctx : SearchCtx) (ann : Corpus → Vector → Nat → Option (List String)) :
    SearchCtx :=
  { ctx with ann }

/-- **Both ways exclude the same** in every search without `include_superseded`, exactly if the
ideas and the policies are consistent. -/
theorem excludes_iff (ctx : SearchCtx) (cache : Option (TagPolicyCache ctx.lc)) (c : Corpus) :
    (∀ ann query asOf, query.includeSuperseded = false →
      Excludes (ctx.withAnn ann) cache c query asOf) ↔ Consistent ctx cache c := by
  constructor
  · intro h
    exact @consistent_of_excludes (ctx.withAnn fun _ _ _ => none) cache c (fun _ _ => rfl) (h _)
  · intro h ann query asOf hinc
    exact @excludes_of_consistent (ctx.withAnn ann) cache c query asOf h hinc

/-! ### A row that has expired -/

/-- Every text is embedded alike, and none matches. -/
def localCtx : SearchCtx where
  lc := asciiLowercase
  fts _ _ := []
  embed _ := some [1.0]
  profile := some ⟨"local", "mini", 1⟩
  ann _ _ _ := none
  hotness _ _ := 0.0
  confidence _ _ := 1.0
  graphBoost _ _ _ := 0.0
  hashOrder := id
  hashOrder_perm _ := .refl _
  mmrLambda := 0.5
  now := 20

def pastRow : IdeaRow where
  name := "plan"
  content := "ship on friday"
  agentId := none
  scope := .global
  status := "active"
  tags := ["fact"]
  contentHash := "h0"
  embeddingPending := false
  expiresAt := some 10

def pastCorpus : Corpus where
  table := ⟨(∅ : Accounts String IdeaRow).insert "idea-0" pastRow, [], 1⟩
  embeddings := (∅ : Accounts String EmbeddingRow).insert "idea-0"
    ⟨[1.0], 1, some "h0", some "local", some "mini"⟩

abbrev localCorpus (r : IdeaRow) : Corpus where
  table := ⟨(∅ : Accounts String IdeaRow).insert "idea-0" r, [], 1⟩
  embeddings := (∅ : Accounts String EmbeddingRow).insert "idea-0"
    ⟨[1.0], 1, some "h0", some "local", some "mini"⟩

theorem exists_hit_localCorpus {query : IdeaQuery} {r : IdeaRow} {now : Nat}
    (htags : query.tags = ["fact"]) (htopK : 1 ≤ query.topK) (hr : r.tags = ["fact"])
    (hpending : r.embeddingPending = false) (htimeless : r.timeContext = "timeless")
    (hstatus : query.includeSuperseded ∨ r.status = "active") (hscope : ScopeAdmits query r) :
    ∃ h ∈ searchExplained { localCtx with now } none (localCorpus r) query none,
      h.id = "idea-0" ∧ h.idea = r := by
  have hpolicy : TagPolicy.defaultFor "fact" ∈
      planTags { localCtx with now } none (localCorpus r) query := by
    simp [planTags, htags, resolvePolicy]
  have hrow : vectorRow { localCtx with now } (localCorpus r) query
      (passOf query (.defaultFor "fact")) ⟨"local", "mini", 1⟩ "idea-0" =
        some ⟨[1.0], 1, some "h0", some "local", some "mini"⟩ := by
    refine vectorRow_eq_some.2 ⟨rfl, r, rfl, ⟨"fact", ?_, rfl⟩, ⟨rfl, rfl, rfl⟩, ?_, hpending,
      hscope, ?_⟩
    · rw [hr]
      exact mem_singleton_self _
    · exact hstatus.imp_left fun h => by rw [passOf, h]; rfl
    · cases hinc : query.includeSuperseded <;> simp [BanAdmits, passOf, TagPolicy.defaultFor]
  have hmem := @mem_vectorList_of_row { localCtx with now } (localCorpus r) query
    (passOf query (.defaultFor "fact")) (perTagWidth query) "idea-0" _ _ [1.0] rfl rfl (fun _ => rfl)
      hrow (htopK.trans le_perTagWidth)
  exact mem_of_retrieves (htopK : Wide { localCtx with now } (localCorpus r) query) hpolicy
    (.inr hmem) rfl (.inl htimeless)

theorem not_excludes_pastCorpus :
    ¬ Excludes localCtx none pastCorpus { text := "friday", topK := 5, tags := ["fact"] } none := by
  rintro ⟨hhits, -⟩
  obtain ⟨hit, hhit, -, hidea⟩ := @exists_hit_localCorpus
    { text := "friday", topK := 5, tags := ["fact"] } pastRow 20 rfl (by decide) rfl rfl rfl
      (.inr rfl) trivial
  refine hhits hit hhit (.inl fun hexpired => ?_)
  rw [hidea] at hexpired
  exact nomatch (hexpired 10 rfl)

end Aeqi.Ideas
