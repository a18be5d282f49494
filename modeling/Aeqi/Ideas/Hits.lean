import Aeqi.Ideas.Search

/-!
# What a search finds

A hit is an idea that some planned tag has retrieved, by text or by vector, and that is valid; and
where enough hits are asked for every such idea is one.
-/

namespace Aeqi.Ideas

open Aeqi.Lib List Option

/-! ## Diversity -/

section Mmr

variable (lambda : Float) (similarityFn : String → String → Float)
  (selected remaining hits : List StagedHit) {bestIdx i k : Nat} {bestMmr : Float}

theorem mmrBest_eq_or_lt :
    mmrBest lambda similarityFn selected remaining bestIdx bestMmr i = bestIdx ∨
      mmrBest lambda similarityFn selected remaining bestIdx bestMmr i < i + remaining.length := by
  induction remaining generalizing bestIdx bestMmr i with
  | nil => exact .inl rfl
  | cons candidate remaining ih =>
    rw [mmrBest, length_cons]
    split
    · have hrest := @ih i (i + 1) (mmrScore lambda similarityFn selected candidate)
      exact .inr (by omega)
    · rcases @ih bestIdx (i + 1) bestMmr with hrest | hrest
      · exact .inl hrest
      · exact .inr (by omega)

theorem mmrSelect_perm : ∃ rest, (mmrSelect lambda similarityFn k selected remaining ++ rest).Perm
    (selected ++ remaining) ∧ rest.length = remaining.length - k := by
  induction k generalizing selected remaining with
  | zero => exact ⟨remaining, .refl _, rfl⟩
  | succ k ih =>
    rw [mmrSelect]
    split
    next hnone =>
      have hle := List.getElem?_eq_none_iff.1 hnone
      have hlength : remaining.length = 0 := by
        rcases mmrBest_eq_or_lt lambda similarityFn selected remaining with hrest | hrest
        · rw [hrest] at hle
          omega
        · omega
      obtain rfl := length_eq_zero_iff.1 hlength
      exact ⟨[], .refl _, (Nat.zero_sub _).symm⟩
    next chosen hchosen =>
      obtain ⟨hlt, hget⟩ := List.getElem?_eq_some_iff.1 hchosen
      obtain ⟨rest, hperm, hlength⟩ := ih (selected ++ [chosen]) (remaining.eraseIdx _)
      refine ⟨rest, hperm.trans ?_, ?_⟩
      · rw [append_assoc, ← hget]
        exact (getElem_cons_eraseIdx_perm hlt).append_left selected
      · rw [hlength, length_eraseIdx_of_lt hlt]
        omega

theorem mem_of_mem_mmrRerank {h : StagedHit} (hmem : h ∈ mmrRerank lambda similarityFn hits k) :
    h ∈ hits := by
  obtain ⟨rest, hperm, -⟩ := @mmrSelect_perm lambda similarityFn [] hits k
  exact hperm.mem_iff.1 (mem_append_left _ hmem)

theorem mmrRerank_perm (hk : hits.length ≤ k) :
    (mmrRerank lambda similarityFn hits k).Perm hits := by
  obtain ⟨rest, hperm, hlength⟩ := @mmrSelect_perm lambda similarityFn [] hits k
  obtain rfl : rest = [] := length_eq_zero_iff.1 (by omega)
  rwa [append_nil] at hperm

end Mmr

/-! ## Merging -/

section Merge

variable {merged : Accounts String StagedHit} {hits : List StagedHit} {id : String} {hit : StagedHit}

/-- Every idea lies under its own id. -/
def OwnIds (merged : Accounts String StagedHit) : Prop :=
  ∀ id hit, merged.lookup id = some hit → hit.id = id

theorem mem_mergeHit : id ∈ mergeHit merged hit ↔ id = hit.id ∨ id ∈ merged := by
  unfold mergeHit
  split
  · exact AList.mem_insert _
  · next existing hexisting =>
    have hmem : hit.id ∈ merged := AList.lookup_isSome.1 (by rw [hexisting]; rfl)
    split
    · exact AList.mem_insert _
    · constructor
      · exact .inr
      · rintro (rfl | h)
        · exact hmem
        · exact h

theorem OwnIds.mergeHit (h : OwnIds merged) : OwnIds (mergeHit merged hit) := by
  have hinsert : OwnIds (merged.insert hit.id hit) := by
    intro id hit' hid
    by_cases hne : id = hit.id
    · subst hne
      rw [AList.lookup_insert] at hid
      cases hid
      rfl
    · rw [AList.lookup_insert_ne hne] at hid
      exact h id hit' hid
  unfold Ideas.mergeHit
  split
  · exact hinsert
  · split
    · exact hinsert
    · exact h

theorem mem_foldl_mergeHit :
    id ∈ hits.foldl mergeHit merged ↔ id ∈ hits.map (·.id) ∨ id ∈ merged := by
  induction hits generalizing merged with
  | nil => simp
  | cons hit hits ih =>
    rw [foldl_cons, ih, mem_mergeHit, map_cons, mem_cons]
    tauto

theorem OwnIds.foldl (h : OwnIds merged) : OwnIds (hits.foldl Ideas.mergeHit merged) := by
  induction hits generalizing merged with
  | nil => exact h
  | cons hit hits ih => exact ih h.mergeHit

end Merge

/-! ## Retrieval -/

section Retrieval

variable {ctx : SearchCtx} {cache : Option (TagPolicyCache ctx.lc)} {c : Corpus} {query : IdeaQuery}
  {asOf : Option Nat} {pass : TagPass} {policy : TagPolicy} {limit : Nat} {id : String}
  {r : IdeaRow} {e : EmbeddingRow} {profile : EmbeddingProfile}

theorem bm25Row_iff : bm25Row ctx c query pass id ↔
    ∃ r, c.table.row id = some r ∧ Bm25Admits ctx query pass r := by
  unfold bm25Row
  cases c.table.row id <;> simp

theorem vectorRow_eq_some : vectorRow ctx c query pass profile id = some e ↔
    c.embeddings.lookup id = some e ∧
      ∃ r, c.table.row id = some r ∧ VectorAdmits ctx query pass profile r e := by
  rw [vectorRow]
  cases c.table.row id <;> simp

theorem mem_bm25_of_mem (h : id ∈ (bm25SearchFiltered ctx c query pass limit).map Prod.fst) :
    ∃ r, c.table.row id = some r ∧ Bm25Admits ctx query pass r := by
  unfold bm25SearchFiltered at h
  simp only [List.map_map, List.mem_map] at h
  obtain ⟨hit, hmem, rfl⟩ := h
  have hrow := (mem_filter.1 (mem_of_mem_take hmem)).2
  exact bm25Row_iff.1 hrow

theorem mem_matches_of_mem_bm25 (h : id ∈ (bm25SearchFiltered ctx c query pass limit).map Prod.fst) :
    id ∈ (ctx.fts c query.text).map Prod.fst := by
  unfold bm25SearchFiltered at h
  simp only [List.map_map, List.mem_map, Function.comp_apply] at h
  obtain ⟨hit, hmem, rfl⟩ := h
  exact List.mem_map_of_mem (mem_filter.1 (mem_of_mem_take hmem)).1

theorem mem_bm25_of_admits (hmatch : id ∈ (ctx.fts c query.text).map Prod.fst)
    (hr : c.table.row id = some r) (hadmits : Bm25Admits ctx query pass r)
    (hlimit : (ctx.fts c query.text).length ≤ limit) :
    id ∈ (bm25SearchFiltered ctx c query pass limit).map Prod.fst := by
  obtain ⟨hit, hmem, rfl⟩ := List.mem_map.1 hmatch
  have hrow : bm25Row ctx c query pass hit.1 = true := bm25Row_iff.2 ⟨r, hr, hadmits⟩
  unfold bm25SearchFiltered
  rw [take_of_length_le ((length_filter_le _ _).trans hlimit), List.map_map]
  exact List.mem_map.2 ⟨hit, mem_filter.2 ⟨hmem, hrow⟩, rfl⟩

theorem mem_scored_of_mem {queryVec : Vector} {ids : List String}
    (h : id ∈ (scored ctx c query pass queryVec profile ids limit).map Prod.fst) :
    ∃ e, vectorRow ctx c query pass profile id = some e := by
  obtain ⟨hit, hmem, rfl⟩ := List.mem_map.1 h
  have hsorted := (mergeSort_perm _ _).mem_iff.1 (mem_of_mem_take hmem)
  obtain ⟨id, -, hid⟩ := mem_filterMap.1 hsorted
  obtain ⟨e, he, rfl⟩ := map_eq_some_iff.1 hid
  exact ⟨e, he⟩

theorem mem_scored_of_row {queryVec : Vector} {ids : List String} (hid : id ∈ ids)
    (he : vectorRow ctx c query pass profile id = some e) (hlimit : ids.length ≤ limit) :
    id ∈ (scored ctx c query pass queryVec profile ids limit).map Prod.fst := by
  have hmem : (id, cosineSimilarity queryVec e.embedding) ∈ ids.filterMap fun id =>
      (vectorRow ctx c query pass profile id).map fun e =>
        (id, cosineSimilarity queryVec e.embedding) :=
    mem_filterMap.2 ⟨id, hid, by rw [he]; rfl⟩
  refine List.mem_map.2 ⟨(id, cosineSimilarity queryVec e.embedding), ?_, rfl⟩
  rw [scored, take_of_length_le]
  · exact (mergeSort_perm _ _).mem_iff.2 hmem
  · rw [sortByScore, length_mergeSort]
    exact (length_filterMap_le _ _).trans hlimit

theorem mem_vectorList_of_mem (h : id ∈ (vectorList ctx c query pass limit).map Prod.fst) :
    ∃ v profile e, ctx.embed query.text = some v ∧ ctx.profile = some profile ∧
      vectorRow ctx c query pass profile id = some e := by
  unfold vectorList at h
  split at h
  next v profile hv hprofile =>
    refine ⟨v, profile, ?_⟩
    have hrow : ∃ e, vectorRow ctx c query pass profile id = some e := by
      unfold vectorSearchFiltered at h
      split at h
      · next hits hann =>
        obtain ⟨ids, -, rfl⟩ := map_eq_some_iff.1 hann
        exact mem_scored_of_mem h
      · exact mem_scored_of_mem h
    obtain ⟨e, he⟩ := hrow
    exact ⟨e, hv, hprofile, he⟩
  next => exact nomatch h

theorem mem_vectorList_of_row {v : Vector} (hv : ctx.embed query.text = some v)
    (hprofile : ctx.profile = some profile) (hann : ∀ k, ctx.ann c v k = none)
    (he : vectorRow ctx c query pass profile id = some e)
    (hlimit : c.embeddings.keys.length ≤ limit) :
    id ∈ (vectorList ctx c query pass limit).map Prod.fst := by
  have hkey : id ∈ c.embeddings.keys :=
    AList.mem_keys.1 (AList.lookup_isSome.1 (by rw [(vectorRow_eq_some.1 he).1]; rfl))
  have hnone : tryAnnSearch ctx c query pass v profile limit = none := by
    rw [tryAnnSearch, hann]
    rfl
  unfold vectorList
  rw [hv, hprofile]
  simp only [vectorSearchFiltered, hnone]
  exact mem_scored_of_row hkey he hlimit

/-! ## Candidates -/

def Retrieves (ctx : SearchCtx) (c : Corpus) (query : IdeaQuery) (policy : TagPolicy) (id : String) :
    Prop :=
  id ∈ (bm25SearchFiltered ctx c query (passOf query policy) (perTagWidth query)).map Prod.fst ∨
    id ∈ (vectorList ctx c query (passOf query policy) (perTagWidth query)).map Prod.fst

theorem Retrieves.admits (h : Retrieves ctx c query policy id) :
    ∃ r, c.table.row id = some r ∧ Carries ctx policy.tag r ∧
      StatusAdmits (passOf query policy).includeSuperseded r ∧ ScopeAdmits query r ∧
      BanAdmits (passOf query policy).banAfterWrong r := by
  rcases h with h | h
  · obtain ⟨r, hr, hcarries, -, hstatus, hscope, hban⟩ := mem_bm25_of_mem h
    exact ⟨r, hr, hcarries, hstatus, hscope, hban⟩
  · obtain ⟨v, profile, e, -, -, he⟩ := mem_vectorList_of_mem h
    obtain ⟨-, r, hr, hcarries, -, hstatus, -, hscope, hban⟩ := vectorRow_eq_some.1 he
    exact ⟨r, hr, hcarries, hstatus, hscope, hban⟩

theorem mem_passHits_ids : id ∈ (passHits ctx c query policy).map (·.id) ↔
    Retrieves ctx c query policy id := by
  unfold passHits
  simp only [List.map_map, List.mem_map, Function.comp_apply, passHit, exists_eq_right]
  rw [(ctx.hashOrder_perm _).mem_iff, mem_dedup, mem_append]
  rfl

theorem mem_byId : id ∈ byId ctx cache c query ↔
    ∃ policy ∈ planTags ctx cache c query, Retrieves ctx c query policy id := by
  unfold byId
  rw [mem_foldl_mergeHit, map_flatMap, mem_flatMap]
  simp [mem_passHits_ids]

theorem byId_ownIds : OwnIds (byId ctx cache c query) :=
  OwnIds.foldl nofun

theorem mem_candidates_ids : id ∈ (candidates ctx cache c query asOf).map (·.id) ↔
    (∃ policy ∈ planTags ctx cache c query, Retrieves ctx c query policy id) ∧
      ∀ r ∈ c.table.row id, r.ValidAt (asOf.getD ctx.now) := by
  have hid (policies : List TagPolicy) (ids : List String) (hit : StagedHit) :
      (withGraph ctx c policies ids hit).id = hit.id := rfl
  rw [← mem_byId, List.mem_map]
  constructor
  · rintro ⟨h, hmem, rfl⟩
    obtain ⟨hmerged, hvalid⟩ := mem_filter.1 ((mergeSort_perm _ _).mem_iff.1 hmem)
    obtain ⟨id, -, hlookup⟩ := mem_filterMap.1 hmerged
    obtain ⟨hit, hhit, rfl⟩ := map_eq_some_iff.1 hlookup
    rw [hid, byId_ownIds id hit hhit] at hvalid ⊢
    exact ⟨AList.lookup_isSome.1 (by rw [hhit]; rfl), of_decide_eq_true hvalid⟩
  · rintro ⟨hmem, hvalid⟩
    obtain ⟨hit, hhit⟩ := isSome_iff_exists.1 (AList.lookup_isSome.2 hmem)
    have hown := byId_ownIds id hit hhit
    refine ⟨withGraph ctx c (planTags ctx cache c query) (byId ctx cache c query).keys hit, ?_, hown⟩
    refine (mergeSort_perm _ _).mem_iff.2 (mem_filter.2 ⟨?_, ?_⟩)
    · refine mem_filterMap.2 ⟨id, ?_, by rw [hhit]; rfl⟩
      exact (ctx.hashOrder_perm _).mem_iff.2 (AList.mem_keys.1 hmem)
    · rw [hid, hown]
      exact decide_eq_true hvalid

theorem Retrieves.known (h : Retrieves ctx c query policy id) :
    id ∈ (ctx.fts c query.text).map Prod.fst ++ c.embeddings.keys := by
  rcases h with h | h
  · exact mem_append_left _ (mem_matches_of_mem_bm25 h)
  · refine mem_append_right _ ?_
    obtain ⟨_, _, e, -, -, he⟩ := mem_vectorList_of_mem h
    exact AList.mem_keys.1 (AList.lookup_isSome.1 (by rw [(vectorRow_eq_some.1 he).1]; rfl))

theorem length_candidates_le : (candidates ctx cache c query asOf).length ≤
    (ctx.fts c query.text).length + c.embeddings.keys.length := by
  have hkeys : (candidates ctx cache c query asOf).length ≤
      (byId ctx cache c query).keys.length := by
    unfold candidates
    simp only [sortByScore, length_mergeSort]
    refine (length_filter_le _ _).trans ((length_filterMap_le _ _).trans ?_)
    exact (ctx.hashOrder_perm _).length_eq.le
  have hsub : (byId ctx cache c query).keys ⊆
      (ctx.fts c query.text).map Prod.fst ++ c.embeddings.keys := by
    intro id hid
    obtain ⟨policy, -, hretrieves⟩ := mem_byId.1 (AList.mem_keys.2 hid)
    exact hretrieves.known
  have hle := ((AList.keys_nodup _).subperm hsub).length_le
  rw [length_append, length_map] at hle
  exact hkeys.trans hle

/-! ## Hits -/

theorem retrieves_of_mem {h : SearchHit} (hmem : h ∈ searchExplained ctx cache c query asOf) :
    c.table.row h.id = some h.idea ∧ h.idea.ValidAt (asOf.getD ctx.now) ∧
      ∃ policy ∈ planTags ctx cache c query, Retrieves ctx c query policy h.id := by
  obtain ⟨hit, hrun, hrow⟩ := mem_filterMap.1 hmem
  obtain ⟨idea, hidea, rfl⟩ := map_eq_some_iff.1 hrow
  have hids := List.mem_map_of_mem (f := (·.id)) (mem_of_mem_mmrRerank _ _ _ hrun)
  obtain ⟨hpolicy, hvalid⟩ := mem_candidates_ids.1 hids
  exact ⟨hidea, hvalid idea hidea, hpolicy⟩

/-- Enough hits are asked for. -/
def Wide (ctx : SearchCtx) (c : Corpus) (query : IdeaQuery) : Prop :=
  (ctx.fts c query.text).length + c.embeddings.keys.length ≤ query.topK

theorem mem_of_retrieves (hwide : Wide ctx c query) (hpolicy : policy ∈ planTags ctx cache c query)
    (hretrieves : Retrieves ctx c query policy id) (hr : c.table.row id = some r)
    (hvalid : r.ValidAt (asOf.getD ctx.now)) :
    ∃ h ∈ searchExplained ctx cache c query asOf, h.id = id ∧ h.idea = r := by
  have hcandidate : id ∈ (candidates ctx cache c query asOf).map (·.id) := by
    refine mem_candidates_ids.2 ⟨⟨policy, hpolicy, hretrieves⟩, fun r' hr' => ?_⟩
    rw [hr] at hr'
    cases hr'
    exact hvalid
  obtain ⟨hit, hmem, rfl⟩ := List.mem_map.1 hcandidate
  have hall : (candidates ctx cache c query asOf).length ≤ max query.topK 1 :=
    (length_candidates_le.trans hwide).trans (le_max_left _ _)
  have hrun := (mmrRerank_perm ctx.mmrLambda (similarity ctx c) _ hall).mem_iff.2 hmem
  refine ⟨⟨hit.id, r, hit⟩, ?_, rfl, rfl⟩
  exact mem_filterMap.2 ⟨hit, hrun, by rw [hr]; rfl⟩

end Retrieval

end Aeqi.Ideas
