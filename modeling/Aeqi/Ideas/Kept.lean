import Aeqi.Ideas.Ownership

/-!
# Writes that keep what is there

Rows of `ideas` stay, and the name of an active row is its owner's only one. A merge writes a whole
body and all the tags of a row: if the row is then as it was read, the body has grown and the tags
have become more.
-/

namespace Aeqi.Ideas

open Aeqi.Lib List

/-! ## Tags -/

/-- The lower case of `to_lowercase`; that of ASCII may go before it, and blanks are left alone. -/
structure LowercaseLaws (lower : String → String) : Prop where
  lower_lower : ∀ s, lower (lower s) = lower s
  lower_toLower : ∀ s : String, lower s.toLower = lower s
  trim_lower : ∀ s, trimmed s = s → trimmed (lower s) = lower s

theorem trimmed_toLower (s : String) : trimmed s.toLower = (trimmed s).toLower := by
  have hlower (s : String) : s.toLower = s.map Char.toLower := rfl
  apply String.toList_injective
  simp [trimmed, hlower, trim_map_toLower]

theorem lowercaseLaws_toLower : LowercaseLaws String.toLower where
  lower_lower := toLower_toLower
  lower_toLower := toLower_toLower
  trim_lower s hs := by rw [trimmed_toLower, hs]

theorem trimmed_trimmed (s : String) : trimmed (trimmed s) = trimmed s := by
  apply String.toList_injective
  simp [trimmed, trim_trim]

section Tags

variable {lower : String → String} {tags existing : List String} {tag : String}

def normalTag (lower : String → String) (tag : String) : String := lower (trimmed tag)

theorem normalTag_normalTag (laws : LowercaseLaws lower) :
    normalTag lower (normalTag lower tag) = normalTag lower tag := by
  unfold normalTag
  rw [laws.trim_lower _ (trimmed_trimmed tag), laws.lower_lower]

theorem normalTag_congr (laws : LowercaseLaws lower) {e : String} (h : e.toLower = tag.toLower) :
    normalTag lower e = normalTag lower tag := by
  unfold normalTag
  rw [← laws.lower_toLower (trimmed e), ← trimmed_toLower, h, trimmed_toLower, laws.lower_toLower]

theorem mem_normalizeTags (htag : tag ∈ tags) (hblank : normalTag lower tag ≠ "") :
    normalTag lower tag ∈ normalizeTags lower tags := by
  have hmem : normalTag lower tag ∈ ((tags.map fun tag => lower (String.ofList (trim tag.toList))).filter
      (· ≠ "")).reverse.dedup.reverse := by
    rw [mem_reverse, mem_dedup, mem_reverse, mem_filter]
    exact ⟨List.mem_map_of_mem htag, decide_eq_true hblank⟩
  unfold normalizeTags
  rw [if_neg (ne_nil_of_mem hmem)]
  exact hmem

theorem subset_tagUnion : existing ⊆ tagUnion existing tags := by
  induction tags generalizing existing with
  | nil => exact List.Subset.refl _
  | cons tag tags ih =>
    unfold tagUnion
    split
    · exact ih
    · exact List.Subset.trans (subset_append_left _ _) ih

theorem exists_mem_tagUnion (htag : tag ∈ tags) :
    ∃ e ∈ tagUnion existing tags, e.toLower = tag.toLower := by
  induction tags generalizing existing with
  | nil => cases htag
  | cons tag' tags ih =>
    unfold tagUnion
    rcases mem_cons.1 htag with rfl | htail
    · split
      · next hany =>
        obtain ⟨e, he, hlower⟩ := List.any_eq_true.1 hany
        exact ⟨e, subset_tagUnion he, of_decide_eq_true hlower⟩
      · exact ⟨tag, subset_tagUnion (mem_append_right _ (mem_singleton_self _)), rfl⟩
    · split
      · exact ih htail
      · exact ih htail

def Tagged (lower : String → String) (tags stored : List String) : Prop :=
  ∀ tag ∈ tags, normalTag lower tag ≠ "" → normalTag lower tag ∈ stored

theorem tagged_normalizeTags : Tagged lower tags (normalizeTags lower tags) :=
  fun _ htag hblank => mem_normalizeTags htag hblank

theorem tagged_tagUnion (laws : LowercaseLaws lower) :
    Tagged lower tags (normalizeTags lower (tagUnion existing tags)) := by
  intro tag htag hblank
  obtain ⟨e, he, hlower⟩ := @exists_mem_tagUnion tags existing tag htag
  rw [← normalTag_congr laws hlower] at hblank ⊢
  exact mem_normalizeTags he hblank

end Tags

/-! ## Rows -/

section Rows

variable {lower : String → String} {t t' t'' : IdeaTable} {r r' r'' : IdeaRow} {id : String}

/-- The body has grown, and the stored tags have become more. -/
structure Grown (lower : String → String) (r r' : IdeaRow) : Prop where
  content : r.content.toList <:+: r'.content.toList
  tags : ∀ tag ∈ r.tags, tag ≠ "" → normalTag lower tag = tag → tag ∈ r'.tags

theorem Grown.of_eq (hcontent : r'.content = r.content) (htags : r'.tags = r.tags) :
    Grown lower r r' :=
  ⟨hcontent ▸ infix_refl _, fun _ htag _ _ => htags ▸ htag⟩

theorem Grown.trans (h : Grown lower r r') (h' : Grown lower r' r'') : Grown lower r r'' :=
  ⟨h.content.trans h'.content,
    fun tag htag hblank hnormal => h'.tags tag (h.tags tag htag hblank hnormal) hblank hnormal⟩

/-- Rows stay and grow, and so do the edges. -/
structure Kept (lower : String → String) (t t' : IdeaTable) : Prop where
  rows : ∀ id r, t.row id = some r → ∃ r', t'.row id = some r' ∧ Grown lower r r'
  edges : t.edges ⊆ t'.edges

theorem Kept.of_row (h : ∀ i, t'.row i = t.row i) (hedges : t.edges ⊆ t'.edges) :
    Kept lower t t' :=
  ⟨fun id r hr => ⟨r, (h id).trans hr, .of_eq rfl rfl⟩, hedges⟩

theorem Kept.refl (t : IdeaTable) : Kept lower t t := .of_row (fun _ => rfl) (List.Subset.refl _)

theorem Kept.trans (h : Kept lower t t') (h' : Kept lower t' t'') : Kept lower t t'' := by
  refine ⟨fun id r hr => ?_, List.Subset.trans h.edges h'.edges⟩
  obtain ⟨r', hr', hgrown⟩ := h.rows id r hr
  obtain ⟨r'', hr'', hgrown'⟩ := h'.rows id r' hr'
  exact ⟨r'', hr'', hgrown.trans hgrown'⟩

theorem kept_setRow {f : IdeaRow → IdeaRow} (hf : ∀ r ∈ t.row id, Grown lower r (f r)) :
    Kept lower t (t.setRow id f) := by
  refine ⟨fun i r hr => ?_, by rw [IdeaTable.edges_setRow]; exact List.Subset.refl _⟩
  rw [IdeaTable.row_setRow]
  split
  · next hi =>
    subst hi
    exact ⟨f r, by rw [hr]; rfl, hf r hr⟩
  · exact ⟨r, hr, .of_eq rfl rfl⟩

/-- The active rows of one owner have different names. -/
def Distinct (t : IdeaTable) : Prop :=
  ∀ id name agentId, t.isNamed name agentId id → ∀ id', t.isNamed name agentId id' → id' = id

theorem Distinct.of_named (h : Distinct t)
    (hnamed : ∀ id name agentId, t'.isNamed name agentId id → t.isNamed name agentId id) :
    Distinct t' := fun id name agentId hid id' hid' =>
  h id name agentId (hnamed id name agentId hid) id' (hnamed id' name agentId hid')

theorem named_setRow {f : IdeaRow → IdeaRow} {name : String} {agentId : Option String} {i : String}
    (hf : ∀ r, (f r).status = "active" → r.status = "active" ∧ (f r).name = r.name ∧
      (f r).agentId = r.agentId)
    (h : (t.setRow id f).isNamed name agentId i) : t.isNamed name agentId i := by
  obtain ⟨r, hr, hnamed⟩ := (Option.any_eq_true _ _).1 h
  obtain ⟨hname, howner, hactive⟩ := of_decide_eq_true hnamed
  rcases IdeaTable.row_setRow_some hr with hold | ⟨rfl, old, hold, rfl⟩
  · exact (Option.any_eq_true _ _).2 ⟨r, hold, hnamed⟩
  · obtain ⟨hstatus, hname', howner'⟩ := hf old hactive
    rw [hname'] at hname
    rw [howner'] at howner
    exact (Option.any_eq_true _ _).2 ⟨old, hold, decide_eq_true ⟨hname, howner, hstatus⟩⟩

end Rows

/-! ## Writes -/

section Writes

variable {ctx : IdeasCtx} {t t' : IdeaTable} {id : String} {input : StoreFull} {content : String}
  {tags : List String} {now : Nat}

variable {lower : String → String}

theorem Adds.kept (h : Adds input content tags id t t') : Kept lower t t' := by
  refine ⟨fun i r hr => ⟨r, ?_, .of_eq rfl rfl⟩, h.edges⟩
  have hi : i ≠ id := by
    rintro rfl
    cases h.unused.symm.trans hr
  exact (h.others i hi).trans hr

theorem Adds.distinct (h : Adds input content tags id t t') (ht : Distinct t) : Distinct t' := by
  obtain ⟨r, hr, ⟨hname, howner, hstatus⟩, -⟩ := h.row
  have hold {i name : String} {agentId : Option String} (hi : i ≠ id)
      (hnamed : t'.isNamed name agentId i) : t.isNamed name agentId i := by
    unfold IdeaTable.isNamed at hnamed
    rwa [h.others i hi] at hnamed
  -- The name of the new row is taken by no other row.
  have hnew {i name : String} {agentId : Option String} (hid : t'.isNamed name agentId id)
      (hi : t'.isNamed name agentId i) : i = id := by
    by_contra hne
    obtain ⟨r', hr', hnamed⟩ := (Option.any_eq_true _ _).1 hid
    obtain rfl := Option.some.inj (hr.symm.trans hr')
    obtain ⟨hname', howner', hactive⟩ := of_decide_eq_true hnamed
    have hother := hold hne hi
    rw [hname] at hname'
    rw [howner] at howner'
    refine h.free ⟨hstatus ▸ hactive, i, ?_, hne, ?_⟩
    · obtain ⟨r'', hr'', -⟩ := (Option.any_eq_true _ _).1 hother
      exact AList.mem_keys.1 (AList.lookup_isSome.1 (by rw [← IdeaTable.row, hr'']; rfl))
    · unfold IdeaTable.isNamed at ⊢
      rwa [hname', howner']
  intro i name agentId hi i' hi'
  by_cases hid : i = id
  · subst hid
    exact hnew hi hi'
  · by_cases hid' : i' = id
    · subst hid'
      exact (hnew hi' hi).symm
    · exact ht i name agentId (hold hid hi) i' (hold hid' hi')

structure Appends (lower : String → String) (existing : IdeaRow) (patch : UpdateFull) : Prop where
  status : patch.status = none
  content : ∃ c, patch.content = some c ∧ existing.content.toList <:+: c.toList
  tags : ∃ l, patch.tags = some l ∧ existing.tags ⊆ l

variable {patch : UpdateFull}

theorem updateFull_snd (h : patch.status = none) :
    (t.updateFull ctx id patch).2 =
      (t.setRow id (IdeaTable.patched ctx patch)).setRow id fun r => { r with
        tags := (patch.tags.map (normalizeTags ctx.toLowercase)).getD r.tags } := by
  simp [IdeaTable.updateFull, h]

theorem distinct_updateFull (hstatus : patch.status = none) (ht : Distinct t) :
    Distinct (t.updateFull ctx id patch).2 := by
  rw [updateFull_snd hstatus]
  refine ht.of_named fun i name agentId hnamed => ?_
  have hpatched := named_setRow (by exact fun r h => ⟨h, rfl, rfl⟩) hnamed
  exact named_setRow (by exact fun r h => ⟨h, rfl, rfl⟩) hpatched

theorem kept_updateFull {existing : IdeaRow} (h : Appends ctx.toLowercase existing patch)
    (hread : ∀ r ∈ t.row id, r.content = existing.content ∧ r.tags = existing.tags) :
    Kept ctx.toLowercase t (t.updateFull ctx id patch).2 := by
  obtain ⟨hstatus, ⟨c, hc, hcontent⟩, l, hl, htags⟩ := h
  rw [updateFull_snd hstatus]
  refine ⟨fun i r hr => ?_, by simp⟩
  rw [IdeaTable.row_setRow]
  split
  · next hi =>
    subst hi
    obtain ⟨hsame, hsameTags⟩ := hread r hr
    rw [IdeaTable.row_setRow_self, hr, hl]
    refine ⟨_, rfl, ?_, ?_⟩
    · simp only [IdeaTable.patched, hc, hsame]
      exact hcontent
    · intro tag htag hblank hnormal
      rw [← hnormal] at hblank ⊢
      exact mem_normalizeTags (htags (hsameTags ▸ htag)) hblank
  · next hi =>
    rw [IdeaTable.row_setRow_ne hi]
    exact ⟨r, hr, .of_eq rfl rfl⟩

theorem kept_flip : Kept lower t (flip t id) := kept_setRow fun _ _ => .of_eq rfl rfl

theorem distinct_flip (ht : Distinct t) : Distinct (flip t id) :=
  ht.of_named fun _ _ _ => named_setRow fun _ (h : "superseded" = "active") => nomatch h

theorem supersedeAtomic_kept (ht : Distinct t) :
    Kept lower t (t.supersedeAtomic ctx id input now).2 ∧
      Distinct (t.supersedeAtomic ctx id input now).2 := by
  rcases @supersedeAtomic_cases ctx t id input now with
    ⟨-, e, drawn, he⟩ | ⟨-, t', -, hadds, hok⟩
  · rw [he]
    exact ⟨.of_row (fun _ => rfl) (List.Subset.refl _), ht⟩
  · rw [hok]
    exact ⟨kept_flip.trans hadds.kept, hadds.distinct (distinct_flip ht)⟩

theorem storeFull_kept (ht : Distinct t) :
    Kept lower t (t.storeFull ctx input now).2 ∧ Distinct (t.storeFull ctx input now).2 := by
  unfold IdeaTable.storeFull
  rcases @insertFullRow_cases ctx t input (redactSecrets input.content)
    (normalizeTags ctx.toLowercase input.tags) now with ⟨-, e, he⟩ | ⟨t', hadds, hok⟩
  · simp only [he]
    exact ⟨.of_row (fun _ => rfl) (List.Subset.refl _), ht⟩
  · simp only [hok]
    exact ⟨hadds.kept, hadds.distinct ht⟩

end Writes

/-! ## Accesses -/

section Accesses

variable {ctx : StoringCtx} {t : IdeaTable} {a : TableAccess}

namespace TableAccess

def AsRead : TableAccess → IdeaTable → Prop
  | updateFull id existing _, t => ∀ r ∈ t.row id, r.content = existing.content ∧ r.tags = existing.tags
  | _, _ => True

instance AsRead.decidable (t : IdeaTable) : (a : TableAccess) → Decidable (a.AsRead t)
  | updateFull id .. => inferInstanceAs (Decidable (∀ r ∈ t.row id, _ ∧ _))
  | getActiveIdByName .. | getById _ | search _ | storeFull .. | supersedeAtomic ..
  | storeEntityEdge _ | update .. | setParent .. | setProperties .. | setKind .. | setExpiresAt ..
  | setScope .. => inferInstanceAs (Decidable True)

def OnlyAppends (lower : String → String) : TableAccess → Prop
  | updateFull _ existing patch => Appends lower existing patch
  | update .. => False
  | _ => True

theorem kept (hread : a.AsRead t) (happends : a.OnlyAppends ctx.toLowercase) (ht : Distinct t) :
    Kept ctx.toLowercase t (a.run ctx t).2 ∧ Distinct (a.run ctx t).2 := by
  have hset {id : String} {f : IdeaRow → IdeaRow}
      (hf : ∀ r, ((f r).content = r.content ∧ (f r).tags = r.tags) ∧ (f r).status = r.status ∧
        (f r).name = r.name ∧ (f r).agentId = r.agentId) :
      Kept ctx.toLowercase t (t.setRow id f) ∧ Distinct (t.setRow id f) := by
    refine ⟨kept_setRow fun r _ => .of_eq (hf r).1.1 (hf r).1.2, ht.of_named fun _ _ _ => ?_⟩
    exact named_setRow fun r h => ⟨(hf r).2.1 ▸ h, (hf r).2.2⟩
  have hquery : Kept ctx.toLowercase t t ∧ Distinct t := ⟨.refl t, ht⟩
  cases a with
  | getActiveIdByName name agentId | getById id | search query => exact hquery
  | storeFull input now => exact storeFull_kept ht
  | updateFull id existing patch =>
    exact ⟨kept_updateFull happends hread, distinct_updateFull happends.status ht⟩
  | supersedeAtomic oldId input now => exact supersedeAtomic_kept ht
  | storeEntityEdge e =>
    refine ⟨.of_row (fun _ => IdeaTable.row_storeEntityEdge) edges_storeEntityEdge, ?_⟩
    refine ht.of_named fun i name agentId hnamed => ?_
    simp only [IdeaTable.isNamed, TableAccess.run, IdeaTable.row_storeEntityEdge] at hnamed
    exact hnamed
  | update id name content tags => exact happends.elim
  | setParent id parentId =>
    simp only [TableAccess.run, IdeaTable.setParent]
    split
    · exact hquery
    · exact hset fun _ => ⟨⟨rfl, rfl⟩, rfl, rfl, rfl⟩
  | setProperties id properties | setKind id kind fileId | setExpiresAt id expiresAt
  | setScope id scope => exact hset fun _ => ⟨⟨rfl, rfl⟩, rfl, rfl, rfl⟩

end TableAccess

def keeping (ctx : StoringCtx) : Guarantee TableAccess TableAccess.Reply IdeaTable where
  run := TableAccess.run ctx
  good := TableAccess.AsRead
  proper a _ := a.OnlyAppends ctx.toLowercase
  inv := Distinct
  may := Kept ctx.toLowercase
  refl := Kept.refl
  trans := Kept.trans
  keeps _ _ hread happends ht := (TableAccess.kept hread happends ht).2
  moves _ _ hread happends ht := (TableAccess.kept hread happends ht).1

end Accesses

end Aeqi.Ideas
