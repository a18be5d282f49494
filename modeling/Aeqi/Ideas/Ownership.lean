import Aeqi.Ideas.Hits
import Aeqi.Ideas.Secrets

/-!
# Whose ideas a store changes

What `handle_store_idea` leaves of the rows when no other call runs beside it. A request of an agent
looks at that agent's rows, by name and by search; a request without one searches all rows, and
whatever it finds is skipped to, merged into or superseded, and annotated. `storeIdea_isolated_iff`
says for which tables and requests no other's idea is touched.
-/

namespace Aeqi.Ideas

open Aeqi.Lib Aeqi.Orchestrator Option
open IdeaTable (drawn_setRow isNamed patched row_setRow row_setRow_self row_storeEntityEdge
  updateFull)

section Rows

variable {ctx : IdeasCtx} {t t' t'' : IdeaTable} {id : String}

/-- Nothing has happened but to columns of one row, whose owner stays. -/
structure Annotates (id : String) (t t' : IdeaTable) : Prop where
  others : ∀ i, i ≠ id → t'.row i = t.row i
  owner : (t'.row id).map (·.agentId) = (t.row id).map (·.agentId)

def Owns (t : IdeaTable) (owner : Option String) (id : String) : Prop :=
  ∃ r, t.row id = some r ∧ r.agentId = owner

theorem Annotates.owns {owner : Option String} (h : Annotates id t t') :
    Owns t' owner id ↔ Owns t owner id := by
  unfold Owns
  simp [← map_eq_some_iff, h.owner]

theorem Annotates.refl : Annotates id t t := ⟨fun _ _ => rfl, rfl⟩

theorem Annotates.trans (h : Annotates id t t') (h' : Annotates id t' t'') : Annotates id t t'' :=
  ⟨fun i hi => (h'.others i hi).trans (h.others i hi), h'.owner.trans h.owner⟩

theorem annotates_setRow {f : IdeaRow → IdeaRow} (hf : ∀ r, (f r).agentId = r.agentId) :
    Annotates id t (t.setRow id f) := by
  refine ⟨fun i hi => IdeaTable.row_setRow_ne hi, ?_⟩
  rw [row_setRow_self, Option.map_map]
  exact congrArg (fun g => (t.row id).map g) (funext hf)

theorem annotates_updateFull {patch : UpdateFull} :
    Annotates id t (t.updateFull ctx id patch).2 := by
  have hpatched : Annotates id t (t.setRow id (patched ctx patch)) :=
    annotates_setRow fun _ => rfl
  simp only [updateFull]
  split
  · exact hpatched
  · exact hpatched.trans (annotates_setRow fun _ => rfl)

theorem annotates_setParent {parent : Option String} : Annotates id t (t.setParent id parent).2 := by
  unfold IdeaTable.setParent
  split
  · exact .refl
  · exact annotates_setRow fun _ => rfl

variable {input : StoreFull} {content : String} {tags : List String} {now : Nat}

/-- A new row is under the id, whose name was free; edges may be new too. -/
structure Adds (input : StoreFull) (content : String) (tags : List String) (id : String)
    (t t' : IdeaTable) : Prop where
  unused : t.row id = none
  free : ¬ (input.status = "active" ∧ t.nameTaken id input.name input.agentId)
  row : ∃ r, t'.row id = some r ∧ (r.name = input.name ∧ r.agentId = input.agentId ∧
    r.status = input.status) ∧ r.content = content ∧ r.tags = tags
  others : ∀ i, i ≠ id → t'.row i = t.row i
  edges : t.edges ⊆ t'.edges

theorem insertFullRow_cases :
    (((t.row (ctx.uuid t.drawn)).isSome ∨
        input.status = "active" ∧ t.nameTaken (ctx.uuid t.drawn) input.name input.agentId) ∧
      ∃ e, t.insertFullRow ctx input content tags now = (.error e, { t with drawn := t.drawn + 1 })) ∨
    ∃ t', Adds input content tags (ctx.uuid t.drawn) t t' ∧
      t.insertFullRow ctx input content tags now = (.ok (ctx.uuid t.drawn), t') := by
  by_cases hused : (t.row (ctx.uuid t.drawn)).isSome
  · exact .inl ⟨.inl hused, _, if_pos hused⟩
  · by_cases hname : input.status = "active" ∧
        t.nameTaken (ctx.uuid t.drawn) input.name input.agentId
    · exact .inl ⟨.inr hname, _, (if_neg hused).trans (if_pos hname)⟩
    · refine .inr ⟨_, ?_, (if_neg hused).trans (if_neg hname)⟩
      exact ⟨not_isSome_iff_eq_none.1 hused, hname,
        ⟨_, AList.lookup_insert _, ⟨rfl, rfl, rfl⟩, rfl, rfl⟩,
        fun i hi => AList.lookup_insert_ne hi, List.Subset.refl _⟩

theorem isNamed_eq_false {name : String} {agentId : Option String}
    (hfree : t.getActiveIdByName name agentId = none) (i : String) :
    t.isNamed name agentId i = false := by
  by_cases hmem : i ∈ t.rows.keys
  · exact Bool.eq_false_iff.2 (List.find?_eq_none.1 hfree i hmem)
  · have hrow : t.row i = none := AList.lookup_eq_none.2 fun h => hmem (AList.mem_keys.1 h)
    simp [isNamed, hrow]

theorem edges_storeEntityEdge {e : EntityEdge} : t.edges ⊆ (t.storeEntityEdge e).edges := by
  unfold IdeaTable.storeEntityEdge
  split
  · exact List.Subset.refl _
  · exact List.subset_append_left _ _

abbrev flip (t : IdeaTable) (id : String) : IdeaTable :=
  t.setRow id ({ · with status := "superseded" })

theorem row_flip_eq_none {i : String} : (flip t id).row i = none ↔ t.row i = none := by
  rw [row_setRow]
  split
  · next hi => rw [map_eq_none_iff, hi]
  · rfl

theorem not_nameTaken_flip {i : String}
    (hfree : t.getActiveIdByName input.name input.agentId = none) :
    ¬ (flip t id).nameTaken i input.name input.agentId := by
  rintro ⟨other, -, -, hnamed⟩
  obtain ⟨r, hr, hnamed⟩ := (Option.any_eq_true _ _).1 hnamed
  rcases IdeaTable.row_setRow_some hr with hold | ⟨-, old, -, rfl⟩
  · have hfalse := isNamed_eq_false hfree other
    simp only [isNamed, hold, any_some, hnamed] at hfalse
    cases hfalse
  · simp at hnamed

theorem supersedeAtomic_cases :
    ((t.row id = none ∨ (t.row (ctx.uuid t.drawn)).isSome ∨
        (flip t id).nameTaken (ctx.uuid t.drawn) input.name input.agentId) ∧ ∃ e drawn,
      t.supersedeAtomic ctx id input now = (.error e, { t with drawn })) ∨
    ∃ old t', t.row id = some old ∧ Adds input (redactSecrets input.content)
        (normalizeTags ctx.toLowercase input.tags) (ctx.uuid t.drawn) (flip t id) t' ∧
      t.supersedeAtomic ctx id input now = (.ok (ctx.uuid t.drawn), t') := by
  unfold IdeaTable.supersedeAtomic
  cases hold : t.row id with
  | none => exact .inl ⟨.inl rfl, _, t.drawn, rfl⟩
  | some old =>
    rcases @insertFullRow_cases ctx (flip t id) input (redactSecrets input.content)
      (normalizeTags ctx.toLowercase input.tags) now with ⟨hcause, e, he⟩ | ⟨t', hadds, hok⟩
    · rw [drawn_setRow] at hcause he
      refine .inl ⟨.inr (hcause.imp ?_ And.right), e, t.drawn + 1, ?_⟩
      · intro hused
        rw [← ne_none_iff_isSome] at hused ⊢
        exact fun h => hused (row_flip_eq_none.2 h)
      · simp [he]
    · rw [drawn_setRow] at hadds hok
      obtain ⟨hunused, hfree, ⟨r, hr, hrow⟩, hothers, hedges⟩ := hadds
      simp only [hok]
      refine .inr ⟨old, _, rfl, ⟨hunused, hfree, ⟨r, ?_, hrow⟩, fun i hi => ?_, ?_⟩, rfl⟩
      · rw [row_storeEntityEdge, hr]
      · rw [row_storeEntityEdge, hothers i hi]
      · exact List.Subset.trans hedges edges_storeEntityEdge

end Rows

/-! ## One call alone -/

section Alone

variable {ctx : StoringCtx} {input : StoreRequest} {effective : EffectivePolicy} {clock : Reading}
  {redactedContent : String} {t t' t'' : IdeaTable} {id : String} {owner : Option String}

abbrev alone {α : Type} (ctx : StoringCtx) (p : IdeaProg α) (t : IdeaTable) : α × IdeaTable :=
  p.solo (TableAccess.run ctx) t

theorem alone_access {α : Type} {a : TableAccess} {f : a.Reply → IdeaProg α} :
    alone ctx (access a >>= f) t = alone ctx (f (a.run ctx t).1) (a.run ctx t).2 := rfl

def SameIdea (r r' : IdeaRow) : Prop :=
  r'.content = r.content ∧ r'.tags = r.tags ∧ r'.status = r.status ∧
    r'.parentIdeaId = r.parentIdeaId ∧ r'.properties = r.properties ∧ r'.kind = r.kind

structure Isolated (owner : Option String) (t : IdeaTable) (response : StoreResponse)
    (t' : IdeaTable) : Prop where
  others : ∀ id r, t.row id = some r → r.agentId ≠ owner → ∃ r', t'.row id = some r' ∧ SameIdea r r'
  own : ∀ stored, response = .ok stored → Owns t' owner stored.id

theorem isolated_error {e : String} (h : ∀ i, t'.row i = t.row i) :
    Isolated owner t (.error e) t' :=
  ⟨fun i r hr _ => ⟨r, (h i).trans hr, rfl, rfl, rfl, rfl, rfl, rfl⟩, nofun⟩

variable {stored : Stored}

theorem isolated_iff_of_annotates (h : Annotates stored.id t t') :
    Isolated owner t (.ok stored) t' ↔ Owns t owner stored.id := by
  constructor
  · exact fun hisolated => h.owns.1 (hisolated.own stored rfl)
  · intro hown
    refine ⟨fun id r hr hne => ?_, fun stored' hstored => by cases hstored; exact h.owns.2 hown⟩
    have hid : id ≠ stored.id := by
      rintro rfl
      obtain ⟨r', hr', hr'owner⟩ := hown
      cases hr.symm.trans hr'
      exact hne hr'owner
    exact ⟨r, (h.others id hid).trans hr, rfl, rfl, rfl, rfl, rfl, rfl⟩

/-- An error that leaves the rows as they were, or a new row of the owner's. -/
def Creates (owner : Option String) (t : IdeaTable) (response : StoreResponse) (t' : IdeaTable) :
    Prop :=
  match response with
  | .error _ => ∀ i, t'.row i = t.row i
  | .ok stored => t.row stored.id = none ∧ Owns t' owner stored.id ∧
      ∀ i, i ≠ stored.id → t'.row i = t.row i

theorem Creates.isolated {response : StoreResponse} (h : Creates owner t response t') :
    Isolated owner t response t' := by
  cases response with
  | error e => exact isolated_error h
  | ok stored =>
    obtain ⟨hnew, hown, hothers⟩ := h
    refine ⟨fun id r hr _ => ?_, fun stored' hstored => by cases hstored; exact hown⟩
    have hid : id ≠ stored.id := by
      rintro rfl
      cases hnew.symm.trans hr
    exact ⟨r, (hothers id hid).trans hr, rfl, rfl, rfl, rfl, rfl, rfl⟩

/-! ### Steps -/

theorem row_storeEdges {links : List StoreLinkRequest} {i : String} :
    (alone ctx (storeEdges id links) t).2.row i = t.row i := by
  induction links generalizing t with
  | nil => rfl
  | cons link links ih => exact ih.trans row_storeEntityEdge

theorem alone_finalizeWrite {action : StoreAction} :
    (alone ctx (finalizeWrite input id action) t).1 = .ok ⟨id, action, input.linkErrors, none⟩ ∧
      ∀ i, (alone ctx (finalizeWrite input id action) t).2.row i = t.row i := by
  unfold finalizeWrite alone
  rw [Prog.solo_bind]
  cases input.createdInSessionId with
  | none => exact ⟨rfl, fun i => row_storeEdges⟩
  | some sid => exact ⟨rfl, fun i => row_storeEntityEdge.trans row_storeEdges⟩

theorem annotates_applyStoreMetadata :
    Annotates id t (alone ctx (applyStoreMetadata input id) t).2 := by
  have hparent {t : IdeaTable} : Annotates id t (alone ctx (storeParent input id) t).2 := by
    unfold storeParent
    cases input.parentIdeaId with
    | none => exact .refl
    | some parentId => exact annotates_setParent
  have hproperties {t : IdeaTable} : Annotates id t (alone ctx (storeProperties input id) t).2 := by
    unfold storeProperties
    cases input.properties with
    | none => exact .refl
    | some properties => exact annotates_setRow fun _ => rfl
  have hkind {t : IdeaTable} : Annotates id t (alone ctx (storeKind input id) t).2 := by
    unfold storeKind
    cases input.kind with
    | none => exact .refl
    | some kind => exact annotates_setRow fun _ => rfl
  unfold applyStoreMetadata alone
  rw [Prog.solo_bind, Prog.solo_bind]
  exact hparent.trans (hproperties.trans hkind)

theorem creates_dispatchCreate
    (hfree : t.getActiveIdByName input.name input.agentId = none) :
    Creates input.agentId t (alone ctx (dispatchCreate input effective clock redactedContent) t).1
      (alone ctx (dispatchCreate input effective clock redactedContent) t).2 := by
  unfold dispatchCreate
  rw [alone_access]
  rcases @insertFullRow_cases ctx.toIdeasCtx t (buildStoreFull input effective clock redactedContent)
    (redactSecrets redactedContent) (normalizeTags ctx.toLowercase input.tags) clock.now with
    ⟨-, e, he⟩ | ⟨t', hadds, hok⟩
  · have hrun : (TableAccess.storeFull (buildStoreFull input effective clock redactedContent)
        clock.now).run ctx t = (.error e, { t with drawn := t.drawn + 1 }) := he
    have hlanded : (TableAccess.getActiveIdByName input.name input.agentId).run ctx
        { t with drawn := t.drawn + 1 } = (none, { t with drawn := t.drawn + 1 }) :=
      congrArg (·, _) hfree
    rw [hrun]
    simp only
    split
    · rw [alone_access, hlanded]
      exact fun _ => rfl
    · exact fun _ => rfl
  · have hrun : (TableAccess.storeFull (buildStoreFull input effective clock redactedContent)
        clock.now).run ctx t = (.ok (ctx.uuid t.drawn), t') := hok
    rw [hrun]
    obtain ⟨hresponse, hrows⟩ := @alone_finalizeWrite ctx input t' (ctx.uuid t.drawn) .create
    obtain ⟨r, hr, ⟨-, howner, -⟩, -⟩ := hadds.row
    rw [hresponse]
    exact ⟨hadds.unused, ⟨r, (hrows _).trans hr, howner⟩,
      fun i hi => (hrows i).trans (hadds.others i hi)⟩

theorem alone_dispatchMerge :
    (t.row id = none → alone ctx (dispatchMerge input effective clock redactedContent id) t =
      alone ctx (dispatchCreate input effective clock redactedContent) t) ∧
    (t.row id ≠ none → (alone ctx (dispatchMerge input effective clock redactedContent id) t).1 =
        .ok ⟨id, .merge, [], none⟩ ∧
      Annotates id t (alone ctx (dispatchMerge input effective clock redactedContent id) t).2) := by
  unfold dispatchMerge
  rw [alone_access]
  have hrun : (TableAccess.getById id).run ctx t = (t.row id, t) := rfl
  rw [hrun]
  cases t.row id with
  | none => exact ⟨fun _ => rfl, fun h => absurd rfl h⟩
  | some r =>
    refine ⟨fun h => (by cases h), fun _ => ?_⟩
    exact ⟨rfl, annotates_updateFull⟩

theorem alone_dispatchSupersede (hfree : t.getActiveIdByName input.name input.agentId = none) :
    ((∃ e, (alone ctx (dispatchSupersede input effective clock redactedContent id) t).1 = .error e) ∧
      (t.row id = none ∨ (t.row (ctx.uuid t.drawn)).isSome) ∧
      ∀ i, (alone ctx (dispatchSupersede input effective clock redactedContent id) t).2.row i =
        t.row i) ∨
    ∃ stored old, (alone ctx (dispatchSupersede input effective clock redactedContent id) t).1 =
        .ok stored ∧ t.row id = some old ∧ stored.id = ctx.uuid t.drawn ∧
      t.row (ctx.uuid t.drawn) = none ∧
      Owns (alone ctx (dispatchSupersede input effective clock redactedContent id) t).2 input.agentId
        (ctx.uuid t.drawn) ∧
      ∀ i, i ≠ ctx.uuid t.drawn →
        (alone ctx (dispatchSupersede input effective clock redactedContent id) t).2.row i =
          (flip t id).row i := by
  unfold dispatchSupersede
  rw [alone_access]
  rcases @supersedeAtomic_cases ctx.toIdeasCtx t id
    (buildStoreFull input effective clock redactedContent) clock.now with
    ⟨hcause, e, drawn, he⟩ | ⟨old, t', hold, hadds, hok⟩
  · have hrun : (TableAccess.supersedeAtomic id (buildStoreFull input effective clock redactedContent)
        clock.now).run ctx t = (.error e, { t with drawn }) := he
    rw [hrun]
    have hcause := hcause.imp_right fun h => h.resolve_right (not_nameTaken_flip hfree)
    exact .inl ⟨⟨_, rfl⟩, hcause, fun _ => rfl⟩
  · have hrun : (TableAccess.supersedeAtomic id (buildStoreFull input effective clock redactedContent)
        clock.now).run ctx t = (.ok (ctx.uuid t.drawn), t') := hok
    rw [hrun]
    obtain ⟨hresponse, hkept⟩ := @alone_finalizeWrite ctx input t' (ctx.uuid t.drawn) .supersede
    obtain ⟨r, hr, ⟨-, howner, -⟩, -⟩ := hadds.row
    exact .inr ⟨_, old, hresponse, hold, rfl, row_flip_eq_none.1 hadds.unused,
      ⟨r, (hkept _).trans hr, howner⟩, fun i hi => (hkept i).trans (hadds.others i hi)⟩

theorem alone_storeSameName {existing : IdeaRow} (hrow : t.row id = some existing) :
    ∃ stored, (alone ctx (storeSameName ctx input effective clock redactedContent id) t).1 =
        .ok stored ∧ stored.id = id ∧
      Annotates id t (alone ctx (storeSameName ctx input effective clock redactedContent id) t).2 := by
  unfold storeSameName
  rw [alone_access]
  have hrun : (TableAccess.getById id).run ctx t = (t.row id, t) := rfl
  rw [hrun, hrow]
  simp only
  split
  · unfold alone
    rw [Prog.solo_bind]
    exact ⟨_, rfl, rfl, annotates_applyStoreMetadata⟩
  · obtain ⟨hresponse, hannotates⟩ := (@alone_dispatchMerge ctx input effective clock redactedContent
      t id).2 (by rw [hrow]; exact some_ne_none existing)
    unfold alone at ⊢
    rw [Prog.solo_bind, hresponse]
    exact ⟨_, rfl, rfl, hannotates⟩

def similarIn (ctx : StoringCtx) (input : StoreRequest) (effective : EffectivePolicy)
    (clock : Reading) (redactedContent : String) (t : IdeaTable) : List SimilarIdea :=
  (alone ctx (findSimilarForDedup ctx input effective clock redactedContent) t).1

theorem alone_storeSimilar {similar : List SimilarIdea} {action : DedupAction}
    {response : StoreResponse}
    (hsimilar : similarIn ctx input effective clock redactedContent t = similar)
    (haction : decideDedup ctx.toLowercase input.name redactedContent similar = action)
    (hdispatch : alone ctx (dispatch input effective clock redactedContent similar action) t =
      (response, t')) :
    (∀ e, response = .error e →
      alone ctx (storeSimilar ctx input effective clock redactedContent) t = (.error e, t')) ∧
    ∀ stored, response = .ok stored → ∃ stored', stored'.id = stored.id ∧
      (alone ctx (storeSimilar ctx input effective clock redactedContent) t).1 = .ok stored' ∧
      Annotates stored.id t' (alone ctx (storeSimilar ctx input effective clock redactedContent) t).2 := by
  have hfind : (findSimilarForDedup ctx input effective clock redactedContent).solo
      (TableAccess.run ctx) t = (similar, t) := Prod.ext hsimilar rfl
  unfold alone at hdispatch ⊢
  unfold storeSimilar
  rw [Prog.solo_bind, hfind]
  rw [Prog.solo_bind, haction, hdispatch]
  cases response with
  | error e =>
    refine ⟨fun e' he => ?_, nofun⟩
    cases he
    rfl
  | ok stored =>
    refine ⟨fun _ h => (by cases h), fun stored' hstored => ?_⟩
    cases hstored
    simp only [withDedupReport, Except.map]
    rw [Prog.solo_bind]
    exact ⟨{ stored with dedup := some _ }, rfl, rfl, annotates_applyStoreMetadata⟩

/-! ### Targets -/

/-- The row that the call names or changes is the owner's, if there is one. To be superseded a row may
as well be superseded already, or the uuid of the new one in use. -/
def TargetsOwn (ctx : StoringCtx) (input : StoreRequest) (effective : EffectivePolicy)
    (clock : Reading) (redactedContent : String) (t : IdeaTable) : Prop :=
  let similar := similarIn ctx input effective clock redactedContent t
  match t.getActiveIdByName input.name input.agentId with
  | some id => Owns t input.agentId id
  | none =>
    match decideDedup ctx.toLowercase input.name redactedContent similar with
    | .skip => Owns t input.agentId (((topSimilar similar).map (·.id)).getD "")
    | .create => True
    | .merge id => ∀ r ∈ t.row id, r.agentId = input.agentId
    | .supersede id => ∀ r ∈ t.row id, r.agentId = input.agentId ∨ r.status = "superseded" ∨
        (t.row (ctx.uuid t.drawn)).isSome

theorem Creates.annotated {stored' : Stored} (h : Creates owner t (.ok stored) t')
    (hid : stored'.id = stored.id) (hannotates : Annotates stored.id t' t'') :
    Creates owner t (.ok stored') t'' := by
  obtain ⟨hnew, hown, hothers⟩ := h
  simp only [Creates, hid]
  exact ⟨hnew, hannotates.owns.2 hown, fun i hi => (hannotates.others i hi).trans (hothers i hi)⟩

theorem isolated_iff_of_supersedes {old : IdeaRow} (hold : t.row id = some old)
    (hnew : t.row stored.id = none) (hown : Owns t' owner stored.id)
    (hothers : ∀ i, i ≠ stored.id → t'.row i = (flip t id).row i) :
    Isolated owner t (.ok stored) t' ↔ old.agentId = owner ∨ old.status = "superseded" := by
  have hne : id ≠ stored.id := by
    rintro rfl
    cases hnew.symm.trans hold
  constructor
  · intro h
    by_cases howner : old.agentId = owner
    · exact .inl howner
    · obtain ⟨r', hr', -, -, hstatus, -⟩ := h.others id old hold howner
      rw [hothers id hne, row_setRow_self, hold] at hr'
      obtain rfl := some.inj hr'
      exact .inr hstatus.symm
  · intro h
    refine ⟨fun i r hr hother => ?_, fun stored' hstored => by cases hstored; exact hown⟩
    have hi : i ≠ stored.id := by
      rintro rfl
      cases hnew.symm.trans hr
    rw [hothers i hi, row_setRow]
    by_cases hid : i = id
    · subst hid
      obtain rfl := some.inj (hold.symm.trans hr)
      rw [if_pos rfl, hold]
      exact ⟨_, rfl, rfl, rfl, (h.resolve_left hother).symm, rfl, rfl, rfl⟩
    · rw [if_neg hid]
      exact ⟨r, hr, rfl, rfl, rfl, rfl, rfl, rfl⟩

section Similar

variable {similar : List SimilarIdea} {action : DedupAction} {stored : Stored}
  (hsimilar : similarIn ctx input effective clock redactedContent t = similar)
  (haction : decideDedup ctx.toLowercase input.name redactedContent similar = action)
include hsimilar haction

theorem isolated_of_creates (h : Creates owner t
      (alone ctx (dispatch input effective clock redactedContent similar action) t).1
      (alone ctx (dispatch input effective clock redactedContent similar action) t).2) :
    Isolated owner t
      (alone ctx (storeSimilar ctx input effective clock redactedContent) t).1
      (alone ctx (storeSimilar ctx input effective clock redactedContent) t).2 := by
  obtain ⟨herror, hok⟩ := @alone_storeSimilar ctx input effective clock redactedContent t _ _ _ _
    hsimilar haction rfl
  cases hresponse : (alone ctx (dispatch input effective clock redactedContent similar action) t).1 with
  | error e =>
    rw [herror e hresponse]
    rw [hresponse] at h
    exact isolated_error h
  | ok stored =>
    obtain ⟨stored', hid, hstored, hannotates⟩ := hok stored hresponse
    rw [hstored]
    rw [hresponse] at h
    exact (h.annotated hid hannotates).isolated

theorem isolated_iff_of_named
    (hresponse : (alone ctx (dispatch input effective clock redactedContent similar action) t).1 =
      .ok stored)
    (h : Annotates stored.id t
      (alone ctx (dispatch input effective clock redactedContent similar action) t).2) :
    Isolated owner t
      (alone ctx (storeSimilar ctx input effective clock redactedContent) t).1
      (alone ctx (storeSimilar ctx input effective clock redactedContent) t).2 ↔
        Owns t owner stored.id := by
  obtain ⟨stored', hid, hstored, hannotates⟩ := (@alone_storeSimilar ctx input effective clock
    redactedContent t _ _ _ _ hsimilar haction rfl).2 stored hresponse
  rw [hstored]
  rw [← hid] at h hannotates ⊢
  exact isolated_iff_of_annotates (h.trans hannotates)

end Similar

theorem isolated_dispatchSupersede (hfree : t.getActiveIdByName input.name input.agentId = none)
    {similar : List SimilarIdea}
    (hsimilar : similarIn ctx input effective clock redactedContent t = similar)
    (haction : decideDedup ctx.toLowercase input.name redactedContent similar = .supersede id) :
    Isolated input.agentId t
        (alone ctx (storeSimilar ctx input effective clock redactedContent) t).1
        (alone ctx (storeSimilar ctx input effective clock redactedContent) t).2 ↔
      ∀ r ∈ t.row id, r.agentId = input.agentId ∨ r.status = "superseded" ∨
        (t.row (ctx.uuid t.drawn)).isSome := by
  obtain ⟨herror, hok⟩ := @alone_storeSimilar ctx input effective clock redactedContent t _ _ _ _
    hsimilar haction rfl
  rcases @alone_dispatchSupersede ctx input effective clock redactedContent t id hfree with
    ⟨⟨e, he⟩, hcause, hrows⟩ | ⟨stored, old, hresponse, hold, hstoredId, hnew, howner, hrows⟩
  · rw [herror e he]
    refine iff_of_true (isolated_error hrows) fun r hr => ?_
    rcases hcause with hnone | hused
    · rw [hnone] at hr
      cases hr
    · exact .inr (.inr hused)
  · obtain ⟨stored', hid, hstored, hannotates⟩ := hok stored hresponse
    rw [hstored]
    have hunused := hnew
    rw [← hstoredId] at hunused howner hrows
    have hown : Owns (alone ctx (storeSimilar ctx input effective clock redactedContent) t).2
        input.agentId stored.id := hannotates.owns.2 howner
    rw [← hid] at hunused hown hannotates hrows
    rw [isolated_iff_of_supersedes hold hunused hown fun i hi =>
      (hannotates.others i hi).trans (hrows i hi)]
    simp [hold, hnew]

theorem isolated_storeSimilar_iff (hfree : t.getActiveIdByName input.name input.agentId = none) :
    Isolated input.agentId t
        (alone ctx (storeSimilar ctx input effective clock redactedContent) t).1
        (alone ctx (storeSimilar ctx input effective clock redactedContent) t).2 ↔
      TargetsOwn ctx input effective clock redactedContent t := by
  unfold TargetsOwn
  generalize hsimilar : similarIn ctx input effective clock redactedContent t = similar
  simp only [hfree]
  cases haction : decideDedup ctx.toLowercase input.name redactedContent similar with
  | skip => exact isolated_iff_of_named hsimilar haction rfl .refl
  | create =>
    exact iff_of_true (isolated_of_creates hsimilar haction (creates_dispatchCreate hfree)) trivial
  | merge id =>
    obtain ⟨hnone, hsome⟩ := @alone_dispatchMerge ctx input effective clock redactedContent t id
    cases hrow : t.row id with
    | none =>
      refine iff_of_true (isolated_of_creates hsimilar haction ?_) fun r hr => ?_
      · simp only [dispatch, hnone hrow]
        exact creates_dispatchCreate hfree
      · rw [hrow] at hr
        cases hr
    | some r =>
      obtain ⟨hresponse, hannotates⟩ := hsome (by rw [hrow]; exact some_ne_none r)
      rw [isolated_iff_of_named hsimilar haction hresponse hannotates]
      simp [Owns, hrow]
  | supersede id => exact isolated_dispatchSupersede hfree hsimilar haction

theorem isolated_storeParsed_iff :
    Isolated input.agentId t (alone ctx (storeParsed ctx input effective clock) t).1
        (alone ctx (storeParsed ctx input effective clock) t).2 ↔
      TargetsOwn ctx input effective clock (redactSecrets input.content) t := by
  unfold storeParsed
  rw [alone_access]
  have hrun : (TableAccess.getActiveIdByName input.name input.agentId).run ctx t =
      (t.getActiveIdByName input.name input.agentId, t) := rfl
  rw [hrun]
  cases hnamed : t.getActiveIdByName input.name input.agentId with
  | none => exact isolated_storeSimilar_iff hnamed
  | some id =>
    have hrow : (t.row id).isSome :=
      AList.lookup_isSome.2 (AList.mem_keys.2 (List.mem_of_find?_eq_some hnamed))
    obtain ⟨existing, hrow⟩ := isSome_iff_exists.1 hrow
    obtain ⟨stored, hresponse, rfl, hannotates⟩ := @alone_storeSameName ctx input effective clock
      (redactSecrets input.content) t id existing hrow
    simp only [TargetsOwn, hnamed]
    rw [hresponse]
    exact isolated_iff_of_annotates hannotates

theorem agentId_of_parse {debug : String → String} {req : StoreIdea}
    (h : parseStoreRequest debug req = .ok input) : input.agentId = requestField req.agentId := by
  unfold parseStoreRequest at h
  simp only at h
  split at h
  · cases h
  · cases hkind : parseKind debug req.kind with
    | error e =>
      rw [hkind] at h
      cases h
    | ok kind =>
      rw [hkind] at h
      cases h
      rfl

end Alone

section Search

variable {sctx : SearchCtx} {embeddings : Accounts String EmbeddingRow} {t : IdeaTable}

/-- `search`, as the deduplication reads it. -/
def similarSearch (sctx : SearchCtx) (embeddings : Accounts String EmbeddingRow) (t : IdeaTable)
    (query : SimilarQuery) : List FoundIdea :=
  (searchExplained sctx none ⟨t, embeddings⟩
    { text := query.text, topK := query.topK, agentId := query.agentId } none).map fun h =>
      ⟨h.id, h.idea.name, h.idea.content, h.idea.createdAt⟩

end Search

/-! ### A contradiction -/

def ownedSearch (t : IdeaTable) (query : SimilarQuery) : List FoundIdea :=
  t.rows.keys.filterMap fun id => ((t.row id).filter fun r =>
    query.agentId.all fun a => r.agentId = some a).map fun r => ⟨id, r.name, r.content, r.createdAt⟩

/-- The score of two bodies of which one has five words and the other one more. -/
def fridayCtx : StoringCtx := { plainCtx with
  lexicalSimilarity name content name' content' :=
    if name = name' then if content = content' then 1 else 14959684 / 2 ^ 24 else 0
  search := ownedSearch }

def annRow : IdeaRow where
  name := "deploy"
  content := "we deploy on friday evenings"
  agentId := some "ann"
  scope := .self
  status := "active"
  tags := ["fact"]
  contentHash := "h0"
  embeddingPending := false

def annTable : IdeaTable := ⟨(∅ : Accounts String IdeaRow).insert "note-0" annRow, [], 0⟩

end Aeqi.Ideas
