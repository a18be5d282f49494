import Aeqi.Ideas.Graph
import Aeqi.Ideas.Ownership

/-!
# Edges without ideas, and quests without them

No statement that writes an edge or a quest looks for the ideas it names, and of the two that delete
ideas one leaves the edges and neither looks at the quests: what a call has found before may be gone
by then. The graph is sound in every state of a run exactly if every statement was carried out
while what it names was there and what it deletes was not named.
-/

namespace Aeqi.Ideas

namespace IdeaTable

variable {ctx : IdeasCtx} {t : IdeaTable} {id id' : String} {f : IdeaRow → IdeaRow}

/-! ## Which rows are there -/

theorem isSome_setRow : ((t.setRow id f).row id').isSome = (t.row id').isSome := by
  rw [row_setRow]
  split
  · next h => rw [h, Option.isSome_map]
  · rfl

theorem foldl_setRow {γ : Type} {g : IdeaTable → γ} (hg : ∀ t c, g (t.setRow c f) = g t)
    (ids : List String) (t : IdeaTable) : g (ids.foldl (fun t c => t.setRow c f) t) = g t := by
  induction ids generalizing t with
  | nil => rfl
  | cons c ids ih => exact (ih _).trans (hg t c)

theorem isSome_deleteRow :
    ((t.deleteRow id).row id').isSome = true ↔ id' ≠ id ∧ (t.row id').isSome = true := by
  unfold deleteRow
  by_cases h : id' = id
  · subst h
    simp [row]
  · have hrest : ∀ t : IdeaTable, ({ t with rows := t.rows.erase id } : IdeaTable).row id' = t.row id' :=
      fun t => AList.lookup_erase_ne h
    rw [hrest, @foldl_setRow _ _ (fun t => (t.row id').isSome) fun _ _ => isSome_setRow]
    exact (and_iff_right h).symm

theorem edges_deleteRow : (t.deleteRow id).edges = t.edges :=
  @foldl_setRow _ _ edges (fun _ _ => edges_setRow) _ t

theorem deleteRows {ids : List String} :
    (((ids.foldl deleteRow t).row id').isSome = true ↔ id' ∉ ids ∧ (t.row id').isSome = true) ∧
      (ids.foldl deleteRow t).edges = t.edges := by
  induction ids generalizing t with
  | nil => simp
  | cons i ids ih =>
    obtain ⟨hrow, hedges⟩ := @ih (t.deleteRow i)
    refine ⟨?_, hedges.trans edges_deleteRow⟩
    rw [List.foldl_cons, hrow, isSome_deleteRow, List.mem_cons, not_or]
    tauto

theorem storeEdges_spec {edges : List EntityEdge} :
    (∀ id, (t.storeEdges edges).row id = t.row id) ∧
      ∀ e, e ∈ (t.storeEdges edges).edges ↔ e ∈ t.edges ∨ e ∈ edges := by
  induction edges generalizing t with
  | nil => simp [storeEdges]
  | cons e edges ih =>
    obtain ⟨hrow, hedges⟩ := @ih (t.storeEntityEdge e)
    refine ⟨fun id => (hrow id).trans row_storeEntityEdge, fun e' => (hedges e').trans ?_⟩
    have hstore : e' ∈ (t.storeEntityEdge e).edges ↔ e' ∈ t.edges ∨ e' = e := by
      unfold storeEntityEdge
      split
      · next hmem =>
        constructor
        · exact .inl
        · rintro (h | rfl)
          · exact h
          · exact hmem
      · simp
    rw [hstore, List.mem_cons, or_assoc]

theorem edges_insertFullRow {input : StoreFull} {content : String} {tags : List String} {now : Nat} :
    (t.insertFullRow ctx input content tags now).2.edges = t.edges := by
  unfold insertFullRow
  dsimp only
  split
  · rfl
  · split <;> rfl

theorem row_insertFullRow {input : StoreFull} {content : String} {tags : List String} {now : Nat} :
    (∀ id, (t.row id).isSome → ((t.insertFullRow ctx input content tags now).2.row id).isSome) ∧
      ∀ id, (t.insertFullRow ctx input content tags now).1 = .ok id →
        ((t.insertFullRow ctx input content tags now).2.row id).isSome := by
  rcases @insertFullRow_cases ctx t input content tags now with ⟨-, e, he⟩ | ⟨t', hadds, hok⟩
  · rw [he]
    exact ⟨fun _ h => h, nofun⟩
  · obtain ⟨r, hr, -⟩ := hadds.row
    rw [hok]
    refine ⟨fun id hid => ?_, fun id hid => ?_⟩
    · by_cases hne : id = ctx.uuid t.drawn
      · rw [hne, hr]
        rfl
      · rw [hadds.others id hne]
        exact hid
    · cases hid
      rw [hr]
      rfl

end IdeaTable

end Aeqi.Ideas

namespace Aeqi.IdeaGraph

open Aeqi.Lib Aeqi.Ideas List

/-! ## Soundness -/

def Present (t : IdeaTable) (kind id : String) : Prop := kind = "idea" → (t.row id).isSome = true

def Anchored (t : IdeaTable) (e : EntityEdge) : Prop :=
  Present t e.sourceKind e.sourceId ∧ Present t e.targetKind e.targetId

/-- No edge dangles, and no quest is without its idea. -/
structure Sound (g : Graph) : Prop where
  edges : ∀ e ∈ g.ideas.edges, Anchored g.ideas e
  quests : ∀ q ∈ g.quests, (g.ideas.row q.2).isSome = true

/-- What a statement names is there; what it deletes is not named. -/
def Timely : GraphAccess → Graph → Prop
  | .table (.storeEntityEdge e), g => Anchored g.ideas e
  | .reconcileInlineEdges _ edges, g => ∀ e ∈ edges, Anchored g.ideas e
  | .strengthenCoRetrieval ids, g => ∀ e ∈ coRetrieved ids, Anchored g.ideas e
  | .cleanupExpired now, g => ∀ id ∈ g.ideas.expiredIds now,
      (∀ e ∈ g.ideas.edges, e.touches id = false) ∧ ∀ q ∈ g.quests, q.2 ≠ id
  | .delete id, g => ∀ q ∈ g.quests, q.2 ≠ id
  | .insertQuest questId ideaId, g =>
      g.quests.any (·.1 = questId) = true ∨ (g.ideas.row ideaId).isSome = true
  | _, _ => True

section Steps

variable {g : Graph} {t t' : IdeaTable} {qs : List (String × String)} {id : String}
  {edges : List EntityEdge}

theorem anchored_iff_of_rows {e : EntityEdge} (h : ∀ id, t'.row id = t.row id) :
    Anchored t' e ↔ Anchored t e := by
  unfold Anchored Present
  rw [h, h]

theorem Sound.mono (h : Sound ⟨t, qs⟩) (hrows : ∀ id, (t.row id).isSome → (t'.row id).isSome)
    (hedges : ∀ e ∈ t'.edges, e ∈ t.edges ∨ Anchored t' e) : Sound ⟨t', qs⟩ where
  edges e he := by
    rcases hedges e he with hold | hnew
    · obtain ⟨hsource, htarget⟩ := h.edges e hold
      exact ⟨fun hk => hrows _ (hsource hk), fun hk => hrows _ (htarget hk)⟩
    · exact hnew
  quests q hq := hrows _ (h.quests q hq)

theorem Sound.setRow {f : IdeaRow → IdeaRow} (h : Sound ⟨t, qs⟩) : Sound ⟨t.setRow id f, qs⟩ :=
  h.mono (fun _ hid => IdeaTable.isSome_setRow.trans hid)
    fun _ he => .inl (IdeaTable.edges_setRow ▸ he)

theorem sound_storeEdges_iff {t₀ : IdeaTable} (h : Sound ⟨t, qs⟩) (hrows : ∀ id, t₀.row id = t.row id)
    (hedges : t₀.edges ⊆ t.edges) :
    Sound ⟨t₀.storeEdges edges, qs⟩ ↔ ∀ e ∈ edges, Anchored t e := by
  obtain ⟨hrow, hmem⟩ := @IdeaTable.storeEdges_spec t₀ edges
  have hsame : ∀ id, (t₀.storeEdges edges).row id = t.row id := fun id => (hrow id).trans (hrows id)
  constructor
  · intro hsound e he
    exact (anchored_iff_of_rows hsame).1 (hsound.edges e ((hmem e).2 (.inr he)))
  · intro hanchored
    refine h.mono (fun id hid => by rw [hsame]; exact hid) fun e he => ?_
    rcases (hmem e).1 he with hold | hnew
    · exact .inl (hedges hold)
    · exact .inr ((anchored_iff_of_rows hsame).2 (hanchored e hnew))

theorem sound_insertFullRow {ctx : IdeasCtx} {input : StoreFull} {content : String}
    {tags : List String} {now : Nat} (h : Sound ⟨t, qs⟩) :
    Sound ⟨(t.insertFullRow ctx input content tags now).2, qs⟩ :=
  h.mono IdeaTable.row_insertFullRow.1 fun _ he => .inl (IdeaTable.edges_insertFullRow ▸ he)

theorem sound_supersedeAtomic {ctx : IdeasCtx} {input : StoreFull} {now : Nat}
    (h : Sound ⟨t, qs⟩) : Sound ⟨(t.supersedeAtomic ctx id input now).2, qs⟩ := by
  unfold IdeaTable.supersedeAtomic
  cases hold : t.row id with
  | none => exact h
  | some old =>
    have hflipped : Sound ⟨t.setRow id ({ · with status := "superseded" }), qs⟩ := h.setRow
    have hinserted := @sound_insertFullRow _ qs ctx input (redactSecrets input.content)
      (normalizeTags ctx.toLowercase input.tags) now hflipped
    have hrows := @IdeaTable.row_insertFullRow ctx
      (t.setRow id ({ · with status := "superseded" })) input (redactSecrets input.content)
      (normalizeTags ctx.toLowercase input.tags) now
    have hid : ((t.setRow id ({ · with status := "superseded" })).row id).isSome = true := by
      rw [IdeaTable.isSome_setRow, hold]
      rfl
    dsimp only
    split
    · next e t₁ he =>
      exact ⟨fun e he => h.edges e he, h.quests⟩
    · next newId t₁ he =>
      rw [he] at hinserted hrows
      have hstored := (@sound_storeEdges_iff t₁ qs [⟨"idea", newId, "idea", id, "link"⟩] t₁ hinserted
        (fun _ => rfl) (List.Subset.refl _)).2
      refine hstored fun e he => ?_
      rw [mem_singleton.1 he]
      exact ⟨fun _ => hrows.2 newId rfl, fun _ => hrows.1 id hid⟩

theorem sound_table {ctx : StoringCtx} {a : TableAccess} (h : Sound ⟨t, qs⟩)
    (ha : ∀ e, a ≠ .storeEntityEdge e) : Sound ⟨(a.run ctx t).2, qs⟩ := by
  cases a with
  | getActiveIdByName name agentId | getById id | search query => exact h
  | storeFull input now => exact sound_insertFullRow h
  | updateFull id existing patch =>
    change Sound ⟨(t.updateFull ctx.toIdeasCtx id patch).2, qs⟩
    unfold IdeaTable.updateFull
    dsimp only
    split
    · exact h.setRow
    · exact h.setRow.setRow
  | supersedeAtomic oldId input now => exact sound_supersedeAtomic h
  | storeEntityEdge e => exact absurd rfl (ha e)
  | update id name content tags =>
    change Sound ⟨(t.update ctx.toIdeasCtx id name content tags).2, qs⟩
    unfold IdeaTable.update
    split
    · exact h
    · split
      · exact h
      · split
        · exact h
        · exact h.setRow
  | setParent id parentId =>
    change Sound ⟨(t.setParent id parentId).2, qs⟩
    unfold IdeaTable.setParent
    split
    · exact h
    · exact h.setRow
  | setProperties id properties | setKind id kind fileId | setExpiresAt id expiresAt
  | setScope id scope => exact h.setRow

theorem touches_eq_false {e : EntityEdge} : e.touches id = false ↔
    (e.sourceKind = "idea" → e.sourceId ≠ id) ∧ (e.targetKind = "idea" → e.targetId ≠ id) := by
  unfold EntityEdge.touches
  rw [decide_eq_false_iff_not]
  tauto

theorem anchored_of_fewer {ids : List String} {e : EntityEdge}
    (hrows : ∀ id, (t'.row id).isSome = true ↔ id ∉ ids ∧ (t.row id).isSome = true)
    (h : Anchored t e) : Anchored t' e ↔ ∀ id ∈ ids, e.touches id = false := by
  simp only [touches_eq_false]
  constructor
  · rintro ⟨hsource, htarget⟩ id hid
    refine ⟨fun hk heq => ?_, fun hk heq => ?_⟩
    · exact ((hrows _).1 (hsource hk)).1 (heq ▸ hid)
    · exact ((hrows _).1 (htarget hk)).1 (heq ▸ hid)
  · intro huntouched
    refine ⟨fun hk => (hrows _).2 ⟨fun hid => ?_, h.1 hk⟩,
      fun hk => (hrows _).2 ⟨fun hid => ?_, h.2 hk⟩⟩
    · exact (huntouched _ hid).1 hk rfl
    · exact (huntouched _ hid).2 hk rfl

theorem sound_fewer_iff {ids : List String} (h : Sound ⟨t, qs⟩)
    (hrows : ∀ id, (t'.row id).isSome = true ↔ id ∉ ids ∧ (t.row id).isSome = true)
    (hedges : t'.edges ⊆ t.edges) : Sound ⟨t', qs⟩ ↔
      (∀ e ∈ t'.edges, ∀ id ∈ ids, e.touches id = false) ∧ ∀ q ∈ qs, q.2 ∉ ids := by
  constructor
  · intro hsound
    refine ⟨fun e he => (anchored_of_fewer hrows (h.edges e (hedges he))).1 (hsound.edges e he),
      fun q hq => ((hrows _).1 (hsound.quests q hq)).1⟩
  · rintro ⟨huntouched, hquests⟩
    exact ⟨fun e he => (anchored_of_fewer hrows (h.edges e (hedges he))).2 (huntouched e he),
      fun q hq => (hrows _).2 ⟨hquests q hq, h.quests q hq⟩⟩

theorem sound_delete_iff (h : Sound ⟨t, qs⟩) :
    Sound ⟨t.delete id, qs⟩ ↔ ∀ q ∈ qs, q.2 ≠ id := by
  have hrows : ∀ id', ((t.delete id).row id').isSome = true ↔
      id' ∉ [id] ∧ (t.row id').isSome = true := fun id' => by
    rw [mem_singleton]
    exact IdeaTable.isSome_deleteRow
  have hedges : (t.delete id).edges = t.edges.filter fun e => ¬ e.touches id :=
    congrArg (List.filter _) IdeaTable.edges_deleteRow
  rw [sound_fewer_iff h hrows (by rw [hedges]; exact filter_sublist.subset), hedges]
  simp

theorem sound_cleanupExpired_iff {now : Nat} (h : Sound ⟨t, qs⟩) :
    Sound ⟨t.cleanupExpired now, qs⟩ ↔ ∀ id ∈ t.expiredIds now,
      (∀ e ∈ t.edges, e.touches id = false) ∧ ∀ q ∈ qs, q.2 ≠ id := by
  have hedges : (t.cleanupExpired now).edges = t.edges :=
    (@IdeaTable.deleteRows t "" (t.expiredIds now)).2
  have hrows : ∀ id, ((t.cleanupExpired now).row id).isSome = true ↔
      id ∉ t.expiredIds now ∧ (t.row id).isSome = true := fun _ => IdeaTable.deleteRows.1
  rw [sound_fewer_iff h hrows (hedges ▸ List.Subset.refl _), hedges]
  constructor
  · rintro ⟨huntouched, hquests⟩ id hid
    exact ⟨fun e he => huntouched e he id hid, fun q hq heq => hquests q hq (heq ▸ hid)⟩
  · intro hall
    exact ⟨fun e he id hid => (hall id hid).1 e he, fun q hq hid => (hall _ hid).2 q hq rfl⟩

/-- **A step is sound exactly if it is timely.** -/
theorem sound_step_iff {ctx : GraphCtx} {a : GraphAccess} (h : Sound g) :
    Sound (a.run ctx g).2 ↔ Timely a g := by
  obtain ⟨t, qs⟩ := g
  cases a with
  | table a =>
    by_cases hedge : ∃ e, a = .storeEntityEdge e
    · obtain ⟨e, rfl⟩ := hedge
      have hone := @sound_storeEdges_iff t qs [e] t h (fun _ => rfl) (List.Subset.refl _)
      exact hone.trans (by simp [Timely])
    · have hother : ∀ e, a ≠ .storeEntityEdge e := fun e he => hedge ⟨e, he⟩
      have htimely : Timely (.table a) ⟨t, qs⟩ := by
        cases a with
        | storeEntityEdge e => exact absurd rfl (hother e)
        | _ => trivial
      exact iff_of_true (sound_table h hother) htimely
  | visible agentId => exact iff_of_true h trivial
  | reconcileInlineEdges sourceId edges =>
    exact sound_storeEdges_iff h (fun _ => rfl) (filter_sublist.subset)
  | strengthenCoRetrieval ids =>
    exact sound_storeEdges_iff h (fun _ => rfl) (List.Subset.refl _)
  | cleanupExpired now => exact sound_cleanupExpired_iff h
  | findQuestsByIdeaId ideaId => exact iff_of_true h trivial
  | delete id => exact sound_delete_iff h
  | mintOrReuse name content tags agentId scope now =>
    refine iff_of_true ?_ trivial
    change Sound ⟨(GraphAccess.mint ctx name content tags agentId scope now t).2, qs⟩
    unfold GraphAccess.mint
    dsimp only
    split
    · exact h
    · exact sound_insertFullRow h
  | insertQuest questId ideaId =>
    by_cases hused : qs.any (·.1 = questId) = true
    · have hrun : (GraphAccess.run ctx (.insertQuest questId ideaId) ⟨t, qs⟩).2 = ⟨t, qs⟩ := by
        simp only [GraphAccess.run]
        rw [if_pos hused]
      rw [hrun]
      exact iff_of_true h (.inl hused)
    · have hrun : (GraphAccess.run ctx (.insertQuest questId ideaId) ⟨t, qs⟩).2 =
          ⟨t, qs ++ [(questId, ideaId)]⟩ := by
        simp only [GraphAccess.run]
        rw [if_neg hused]
      rw [hrun]
      constructor
      · intro hsound
        exact .inr (hsound.quests (questId, ideaId) (mem_append_right _ mem_cons_self))
      · rintro (hany | hthere)
        · exact absurd hany hused
        · refine ⟨h.edges, fun q hq => ?_⟩
          rcases mem_append.1 hq with hold | hnew
          · exact h.quests q hold
          · rw [mem_singleton.1 hnew]
            exact hthere

end Steps

/-! ## Runs -/

abbrev Working (ι : Type) := Pool Graph ι (GraphProg Unit)

def Working.start {ι : Type} (ctx : GraphCtx) (calls : ι → GraphCall) (g : Graph) : Working ι :=
  ⟨g, fun i => (calls i).prog ctx⟩

/-- **The graph is sound in every state of a run exactly if every step of it was timely.** -/
theorem sound_iff_timely {ι : Type} [DecidableEq ι] {ctx : GraphCtx} {calls : ι → GraphCall}
    {g : Graph} {hist : List (Working ι × ι)} {c : Working ι} (hg : Sound g)
    (run : Run (okStep (Pool.step (GraphAccess.run ctx))) (Working.start ctx calls g) hist c) :
    ((∀ e ∈ hist, Sound e.1.state) ∧ Sound c.state) ↔ ∀ e ∈ hist, Pool.NextMeets Timely e.1 e.2 :=
  (Pool.exact run hg fun _ _ h => sound_step_iff h).symm

/-! ## Runs on two ideas -/

def bareRow (name : String) : IdeaRow where
  name
  content := ""
  agentId := none
  scope := .global
  status := "active"
  tags := []
  contentHash := ""
  embeddingPending := false

def twoIdeas : Graph :=
  ⟨⟨((∅ : Accounts String IdeaRow).insert "idea-b" (bareRow "b")).insert "idea-a" (bareRow "a"),
    [], 0⟩, []⟩

/-- A search that finds everything. -/
def bareCtx : GraphCtx where
  toLowercase s := s
  contentHash s := s
  uuid n := "idea-" ++ n.repr
  debug s := s
  lexicalSimilarity _ _ _ _ := 0
  search t _ := t.rows.keys.map fun id => ⟨id, id, "", 0⟩
  visible t _ := t.rows.keys.map fun id => (id, id)

theorem sound_twoIdeas : Sound twoIdeas where
  edges _ hnot := nomatch hnot
  quests _ hnot := nomatch hnot

def linkCalls : Fin 2 → GraphCall
  | 0 => .link ⟨some "idea-a", some "idea-b", none, none⟩
  | 1 => .createQuest "as-001" 0 (.provided "idea-a")

/-- A link and a quest, while both ideas are there. -/
theorem linkCalls_sound : ∃ hist c,
    Run (okStep (Pool.step (GraphAccess.run bareCtx))) (Working.start bareCtx linkCalls twoIdeas)
      hist c ∧
    c.state.ideas.edges.length = 1 ∧ c.state.quests = [("as-001", "idea-a")] ∧ Sound c.state := by
  have run : ∃ hist c, Run (okStep (Pool.step (GraphAccess.run bareCtx)))
      (Working.start bareCtx linkCalls twoIdeas) hist c ∧
      (∀ e ∈ hist, Pool.NextMeets Timely e.1 e.2) ∧ c.state.ideas.edges.length = 1 ∧
        c.state.quests = [("as-001", "idea-a")] := by
    refine ⟨_, _, .step (i := (1 : Fin 2)) (.step (i := (0 : Fin 2)) (.step (i := (1 : Fin 2)) .nil
      rfl) rfl) rfl, ?_, rfl, rfl⟩
    intro e he
    rcases mem_cons.1 he with rfl | he
    · exact .inr rfl
    · rcases mem_cons.1 he with rfl | he
      · exact ⟨fun _ => rfl, fun _ => rfl⟩
      · rw [mem_singleton.1 he]
        exact trivial
  obtain ⟨hist, c, run, htimely, hedges, hquests⟩ := run
  exact ⟨hist, c, run, hedges, hquests, ((sound_iff_timely sound_twoIdeas run).2 htimely).2⟩

def searchCalls : Fin 2 → GraphCall
  | 0 => .search ⟨"", 10, none⟩
  | 1 => .delete "idea-a"

/-- An idea that a search has found is deleted before its co-retrieval is strengthened. -/
theorem not_sound_graph : ¬ ∀ (n : ℕ) ctx (calls : Fin n → GraphCall) g hist c, Sound g →
    Run (okStep (Pool.step (GraphAccess.run ctx))) (Working.start ctx calls g) hist c →
    Sound c.state := by
  intro hall
  have hfacts : (execAll (Pool.step (GraphAccess.run bareCtx))
      (Working.start bareCtx searchCalls twoIdeas) [0, 1, 1, 1, 0]).toOption.map (fun c =>
        (c.state.ideas.edges, (c.state.ideas.row "idea-a").isSome)) =
      some ([⟨"idea", "idea-a", "idea", "idea-b", "co_retrieved"⟩], false) := by
    decide +kernel
  obtain ⟨c, hc, hfacts⟩ := toOption_map_eq_some.1 hfacts
  obtain ⟨hedges, hrow⟩ := Prod.mk.inj hfacts
  obtain ⟨hist, run⟩ := Run.execAll hc
  have hsound := hall 2 bareCtx searchCalls twoIdeas hist c sound_twoIdeas run
  have hpresent := (hsound.edges _ (hedges ▸ mem_cons_self)).1 rfl
  rw [hrow] at hpresent
  cases hpresent

end Aeqi.IdeaGraph
