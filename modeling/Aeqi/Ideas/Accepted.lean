import Aeqi.Ideas.Kept

/-!
# Whether accepted writes are kept

A merge reads a row, appends to its body in memory and writes the whole of it back in a later step.
As long as the row is then as it was read, what an accepted call has written stays, whatever calls
run side by side; and a merge leaves the links of its request out. `accepted` says so for every run.
-/

namespace Aeqi.Ideas

open Aeqi.Lib List Option
open Prog (follows_bind minds_bind)

/-! ## Programs -/

def Holding (ctx : StoringCtx) (input : StoreRequest) (id : String) (t : IdeaTable) : Prop :=
  ∃ r, t.row id = some r ∧ (redactSecrets input.content).toList <:+: r.content.toList ∧
    Tagged ctx.toLowercase input.tags r.tags

def Linked (input : StoreRequest) (id : String) (t : IdeaTable) : Prop :=
  ∀ link ∈ input.links, ⟨"idea", id, link.targetKind, link.targetId, link.relation⟩ ∈ t.edges

/-- What an accepted call leaves in the table; a merge writes no links. -/
def Answers (ctx : StoringCtx) (input : StoreRequest) (response : StoreResponse)
    (t : IdeaTable) : Prop :=
  ∀ stored, response = .ok stored → stored.action ≠ .skip →
    Holding ctx input stored.id t ∧ (stored.action ≠ .merge → Linked input stored.id t)

section Answers

variable {ctx : StoringCtx} {input : StoreRequest} {response : StoreResponse} {id : String}
  {t t' : IdeaTable}

theorem Holding.kept (laws : LowercaseLaws ctx.toLowercase) (h : Holding ctx input id t)
    (hkept : Kept ctx.toLowercase t t') : Holding ctx input id t' := by
  obtain ⟨r, hr, hcontent, htags⟩ := h
  obtain ⟨r', hr', hgrown⟩ := hkept.rows id r hr
  refine ⟨r', hr', hcontent.trans hgrown.content, fun tag htag hblank => ?_⟩
  exact hgrown.tags _ (htags tag htag hblank) hblank (normalTag_normalTag laws)

theorem Linked.kept (h : Linked input id t) (hkept : Kept ctx.toLowercase t t') :
    Linked input id t' := fun link hlink => hkept.edges (h link hlink)

theorem Answers.kept (laws : LowercaseLaws ctx.toLowercase) (h : Answers ctx input response t)
    (hkept : Kept ctx.toLowercase t t') : Answers ctx input response t' := by
  intro stored hok hskip
  obtain ⟨hholding, hlinked⟩ := h stored hok hskip
  exact ⟨hholding.kept laws hkept, fun hmerge => (hlinked hmerge).kept hkept⟩

theorem answers_error {e : String} : Answers ctx input (.error e) t :=
  nofun

theorem answers_skip {stored : Stored} (h : stored.action = .skip) :
    Answers ctx input (.ok stored) t := by
  intro stored' hok hskip
  obtain rfl := Except.ok.inj hok
  exact absurd h hskip

theorem Answers.withDedupReport {report : DedupReport} (h : Answers ctx input response t) :
    Answers ctx input (withDedupReport response report) t := by
  intro stored hok hskip
  cases response with
  | error e => cases hok
  | ok stored' =>
    obtain rfl := Except.ok.inj hok
    exact h stored' rfl hskip

end Answers

abbrev Keeps {α : Type} (ctx : StoringCtx) (p : IdeaProg α) (t : IdeaTable)
    (Q : α → IdeaTable → Prop) : Prop := p.Minds (keeping ctx) t Q

section Programs

variable {ctx : StoringCtx} {input : StoreRequest} {effective : EffectivePolicy} {clock : Reading}
  {id : String} {t : IdeaTable}

theorem keeps_pure {α : Type} {x : α} {Q : α → IdeaTable → Prop}
    (h : ∀ t', Kept ctx.toLowercase t t' → Q x t') : Keeps ctx (pure x) t Q :=
  fun t' hkept _ => h t' hkept

theorem keeps_access {a : TableAccess} (ha : ∀ lower, a.OnlyAppends lower) :
    Keeps ctx (access a) t fun _ _ => True :=
  fun _ _ _ _ => ⟨ha _, fun _ _ _ => trivial⟩

theorem mem_storeEntityEdge {e : EntityEdge} : e ∈ (t.storeEntityEdge e).edges := by
  unfold IdeaTable.storeEntityEdge
  split
  · assumption
  · exact mem_append_right _ (mem_singleton_self e)

theorem keeps_storeEdges {links : List StoreLinkRequest} :
    Keeps ctx (storeEdges id links) t fun _ t' => ∀ link ∈ links,
      ⟨"idea", id, link.targetKind, link.targetId, link.relation⟩ ∈ t'.edges := by
  induction links generalizing t with
  | nil => exact keeps_pure nofun
  | cons link links ih =>
    intro t' hkept hdistinct _
    refine ⟨trivial, (Prog.Minds.since ih).mono ?_⟩
    intro _ u hrest link' hlink'
    obtain ⟨hlinks, hmay⟩ := hrest
    rcases mem_cons.1 hlink' with rfl | hlink'
    · exact Kept.edges hmay mem_storeEntityEdge
    · exact hlinks link' hlink'

theorem keeps_finalizeWrite (laws : LowercaseLaws ctx.toLowercase) {action : StoreAction}
    (h : Holding ctx input id t) :
    Keeps ctx (finalizeWrite input id action) t (Answers ctx input) := by
  refine minds_bind.2 ((Prog.Minds.since keeps_storeEdges).mono fun _ t' hedges _ => ?_)
  obtain ⟨hlinked, hmay⟩ := hedges
  have hanswers : Answers ctx input (.ok ⟨id, action, input.linkErrors, none⟩) t' := by
    intro stored hok _
    obtain rfl := Except.ok.inj hok
    exact ⟨h.kept laws hmay, fun _ => hlinked⟩
  split
  · exact keeps_pure fun u hkept => hanswers.kept laws hkept
  · next sid _ =>
    have hedge : Keeps ctx (access (.storeEntityEdge ⟨"idea", id, "session", sid, "link"⟩)) t'
        fun _ _ => True := keeps_access fun _ => trivial
    refine minds_bind.2 ((Prog.Minds.since hedge).mono fun _ u hrest _ => ?_)
    exact keeps_pure fun v hkept => (hanswers.kept laws hrest.2).kept laws hkept

theorem Adds.holding {full : StoreFull} {t' : IdeaTable}
    (hcontent : full.content = redactSecrets input.content) (htags : full.tags = input.tags)
    (h : Adds full (redactSecrets full.content) (normalizeTags ctx.toLowercase full.tags) id t t') :
    Holding ctx input id t' := by
  obtain ⟨r, hr, -, hbody, hstored⟩ := h.row
  refine ⟨r, hr, ?_, ?_⟩
  · rw [hbody, hcontent, clean_redactSecrets]
  · rw [hstored, htags]
    exact tagged_normalizeTags

theorem keeps_storeFull (laws : LowercaseLaws ctx.toLowercase) :
    Keeps ctx (access (.storeFull
      (buildStoreFull input effective clock (redactSecrets input.content)) clock.now)) t
      fun (stored : Except TableError String) u => ∀ id, stored = .ok id → Holding ctx input id u := by
  intro t' _ _ _
  refine ⟨trivial, fun u hkept _ id hok => ?_⟩
  refine Holding.kept laws ?_ hkept
  rcases @insertFullRow_cases ctx.toIdeasCtx t'
    (buildStoreFull input effective clock (redactSecrets input.content))
    (redactSecrets (redactSecrets input.content)) (normalizeTags ctx.toLowercase input.tags)
    clock.now with ⟨-, e, he⟩ | ⟨u, hadds, hadded⟩
  · cases (congrArg Prod.fst he).symm.trans hok
  · obtain rfl := Except.ok.inj ((congrArg Prod.fst hadded).symm.trans hok)
    have hholding : Holding ctx input _ u := Adds.holding rfl rfl hadds
    exact (congrArg Prod.snd hadded) ▸ hholding

theorem keeps_supersedeAtomic (laws : LowercaseLaws ctx.toLowercase) {oldId : String} :
    Keeps ctx (access (.supersedeAtomic oldId
      (buildStoreFull input effective clock (redactSecrets input.content)) clock.now)) t
      fun (stored : Except TableError String) u => ∀ id, stored = .ok id → Holding ctx input id u := by
  intro t' _ _ _
  refine ⟨trivial, fun u hkept _ id hok => ?_⟩
  refine Holding.kept laws ?_ hkept
  rcases @supersedeAtomic_cases ctx.toIdeasCtx t' oldId
    (buildStoreFull input effective clock (redactSecrets input.content)) clock.now with
    ⟨-, e, drawn, he⟩ | ⟨-, u, -, hadds, hadded⟩
  · cases (congrArg Prod.fst he).symm.trans hok
  · obtain rfl := Except.ok.inj ((congrArg Prod.fst hadded).symm.trans hok)
    have hholding : Holding ctx input _ u := Adds.holding rfl rfl hadds
    exact (congrArg Prod.snd hadded) ▸ hholding

theorem keeps_dispatchCreate (laws : LowercaseLaws ctx.toLowercase) :
    Keeps ctx (dispatchCreate input effective clock (redactSecrets input.content)) t
      (Answers ctx input) := by
  refine minds_bind.2 ((keeps_storeFull laws).mono fun stored t' hstored _ => ?_)
  cases stored with
  | ok id => exact keeps_finalizeWrite laws (hstored id rfl)
  | error e =>
    simp only
    split
    · have hlook : Keeps ctx (access (.getActiveIdByName input.name input.agentId)) t'
          fun _ _ => True := keeps_access fun _ => trivial
      refine minds_bind.2 (Prog.Minds.mono hlook fun landed u _ _ => ?_)
      split
      · exact keeps_pure fun _ _ => answers_skip rfl
      · exact keeps_pure fun _ _ => answers_error
    · exact keeps_pure fun _ _ => answers_error

theorem keeps_dispatchSupersede (laws : LowercaseLaws ctx.toLowercase) :
    Keeps ctx (dispatchSupersede input effective clock (redactSecrets input.content) id) t
      (Answers ctx input) := by
  refine minds_bind.2 ((keeps_supersedeAtomic laws).mono fun stored t' hstored _ => ?_)
  cases stored with
  | ok id => exact keeps_finalizeWrite laws (hstored id rfl)
  | error e => exact keeps_pure fun _ _ => answers_error

theorem appends_mergePatch {lower : String → String} {existing : IdeaRow} :
    Appends lower existing (mergePatch input clock (redactSecrets input.content) existing) := by
  refine ⟨rfl, ⟨_, rfl, ?_⟩, _, rfl, subset_tagUnion⟩
  simp only [mergedContent, String.toList_append, List.append_assoc]
  exact (prefix_append _ _).isInfix

theorem holding_updateFull (laws : LowercaseLaws ctx.toLowercase) {existing r : IdeaRow}
    (hr : t.row id = some r) : Holding ctx input id (t.updateFull ctx.toIdeasCtx id
      (mergePatch input clock (redactSecrets input.content) existing)).2 := by
  rw [updateFull_snd rfl]
  refine ⟨_, by rw [IdeaTable.row_setRow_self, IdeaTable.row_setRow_self, hr]; rfl, ?_, ?_⟩
  · simp only [IdeaTable.patched, mergePatch, getD_some, mergedContent, String.toList_append]
    exact (suffix_append _ _).isInfix
  · exact tagged_tagUnion laws

theorem keeps_dispatchMerge (laws : LowercaseLaws ctx.toLowercase) :
    Keeps ctx (dispatchMerge input effective clock (redactSecrets input.content) id) t
      (Answers ctx input) := by
  intro t' _ _ _
  refine ⟨trivial, ?_⟩
  have hread : ((keeping ctx).run (.getById id) t').1 = t'.row id := rfl
  generalize hfound : ((keeping ctx).run (.getById id) t').1 = found
  cases found with
  | none => exact keeps_dispatchCreate laws
  | some existing =>
    intro u hkept _ _
    refine ⟨appends_mergePatch, ?_⟩
    obtain ⟨r, hr, -⟩ := Kept.rows hkept id existing (hread.symm.trans hfound)
    have hholding : Holding ctx input id ((keeping ctx).run (.updateFull id existing
        (mergePatch input clock (redactSecrets input.content) existing)) u).2 :=
      holding_updateFull laws hr
    exact keeps_pure fun v hkept' stored hstored _ => by
      obtain rfl := Except.ok.inj hstored
      exact ⟨hholding.kept laws hkept', fun hmerge => absurd rfl hmerge⟩

theorem keeps_applyStoreMetadata : Keeps ctx (applyStoreMetadata input id) t fun _ _ => True := by
  have hparent (t : IdeaTable) : Keeps ctx (storeParent input id) t fun _ _ => True := by
    unfold storeParent
    split
    · exact keeps_pure fun _ _ => trivial
    · exact keeps_access fun _ => trivial
  have hproperties (t : IdeaTable) : Keeps ctx (storeProperties input id) t fun _ _ => True := by
    unfold storeProperties
    split
    · exact keeps_pure fun _ _ => trivial
    · exact keeps_access fun _ => trivial
  have hkind (t : IdeaTable) : Keeps ctx (storeKind input id) t fun _ _ => True := by
    unfold storeKind
    split
    · exact keeps_pure fun _ _ => trivial
    · exact keeps_access fun _ => trivial
  refine minds_bind.2 ((hparent t).mono fun _ t' _ _ => ?_)
  exact minds_bind.2 ((hproperties t').mono fun _ u _ _ => hkind u)

theorem keeps_storeSameName (laws : LowercaseLaws ctx.toLowercase) :
    Keeps ctx (storeSameName ctx input effective clock (redactSecrets input.content) id) t
      (Answers ctx input) := by
  have hread : Keeps ctx (access (.getById id)) t fun _ _ => True := keeps_access fun _ => trivial
  refine minds_bind.2 (Prog.Minds.mono hread fun found t' _ _ => ?_)
  cases found with
  | none =>
    refine minds_bind.2 (Prog.Minds.mono keeps_applyStoreMetadata fun _ u _ _ => ?_)
    exact keeps_pure fun _ _ => answers_skip rfl
  | some existing =>
    simp only
    split
    · refine minds_bind.2 (Prog.Minds.mono keeps_applyStoreMetadata fun _ u _ _ => ?_)
      exact keeps_pure fun _ _ => answers_skip rfl
    · refine minds_bind.2 ((keeps_dispatchMerge laws).mono fun response u hanswers _ => ?_)
      exact keeps_pure fun _ hkept => (hanswers.kept laws hkept).withDedupReport

theorem keeps_dispatch (laws : LowercaseLaws ctx.toLowercase) {similar : List SimilarIdea}
    (action : DedupAction) :
    Keeps ctx (dispatch input effective clock (redactSecrets input.content) similar action) t
      (Answers ctx input) := by
  cases action with
  | skip => exact keeps_pure fun _ _ => answers_skip rfl
  | create => exact keeps_dispatchCreate laws
  | merge existingId => exact keeps_dispatchMerge laws
  | supersede oldId => exact keeps_dispatchSupersede laws

theorem keeps_storeSimilar (laws : LowercaseLaws ctx.toLowercase) :
    Keeps ctx (storeSimilar ctx input effective clock (redactSecrets input.content)) t
      (Answers ctx input) := by
  have hsimilar : Keeps ctx (findSimilarForDedup ctx input effective clock
      (redactSecrets input.content)) t fun _ _ => True :=
    fun _ _ _ _ => ⟨trivial, fun _ _ _ => trivial⟩
  refine minds_bind.2 (Prog.Minds.mono hsimilar fun similar t' _ _ => ?_)
  refine minds_bind.2 ((keeps_dispatch laws _).mono fun response u hanswers _ => ?_)
  cases response with
  | error e => exact keeps_pure fun _ _ => answers_error
  | ok stored =>
    refine minds_bind.2 ((Prog.Minds.since keeps_applyStoreMetadata).mono ?_)
    intro _ v hrest _
    exact keeps_pure fun _ hkept =>
      ((hanswers.kept laws hrest.2).kept laws hkept).withDedupReport

theorem keeps_handleStoreIdea (laws : LowercaseLaws ctx.toLowercase) {req : StoreIdea} :
    Keeps ctx (handleStoreIdea ctx effective clock req) t fun response t' =>
      ∀ input, parseStoreRequest ctx.debug req = .ok input → Answers ctx input response t' := by
  unfold handleStoreIdea
  split
  · exact keeps_pure fun _ _ _ _ => answers_error
  · next input hinput =>
    have hlook : Keeps ctx (access (.getActiveIdByName input.name input.agentId)) t
        fun _ _ => True := keeps_access fun _ => trivial
    refine Prog.Minds.mono (Q := Answers ctx input) ?_ fun response t' hanswers input' hinput' => ?_
    · refine minds_bind.2 (Prog.Minds.mono hlook fun found t' _ _ => ?_)
      cases found with
      | some existingId => exact keeps_storeSameName laws
      | none => exact keeps_storeSimilar laws
    · obtain rfl := Except.ok.inj (hinput.symm.trans hinput')
      exact hanswers

end Programs

/-! ## Which calls have merged -/

def TableAccess.isMerge : TableAccess → Bool
  | .updateFull .. => true
  | _ => false

/-- The phase says whether a merge was written. -/
def noting : Protocol TableAccess TableAccess.Reply Bool := fun g a _ g' => g' = (g || a.isMerge)

/-- A response that says merge comes after a merge. -/
def Notes (p : IdeaProg StoreResponse) : Prop :=
  ∀ g, p.Follows noting g fun g' response => (g = true → g' = true) ∧
    ∀ stored, response = .ok stored → stored.action = .merge → g' = true

section Notes

variable {ctx : StoringCtx} {input : StoreRequest} {effective : EffectivePolicy} {clock : Reading}
  {content id : String}

theorem follows_noting {α : Type} (p : IdeaProg α) (g : Bool) :
    p.Follows noting g fun g' _ => g = true → g' = true := by
  induction p generalizing g with
  | done x => exact id
  | act a k ih =>
    intro r
    refine ⟨_, rfl, (ih r _).mono fun g' _ hg' hg => hg' ?_⟩
    rw [hg, Bool.true_or]

theorem notes_pure {response : StoreResponse}
    (h : ∀ stored, response = .ok stored → stored.action ≠ .merge) : Notes (pure response) :=
  fun _ => ⟨id, fun stored hok hmerge => absurd hmerge (h stored hok)⟩

theorem notes_error {e : String} : Notes (pure (.error e)) :=
  notes_pure nofun

theorem notes_ok {stored : Stored} (h : stored.action ≠ .merge) : Notes (pure (.ok stored)) :=
  notes_pure fun _ hok => Except.ok.inj hok ▸ h

theorem notes_bind {α : Type} {p : IdeaProg α} {f : α → IdeaProg StoreResponse}
    (hf : ∀ x, Notes (f x)) : Notes (p >>= f) := fun g =>
  follows_bind.2 ((follows_noting p g).mono fun g' x hg' =>
    (hf x g').mono fun _ _ hx => ⟨fun hg => hx.1 (hg' hg), hx.2⟩)

theorem notes_handOn {p : IdeaProg StoreResponse} {f : StoreResponse → IdeaProg StoreResponse}
    (hp : Notes p) (hf : ∀ response g, (f response).Follows noting g fun g' response' =>
      (g = true → g' = true) ∧ ∀ stored', response' = .ok stored' → stored'.action = .merge →
        ∃ stored, response = .ok stored ∧ stored.action = .merge) : Notes (p >>= f) := by
  refine fun g => follows_bind.2 ((hp g).mono fun g₁ response hresponse => ?_)
  refine (hf response g₁).mono fun g₂ response' hhanded => ⟨fun hg => ?_, ?_⟩
  · exact hhanded.1 (hresponse.1 hg)
  · intro stored' hok hmerge
    obtain ⟨stored, hstored, hmerged⟩ := hhanded.2 stored' hok hmerge
    exact hhanded.1 (hresponse.2 stored hstored hmerged)

theorem withDedupReport_merge {response : StoreResponse} {report : DedupReport} {stored' : Stored}
    (hok : withDedupReport response report = .ok stored') (hmerge : stored'.action = .merge) :
    ∃ stored, response = .ok stored ∧ stored.action = .merge := by
  cases response with
  | error e => cases hok
  | ok stored =>
    obtain rfl := Except.ok.inj hok
    exact ⟨stored, rfl, hmerge⟩

theorem notes_finalizeWrite {action : StoreAction} (haction : action ≠ .merge) :
    Notes (finalizeWrite input id action) := by
  refine notes_bind fun _ => ?_
  split
  · exact notes_ok haction
  · exact notes_bind fun _ => notes_ok haction

theorem notes_dispatchCreate : Notes (dispatchCreate input effective clock content) := by
  refine notes_bind fun stored => ?_
  split
  · exact notes_finalizeWrite (by decide)
  split
  · refine notes_bind fun landed => ?_
    split
    · exact notes_ok (by simp)
    · exact notes_error
  · exact notes_error

theorem notes_dispatchMerge : Notes (dispatchMerge input effective clock content id) := by
  refine notes_bind fun found => ?_
  split
  · exact notes_dispatchCreate
  · intro g updated
    refine ⟨_, rfl, ?_⟩
    have hnoted : ∀ response : StoreResponse, (pure response : IdeaProg StoreResponse).Follows
        noting (g || true) fun g' response => (g = true → g' = true) ∧
          ∀ stored, response = .ok stored → stored.action = .merge → g' = true :=
      fun _ => ⟨fun _ => Bool.or_true g, fun _ _ _ => Bool.or_true g⟩
    cases updated <;> exact hnoted _

theorem notes_dispatchSupersede : Notes (dispatchSupersede input effective clock content id) := by
  refine notes_bind fun stored => ?_
  split
  · exact notes_error
  · exact notes_finalizeWrite (by decide)

theorem notes_storeSameName : Notes (storeSameName ctx input effective clock content id) := by
  refine notes_bind fun found => ?_
  split
  · exact notes_bind fun _ => notes_ok (by simp)
  · simp only
    split
    · exact notes_bind fun _ => notes_ok (by simp)
    · exact notes_handOn notes_dispatchMerge fun response g =>
        ⟨fun hg => hg, fun _ hok hmerge => withDedupReport_merge hok hmerge⟩

theorem notes_dispatch {similar : List SimilarIdea} (action : DedupAction) :
    Notes (dispatch input effective clock content similar action) := by
  cases action with
  | skip => exact notes_ok (by simp)
  | create => exact notes_dispatchCreate
  | merge existingId => exact notes_dispatchMerge
  | supersede oldId => exact notes_dispatchSupersede

theorem notes_storeSimilar : Notes (storeSimilar ctx input effective clock content) := by
  refine notes_bind fun similar => notes_handOn (notes_dispatch _) fun response g => ?_
  cases response with
  | error e => exact ⟨id, nofun⟩
  | ok stored =>
    refine follows_bind.2 ((follows_noting _ g).mono fun g' _ hg' => ⟨hg', ?_⟩)
    exact fun _ hok hmerge => withDedupReport_merge hok hmerge

theorem notes_handleStoreIdea {req : StoreIdea} :
    Notes (handleStoreIdea ctx effective clock req) := by
  unfold handleStoreIdea
  split
  · exact notes_error
  · refine notes_bind fun found => ?_
    split
    · exact notes_storeSameName
    · exact notes_storeSimilar

end Notes

/-! ## Every run -/

/-- A call of `handle_store_idea`. -/
structure StoreCall where
  effective : EffectivePolicy := {}
  clock : Reading
  req : StoreIdea

def StoreCall.program (ctx : StoringCtx) (call : StoreCall) : IdeaProg StoreResponse :=
  handleStoreIdea ctx call.effective call.clock call.req

def StoreCall.links (ctx : StoringCtx) (call : StoreCall) : List StoreLinkRequest :=
  (parseStoreRequest ctx.debug call.req).toOption.elim [] (·.links)

abbrev Storers (ι : Type) := Pool IdeaTable ι (IdeaProg StoreResponse)

def Storers.start {ι : Type} (ctx : StoringCtx) (calls : ι → StoreCall) (t : IdeaTable) :
    Storers ι :=
  ⟨t, fun i => (calls i).program ctx⟩

/-- A merge is written for a request without links, and finds the row as it was read. -/
def MergesWell {ι : Type} (ctx : StoringCtx) (calls : ι → StoreCall) (c : Storers ι) (i : ι) :
    Prop :=
  Pool.NextMeets (fun a t => a.AsRead t ∧ (a.isMerge = true → (calls i).links ctx = [])) c i

instance MergesWell.decidable {ι : Type} (ctx : StoringCtx) (calls : ι → StoreCall)
    (c : Storers ι) (i : ι) : Decidable (MergesWell ctx calls c i) := by
  unfold MergesWell
  infer_instance

section Run

variable {ι : Type} [DecidableEq ι] {ctx : StoringCtx} {calls : ι → StoreCall} {t : IdeaTable}
  {hist : List (Storers ι × ι)} {c : Storers ι}

omit [DecidableEq ι] in
theorem merges_of_head {a : TableAccess} {i : ι} (h : MergesWell ctx calls c i)
    (hhead : (c.threads i).head = some a) :
    a.AsRead c.state ∧ (a.isMerge = true → (calls i).links ctx = []) := by
  unfold MergesWell Pool.NextMeets at h
  cases hthread : c.threads i with
  | done x =>
    rw [hthread] at hhead
    cases hhead
  | act b k =>
    rw [hthread] at h hhead
    obtain rfl := some.inj hhead
    exact h

theorem links_of_merge
    (run : Run (Guarded (MergesWell ctx calls) (okStep (Pool.step (TableAccess.run ctx))))
      (Storers.start ctx calls t) hist c) {i : ι} {stored : Stored}
    (hi : (c.threads i).result = some (.ok stored)) (hmerge : stored.action = .merge) :
    (calls i).links ctx = [] := by
  have hnotes (i : ι) : ((calls i).program ctx).Follows noting false fun g' response =>
      ∀ stored, response = .ok stored → stored.action = .merge → g' = true :=
    (notes_handleStoreIdea false).mono fun _ _ h => h.2
  obtain ⟨g, hnoted, hfollows⟩ := run.follows
    (I := fun _ g => ∀ i, g i = true → (calls i).links ctx = [])
    ⟨fun _ => false, nofun, hnotes⟩
    fun s g i a g' hgood hhead _ hg hmove j hj => by
      by_cases hji : j = i
      · subst hji
        rw [Function.update_self, hmove, Bool.or_eq_true] at hj
        exact hj.elim (hg j) (merges_of_head hgood hhead).2
      · rw [Function.update_of_ne hji] at hj
        exact hg j hj
  have hthread := hfollows i
  rw [Prog.result_eq_some.1 hi] at hthread
  exact hnoted i (hthread stored rfl hmerge)

/-- **No accepted write is lost** in a run whose merges are written as `MergesWell` says. -/
theorem accepted (laws : LowercaseLaws ctx.toLowercase) (ht : Distinct t)
    (run : Run (Guarded (MergesWell ctx calls) (okStep (Pool.step (TableAccess.run ctx))))
      (Storers.start ctx calls t) hist c) :
    Distinct c.state ∧ (∀ e ∈ hist, Kept ctx.toLowercase e.1.state c.state) ∧
    ∀ i input stored, parseStoreRequest ctx.debug (calls i).req = .ok input →
      (c.threads i).result = some (.ok stored) → stored.action ≠ .skip →
      Holding ctx input stored.id c.state ∧ Linked input stored.id c.state := by
  have hguarded : Run (Guarded (Pool.NextMeets (keeping ctx).good)
      (okStep (Pool.step (keeping ctx).run))) (Storers.start ctx calls t) hist c := by
    obtain ⟨hrun, hgood⟩ := Run.guarded_iff.1 run
    exact Run.guarded_iff.2 ⟨hrun, fun e he => (hgood e he).mono fun _ _ h => h.1⟩
  have hminds (i : ι) : Keeps ctx ((calls i).program ctx) t fun response t' =>
      ∀ input, parseStoreRequest ctx.debug (calls i).req = .ok input →
        Answers ctx input response t' := keeps_handleStoreIdea laws
  obtain ⟨hdistinct, hthreads⟩ := hguarded.minds ht hminds
  refine ⟨hdistinct, hguarded.moves ht hminds, fun i input stored hinput hi hskip => ?_⟩
  have hthread := hthreads i
  rw [Prog.result_eq_some.1 hi] at hthread
  obtain ⟨hholding, hlinked⟩ := hthread.of_done hdistinct input hinput stored rfl hskip
  refine ⟨hholding, ?_⟩
  by_cases hmerge : stored.action = .merge
  · have hlinks := links_of_merge run hi hmerge
    unfold StoreCall.links at hlinks
    rw [hinput] at hlinks
    intro link hlink
    have hnone : input.links = [] := hlinks
    rw [hnone] at hlink
    exact nomatch hlink
  · exact hlinked hmerge

end Run

/-! ### Two merges -/

theorem distinct_emptyTable : Distinct emptyTable := fun id name agentId h =>
  absurd h (by simp [IdeaTable.isNamed, IdeaTable.row, emptyTable])

/-- One idea and two changes to it. -/
abbrev deployCalls (clock : Nat → Reading) : Fin 3 → StoreCall :=
  ![{ clock := clock 0
      req := { name := some "deploy", content := some "on fridays", tags := some ["Ops"] } },
    { clock := clock 1
      req := { name := some "deploy", content := some "after lunch", tags := some ["food"] } },
    { clock := clock 2
      req := { name := some "deploy", content := some "with care" } }]

abbrev deployed (clock : Nat → Reading) (schedule : List (Fin 3)) :
    Except Unit (Storers (Fin 3)) :=
  execAll (Pool.step (TableAccess.run plainCtx))
    (Storers.start plainCtx (deployCalls clock) emptyTable) schedule

/-- One call after the other. -/
theorem deployCalls_accepted : ∃ clock c, deployed clock [0, 0, 0, 1, 1, 1, 1, 2, 2, 2, 2] = .ok c ∧
    (∀ i, ∃ stored, (c.threads i).result = some (.ok stored) ∧ stored.action ≠ .skip) ∧
    Distinct c.state ∧ ∀ i input stored,
      parseStoreRequest plainCtx.debug (deployCalls clock i).req = .ok input →
      (c.threads i).result = some (.ok stored) → stored.action ≠ .skip →
      Holding plainCtx input stored.id c.state ∧ Linked input stored.id c.state := by
  let clock (n : Nat) : Reading := ⟨n, ⟨2026, 5, 14, 0, 0, 0, 0⟩⟩
  have hgood : AllGood (MergesWell plainCtx (deployCalls clock))
      (Pool.step (TableAccess.run plainCtx))
      (Storers.start plainCtx (deployCalls clock) emptyTable)
      [0, 0, 0, 1, 1, 1, 1, 2, 2, 2, 2] := by
    decide +kernel
  obtain ⟨hist, c, hc, run⟩ := Run.of_allGood .nil hgood
  have hfacts : (deployed clock [0, 0, 0, 1, 1, 1, 1, 2, 2, 2, 2]).toOption.map (fun c =>
      decide (∀ i, ((c.threads i).result.bind Except.toOption).any (·.action ≠ .skip))) =
        some true := by
    decide +kernel
  simp only [toOption_map_eq_some, hc, Except.ok.injEq] at hfacts
  obtain ⟨_, rfl, hanswered⟩ := hfacts
  obtain ⟨hdistinct, -, haccepted⟩ := accepted lowercaseLaws_toLower distinct_emptyTable run
  refine ⟨clock, c, hc, fun i => ?_, hdistinct, haccepted⟩
  obtain ⟨stored, hstored, haction⟩ := (Option.any_eq_true _ _).1 (of_decide_eq_true hanswered i)
  obtain ⟨response, hresponse, hok⟩ := bind_eq_some_iff.1 hstored
  cases response with
  | error e => cases hok
  | ok stored' =>
    obtain rfl := some.inj hok
    exact ⟨stored', hresponse, of_decide_eq_true haction⟩

/-- Both changes have read the row before either is written: the first one is lost. -/
theorem not_accepted : ¬ ∀ (n : Nat) (ctx : StoringCtx) (calls : Fin n → StoreCall) (t : IdeaTable)
    hist c, LowercaseLaws ctx.toLowercase → Distinct t →
      Run (okStep (Pool.step (TableAccess.run ctx))) (Storers.start ctx calls t) hist c →
      (∀ i, (c.threads i).result.isSome) → ∀ i input stored,
        parseStoreRequest ctx.debug (calls i).req = .ok input →
        (c.threads i).result = some (.ok stored) → stored.action ≠ .skip →
        Holding ctx input stored.id c.state := by
  intro hall
  let clock (n : Nat) : Reading := ⟨n, ⟨2026, 5, 14, 0, 0, 0, 0⟩⟩
  have hfacts : (deployed clock [0, 0, 0, 1, 1, 1, 2, 2, 2, 1, 2]).toOption.map (fun c =>
      (decide (∀ i, (c.threads i).result.isSome),
        ((c.threads 1).result.bind Except.toOption).map fun stored => (stored.id, stored.action),
        (c.state.row "idea-0").map fun r => r.content)) =
      some (true, some ("idea-0", .merge), some
        "on fridays\n\n--- merged at 2026-05-14T00:00:00+00:00 ---\nwith care") := by
    decide +kernel
  obtain ⟨c, hc, hfacts⟩ := toOption_map_eq_some.1 hfacts
  obtain ⟨hreturned, hfacts⟩ := Prod.mk.inj hfacts
  obtain ⟨hstored, hrow⟩ := Prod.mk.inj hfacts
  obtain ⟨stored, hstored, haction⟩ := map_eq_some_iff.1 hstored
  obtain ⟨hid, haction⟩ := Prod.mk.inj haction
  obtain ⟨response, hresponse, hok⟩ := bind_eq_some_iff.1 hstored
  obtain ⟨r, hr, hcontent⟩ := map_eq_some_iff.1 hrow
  obtain ⟨hist, run⟩ := Run.execAll hc
  cases response with
  | error e => cases hok
  | ok stored' =>
    obtain rfl := some.inj hok
    have hholding := hall 3 plainCtx (deployCalls clock) emptyTable hist c lowercaseLaws_toLower
      distinct_emptyTable run (of_decide_eq_true hreturned) 1 _ stored' rfl hresponse
      (by rw [haction]; decide)
    obtain ⟨r', hr', hinfix, -⟩ := hholding
    rw [hid] at hr'
    obtain rfl := some.inj (hr.symm.trans hr')
    rw [hcontent] at hinfix
    revert hinfix
    decide +kernel

end Aeqi.Ideas
