import Aeqi.Ideas.Storing
import Aeqi.Lib.Guarantee
import Mathlib.Data.Fin.VecNotation

/-!
# No secret is stored

Every writer but `update` redacts the body it stores, and a merge appends a redacted body to the
one that it has read, so the bodies of the table stay without secrets as long as the bodies that
come by `update` have none. An `update` that writes a secret is a state with one.
-/

namespace Aeqi.Ideas

open Aeqi.Lib Aeqi.Orchestrator

/-! ## The table -/

def CleanTable (t : IdeaTable) : Prop := ∀ id r, t.row id = some r → Clean r.content

namespace IdeaTable

/-- An `update` finds its row, and the index does not refuse the name. -/
def Updates (t : IdeaTable) (id : String) (name : Option String) : Prop :=
  ∃ r ∈ t.row id, ¬ ∃ new ∈ name, r.status = "active" ∧ t.nameTaken id new r.agentId

instance Updates.decidable (t : IdeaTable) (id : String) (name : Option String) :
    Decidable (t.Updates id name) :=
  inferInstanceAs (Decidable (∃ r ∈ t.row id, _))

end IdeaTable

namespace CleanTable

variable {ctx : IdeasCtx} {t : IdeaTable} {id : String} {f : IdeaRow → IdeaRow}

theorem setRow (ht : CleanTable t) (hf : ∀ r, t.row id = some r → Clean (f r).content) :
    CleanTable (t.setRow id f) := by
  intro id' r hr
  rcases IdeaTable.row_setRow_some hr with hold | ⟨-, old, hold, rfl⟩
  · exact ht id' r hold
  · exact hf old hold

theorem setColumn (ht : CleanTable t) (hf : ∀ r, (f r).content = r.content) :
    CleanTable (t.setRow id f) :=
  ht.setRow fun r hr => by
    rw [hf]
    exact ht id r hr

variable {input : StoreFull}

theorem insertFullRow {content : String} {tags : List String} {now : Nat} (ht : CleanTable t)
    (hcontent : Clean content) :
    CleanTable (t.insertFullRow ctx input content tags now).2 := by
  unfold IdeaTable.insertFullRow
  simp only
  split
  · exact ht
  split
  · exact ht
  · intro id' r hr
    by_cases hid : id' = ctx.uuid t.drawn
    · subst hid
      have hnew := hr.symm.trans (AList.lookup_insert _)
      cases hnew
      exact hcontent
    · exact ht id' r ((AList.lookup_insert_ne hid).symm.trans hr)

theorem storeFull {now : Nat} (ht : CleanTable t) :
    CleanTable (t.storeFull ctx input now).2 :=
  ht.insertFullRow (clean_redactSecrets _)

theorem storeEntityEdge {e : EntityEdge} (ht : CleanTable t) :
    CleanTable (t.storeEntityEdge e) := fun id r hr => by
  rw [IdeaTable.row_storeEntityEdge] at hr
  exact ht id r hr

theorem supersedeAtomic {oldId : String} {now : Nat} (ht : CleanTable t) :
    CleanTable (t.supersedeAtomic ctx oldId input now).2 := by
  unfold IdeaTable.supersedeAtomic
  simp only
  split
  · exact ht
  · have hflipped : CleanTable (t.setRow oldId ({ · with status := "superseded" })) :=
      ht.setColumn fun _ => rfl
    split
    · exact ht
    · next newId t' hstored =>
      have hafter : _ = t' := congrArg Prod.snd hstored
      have hinserted : CleanTable t' :=
        hafter ▸ hflipped.insertFullRow (clean_redactSecrets input.content)
      exact hinserted.storeEntityEdge

theorem updateFull {patch : UpdateFull} (ht : CleanTable t)
    (hpatch : ∀ c ∈ patch.content, Clean c) : CleanTable (t.updateFull ctx id patch).2 := by
  have hpatched : CleanTable (t.setRow id (IdeaTable.patched ctx patch)) := by
    refine ht.setRow fun r hr => ?_
    cases hcontent : patch.content with
    | none => simpa [IdeaTable.patched, hcontent] using ht id r hr
    | some c => simpa [IdeaTable.patched, hcontent] using hpatch c hcontent
  unfold IdeaTable.updateFull
  simp only
  split
  · exact hpatched
  · exact hpatched.setColumn fun _ => rfl

/-- A body that comes by `update` is written as it is. -/
theorem update {name content : Option String} {tags : Option (List String)} (ht : CleanTable t)
    (hcontent : t.Updates id name → ∀ c ∈ content, Clean c) :
    CleanTable (t.update ctx id name content tags).2 := by
  unfold IdeaTable.update
  split
  · exact ht
  · next r hr =>
    split
    · exact ht
    split
    · exact ht
    · next hname =>
      refine ht.setRow fun old hold => ?_
      cases content with
      | none => exact ht id old hold
      | some c => exact hcontent ⟨r, hr, hname⟩ c rfl

theorem setParent {parentId : Option String} (ht : CleanTable t) :
    CleanTable (t.setParent id parentId).2 := by
  unfold IdeaTable.setParent
  split
  · exact ht
  · exact ht.setColumn fun _ => rfl

end CleanTable

/-! ## Writes -/

namespace TableAccess

variable {ctx : StoringCtx} {t : IdeaTable}

/-- The writes that never bring a secret: a patch is clean. -/
def Redacted : TableAccess → Prop
  | updateFull _ _ patch => ∀ c ∈ patch.content, Clean c
  | _ => True

/-- An `update` that carries out its statements has a body without secrets, if it has one. -/
def UpdatesClean : TableAccess → IdeaTable → Prop
  | update id name content _, t => t.Updates id name → ∀ c ∈ content, Clean c
  | _, _ => True

instance UpdatesClean.decidable (t : IdeaTable) : (a : TableAccess) → Decidable (a.UpdatesClean t)
  | update id name content _ => inferInstanceAs (Decidable (t.Updates id name → ∀ c ∈ content, Clean c))
  | getActiveIdByName .. | getById _ | search _ | storeFull .. | updateFull .. | supersedeAtomic ..
  | storeEntityEdge _ | setParent .. | setProperties .. | setKind .. | setExpiresAt ..
  | setScope .. => inferInstanceAs (Decidable True)

theorem cleanTable {a : TableAccess} (ha : a.Redacted) (hgood : a.UpdatesClean t)
    (ht : CleanTable t) : CleanTable (a.run ctx t).2 := by
  cases a with
  | getActiveIdByName name agentId | getById id | search query => exact ht
  | storeFull input now => exact ht.storeFull
  | updateFull id existing patch => exact ht.updateFull ha
  | supersedeAtomic oldId input now => exact ht.supersedeAtomic
  | storeEntityEdge e => exact ht.storeEntityEdge
  | update id name content tags => exact ht.update hgood
  | setParent id parentId => exact ht.setParent
  | setProperties id properties | setKind id kind fileId | setExpiresAt id expiresAt
  | setScope id scope => exact ht.setColumn fun _ => rfl

/-- An `update` leaves a table with its body in it. -/
theorem updatesClean_of_cleanTable {a : TableAccess} (h : CleanTable (a.run ctx t).2) :
    a.UpdatesClean t := by
  cases a
  case update id name content tags =>
    rintro ⟨r, hr, hname⟩ c hc
    obtain rfl := Option.mem_def.1 hc
    simp only [TableAccess.run, IdeaTable.update, Option.mem_def.1 hr, reduceCtorEq, false_and,
      and_false, if_neg hname] at h
    have hclean := h id _ (IdeaTable.row_setRow_self.trans (congrArg _ hr))
    exact hclean
  all_goals trivial

end TableAccess

/-! ## Programs -/

def redacting (ctx : StoringCtx) : Guarantee TableAccess TableAccess.Reply IdeaTable where
  run := TableAccess.run ctx
  good := TableAccess.UpdatesClean
  proper a _ := a.Redacted
  inv := CleanTable
  may _ _ := True
  refl _ := trivial
  trans _ _ := trivial
  keeps _ _ hgood hproper ht := TableAccess.cleanTable hproper hgood ht
  moves _ _ _ _ _ := trivial

def Redacts {α : Type} (ctx : StoringCtx) (p : IdeaProg α) : Prop :=
  ∀ t, p.Minds (redacting ctx) t fun _ _ => True

section Programs

variable {ctx : StoringCtx} {input : StoreRequest} {effective : EffectivePolicy} {clock : Reading}
  {content id : String}

theorem redacts_bind {α β : Type} {p : IdeaProg α} {f : α → IdeaProg β}
    (hp : Redacts ctx p) (hf : ∀ x, Redacts ctx (f x)) : Redacts ctx (p >>= f) := fun t =>
  Prog.minds_bind.2 ((hp t).mono fun x t' _ _ => hf x t')

theorem redacts_pure {α : Type} {x : α} : Redacts ctx (pure x : IdeaProg α) :=
  fun _ _ _ _ => trivial

theorem redacts_access {a : TableAccess} (ha : a.Redacted) : Redacts ctx (access a) :=
  fun _ _ _ _ _ => ⟨ha, fun _ _ _ => trivial⟩

theorem redacts_storeEdges {links : List StoreLinkRequest} :
    Redacts ctx (storeEdges id links) := by
  induction links with
  | nil => exact redacts_pure
  | cons link links ih => exact redacts_bind (redacts_access trivial) fun _ => ih

theorem redacts_finalizeWrite {action : StoreAction} :
    Redacts ctx (finalizeWrite input id action) := by
  refine redacts_bind redacts_storeEdges fun _ => ?_
  split
  · exact redacts_pure
  · exact redacts_bind (redacts_access trivial) fun _ => redacts_pure

theorem redacts_dispatchCreate :
    Redacts ctx (dispatchCreate input effective clock content) := by
  refine redacts_bind (redacts_access trivial) fun stored => ?_
  split
  · exact redacts_finalizeWrite
  split
  · refine redacts_bind (redacts_access trivial) fun landed => ?_
    split <;> exact redacts_pure
  · exact redacts_pure

theorem redacts_dispatchMerge (hcontent : Clean content) :
    Redacts ctx (dispatchMerge input effective clock content id) := by
  refine fun t => Prog.minds_bind.2 fun t' _ ht' _ => ⟨trivial, fun u _ _ _ => ?_⟩
  generalize hfound : ((redacting ctx).run (.getById id) t').1 = found
  cases found with
  | none => exact redacts_dispatchCreate u
  | some existing =>
    have hmerged : Clean (mergedContent existing.content clock.ts content) :=
      clean_mergedContent clock.ts (ht' id existing hfound) hcontent
    have hpatch : (TableAccess.updateFull id existing
        (mergePatch input clock content existing)).Redacted := by
      intro c hc
      obtain rfl := Option.some.inj hc
      exact hmerged
    refine redacts_bind (redacts_access hpatch) (fun updated => ?_) u
    split <;> exact redacts_pure

theorem redacts_dispatchSupersede :
    Redacts ctx (dispatchSupersede input effective clock content id) := by
  refine redacts_bind (redacts_access trivial) fun stored => ?_
  split
  · exact redacts_pure
  · exact redacts_finalizeWrite

theorem redacts_applyStoreMetadata : Redacts ctx (applyStoreMetadata input id) := by
  have hparent : Redacts ctx (storeParent input id) := by
    unfold storeParent
    split
    · exact redacts_pure
    · exact redacts_bind (redacts_access trivial) fun _ => redacts_pure
  have hproperties : Redacts ctx (storeProperties input id) := by
    unfold storeProperties
    split
    · exact redacts_pure
    · exact redacts_bind (redacts_access trivial) fun _ => redacts_pure
  have hkind : Redacts ctx (storeKind input id) := by
    unfold storeKind
    split
    · exact redacts_pure
    · exact redacts_bind (redacts_access trivial) fun _ => redacts_pure
  exact redacts_bind hparent fun _ => redacts_bind hproperties fun _ => hkind

theorem redacts_storeSameName (hcontent : Clean content) :
    Redacts ctx (storeSameName ctx input effective clock content id) := by
  refine redacts_bind (redacts_access trivial) fun found => ?_
  split
  · exact redacts_bind redacts_applyStoreMetadata fun _ => redacts_pure
  · simp only
    split
    · exact redacts_bind redacts_applyStoreMetadata fun _ => redacts_pure
    · exact redacts_bind (redacts_dispatchMerge hcontent) fun _ => redacts_pure

theorem redacts_dispatch {similar : List SimilarIdea} (hcontent : Clean content)
    (action : DedupAction) :
    Redacts ctx (dispatch input effective clock content similar action) := by
  cases action with
  | skip => exact redacts_pure
  | create => exact redacts_dispatchCreate
  | merge existingId => exact redacts_dispatchMerge hcontent
  | supersede oldId => exact redacts_dispatchSupersede

theorem redacts_storeSimilar (hcontent : Clean content) :
    Redacts ctx (storeSimilar ctx input effective clock content) := by
  have hsimilar : Redacts ctx (findSimilarForDedup ctx input effective clock content) :=
    redacts_bind (redacts_access trivial) fun _ => redacts_pure
  refine redacts_bind hsimilar fun similar => ?_
  refine redacts_bind (redacts_dispatch hcontent _) fun response => ?_
  simp only
  split
  · exact redacts_pure
  · exact redacts_bind redacts_applyStoreMetadata fun _ => redacts_pure

theorem redacts_handleStoreIdea {req : StoreIdea} :
    Redacts ctx (handleStoreIdea ctx effective clock req) := by
  unfold handleStoreIdea
  split
  · exact redacts_pure
  · refine redacts_bind (redacts_access trivial) fun found => ?_
    split
    · exact redacts_storeSameName (clean_redactSecrets _)
    · exact redacts_storeSimilar (clean_redactSecrets _)

theorem redacts_updateIdea {req : UpdateIdea} : Redacts ctx (updateIdea req) := by
  unfold updateIdea
  simp only
  split
  · exact redacts_pure
  split
  · exact redacts_pure
  · have hcore : Redacts ctx (updateCoreOf req ((requestField req.id).getD "")) := by
      unfold updateCoreOf
      split
      · refine redacts_bind (redacts_access trivial) fun updated => ?_
        split <;> exact redacts_pure
      · exact redacts_pure
    refine redacts_bind hcore fun updated => ?_
    split
    · exact redacts_pure
    · refine redacts_bind ?_ fun _ => redacts_bind ?_ fun _ => redacts_pure
      · unfold updateParentOf
        split
        · exact redacts_pure
        · exact redacts_bind (redacts_access trivial) fun _ => redacts_pure
      · unfold updatePropertiesOf
        split
        · exact redacts_pure
        · exact redacts_bind (redacts_access trivial) fun _ => redacts_pure

theorem redacts_store {name : String} {tags : List String} {agentId : Option String} {now : Nat} :
    Redacts ctx (store name content tags agentId now) :=
  redacts_access (a := .storeFull _ _) trivial

end Programs

/-! ## Every run -/

inductive WriteCall
  | storeIdea (effective : EffectivePolicy) (clock : Reading) (req : StoreIdea)
  | updateIdea (req : UpdateIdea)
  | store (name content : String) (tags : List String) (agentId : Option String) (now : Nat)
  | storeWithTtl (name content : String) (tags : List String) (agentId : Option String) (now : Nat)
      (ttlSecs : Option Nat)
  | storeWithScope (name content : String) (tags : List String) (agentId : Option String)
      (now : Nat) (scope : Scope)
  | storeFull (input : StoreFull) (now : Nat)
  | supersedeAtomic (oldId : String) (input : StoreFull) (now : Nat)

def WriteCall.program (ctx : StoringCtx) : WriteCall → IdeaProg Unit
  | storeIdea effective clock req => do let _ ← handleStoreIdea ctx effective clock req; pure ()
  | updateIdea req => do let _ ← Ideas.updateIdea req; pure ()
  | store name content tags agentId now => do
    let _ ← Ideas.store name content tags agentId now
    pure ()
  | storeWithTtl name content tags agentId now ttlSecs => do
    let _ ← Ideas.storeWithTtl name content tags agentId now ttlSecs
    pure ()
  | storeWithScope name content tags agentId now scope => do
    let _ ← Ideas.storeWithScope name content tags agentId now scope
    pure ()
  | storeFull input now => do let _ ← access (.storeFull input now); pure ()
  | supersedeAtomic oldId input now => do let _ ← access (.supersedeAtomic oldId input now); pure ()

theorem WriteCall.redacts {ctx : StoringCtx} (call : WriteCall) :
    Redacts ctx (call.program ctx) := by
  cases call with
  | storeIdea effective clock req => exact redacts_bind redacts_handleStoreIdea fun _ => redacts_pure
  | updateIdea req => exact redacts_bind redacts_updateIdea fun _ => redacts_pure
  | store name content tags agentId now => exact redacts_bind redacts_store fun _ => redacts_pure
  | storeWithTtl name content tags agentId now ttlSecs
  | storeWithScope name content tags agentId now scope =>
    refine redacts_bind (redacts_bind redacts_store fun stored => ?_) fun _ => redacts_pure
    split
    · exact redacts_pure
    · split
      · exact redacts_pure
      · exact redacts_bind (redacts_access trivial) fun _ => redacts_pure
  | storeFull input now => exact redacts_bind (redacts_access trivial) fun _ => redacts_pure
  | supersedeAtomic oldId input now =>
    exact redacts_bind (redacts_access trivial) fun _ => redacts_pure

/-- Calls side by side. -/
abbrev Writers (ι : Type) := Pool IdeaTable ι (IdeaProg Unit)

def Writers.start {ι : Type} (ctx : StoringCtx) (calls : ι → WriteCall) (t : IdeaTable) : Writers ι :=
  ⟨t, fun i => (calls i).program ctx⟩

section Run

variable {ι : Type} [DecidableEq ι] {ctx : StoringCtx} {calls : ι → WriteCall} {t : IdeaTable}
  {hist : List (Writers ι × ι)} {c : Writers ι}

/-- **No secret is stored**: in every run of calls from a clean table, every table that is reached
is clean exactly if no `update` writes a body with a secret. -/
theorem cleanTable_iff (ht : CleanTable t)
    (run : Run (okStep (Pool.step (TableAccess.run ctx))) (Writers.start ctx calls t) hist c) :
    ((∀ e ∈ hist, CleanTable e.1.state) ∧ CleanTable c.state) ↔
      ∀ e ∈ hist, Pool.NextMeets TableAccess.UpdatesClean e.1 e.2 := by
  induction run with
  | nil =>
    refine ⟨nofun, fun _ => ⟨fun _ he => ?_, ht⟩⟩
    exact nomatch he
  | @step hist s s' i run hstep ih =>
    obtain ⟨a, k, hi, rfl⟩ := Pool.step_ok hstep
    have hnext : Pool.NextMeets TableAccess.UpdatesClean s i ↔ a.UpdatesClean s.state := by
      unfold Pool.NextMeets
      rw [hi]
    rw [List.forall_mem_cons, List.forall_mem_cons]
    constructor
    · rintro ⟨⟨hs, hhist⟩, hs'⟩
      exact ⟨hnext.2 (TableAccess.updatesClean_of_cleanTable hs'), ih.1 ⟨hhist, hs⟩⟩
    · rintro ⟨hgood, hrest⟩
      obtain ⟨hhist, hs⟩ := ih.2 hrest
      have hguarded : Run (Guarded (Pool.NextMeets (redacting ctx).good)
          (okStep (Pool.step (redacting ctx).run))) _ _ s := Run.guarded_iff.2 ⟨run, hrest⟩
      have hthread := (hguarded.minds ht fun j => (calls j).redacts t).2 i
      rw [hi] at hthread
      obtain ⟨hproper, -⟩ := hthread s.state trivial hs (hnext.1 hgood)
      exact ⟨⟨hs, hhist⟩, TableAccess.cleanTable hproper (hnext.1 hgood) hs⟩

end Run

/-! ### An edit with a key -/

/-- Texts are as in the source up to the case of letters outside ASCII; no idea is similar to
another. -/
def plainCtx : StoringCtx where
  toLowercase := String.toLower
  contentHash := id
  uuid n := "idea-" ++ toString n
  debug text := "\"" ++ text ++ "\""
  lexicalSimilarity _ content _ content' := if content = content' then 1 else 0
  search _ _ := []

def emptyTable : IdeaTable := ⟨∅, [], 0⟩

theorem cleanTable_emptyTable : CleanTable emptyTable := fun id _ hr =>
  absurd hr (by simp [IdeaTable.row, emptyTable])

abbrev keyCalls (edited : String) : Fin 2 → WriteCall :=
  ![.storeIdea {} ⟨0, ⟨2026, 5, 14, 0, 0, 0, 0⟩⟩
      { name := some "deploy", content := some "key=sk-abc123XYZ456def789GHI012" },
    .updateIdea { id := some "idea-0", content := some edited }]

/-- One call after the other. -/
theorem keyCalls_clean : ∃ hist c, Run (okStep (Pool.step (TableAccess.run plainCtx)))
      (Writers.start plainCtx (keyCalls "see the vault") emptyTable) hist c ∧
      (c.state.row "idea-0").map (·.content) = some "see the vault" ∧
      (∀ e ∈ hist, CleanTable e.1.state) ∧ CleanTable c.state := by
  have hgood : AllGood (Pool.NextMeets TableAccess.UpdatesClean)
      (Pool.step (TableAccess.run plainCtx))
      (Writers.start plainCtx (keyCalls "see the vault") emptyTable) [0, 0, 0, 1] := by
    decide +kernel
  obtain ⟨hist, c, hc, run⟩ := Run.of_allGood .nil hgood
  obtain ⟨run, hkept⟩ := Run.guarded_iff.1 run
  have hfacts : (execAll (Pool.step (TableAccess.run plainCtx))
      (Writers.start plainCtx (keyCalls "see the vault") emptyTable) [0, 0, 0, 1]).toOption.map
        (fun c => (c.state.row "idea-0").map (·.content)) = some (some "see the vault") := by
    decide +kernel
  simp only [toOption_map_eq_some, hc, Except.ok.injEq] at hfacts
  obtain ⟨_, rfl, hcontent⟩ := hfacts
  exact ⟨hist, c, run, hcontent, (cleanTable_iff cleanTable_emptyTable run).2 hkept⟩

/-- The same with a key in the edit. -/
theorem not_cleanTable : ¬ ∀ (n : Nat) (ctx : StoringCtx) (calls : Fin n → WriteCall)
    (t : IdeaTable) hist c, CleanTable t →
      Run (okStep (Pool.step (TableAccess.run ctx))) (Writers.start ctx calls t) hist c →
        CleanTable c.state := by
  intro hall
  have hfacts : (execAll (Pool.step (TableAccess.run plainCtx))
      (Writers.start plainCtx (keyCalls "key=sk-abc123XYZ456def789GHI012") emptyTable)
      [0, 0, 0, 1]).toOption.map (fun c => (c.state.row "idea-0").map (·.content)) =
        some (some "key=sk-abc123XYZ456def789GHI012") := by
    decide +kernel
  obtain ⟨c, hc, hcontent⟩ := toOption_map_eq_some.1 hfacts
  obtain ⟨r, hr, hkey⟩ := Option.map_eq_some_iff.1 hcontent
  obtain ⟨hist, run⟩ := Run.execAll hc
  have hclean := hall 2 plainCtx _ emptyTable hist c cleanTable_emptyTable run "idea-0" r hr
  rw [hkey] at hclean
  have hkept : redactSecrets "key=sk-abc123XYZ456def789GHI012" ≠
      "key=sk-abc123XYZ456def789GHI012" := by decide +kernel
  exact hkept hclean

end Aeqi.Ideas
