import Aeqi.Ideas.Embeddings
import Aeqi.Ideas.Secrets

/-!
# The embeddings that are served

Searches serve the embedding of an idea whose flag is down. It is that of the idea's body as long
as no edit of the body leaves the flag down, no embedding is stored for an idea whose body has
changed since it was asked for, and none is dropped from an active idea without raising the flag.
A job of the worker stamps the hash of the body that it finds; with a merge in between, the flag
is lowered on the embedding of a body that is gone, and the cache answers for the new one with it.
-/

namespace Aeqi.Ideas.Embeddings

open Aeqi.Lib Option
open IdeaTable (patched row row_setRow_ne row_setRow_self)

variable {V : Type}

/-! ## What is served -/

def Belongs (ctx : EmbeddingCtx V) (text : String) (e : IdeaEmbedding V) : Prop :=
  ctx.embedder.embeds text e.embedding ∧ e.contentHash = ctx.contentHash text

instance Belongs.decidable (ctx : EmbeddingCtx V) (text : String) (e : IdeaEmbedding V) :
    Decidable (Belongs ctx text e) := inferInstanceAs (Decidable (_ ∧ _))

/-- Ideas whose flag is down have the embedding of their body, all embeddings stand under the hash
of the text they were made of, and so the cache answers with embeddings of what it is asked for;
active ideas without the embedding of their body are pending. -/
structure Served (ctx : EmbeddingCtx V) (s : EmbedState V) : Prop where
  belongs : ∀ id r e, s.table.row id = some r → r.embeddingPending = false →
    s.embeddings.lookup id = some e → Belongs ctx r.content e
  stored : ∀ id e, s.embeddings.lookup id = some e → ∃ text, Belongs ctx text e
  cached : ∀ text profile v,
    s.lookupEmbeddingByHashForProfile (ctx.contentHash text) profile = some v →
      ctx.embedder.embeds text v
  pending : ∀ id r, s.table.row id = some r → r.status = "active" →
    (∀ e, s.embeddings.lookup id = some e → ¬ Belongs ctx r.content e) → r.embeddingPending = true

/-- What there may be of a body and a status once the flag is down. -/
def Settled (ctx : EmbeddingCtx V) (e : Option (IdeaEmbedding V)) (content status : String) :
    Prop :=
  (∀ x ∈ e, Belongs ctx content x) ∧ (status = "active" → e.isSome)

instance Settled.decidable (ctx : EmbeddingCtx V) (e : Option (IdeaEmbedding V))
    (content status : String) : Decidable (Settled ctx e content status) :=
  inferInstanceAs (Decidable (_ ∧ _))

/-- The row carries the hash of its body, and with the flag down it is settled. -/
def SoundRow (ctx : EmbeddingCtx V) (e : Option (IdeaEmbedding V)) (r : IdeaRow) : Prop :=
  r.contentHash = ctx.contentHash r.content ∧
    (r.embeddingPending = false → Settled ctx e r.content r.status)

def SoundRows (ctx : EmbeddingCtx V) (embeddings : Accounts String (IdeaEmbedding V))
    (t : IdeaTable) : Prop :=
  ∀ id r, t.row id = some r → SoundRow ctx (embeddings.lookup id) r

structure Sound (ctx : EmbeddingCtx V) (s : EmbedState V) : Prop where
  rows : SoundRows ctx s.embeddings s.table
  stored : ∀ id e, s.embeddings.lookup id = some e → ∃ text, Belongs ctx text e

section Served

variable {ctx : EmbeddingCtx V} {s : EmbedState V}

theorem Sound.cached (hinj : Function.Injective ctx.contentHash) (h : Sound ctx s) {text : String}
    {profile : EmbeddingProfile} {v : V}
    (hv : s.lookupEmbeddingByHashForProfile (ctx.contentHash text) profile = some v) :
    ctx.embedder.embeds text v := by
  obtain ⟨e, he, rfl⟩ := map_eq_some_iff.1 hv
  have hhash : e.contentHash = ctx.contentHash text := by
    have := List.find?_some he
    simp only [decide_eq_true_eq] at this
    exact this.1
  obtain ⟨⟨id, e'⟩, hmem, rfl⟩ := List.mem_map.1 (List.mem_of_find?_eq_some he)
  obtain ⟨text', hembeds, hhash'⟩ := h.stored id e' (AList.mem_lookup_iff.2 hmem)
  have htext : text' = text := hinj (hhash'.symm.trans hhash)
  exact htext ▸ hembeds

theorem Sound.served (hinj : Function.Injective ctx.contentHash) (h : Sound ctx s) :
    Served ctx s where
  belongs id r e hr hdown he := ((h.rows id r hr).2 hdown).1 e he
  stored := h.stored
  cached _ _ _ hv := h.cached hinj hv
  pending id r hr hactive hnone := by
    by_contra hup
    have hsettled := (h.rows id r hr).2 (Bool.eq_false_iff.2 hup)
    obtain ⟨e, he⟩ := isSome_iff_exists.1 (hsettled.2 hactive)
    exact hnone e he (hsettled.1 e he)

end Served

/-! ## Writes of rows -/

section Rows

variable {ctx : EmbeddingCtx V} {embeddings : Accounts String (IdeaEmbedding V)} {t : IdeaTable}
  {id : String}

theorem SoundRow.of_pending {e : Option (IdeaEmbedding V)} {r : IdeaRow}
    (hhash : r.contentHash = ctx.contentHash r.content) (hup : r.embeddingPending = true) :
    SoundRow ctx e r :=
  ⟨hhash, fun hdown => nomatch (hup.symm.trans hdown)⟩

namespace SoundRows

theorem setRow {f : IdeaRow → IdeaRow} (h : SoundRows ctx embeddings t)
    (hf : ∀ r, t.row id = some r → SoundRow ctx (embeddings.lookup id) (f r)) :
    SoundRows ctx embeddings (t.setRow id f) := by
  intro id' r hr
  rcases IdeaTable.row_setRow_some hr with hold | ⟨rfl, old, hold, rfl⟩
  · exact h id' r hold
  · exact hf old hold

theorem insertFullRow {input : StoreFull} {content : String} {tags : List String} {now : Nat}
    (h : SoundRows ctx embeddings t) :
    SoundRows ctx embeddings (t.insertFullRow ctx.toIdeasCtx input content tags now).2 := by
  unfold IdeaTable.insertFullRow
  simp only
  split
  · exact h
  split
  · exact h
  · intro id' r hr
    by_cases hid : id' = ctx.uuid t.drawn
    · subst hid
      have hnew := hr.symm.trans (AList.lookup_insert _)
      cases hnew
      exact .of_pending rfl rfl
    · exact h id' r ((AList.lookup_insert_ne hid).symm.trans hr)

theorem supersedeAtomic {oldId : String} {input : StoreFull} {now : Nat}
    (h : SoundRows ctx embeddings t) :
    SoundRows ctx embeddings (t.supersedeAtomic ctx.toIdeasCtx oldId input now).2 := by
  unfold IdeaTable.supersedeAtomic
  simp only
  split
  · exact h
  · have hflipped : SoundRows ctx embeddings
        (t.setRow oldId ({ · with status := "superseded" })) := by
      refine h.setRow fun r hr => ⟨(h oldId r hr).1, fun hdown => ⟨?_, ?_⟩⟩
      · exact ((h oldId r hr).2 hdown).1
      · exact fun hactive => absurd hactive (show "superseded" ≠ "active" by decide)
    split
    · exact h
    · next newId t' hstored =>
      have hafter : _ = t' := congrArg Prod.snd hstored
      have hinserted : SoundRows ctx embeddings t' := hafter ▸ hflipped.insertFullRow
      intro id' r hr
      rw [IdeaTable.row_storeEntityEdge] at hr
      exact hinserted id' r hr

theorem updateFull {patch : UpdateFull} (h : SoundRows ctx embeddings t)
    (hpatch : ∀ r, t.row id = some r → patch.embeddingPending.getD r.embeddingPending = true ∨
      Settled ctx (embeddings.lookup id) (patch.content.getD r.content)
        (patch.status.getD r.status)) :
    SoundRows ctx embeddings (t.updateFull ctx.toIdeasCtx id patch).2 := by
  have hhash : ∀ r, t.row id = some r → (patched ctx.toIdeasCtx patch r).contentHash =
        ctx.contentHash (patched ctx.toIdeasCtx patch r).content := by
    intro r hr
    cases hcontent : patch.content with
    | none => simpa [patched, hcontent] using (h id r hr).1
    | some c => simp [patched, hcontent]
  unfold IdeaTable.updateFull
  simp only
  split
  · next hrefused =>
    -- the status is still the old one, and an active idea may have any other
    obtain ⟨-, hstatus, rfl, -⟩ := hrefused
    refine h.setRow fun r hr => ⟨hhash r hr, fun hdown => ?_⟩
    have hsettled := (hpatch r hr).resolve_left (Bool.eq_false_iff.1 hdown)
    rw [mem_def.1 hstatus] at hsettled
    exact ⟨hsettled.1, fun _ => hsettled.2 rfl⟩
  · intro id' r hr
    by_cases hid : id' = id
    · subst hid
      rw [row_setRow_self, row_setRow_self, Option.map_map] at hr
      obtain ⟨old, hold, rfl⟩ := map_eq_some_iff.1 hr
      refine ⟨hhash old hold, fun hdown => ?_⟩
      exact (hpatch old hold).resolve_left (Bool.eq_false_iff.1 hdown)
    · rw [row_setRow_ne hid, row_setRow_ne hid] at hr
      exact h id' r hr

theorem update {name content : Option String} {tags : Option (List String)}
    (h : SoundRows ctx embeddings t)
    (hcontent : t.Updates id name → ∀ r, t.row id = some r → ∀ text ∈ content,
      r.embeddingPending = true ∨ Settled ctx (embeddings.lookup id) text r.status) :
    SoundRows ctx embeddings (t.update ctx.toIdeasCtx id name content tags).2 := by
  unfold IdeaTable.update
  split
  · exact h
  · next r hr =>
    split
    · exact h
    split
    · exact h
    · next hname =>
      refine h.setRow fun old hold => ?_
      cases content with
      | none => exact h id old hold
      | some text =>
        refine ⟨rfl, fun hdown => ?_⟩
        exact (hcontent ⟨r, hr, hname⟩ old hold text rfl).resolve_left (Bool.eq_false_iff.1 hdown)

end SoundRows

end Rows

/-! ## Accesses -/

namespace EmbedAccess

variable {ctx : EmbeddingCtx V} {s : EmbedState V}

def BodyIs (s : EmbedState V) (id text : String) : Prop :=
  ∀ r ∈ s.table.row id, r.content = text

instance BodyIs.decidable (s : EmbedState V) (id text : String) : Decidable (BodyIs s id text) :=
  inferInstanceAs (Decidable (∀ r ∈ s.table.row id, _))

/-- An edit of the body or the flag leaves the flag up, or the embedding that is there is that of
the new body; an embedding is stored for the body it was made of; and it is dropped only if the
flag is up or the idea is not active. -/
def Keeps (ctx : EmbeddingCtx V) : EmbedAccess V → EmbedState V → Prop
  | update id name content _, s => s.table.Updates id name → ∀ r ∈ s.table.row id,
      ∀ text ∈ content, r.embeddingPending = true ∨
        Settled ctx (s.embeddings.lookup id) text r.status
  | updateFull id patch, s => ∀ r ∈ s.table.row id,
      patch.embeddingPending.getD r.embeddingPending = true ∨
        Settled ctx (s.embeddings.lookup id) (patch.content.getD r.content)
          (patch.status.getD r.status)
  | refreshEmbedding id text _, s => BodyIs s id text
  | setEmbedding id text _, s => BodyIs s id text
  | dropEmbedding id, s =>
    ∀ r ∈ s.table.row id, r.embeddingPending = true ∨ r.status ≠ "active"
  | _, _ => True

instance Keeps.decidable (ctx : EmbeddingCtx V) (s : EmbedState V) :
    (a : EmbedAccess V) → Decidable (a.Keeps ctx s)
  | update id name _ _ =>
    inferInstanceAs (Decidable (s.table.Updates id name → ∀ r ∈ s.table.row id, _))
  | updateFull id _ => inferInstanceAs (Decidable (∀ r ∈ s.table.row id, _))
  | refreshEmbedding id text _ | setEmbedding id text _ =>
    inferInstanceAs (Decidable (BodyIs s id text))
  | dropEmbedding id => inferInstanceAs (Decidable (∀ r ∈ s.table.row id, _))
  | storeFull .. | supersedeAtomic .. | lookupEmbeddingByHash _ | embed _ | markPending _
  | staleEmbeddingCandidates .. | findStalePending .. | enqueue _ | enqueuePriority _ | recv =>
    inferInstanceAs (Decidable True)

def Embedded (ctx : EmbeddingCtx V) : EmbedAccess V → Prop
  | refreshEmbedding _ text v => ctx.embedder.embeds text v
  | setEmbedding _ text v => ctx.embedder.embeds text v
  | _ => True

end EmbedAccess

variable {ctx : EmbeddingCtx V} {s : EmbedState V}

theorem Sound.putEmbedding {id text : String} {e : IdeaEmbedding V} (h : Sound ctx s)
    (hbody : EmbedAccess.BodyIs s id text) (he : Belongs ctx text e) :
    Sound ctx (s.putEmbedding id e) where
  rows := by
    intro id' r hr
    by_cases hid : id' = id
    · subst hid
      obtain ⟨old, hold, rfl⟩ := map_eq_some_iff.1 (row_setRow_self.symm.trans hr)
      refine ⟨(h.rows id' old hold).1, fun _ => ?_⟩
      rw [show (s.putEmbedding id' e).embeddings.lookup id' = some e from AList.lookup_insert _]
      refine ⟨fun x hx => ?_, fun _ => rfl⟩
      obtain rfl := some.inj hx
      exact (hbody old hold) ▸ he
    · have hold := (row_setRow_ne hid).symm.trans hr
      rw [show (s.putEmbedding id e).embeddings.lookup id' = s.embeddings.lookup id' from
        AList.lookup_insert_ne hid]
      exact h.rows id' r hold
  stored := by
    intro id' e' he'
    by_cases hid : id' = id
    · subst hid
      obtain rfl := some.inj ((AList.lookup_insert _).symm.trans he')
      exact ⟨text, he⟩
    · exact h.stored id' e' ((AList.lookup_insert_ne hid).symm.trans he')

theorem Sound.dropEmbedding {id : String} (h : Sound ctx s)
    (hgood : ∀ r ∈ s.table.row id, r.embeddingPending = true ∨ r.status ≠ "active") :
    Sound ctx (s.dropEmbedding id) where
  rows := by
    intro id' r hr
    by_cases hid : id' = id
    · subst hid
      rw [show (s.dropEmbedding id').embeddings.lookup id' = none from AList.lookup_erase _ _]
      refine ⟨(h.rows id' r hr).1, fun hdown => ⟨fun x hx => ?_, fun hactive => ?_⟩⟩
      · exact absurd hx (by simp)
      · rcases hgood r hr with hup | hother
        · exact nomatch (hup.symm.trans hdown)
        · exact absurd hactive hother
    · rw [show (s.dropEmbedding id).embeddings.lookup id' = s.embeddings.lookup id' from
        AList.lookup_erase_ne hid]
      exact h.rows id' r hr
  stored := by
    intro id' e he
    by_cases hid : id' = id
    · subst hid
      exact absurd ((AList.lookup_erase _ _).symm.trans he) (by simp)
    · exact h.stored id' e ((AList.lookup_erase_ne hid).symm.trans he)

theorem EmbedAccess.sound {a : EmbedAccess V} (ha : a.Embedded ctx) (hgood : a.Keeps ctx s)
    (h : Sound ctx s) :
    Sound ctx (a.run ctx s).2 := by
  cases a with
  | storeFull input now => exact ⟨h.rows.insertFullRow, h.stored⟩
  | update id name content tags =>
    have hrows : SoundRows ctx s.embeddings
        (s.table.update ctx.toIdeasCtx id name content tags).2 := h.rows.update hgood
    simp only [run, EmbedState.update]
    split
    · next e t hupdated =>
      rw [hupdated] at hrows
      exact ⟨hrows, h.stored⟩
    · next t hupdated =>
      rw [hupdated] at hrows
      exact ⟨hrows, h.stored⟩
  | updateFull id patch => exact ⟨h.rows.updateFull hgood, h.stored⟩
  | supersedeAtomic oldId input now => exact ⟨h.rows.supersedeAtomic, h.stored⟩
  | lookupEmbeddingByHash text => exact h
  | embed text => exact ⟨h.rows, h.stored⟩
  | refreshEmbedding id text v =>
    simp only [run, EmbedState.refreshEmbedding]
    split
    · exact h
    · exact h.putEmbedding hgood ⟨ha, rfl⟩
  | dropEmbedding id => exact h.dropEmbedding hgood
  | setEmbedding id text v =>
    simp only [run, EmbedState.setEmbedding]
    split
    · exact h
    · next r hr =>
      -- the hash that is stamped is that of the body, and the body is the text
      have hhash : r.contentHash = ctx.contentHash text := by
        rw [(h.rows id r hr).1, hgood r hr]
      exact h.putEmbedding hgood ⟨ha, hhash⟩
  | markPending id =>
    exact ⟨h.rows.setRow fun r hr => .of_pending (h.rows id r hr).1 rfl, h.stored⟩
  | staleEmbeddingCandidates profile limit | findStalePending overdue limit => exact h
  | enqueue job =>
    simp only [run, EmbedState.enqueue]
    split
    · exact ⟨h.rows, h.stored⟩
    · exact h
  | enqueuePriority job =>
    simp only [run, EmbedState.enqueuePriority]
    split
    · exact ⟨h.rows, h.stored⟩
    · exact h
  | recv =>
    simp only [run, EmbedState.recv]
    split
    · exact ⟨h.rows, h.stored⟩
    · exact ⟨h.rows, h.stored⟩
    · exact h

/-! ## Programs -/

/-- What is stored was made of its text as long as the table is sound. -/
def embedding (ctx : EmbeddingCtx V) :
    Guarantee (EmbedAccess V) EmbedAccess.Reply (EmbedState V) where
  run := EmbedAccess.run ctx
  good := EmbedAccess.Keeps ctx
  proper a _ := a.Embedded ctx
  inv := Sound ctx
  may _ _ := True
  refl _ := trivial
  trans _ _ := trivial
  keeps _ _ hgood hproper h := EmbedAccess.sound hproper hgood h
  moves _ _ _ _ _ := trivial

/-- Whatever the others do, the program stores what it has embedded, and returns as `Q` says. -/
def Embeds {α : Type} (ctx : EmbeddingCtx V) (p : EmbedProg V α) (Q : α → Prop) : Prop :=
  ∀ s, p.Minds (embedding ctx) s fun x _ => Q x

section Programs

variable {ctx : EmbeddingCtx V} {α β : Type} {Q : β → Prop}

theorem embeds_bind {P : α → Prop} {p : EmbedProg V α} {f : α → EmbedProg V β}
    (hp : Embeds ctx p P) (hf : ∀ x, P x → Embeds ctx (f x) Q) : Embeds ctx (p >>= f) Q := fun s =>
  Prog.minds_bind.2 ((hp s).mono fun x s' hx _ => hf x hx s')

theorem embeds_pure {x : β} (h : Q x) : Embeds ctx (pure x : EmbedProg V β) Q :=
  fun _ _ _ _ => h

theorem embeds_access {a : EmbedAccess V} (ha : a.Embedded ctx) :
    Embeds ctx (access a) fun _ => True :=
  fun _ _ _ _ _ => ⟨ha, fun _ _ _ => trivial⟩

variable {text : String}

theorem embeds_lookup (hinj : Function.Injective ctx.contentHash) :
    Embeds ctx (access (.lookupEmbeddingByHash text))
      fun x : Option V => ∀ v ∈ x, ctx.embedder.embeds text v := by
  intro s s' _ hsound _
  refine ⟨trivial, fun _ _ _ v hv => ?_⟩
  obtain ⟨profile, -, hv⟩ := bind_eq_some_iff.1 (mem_def.1 hv)
  exact Sound.cached hinj hsound hv

theorem embeds_embed :
    Embeds ctx (access (.embed text)) fun x : Option V => ∀ v ∈ x, ctx.embedder.embeds text v :=
  fun _ _ _ _ _ => ⟨trivial, fun _ _ _ v hv => ctx.embedder.answers _ text v hv⟩

theorem embeds_embedBytes (hinj : Function.Injective ctx.contentHash) :
    Embeds ctx (embedBytes text) fun x => ∀ v ∈ x, ctx.embedder.embeds text v := by
  refine embeds_bind (embeds_lookup hinj) fun cached hcached => ?_
  split
  · exact embeds_pure hcached
  · exact embeds_bind embeds_embed fun _ hanswered => embeds_pure hanswered

theorem embeds_storeImpl (hinj : Function.Injective ctx.contentHash) {name content : String}
    {tags : List String} {agentId : Option String} {now : Nat} :
    Embeds ctx (storeImpl ctx name content tags agentId now) fun _ => True := by
  refine embeds_bind (embeds_access trivial) fun stored _ => ?_
  split
  · exact embeds_pure trivial
  split
  · refine embeds_bind (embeds_embedBytes hinj) fun bytes hbytes => ?_
    split
    · exact embeds_bind (embeds_access (hbytes _ rfl)) fun _ _ => embeds_pure trivial
    · exact embeds_pure trivial
  · exact embeds_pure trivial

theorem embeds_refreshAfterUpdate (hinj : Function.Injective ctx.contentHash) {id : String} :
    Embeds ctx (refreshAfterUpdate ctx id text) fun _ => True := by
  unfold refreshAfterUpdate
  split
  · refine embeds_bind (embeds_embedBytes hinj) fun bytes hbytes => ?_
    split
    · exact embeds_bind (embeds_access (hbytes _ rfl)) fun _ _ => embeds_pure trivial
    · exact embeds_bind (embeds_access trivial) fun _ _ => embeds_pure trivial
  · exact embeds_bind (embeds_access trivial) fun _ _ => embeds_pure trivial

theorem embeds_updateImpl (hinj : Function.Injective ctx.contentHash) {id : String}
    {name content : Option String} {tags : Option (List String)} :
    Embeds ctx (updateImpl ctx id name content tags) fun _ => True := by
  refine embeds_bind (embeds_access trivial) fun updated _ => ?_
  split
  · exact embeds_pure trivial
  split
  · split
    · exact embeds_pure trivial
    · exact embeds_bind (embeds_refreshAfterUpdate hinj) fun _ _ => embeds_pure trivial
  · exact embeds_pure trivial

theorem embeds_embedJob {job : EmbedJob} :
    Embeds ctx (embedJob job : EmbedProg V Unit) fun _ => True := by
  refine embeds_bind embeds_embed fun answered hanswered => ?_
  split
  · exact embeds_bind (embeds_access (hanswered _ rfl)) fun _ _ => embeds_pure trivial
  · exact embeds_pure trivial

theorem embeds_runWorker {rounds : Nat} :
    Embeds ctx (runWorker rounds : EmbedProg V Unit) fun _ => True := by
  induction rounds with
  | zero => exact embeds_pure trivial
  | succ n ih =>
    refine embeds_bind (embeds_access trivial) fun received _ => ?_
    split
    · exact embeds_bind embeds_embedJob fun _ _ => ih
    · exact ih

theorem embeds_enqueueAll {jobs : List EmbedJob} :
    Embeds ctx (enqueueAll jobs : EmbedProg V Unit) fun _ => True := by
  induction jobs with
  | nil => exact embeds_pure trivial
  | cons job jobs ih => exact embeds_bind (embeds_access trivial) fun _ _ => ih

theorem embeds_runSweeper {batchSize : Nat} {ticks : List (List String)} :
    Embeds ctx (runSweeper batchSize ticks : EmbedProg V Unit) fun _ => True := by
  induction ticks with
  | nil => exact embeds_pure trivial
  | cons overdue ticks ih =>
    refine embeds_bind (embeds_access trivial) fun rows _ => ?_
    exact embeds_bind embeds_enqueueAll fun _ _ => ih

theorem embeds_rebuildAll {profile : EmbeddingProfile} {candidates : List EmbedJob}
    {summary : EmbeddingRebuildSummary} :
    Embeds ctx (rebuildAll ctx profile candidates summary) fun _ => True := by
  induction candidates generalizing summary with
  | nil => exact embeds_pure trivial
  | cons candidate candidates ih =>
    refine embeds_bind (embeds_access trivial) fun _ _ => ?_
    refine embeds_bind embeds_embed fun answered hanswered => ?_
    split
    · split
      · refine embeds_bind (embeds_access (hanswered _ rfl)) fun persisted _ => ?_
        split
        · exact ih
        · exact ih
      · exact ih
    · exact ih

theorem embeds_rebuildStaleEmbeddings {limit : Option Nat} {dryRun : Bool} :
    Embeds ctx (rebuildStaleEmbeddings ctx limit dryRun) fun _ => True := by
  unfold rebuildStaleEmbeddings
  split
  · exact embeds_pure trivial
  split
  · exact embeds_pure trivial
  · refine embeds_bind (embeds_access trivial) fun candidates _ => ?_
    split
    · exact embeds_pure trivial
    · exact embeds_bind embeds_rebuildAll fun _ _ => embeds_pure trivial

theorem EmbedCall.embeds (hinj : Function.Injective ctx.contentHash) (call : EmbedCall) :
    Embeds ctx (call.program ctx) fun _ => True := by
  cases call with
  | store name content tags agentId now =>
    exact embeds_bind (embeds_storeImpl hinj) fun _ _ => embeds_pure trivial
  | storeFull input now | updateFull id patch =>
    exact embeds_bind (embeds_access trivial) fun _ _ => embeds_pure trivial
  | update id name content tags =>
    exact embeds_bind (embeds_updateImpl hinj) fun _ _ => embeds_pure trivial
  | supersedeAtomic oldId input now | enqueue job | enqueuePriority job =>
    exact embeds_bind (embeds_access trivial) fun _ _ => embeds_pure trivial
  | worker rounds => exact embeds_runWorker
  | sweeper batchSize ticks => exact embeds_runSweeper
  | rebuild limit dryRun =>
    exact embeds_bind embeds_rebuildStaleEmbeddings fun _ _ => embeds_pure trivial

end Programs

/-! ## Every run -/

section Run

variable {ι : Type} [DecidableEq ι] {ctx : EmbeddingCtx V} {calls : ι → EmbedCall}
  {s : EmbedState V} {hist : List (Embedding V ι × ι)} {c : Embedding V ι}

/-- **A served embedding belongs to the served content** in every run of calls from a sound state
whose accesses keep the embeddings. -/
theorem embeddings_belong (hinj : Function.Injective ctx.contentHash) (hs : Sound ctx s)
    (run : Run (Guarded (Pool.NextMeets (EmbedAccess.Keeps ctx))
      (okStep (Pool.step (EmbedAccess.run ctx)))) (Embedding.start ctx calls s) hist c) :
    (∀ e ∈ hist, Served ctx e.1.state) ∧ Served ctx c.state := by
  have hsound : ∀ {hist' c'}, Run (Guarded (Pool.NextMeets (EmbedAccess.Keeps ctx))
      (okStep (Pool.step (EmbedAccess.run ctx)))) (Embedding.start ctx calls s) hist' c' →
      Sound ctx c'.state := fun run' =>
    (Run.minds (e := embedding ctx) run' hs fun i => (calls i).embeds hinj s).1
  refine ⟨?_, (hsound run).served hinj⟩
  induction run with
  | nil => exact nofun
  | step run _ ih =>
    intro e he
    rcases List.mem_cons.1 he with rfl | he
    · exact (hsound run).served hinj
    · exact ih e he

end Run

/-! ### A merge while the worker embeds -/

def mirrorEmbedder : Embedder String where
  answer _ text := some text
  embeds text v := v = text
  answers _ _ _ h := decide_eq_true (some.inj h).symm

def mirrorCtx : EmbeddingCtx String where
  toLowercase := String.toLower
  contentHash := id
  uuid n := "idea-" ++ toString n
  embedder := mirrorEmbedder
  profile := some ⟨"local", "mirror", 15⟩
  len := String.length
  capacity := 1024

def emptyState : EmbedState String := ⟨emptyTable, ∅, [], [], 0⟩

theorem sound_emptyState : Sound mirrorCtx emptyState where
  rows id r hr := absurd hr (by simp [row, emptyState, emptyTable])
  stored id e he := absurd he (by simp [emptyState])

/-- An idea is stored, and merged with another; both bodies are enqueued. -/
abbrev mergeCalls : Fin 5 → EmbedCall :=
  ![.storeFull { name := "deploy", content := "ship on mondays" } 0,
    .enqueue ("idea-0", "ship on mondays"),
    .updateFull "idea-0" { content := some "ship on fridays", embeddingPending := some true },
    .enqueuePriority ("idea-0", "ship on fridays"),
    .worker 2]

/-- The body, the flag, and the embedding with its hash. -/
def shown (s : EmbedState String) (id : String) :
    Option (String × Bool × Option (String × String)) :=
  (s.table.row id).map fun r =>
    (r.content, r.embeddingPending,
      (s.embeddings.lookup id).map fun e => (e.embedding, e.contentHash))

/-- The worker is done with the first body before the merge. -/
theorem mergeCalls_served : ∃ hist c, Run (Guarded (Pool.NextMeets (EmbedAccess.Keeps mirrorCtx))
      (okStep (Pool.step (EmbedAccess.run mirrorCtx))))
        (Embedding.start mirrorCtx mergeCalls emptyState) hist c ∧
      shown c.state "idea-0" =
        some ("ship on fridays", false, some ("ship on fridays", "ship on fridays")) ∧
      (∀ e ∈ hist, Served mirrorCtx e.1.state) ∧ Served mirrorCtx c.state := by
  have hgood : AllGood (Pool.NextMeets (EmbedAccess.Keeps mirrorCtx))
      (Pool.step (EmbedAccess.run mirrorCtx))
      (Embedding.start mirrorCtx mergeCalls emptyState) [0, 1, 4, 4, 4, 2, 3, 4, 4, 4] := by
    decide +kernel
  obtain ⟨hist, c, hc, run⟩ := Run.of_allGood .nil hgood
  have hfacts : (execAll (Pool.step (EmbedAccess.run mirrorCtx))
      (Embedding.start mirrorCtx mergeCalls emptyState) [0, 1, 4, 4, 4, 2, 3, 4, 4, 4]).toOption.map
        (fun c => shown c.state "idea-0") =
          some (some ("ship on fridays", false, some ("ship on fridays", "ship on fridays"))) := by
    decide +kernel
  simp only [toOption_map_eq_some, hc, Except.ok.injEq] at hfacts
  obtain ⟨_, rfl, hshown⟩ := hfacts
  exact ⟨hist, c, run, hshown, embeddings_belong Function.injective_id sound_emptyState run⟩

/-- The merge comes between the call of the embedder and the write of what it answered. -/
theorem not_served : ¬ ∀ (n : Nat) (ctx : EmbeddingCtx String) (calls : Fin n → EmbedCall)
    (s : EmbedState String) hist c, Function.Injective ctx.contentHash → Sound ctx s →
      Run (okStep (Pool.step (EmbedAccess.run ctx))) (Embedding.start ctx calls s) hist c →
        Served ctx c.state := by
  intro hall
  have hfacts : (execAll (Pool.step (EmbedAccess.run mirrorCtx))
      (Embedding.start mirrorCtx mergeCalls emptyState) [0, 1, 4, 4, 2, 4]).toOption.map
        (fun c => shown c.state "idea-0") =
          some (some ("ship on fridays", false, some ("ship on mondays", "ship on fridays"))) := by
    decide +kernel
  obtain ⟨c, hc, hshown⟩ := toOption_map_eq_some.1 hfacts
  obtain ⟨hist, run⟩ := Run.execAll hc
  have hserved := hall 5 mirrorCtx mergeCalls emptyState hist c Function.injective_id
    sound_emptyState run
  obtain ⟨r, hr, hcolumns⟩ := map_eq_some_iff.1 hshown
  simp only [Prod.mk.injEq, map_eq_some_iff] at hcolumns
  obtain ⟨hbody, hdown, e, he, hmade, -⟩ := hcolumns
  have hembeds := (hserved.belongs "idea-0" r e hr hdown he).1
  rw [hbody, hmade] at hembeds
  exact nomatch hembeds

end Aeqi.Ideas.Embeddings
