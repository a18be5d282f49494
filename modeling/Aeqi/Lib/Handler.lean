import Aeqi.Lib.Threads

/-!
# Handlers that keep what they have written

A handler works on a state and may refuse. Unlike a transaction it does not roll back: the
state a refusal leaves is the state it was reached in. `Ends` is the condition on a starting
state under which every end of a handler meets one predicate or another; its rules take a
handler apart along its steps.
-/

namespace Aeqi.Lib

universe u

abbrev Handler (ε σ : Type u) := ExceptT ε (StateM σ)

namespace Handler

variable {ε σ α β : Type u}

def ask (f : σ → α) : Handler ε σ α := fun s => (.ok (f s), s)

def refuse (e : ε) : Handler ε σ α := fun s => (.error e, s)

def pass (x : Except ε α) : Handler ε σ α := fun s => (x, s)

/-- An operation that writes nothing when it fails. -/
def call (f : σ → Except ε σ) : Handler ε σ PUnit := fun s =>
  match f s with
  | .ok s' => (.ok ⟨⟩, s')
  | .error e => (.error e, s)

/-- From `s` the handler ends as `q` says, or refuses as `r` says. -/
def Ends (m : Handler ε σ α) (s : σ) (q : α → σ → Prop) (r : σ → Prop) : Prop :=
  match m s with
  | (.ok a, s') => q a s'
  | (.error _, s') => r s'

variable {m : Handler ε σ α} {f : α → Handler ε σ β} {s : σ} {q q' : α → σ → Prop}
  {r r' : σ → Prop}

theorem Ends.mono (h : Ends m s q r) (hq : ∀ a s', q a s' → q' a s') (hr : ∀ s', r s' → r' s') :
    Ends m s q' r' := by
  unfold Ends at h ⊢
  split at h
  · exact hq _ _ h
  · exact hr _ h

theorem Ends.final {p : σ → Prop} (h : Ends m s (fun _ => p) p) : p (m s).2 := by
  unfold Ends at h
  split at h
  next hm => rw [hm]; exact h
  next hm => rw [hm]; exact h

theorem Ends.ok (h : Ends m s q r) {a : α} {s' : σ} (hm : m s = (.ok a, s')) : q a s' := by
  unfold Ends at h
  rw [hm] at h
  exact h

theorem ends_pure {a : α} : Ends (pure a : Handler ε σ α) s q r ↔ q a s := Iff.rfl

theorem ends_bind {q : β → σ → Prop} :
    Ends (m >>= f) s q r ↔ Ends m s (fun a s' => Ends (f a) s' q r) r := by
  have hrun : (m >>= f) s = match m s with
      | (.ok a, s') => f a s'
      | (.error e, s') => (.error e, s') := by
    change (match (m s).1 with | .ok a => (f a) | .error e => fun s' => (.error e, s')) (m s).2 = _
    rcases m s with ⟨_ | _, _⟩ <;> rfl
  unfold Ends
  rw [hrun]
  rcases m s with ⟨_ | a, -⟩ <;> rfl

theorem ends_ask {g : σ → α} : Ends (ask g : Handler ε σ α) s q r ↔ q (g s) s := Iff.rfl

theorem ends_pass {x : Except ε α} :
    Ends (pass x : Handler ε σ α) s q r ↔ (∀ a, x = .ok a → q a s) ∧ (∀ e, x = .error e → r s) := by
  cases x <;> simp [Ends, pass]

theorem ends_call {g : σ → Except ε σ} {q : PUnit → σ → Prop} :
    Ends (call g : Handler ε σ PUnit) s q r ↔
      (∀ s', g s = .ok s' → q ⟨⟩ s') ∧ (∀ e, g s = .error e → r s) := by
  unfold Ends call
  cases hg : g s <;> simp

/-! ## A program that runs alone -/

section Alone

variable {A : Type u} {R : A → Type u} {run : (a : A) → σ → R a × σ}

/-- A program that may fail, when no other runs beside it. -/
def alone (run : (a : A) → σ → R a × σ) (x : ExceptT ε (Prog A R) α) : Handler ε σ α :=
  fun s => x.run.solo run s

theorem alone_bind {x : ExceptT ε (Prog A R) α} {f : α → ExceptT ε (Prog A R) β} :
    (alone run (x >>= f) s).1 = match alone run x s with
      | (.ok a, s') => (alone run (f a) s').1
      | (.error e, _) => .error e := by
  refine (congrArg Prod.fst Prog.solo_bind).trans ?_
  change _ = match Prog.solo run x s with
    | (.ok a, s') => ((f a).run.solo run s').1
    | (.error e, _) => .error e
  rcases Prog.solo run x s with ⟨_ | _, _⟩ <;> rfl

theorem ends_alone_bind {x : ExceptT ε (Prog A R) α} {f : α → ExceptT ε (Prog A R) β}
    {q : β → σ → Prop} :
    Ends (alone run (x >>= f)) s q r ↔
      Ends (alone run x) s (fun a s' => Ends (alone run (f a)) s' q r) r := by
  have hrun : alone run (x >>= f) s = match alone run x s with
      | (.ok a, s') => alone run (f a) s'
      | (.error e, s') => (.error e, s') := by
    refine Prog.solo_bind.trans ?_
    change _ = match Prog.solo run x s with
      | (.ok a, s') => (f a).run.solo run s'
      | (.error e, s') => (.error e, s')
    rcases Prog.solo run x s with ⟨_ | _, _⟩ <;> rfl
  unfold Ends
  rw [hrun]
  rcases alone run x s with ⟨_ | a, -⟩ <;> rfl

theorem ends_alone_perform {a : A} {q : R a → σ → Prop} :
    Ends (alone run (ExceptT.lift (Prog.perform a) : ExceptT ε (Prog A R) (R a))) s q r ↔
      q (run a s).1 (run a s).2 := Iff.rfl

theorem ends_alone_result {x : Except ε α} :
    Ends (alone run (ExceptT.mk (pure x) : ExceptT ε (Prog A R) α)) s q r ↔
      (∀ a, x = .ok a → q a s) ∧ (∀ e, x = .error e → r s) := by
  cases x <;> simp [Ends, alone, ExceptT.run, ExceptT.mk, pure, Prog.solo]

theorem along_bind_iff {good : A → σ → Prop} {x : ExceptT ε (Prog A R) α}
    {f : α → ExceptT ε (Prog A R) β} :
    (x >>= f).run.Along run good s ↔ x.run.Along run good s ∧
      Ends (alone run x) s (fun a s' => (f a).run.Along run good s') fun _ => True := by
  refine Prog.along_bind.trans (and_congr_right fun _ => ?_)
  unfold Ends alone ExceptT.run
  rcases Prog.solo run x s with ⟨_ | _, _⟩ <;> exact Iff.rfl

/-- Alone from `s`, every action of the program is good, and it ends as `q` says if it returns. -/
def Leads (run : (a : A) → σ → R a × σ) (good : A → σ → Prop) (x : ExceptT ε (Prog A R) α) (s : σ)
    (q : α → σ → Prop) : Prop :=
  x.run.Along run good s ∧ Ends (alone run x) s q fun _ => True

variable {good : A → σ → Prop} {x : ExceptT ε (Prog A R) α} {f : α → ExceptT ε (Prog A R) β}

theorem leads_bind {q : β → σ → Prop} : Leads run good (x >>= f) s q ↔
    Leads run good x s fun a s' => Leads run good (f a) s' q := by
  unfold Leads
  rw [along_bind_iff, ends_alone_bind, and_assoc]
  refine and_congr_right fun _ => ?_
  unfold Ends
  split <;> simp

theorem leads_pure {a : α} :
    Leads run good (pure a : ExceptT ε (Prog A R) α) s q ↔ q a s := and_iff_right trivial

theorem leads_perform {a : A} {q : R a → σ → Prop} :
    Leads run good (ExceptT.lift (Prog.perform a) : ExceptT ε (Prog A R) (R a)) s q ↔
      good a s ∧ q (run a s).1 (run a s).2 := and_congr_left' (and_iff_left trivial)

theorem leads_result {y : Except ε α} :
    Leads run good (ExceptT.mk (pure y) : ExceptT ε (Prog A R) α) s q ↔ ∀ a, y = .ok a → q a s := by
  refine (and_iff_right ?_).trans (ends_alone_result.trans (and_iff_left fun _ _ => trivial))
  cases y <;> trivial

theorem Leads.mono (h : Leads run good x s q) (hq : ∀ a s', q a s' → q' a s') :
    Leads run good x s q' :=
  ⟨h.1, h.2.mono hq fun _ _ => trivial⟩

theorem leads_true : Leads run good x s (fun _ _ => True) ↔ x.run.Along run good s := by
  refine and_iff_left ?_
  unfold Ends
  split <;> trivial

end Alone

end Handler

end Aeqi.Lib

/-!
## Isolated programs

A caller sees a view of the state that a program works on. The program is isolated where it
performs actions that are confined only, and replies the same from every state with the same view.
Programs on a part of the state are isolated on the whole of it exactly when they are on the part.
-/

namespace Aeqi.Lib

namespace Handler

universe u

variable {A B : Type u} {R : A → Type u} {ε σ τ υ α β : Type u}

/-- The actions are confined, and other states with the same view get the same reply; of those
only the ones count that are `fresh`, which the state itself is expected to be. -/
structure Isolated (run : (a : A) → σ → R a × σ) (confined : A → σ → Prop) (view : σ → υ)
    (fresh : σ → Prop) (x : ExceptT ε (Prog A R) α) (s : σ) : Prop where
  confined : x.run.Along run confined s
  uninfluenced : ∀ s', view s' = view s → fresh s' → (alone run x s').1 = (alone run x s).1

section Isolated

variable {run : (a : A) → σ → R a × σ} {confined : A → σ → Prop} {view : σ → υ}
  {fresh : σ → Prop} {x : ExceptT ε (Prog A R) α} {s s₁ s₂ : σ}

theorem Isolated.same (h : Isolated run confined view fresh x s) (hview₁ : view s₁ = view s)
    (hfresh₁ : fresh s₁) (hview₂ : view s₂ = view s) (hfresh₂ : fresh s₂) :
    (alone run x s₁).1 = (alone run x s₂).1 :=
  (h.uninfluenced s₁ hview₁ hfresh₁).trans (h.uninfluenced s₂ hview₂ hfresh₂).symm

theorem isolated_result (y : Except ε α) :
    Isolated run confined view fresh (ExceptT.mk (pure y)) s :=
  ⟨trivial, fun _ _ _ => rfl⟩

theorem isolated_wrap {f : α → β} (hf : Function.Injective f) :
    Isolated run confined view fresh (x >>= fun a => pure (f a)) s ↔
      Isolated run confined view fresh x s := by
  have hreply : ∀ s, (alone run (x >>= fun a => pure (f a)) s).1 = (alone run x s).1.map f := by
    intro s
    rw [alone_bind]
    rcases alone run x s with ⟨e | a, -⟩ <;> rfl
  have hmap : Function.Injective (Except.map f : Except ε α → Except ε β) := by
    rintro (e | a) (e' | a') h
    · exact congrArg _ (Except.error.inj h)
    · cases h
    · cases h
    · exact congrArg _ (hf (Except.ok.inj h))
  have halong : (x >>= fun a => pure (f a)).run.Along run confined s ↔
      x.run.Along run confined s := by
    rw [along_bind_iff]
    refine and_iff_left ?_
    unfold Ends
    split <;> trivial
  constructor
  · intro h
    refine ⟨halong.1 h.confined, fun s' hview hfresh => hmap ?_⟩
    rw [← hreply, ← hreply]
    exact h.uninfluenced s' hview hfresh
  · intro h
    refine ⟨halong.2 h.confined, fun s' hview hfresh => ?_⟩
    rw [hreply, hreply, h.uninfluenced s' hview hfresh]

end Isolated

/-! ## Programs on a part of the state -/

/-- Some of the actions work on a part of the state. -/
structure OnPart (run : (a : A) → σ → R a × σ) (f : B → A) (part : σ → τ)
    (run' : (b : B) → τ → R (f b) × τ) : Prop where
  reply : ∀ b s, (run (f b) s).1 = (run' b (part s)).1
  leaves : ∀ b s, part (run (f b) s).2 = (run' b (part s)).2

section Part

variable {run : (a : A) → σ → R a × σ} {f : B → A} {part : σ → τ}
  {run' : (b : B) → τ → R (f b) × τ} {confined : A → σ → Prop} {confined' : B → τ → Prop} {s : σ}

theorem OnPart.solo (h : OnPart run f part run') (p : Prog B (fun b => R (f b)) α) :
    ((p.lift f).solo run s).1 = (p.solo run' (part s)).1 ∧
      part ((p.lift f).solo run s).2 = (p.solo run' (part s)).2 := by
  induction p generalizing s with
  | done a => exact ⟨rfl, rfl⟩
  | act b k ih =>
    change ((((k _).lift f).solo run _).1 = _) ∧ part (((k _).lift f).solo run _).2 = _
    rw [h.reply]
    have hrest := ih (run' b (part s)).1 (s := (run (f b) s).2)
    rwa [h.leaves] at hrest

theorem OnPart.along (h : OnPart run f part run') (p : Prog B (fun b => R (f b)) α)
    (hconfined : ∀ b s, confined (f b) s ↔ confined' b (part s)) :
    (p.lift f).Along run confined s ↔ p.Along run' confined' (part s) := by
  induction p generalizing s with
  | done a => exact Iff.rfl
  | act b k ih =>
    refine and_congr (hconfined b s) ?_
    rw [h.reply, ih, h.leaves]

theorem OnPart.isolated_iff (h : OnPart run f part run') {υ' : Type u} {view : σ → υ}
    {view' : τ → υ'} {fresh : σ → Prop} {fresh' : τ → Prop}
    {x : ExceptT ε (Prog B fun b => R (f b)) α}
    (hconfined : ∀ b s, confined (f b) s ↔ confined' b (part s))
    (hview : ∀ s', view s' = view s → view' (part s') = view' (part s))
    (hpart : ∀ t, view' t = view' (part s) → ∃ s', part s' = t ∧ view s' = view s)
    (hfresh : ∀ s, fresh s ↔ fresh' (part s)) :
    Isolated run confined view fresh (ExceptT.mk (x.run.lift f)) s ↔
      Isolated run' confined' view' fresh' x (part s) := by
  have hreply : ∀ s, (alone run (ExceptT.mk (x.run.lift f)) s).1 = (alone run' x (part s)).1 :=
    fun s => (h.solo x.run).1
  constructor
  · intro hiso
    refine ⟨(h.along x.run hconfined).1 hiso.confined, fun t ht hnew => ?_⟩
    obtain ⟨s', rfl, hs'⟩ := hpart t ht
    rw [← hreply, ← hreply]
    exact hiso.uninfluenced s' hs' ((hfresh s').2 hnew)
  · intro hiso
    refine ⟨(h.along x.run hconfined).2 hiso.confined, fun s' hs' hnew => ?_⟩
    rw [hreply, hreply]
    exact hiso.uninfluenced (part s') (hview s' hs') ((hfresh s').1 hnew)

end Part

end Handler

end Aeqi.Lib
