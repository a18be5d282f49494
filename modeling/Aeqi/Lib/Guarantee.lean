import Aeqi.Lib.Threads

/-!
# Guarantees of threads

An invariant of a shared state may depend on what the threads write. A thread minds what it owes:
as long as the invariant holds and others change the state as they may, each of its actions is
proper. If good and proper actions keep the invariant, every run of such threads does.
-/

namespace Aeqi.Lib

universe u v w

/-- The actions on a shared state: which are good, which are proper, the invariant that these keep,
and what they may do to the state. -/
structure Guarantee (A : Type u) (R : A → Type v) (σ : Type u) where
  run : (a : A) → σ → R a × σ
  good : A → σ → Prop
  proper : A → σ → Prop
  inv : σ → Prop
  may : σ → σ → Prop
  refl : ∀ s, may s s
  trans : ∀ {s t u}, may s t → may t u → may s u
  keeps : ∀ a s, good a s → proper a s → inv s → inv (run a s).2
  moves : ∀ a s, good a s → proper a s → inv s → may s (run a s).2

section Minds

variable {A : Type u} {R : A → Type v} {σ : Type u} {α β : Type w} {e : Guarantee A R σ} {s s' : σ}

/-- With others at work from `s` on, every good action of the program is proper, and it finishes
with a result and in a state as `Q` says. -/
def Prog.Minds (e : Guarantee A R σ) : Prog A R α → σ → (α → σ → Prop) → Prop
  | .done x, s, Q => ∀ s', e.may s s' → e.inv s' → Q x s'
  | .act a k, s, Q => ∀ s', e.may s s' → e.inv s' → e.good a s' →
      e.proper a s' ∧ (k (e.run a s').1).Minds e (e.run a s').2 Q

namespace Prog

variable {p : Prog A R α} {Q Q' : α → σ → Prop}

theorem Minds.later (h : p.Minds e s Q) (hmay : e.may s s') : p.Minds e s' Q := by
  cases p with
  | done x | act a k => exact fun t ht => h t (e.trans hmay ht)

theorem Minds.mono (h : p.Minds e s Q) (hQ : ∀ x s', Q x s' → Q' x s') : p.Minds e s Q' := by
  induction p generalizing s with
  | done x => exact fun t ht hinv => hQ x t (h t ht hinv)
  | act a k ih =>
    intro t ht hinv hgood
    obtain ⟨hproper, hrest⟩ := h t ht hinv hgood
    exact ⟨hproper, ih _ hrest⟩

theorem Minds.since (h : p.Minds e s Q) : p.Minds e s fun x s' => Q x s' ∧ e.may s s' := by
  induction p generalizing s with
  | done x => exact fun t ht hinv => ⟨h t ht hinv, ht⟩
  | act a k ih =>
    intro t ht hinv hgood
    obtain ⟨hproper, hrest⟩ := h t ht hinv hgood
    refine ⟨hproper, (ih _ hrest).mono fun x s' hx => ⟨hx.1, ?_⟩⟩
    exact e.trans ht (e.trans (e.moves a t hgood hproper hinv) hx.2)

theorem minds_bind {f : α → Prog A R β} {Q : β → σ → Prop} :
    (p >>= f).Minds e s Q ↔ p.Minds e s fun x s' => e.inv s' → (f x).Minds e s' Q := by
  induction p generalizing s with
  | done x =>
    constructor
    · exact fun h t ht _ _ => Minds.later h ht
    · intro h
      change (f x).Minds e s Q
      cases hf : f x with
      | done y =>
        intro t ht hinv
        have hrest := h t ht hinv hinv
        rw [hf] at hrest
        exact hrest t (e.refl t) hinv
      | act a k =>
        intro t ht hinv hgood
        have hrest := h t ht hinv hinv
        rw [hf] at hrest
        exact hrest t (e.refl t) hinv hgood
  | act a k ih =>
    exact forall_congr' fun t => imp_congr_right fun _ => imp_congr_right fun _ =>
      imp_congr_right fun _ => and_congr_right fun _ => ih _

end Prog

/-- **The invariant holds after every run** of threads that mind it, and they still do. -/
theorem Run.minds {ι : Type v} [DecidableEq ι] {Q : ι → α → σ → Prop}
    {c c' : Pool σ ι (Prog A R α)} {hist : List (Pool σ ι (Prog A R α) × ι)}
    (hrun : Run (Guarded (Pool.NextMeets e.good) (okStep (Pool.step e.run))) c hist c')
    (hc : e.inv c.state) (hthreads : ∀ i, (c.threads i).Minds e c.state (Q i)) :
    e.inv c'.state ∧ ∀ i, (c'.threads i).Minds e c'.state (Q i) := by
  refine hrun.invariant (P := fun c => e.inv c.state ∧ ∀ i, (c.threads i).Minds e c.state (Q i))
    ⟨hc, hthreads⟩ ?_
  rintro t i t' ⟨hinv, hminds⟩ hstep
  obtain ⟨a, k, hi, hgood, rfl⟩ := Pool.guardedStep hstep
  have hthread := hminds i
  rw [hi] at hthread
  obtain ⟨hproper, hrest⟩ := hthread t.state (e.refl _) hinv hgood
  refine ⟨e.keeps a t.state hgood hproper hinv, fun j => ?_⟩
  by_cases hij : j = i
  · subst hij
    simpa only [Function.update_self] using hrest
  · simp only [Function.update_of_ne hij]
    exact (hminds j).later (e.moves a t.state hgood hproper hinv)

theorem Run.moves {ι : Type v} [DecidableEq ι] {Q : ι → α → σ → Prop}
    {c c' : Pool σ ι (Prog A R α)} {hist : List (Pool σ ι (Prog A R α) × ι)}
    (hrun : Run (Guarded (Pool.NextMeets e.good) (okStep (Pool.step e.run))) c hist c')
    (hc : e.inv c.state) (hthreads : ∀ i, (c.threads i).Minds e c.state (Q i)) :
    ∀ h ∈ hist, e.may h.1.state c'.state := by
  induction hrun with
  | nil => exact nofun
  | @step hist t t' i hrun hstep ih =>
    obtain ⟨hinv, hminds⟩ := hrun.minds hc hthreads
    obtain ⟨a, k, hi, hgood, rfl⟩ := Pool.guardedStep hstep
    have hthread := hminds i
    rw [hi] at hthread
    have hproper := (hthread t.state (e.refl _) hinv hgood).1
    have hmay := e.moves a t.state hgood hproper hinv
    intro h hmem
    rcases List.mem_cons.1 hmem with rfl | hmem
    · exact hmay
    · exact e.trans (ih h hmem) hmay

theorem Prog.Minds.of_done {x : α} {Q : α → σ → Prop} (h : (Prog.done x : Prog A R α).Minds e s Q)
    (hinv : e.inv s) : Q x s := h s (e.refl s) hinv

end Minds

end Aeqi.Lib

/-!
## Rely and guarantee

A thread acts on what it has read before, while others change the state in between. What they
may change is a preorder on states that every good action respects; what no such change undoes
is still there when the thread goes on. `Prog.Secures` takes a program along this way, and
`Run.secures` says that a thread of a pool then finishes as its program does.
-/

namespace Aeqi.Lib

universe u v w

/-- The actions on a shared state, which of them are good, and how good ones may change it. -/
structure Rely (A : Type u) (R : A → Type v) (σ : Type u) where
  run : (a : A) → σ → R a × σ
  good : A → σ → Prop
  may : σ → σ → Prop
  refl : ∀ s, may s s
  trans : ∀ {s t u}, may s t → may t u → may s u
  step : ∀ a s, good a s → may s (run a s).2

section Secures

variable {A : Type u} {R : A → Type v} {σ : Type u} {α β ε : Type w} {e : Rely A R σ} {s s' : σ}

/-- With others at work from `s` on, the program finishes with a result and in a state as `Q`
says, if its actions are good. -/
def Prog.Secures (e : Rely A R σ) : Prog A R α → σ → (α → σ → Prop) → Prop
  | .done x, s, Q => ∀ s', e.may s s' → Q x s'
  | .act a k, s, Q => ∀ s', e.may s s' → e.good a s' → (k (e.run a s').1).Secures e (e.run a s').2 Q

namespace Prog

variable {p : Prog A R α} {Q Q' : α → σ → Prop}

theorem Secures.later (h : p.Secures e s Q) (hmay : e.may s s') : p.Secures e s' Q := by
  cases p with
  | done x | act a k => exact fun t ht => h t (e.trans hmay ht)

theorem Secures.mono (h : p.Secures e s Q) (hQ : ∀ x s', Q x s' → Q' x s') : p.Secures e s Q' := by
  induction p generalizing s with
  | done x => exact fun t ht => hQ x t (h t ht)
  | act a k ih => exact fun t ht hgood => ih _ (h t ht hgood)

theorem Secures.since (h : p.Secures e s Q) : p.Secures e s fun x s' => Q x s' ∧ e.may s s' := by
  induction p generalizing s with
  | done x => exact fun t ht => ⟨h t ht, ht⟩
  | act a k ih =>
    intro t ht hgood
    refine (ih _ (h t ht hgood)).mono fun x u hx => ⟨hx.1, ?_⟩
    exact e.trans ht (e.trans (e.step a t hgood) hx.2)

theorem secures_true : p.Secures e s fun _ _ => True := by
  induction p generalizing s with
  | done x => exact fun _ _ => trivial
  | act a k ih => exact fun t _ _ => ih _

theorem secures_bind {f : α → Prog A R β} {Q : β → σ → Prop} :
    (p >>= f).Secures e s Q ↔ p.Secures e s fun x s' => (f x).Secures e s' Q := by
  induction p generalizing s with
  | done x => exact ⟨fun h t ht => Secures.later h ht, fun h => h s (e.refl s)⟩
  | act a k ih => exact forall_congr' fun t => imp_congr_right fun _ => imp_congr_right fun _ => ih _

end Prog

theorem Run.secures {ι : Type v} [DecidableEq ι] {i : ι} {Q : α → σ → Prop}
    {c c' : Pool σ ι (Prog A R α)} {hist : List (Pool σ ι (Prog A R α) × ι)}
    (hrun : Run (Guarded (Pool.NextMeets e.good) (okStep (Pool.step e.run))) c hist c')
    (h : (c.threads i).Secures e c.state Q) : (c'.threads i).Secures e c'.state Q := by
  refine hrun.invariant (P := fun c => (c.threads i).Secures e c.state Q) h ?_
  intro t j t' ht hstep
  obtain ⟨a, k, hj, hgood, rfl⟩ := Pool.guardedStep hstep
  by_cases hij : i = j
  · subst hij
    rw [hj] at ht
    simp only [Function.update_self]
    exact ht t.state (e.refl _) hgood
  · simp only [Function.update_of_ne hij]
    exact ht.later (e.step a t.state hgood)

/-! ## Programs that may fail -/

/-- What the program secures if it does not fail. -/
def Assures (e : Rely A R σ) (x : ExceptT ε (Prog A R) α) (s : σ) (q : α → σ → Prop) : Prop :=
  x.run.Secures e s fun r s' => ∀ a, r = .ok a → q a s'

variable {x : ExceptT ε (Prog A R) α} {f : α → ExceptT ε (Prog A R) β} {q q' : α → σ → Prop}

theorem assures_bind {q : β → σ → Prop} :
    Assures e (x >>= f) s q ↔ Assures e x s fun a s' => Assures e (f a) s' q := by
  refine Prog.secures_bind.trans ⟨fun h => h.mono ?_, fun h => h.mono ?_⟩
  · rintro r t ht a rfl
    exact ht
  · rintro (_ | a) t ht
    · intro u _ b hb
      cases hb
    · exact ht a rfl

theorem Assures.mono (h : Assures e x s q) (hq : ∀ a s', q a s' → q' a s') : Assures e x s q' :=
  Prog.Secures.mono h fun _ _ hr a ha => hq a _ (hr a ha)

theorem Assures.since (h : Assures e x s q) : Assures e x s fun a s' => q a s' ∧ e.may s s' :=
  (Prog.Secures.since h).mono fun _ _ hr a ha => ⟨hr.1 a ha, hr.2⟩

theorem assures_true : Assures e x s fun _ _ => True :=
  Prog.secures_true.mono fun _ _ _ _ _ => trivial

theorem assures_pure {a : α} :
    Assures e (pure a : ExceptT ε (Prog A R) α) s q ↔ ∀ s', e.may s s' → q a s' := by
  refine forall_congr' fun t => imp_congr_right fun _ => ?_
  exact ⟨fun h => h a rfl, fun h b hb => Except.ok.inj hb ▸ h⟩

theorem assures_result {y : Except ε α} : Assures e (ExceptT.mk (pure y)) s q ↔
    ∀ s', e.may s s' → ∀ a, y = .ok a → q a s' := Iff.rfl

theorem assures_bindResult {y : Except ε α} {q : β → σ → Prop} :
    Assures e (ExceptT.mk (pure y) >>= f) s q ↔ ∀ a, y = .ok a → Assures e (f a) s q := by
  refine assures_bind.trans ⟨fun h a ha => h s (e.refl s) a ha, fun h t ht a ha => ?_⟩
  exact (h a ha).later ht

theorem assures_bindPerform {R : A → Type w} {e : Rely A R σ} {a : A}
    {f : R a → ExceptT ε (Prog A R) β} {q : β → σ → Prop} :
    Assures e (ExceptT.lift (Prog.perform a) >>= f) s q ↔
      ∀ s', e.may s s' → e.good a s' → Assures e (f (e.run a s').1) (e.run a s').2 q := Iff.rfl

end Secures

end Aeqi.Lib
