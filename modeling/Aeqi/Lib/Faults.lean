import Aeqi.Lib.Threads

/-!
# Programs that are cut short

Every action of a program is performed in the state that others have left by then, and may be
cut short, which ends the program with an error. `Exec` lists what each action found and left.
A program is `Quiet` when all its actions keep to a relation between the two states, and
`QuietOnError` when they do in every execution that ends with an error.
-/

namespace Aeqi.Lib

open List

universe u w

variable {A : Type u} {R : A → Type w} {σ : Type u} {ε α β : Type w}

/-- An action with the state that it found and the one that it left. -/
structure Performed (A σ : Type u) where
  action : A
  found : σ
  left : σ

/-- An execution of a program: `failures` are the states that an action may leave when it is
cut short. -/
inductive Exec (run : (a : A) → σ → R a × σ) (failures : A → σ → List σ) :
    Prog A R (Except ε α) → List (Performed A σ) → Except ε α → Prop
  | done (x : Except ε α) : Exec run failures (.done x) [] x
  | act {a : A} {k : R a → Prog A R (Except ε α)} {s : σ} {steps : List (Performed A σ)}
      {x : Except ε α} (h : Exec run failures (k (run a s).1) steps x) :
      Exec run failures (.act a k) (⟨a, s, (run a s).2⟩ :: steps) x
  | abort {a : A} {k : R a → Prog A R (Except ε α)} {s s' : σ} (e : ε) (h : s' ∈ failures a s) :
      Exec run failures (.act a k) [⟨a, s, s'⟩] (.error e)

namespace Exec

variable {run : (a : A) → σ → R a × σ} {failures : A → σ → List σ}
  {steps : List (Performed A σ)}

theorem of_done {x r : Except ε α} (h : Exec run failures (.done x) steps r) :
    steps = [] ∧ x = r := by
  cases h
  exact ⟨rfl, rfl⟩

theorem of_bind {x : ExceptT ε (Prog A R) α} {f : α → ExceptT ε (Prog A R) β} {r : Except ε β}
    (h : Exec run failures (x >>= f).run steps r) :
    (∃ e, r = .error e ∧ Exec run failures x.run steps (.error e)) ∨
      ∃ y steps₁ steps₂, steps = steps₁ ++ steps₂ ∧ Exec run failures x.run steps₁ (.ok y) ∧
        Exec run failures (f y).run steps₂ r := by
  change Exec run failures (Prog.bind x.run _) steps r at h
  generalize x.run = p at h
  induction p generalizing steps with
  | done y =>
    cases y with
    | error e =>
      cases h
      exact .inl ⟨e, rfl, .done _⟩
    | ok y => exact .inr ⟨y, [], steps, rfl, .done _, h⟩
  | act a k ih =>
    cases h with
    | act h =>
      rcases ih _ h with ⟨e, hr, hx⟩ | ⟨y, steps₁, steps₂, rfl, hx, hf⟩
      · exact .inl ⟨e, hr, .act hx⟩
      · exact .inr ⟨y, _ :: steps₁, steps₂, rfl, .act hx, hf⟩
    | abort e h => exact .inl ⟨e, rfl, .abort e h⟩

end Exec

/-! ## A program alone -/

/-- What each action finds and leaves when no other program runs beside. -/
def Prog.trace (run : (a : A) → σ → R a × σ) : Prog A R α → σ → List (Performed A σ)
  | .done _, _ => []
  | .act a k, s => ⟨a, s, (run a s).2⟩ :: (k (run a s).1).trace run (run a s).2

theorem Exec.alone {run : (a : A) → σ → R a × σ} {failures : A → σ → List σ}
    {p : Prog A R (Except ε α)} {s : σ} {x : Except ε α} {s' : σ} (h : p.solo run s = (x, s')) :
    Exec run failures p (p.trace run s) x := by
  induction p generalizing s with
  | done y =>
    cases h
    exact .done x
  | act a k ih => exact .act (ih _ h)

/-! ## Quiet programs -/

section Quiet

variable (run : (a : A) → σ → R a × σ) (failures : A → σ → List σ)
  (keeps whole : Performed A σ → Prop)

/-- Whatever happens, every action keeps to the relation. -/
def Quiet (x : ExceptT ε (Prog A R) α) : Prop :=
  ∀ steps r, Exec run failures x.run steps r → ∀ t ∈ steps, keeps t

/-- When the program ends with an error and its actions are `whole`, they keep to the relation. -/
def QuietOnError (x : ExceptT ε (Prog A R) α) : Prop :=
  ∀ steps e, Exec run failures x.run steps (.error e) → (∀ t ∈ steps, whole t) →
    ∀ t ∈ steps, keeps t

end Quiet

section Rules

variable {run : (a : A) → σ → R a × σ} {failures : A → σ → List σ}
  {keeps whole : Performed A σ → Prop} {x : ExceptT ε (Prog A R) α}
  {f : α → ExceptT ε (Prog A R) β}

namespace Quiet

theorem result (y : Except ε α) :
    Quiet run failures keeps (ExceptT.mk (pure y) : ExceptT ε (Prog A R) α) := by
  intro steps r h
  cases h
  exact nofun

theorem perform {a : A} (hrun : ∀ s, keeps ⟨a, s, (run a s).2⟩)
    (hfail : ∀ s, ∀ s' ∈ failures a s, keeps ⟨a, s, s'⟩) :
    Quiet run failures keeps (ExceptT.lift (Prog.perform a) : ExceptT ε (Prog A R) (R a)) := by
  intro steps r h
  cases h with
  | act h =>
    cases h
    simpa using hrun _
  | abort e h => simpa using hfail _ _ h

theorem bind (hx : Quiet run failures keeps x) (hf : ∀ y, Quiet run failures keeps (f y)) :
    Quiet run failures keeps (x >>= f) := by
  intro steps r h t ht
  rcases h.of_bind with ⟨e, -, hfirst⟩ | ⟨y, steps₁, steps₂, rfl, hfirst, hsecond⟩
  · exact hx _ _ hfirst t ht
  · rcases mem_append.1 ht with ht | ht
    · exact hx _ _ hfirst t ht
    · exact hf y _ _ hsecond t ht

theorem onError (hx : Quiet run failures keeps x) : QuietOnError run failures keeps whole x :=
  fun steps _ h _ => hx steps _ h

end Quiet

namespace QuietOnError

theorem bind (hx : Quiet run failures keeps x)
    (hf : ∀ y, QuietOnError run failures keeps whole (f y)) :
    QuietOnError run failures keeps whole (x >>= f) := by
  intro steps e h hwhole t ht
  rcases h.of_bind with ⟨e', -, hfirst⟩ | ⟨y, steps₁, steps₂, rfl, hfirst, hsecond⟩
  · exact hx _ _ hfirst t ht
  · rcases mem_append.1 ht with ht | ht
    · exact hx _ _ hfirst t ht
    · exact hf y _ _ hsecond (fun t ht => hwhole t (mem_append_right _ ht)) t ht

theorem ite {c : Prop} [Decidable c] {y : ExceptT ε (Prog A R) α}
    (hx : QuietOnError run failures keeps whole x) (hy : QuietOnError run failures keeps whole y) :
    QuietOnError run failures keeps whole (if c then x else y) := by
  split
  · exact hx
  · exact hy

theorem andReturn (hx : QuietOnError run failures keeps whole x) {g : α → β} :
    QuietOnError run failures keeps whole (x >>= fun y => pure (g y)) := by
  intro steps e h hwhole
  rcases h.of_bind with ⟨e', -, hfirst⟩ | ⟨y, -, steps₂, rfl, -, hsecond⟩
  · exact hx _ _ hfirst hwhole
  · cases hsecond

theorem last {a : A} {k : R a → ExceptT ε (Prog A R) β} {g : R a → Except ε β}
    (hk : ∀ r, (k r).run = .done (g r))
    (hrun : ∀ s e, g (run a s).1 = .error e → whole ⟨a, s, (run a s).2⟩ → keeps ⟨a, s, (run a s).2⟩)
    (hfail : ∀ s, ∀ s' ∈ failures a s, whole ⟨a, s, s'⟩ → keeps ⟨a, s, s'⟩) :
    QuietOnError run failures keeps whole (ExceptT.lift (Prog.perform a) >>= k) := by
  intro steps e h hwhole
  cases h with
  | @act _ _ s _ _ h =>
    change Exec run failures (k (run a s).1).run _ _ at h
    rw [hk] at h
    obtain ⟨rfl, hg⟩ := h.of_done
    simpa using hrun s e hg (hwhole _ mem_cons_self)
  | abort e h => simpa using hfail _ _ h (hwhole _ mem_cons_self)

end QuietOnError

end Rules

/-! ## Programs over fewer actions -/

section Lift

variable {B : Type u} {S : B → Type w} {f : A → B} {run : (b : B) → σ → S b × σ}
  {failures : B → σ → List σ} {keeps whole : Performed B σ → Prop}

theorem Exec.of_lift {p : Prog A (fun a => S (f a)) (Except ε α)} {steps : List (Performed B σ)}
    {r : Except ε α} (h : Exec run failures (p.lift f) steps r) :
    ∃ steps', Exec (fun a => run (f a)) (fun a => failures (f a)) p steps' r ∧
      steps = steps'.map fun t => ⟨f t.action, t.found, t.left⟩ := by
  induction p generalizing steps with
  | done x =>
    cases h
    exact ⟨[], .done _, rfl⟩
  | act a k ih =>
    cases h with
    | act h =>
      obtain ⟨steps', h', rfl⟩ := ih _ h
      exact ⟨_ :: steps', .act h', rfl⟩
    | abort e h => exact ⟨_, .abort e h, rfl⟩

theorem Quiet.lift {x : ExceptT ε (Prog A fun a => S (f a)) α}
    (h : Quiet (fun a => run (f a)) (fun a => failures (f a))
      (fun t => keeps ⟨f t.action, t.found, t.left⟩) x) :
    Quiet run failures keeps (ExceptT.mk (Prog.lift f x.run) : ExceptT ε (Prog B S) α) := by
  intro steps r hexec t ht
  obtain ⟨steps', hexec', rfl⟩ := Exec.of_lift hexec
  obtain ⟨t', ht', rfl⟩ := mem_map.1 ht
  exact h _ _ hexec' t' ht'

theorem QuietOnError.lift {x : ExceptT ε (Prog A fun a => S (f a)) α}
    (h : QuietOnError (fun a => run (f a)) (fun a => failures (f a))
      (fun t => keeps ⟨f t.action, t.found, t.left⟩)
      (fun t => whole ⟨f t.action, t.found, t.left⟩) x) :
    QuietOnError run failures keeps whole
      (ExceptT.mk (Prog.lift f x.run) : ExceptT ε (Prog B S) α) := by
  intro steps e hexec hwhole t ht
  obtain ⟨steps', hexec', rfl⟩ := Exec.of_lift hexec
  obtain ⟨t', ht', rfl⟩ := mem_map.1 ht
  refine h _ _ hexec' (fun s hs => ?_) t' ht'
  exact hwhole _ (mem_map.2 ⟨s, hs, rfl⟩)

end Lift

end Aeqi.Lib
