import Aeqi.Lib.Result
import Mathlib.Algebra.BigOperators.Group.Finset.Piecewise
import Mathlib.Tactic.Abel

/-!
# Concurrent programs

A program performs one atomic action after another on a state that it shares with other
programs, and goes on with the reply. What a thread has done when it finishes is read off its
own program, whatever the others do, because every reply is allowed for (`Prog.Holds`); what
becomes of the shared state is a matter of the actions alone.
-/

namespace Aeqi.Lib

universe u v w

variable {A : Type u} {R : A → Type v} {α β ε : Type w}

/-- A program that replies to the actions `A` with `R` and returns an `α`. -/
inductive Prog (A : Type u) (R : A → Type v) (α : Type w)
  | done (x : α)
  | act (a : A) (k : R a → Prog A R α)

namespace Prog

protected def bind : Prog A R α → (α → Prog A R β) → Prog A R β
  | .done x, f => f x
  | .act a k, f => .act a fun r => (k r).bind f

instance : Monad (Prog A R) where
  pure := .done
  bind := Prog.bind

/-- One action. -/
def perform {R : A → Type w} (a : A) : Prog A R (R a) := .act a .done

/-- What the program has returned. -/
def result : Prog A R α → Option α
  | .done x => some x
  | .act _ _ => none

/-- The action that comes next. -/
def head : Prog A R α → Option A
  | .done _ => none
  | .act a _ => some a

theorem result_eq_some {p : Prog A R α} {x : α} : p.result = some x ↔ p = .done x := by
  cases p <;> simp [result]

/-- What the program returns, and the state it leaves, when no other runs beside it. -/
def solo {σ : Type u} (run : (a : A) → σ → R a × σ) : Prog A R α → σ → α × σ
  | .done x, s => (x, s)
  | .act a k, s => (k (run a s).1).solo run (run a s).2

theorem solo_bind {σ : Type u} {run : (a : A) → σ → R a × σ} {p : Prog A R α}
    {f : α → Prog A R β} {s : σ} :
    (p >>= f).solo run s = (f (p.solo run s).1).solo run (p.solo run s).2 := by
  induction p generalizing s with
  | done x => rfl
  | act a k ih => exact ih _

/-- A program over some actions as one over more of them. -/
def lift {B : Type u} {S : B → Type v} (f : A → B) : Prog A (fun a => S (f a)) α → Prog B S α
  | .done x => .done x
  | .act a k => .act (f a) fun r => (k r).lift f

theorem solo_lift {σ : Type u} {B : Type u} {S : B → Type v} {f : A → B}
    {run : (b : B) → σ → S b × σ} {p : Prog A (fun a => S (f a)) α} {s : σ} :
    (p.lift f).solo run s = p.solo (fun a => run (f a)) s := by
  induction p generalizing s with
  | done x => rfl
  | act a k ih => exact ih _

/-- The actions of a program that runs alone, each with the state it is performed in. -/
def trail {σ : Type u} (run : (a : A) → σ → R a × σ) : Prog A R α → σ → List (A × σ)
  | .done _, _ => []
  | .act a k, s => (a, s) :: (k (run a s).1).trail run (run a s).2

/-- Every action meets a condition in the state it is performed in, when no other program
runs beside this one. -/
def Along {σ : Type u} (run : (a : A) → σ → R a × σ) (good : A → σ → Prop) :
    Prog A R α → σ → Prop
  | .done _, _ => True
  | .act a k, s => good a s ∧ (k (run a s).1).Along run good (run a s).2

section Along

variable {σ : Type u} {run : (a : A) → σ → R a × σ} {good : A → σ → Prop}
  {p : Prog A R α} {s : σ}

theorem along_bind {f : α → Prog A R β} : (p >>= f).Along run good s ↔
    p.Along run good s ∧ (f (p.solo run s).1).Along run good (p.solo run s).2 := by
  induction p generalizing s with
  | done x => exact (and_iff_right trivial).symm
  | act a k ih => exact (and_congr_right fun _ => ih _).trans and_assoc.symm

theorem along_iff_trail : p.Along run good s ↔ ∀ e ∈ p.trail run s, good e.1 e.2 := by
  induction p generalizing s with
  | done x => simp [Along, trail]
  | act a k ih =>
    rw [trail, List.forall_mem_cons, Along, ih]

theorem Along.invariant {P : σ → Prop} (h : p.Along run good s) (hs : P s)
    (hact : ∀ a s, good a s → P s → P (run a s).2) : P (p.solo run s).2 := by
  induction p generalizing s with
  | done x => exact hs
  | act a k ih => exact ih _ h.2 (hact a s h.1 hs)

end Along

end Prog

/-! ## What a program does by itself -/

/-- A log of the actions of a program: how an action and its reply are noted, which replies
are allowed for, and what holds of the log before every action. -/
structure Observer (A : Type u) (R : A → Type v) (Γ : Type w) where
  note : Γ → (a : A) → R a → Γ
  allows : (a : A) → R a → Prop
  before : Γ → Prop

namespace Prog

variable {Γ : Type w} {o : Observer A R Γ} {g : Γ}

/-- Whatever it is replied, the program finishes with a log and a result that satisfy `Q`. -/
def Holds (o : Observer A R Γ) : Prog A R α → Γ → (Γ → α → Prop) → Prop
  | .done x, g, Q => Q g x
  | .act a k, g, Q => o.before g ∧ ∀ r, o.allows a r → (k r).Holds o (o.note g a r) Q

theorem holds_bind {p : Prog A R α} {f : α → Prog A R β} {Q : Γ → β → Prop} :
    (p >>= f).Holds o g Q ↔ p.Holds o g fun g' x => (f x).Holds o g' Q := by
  induction p generalizing g with
  | done x => exact Iff.rfl
  | act a k ih => exact and_congr_right fun _ => forall_congr' fun r => imp_congr_right fun _ => ih r

theorem Holds.mono {p : Prog A R α} {Q Q' : Γ → α → Prop} (h : p.Holds o g Q)
    (hQ : ∀ g' x, Q g' x → Q' g' x) : p.Holds o g Q' := by
  induction p generalizing g with
  | done x => exact hQ g x h
  | act a k ih => exact ⟨h.1, fun r hr => ih r (h.2 r hr)⟩

/-- What an error leaves of a postcondition. -/
def orError (Q : Γ → Except ε β → Prop) (P : Γ → α → Prop) (g : Γ) : Except ε α → Prop
  | .ok x => P g x
  | .error e => Q g (.error e)

theorem holds_bindExcept {x : ExceptT ε (Prog A R) α} {f : α → ExceptT ε (Prog A R) β}
    {Q : Γ → Except ε β → Prop} :
    (x >>= f).run.Holds o g Q ↔ x.run.Holds o g (orError Q fun g' y => (f y).run.Holds o g' Q) := by
  refine holds_bind.trans ⟨fun h => h.mono ?_, fun h => h.mono ?_⟩
  · rintro g' (e | y) hy <;> exact hy
  · rintro g' (e | y) hy <;> exact hy

end Prog

/-! ## Protocols -/

/-- In a phase, an action with its reply may lead to a next phase. -/
abbrev Protocol (A : Type u) (R : A → Type v) (Γ : Type w) := Γ → (a : A) → R a → Γ → Prop

namespace Prog

variable {Γ : Type w} {next : Protocol A R Γ} {g : Γ}

/-- Whatever it is replied, the program goes on in a phase that its protocol leads to, and
finishes as `Q` says. -/
def Follows (next : Protocol A R Γ) : Prog A R α → Γ → (Γ → α → Prop) → Prop
  | .done x, g, Q => Q g x
  | .act a k, g, Q => ∀ r, ∃ g', next g a r g' ∧ (k r).Follows next g' Q

theorem follows_bind {p : Prog A R α} {f : α → Prog A R β} {Q : Γ → β → Prop} :
    (p >>= f).Follows next g Q ↔ p.Follows next g fun g' x => (f x).Follows next g' Q := by
  induction p generalizing g with
  | done x => exact Iff.rfl
  | act a k ih =>
    exact forall_congr' fun r => exists_congr fun g' => and_congr_right fun _ => ih r

theorem Follows.mono {p : Prog A R α} {Q Q' : Γ → α → Prop} (h : p.Follows next g Q)
    (hQ : ∀ g' x, Q g' x → Q' g' x) : p.Follows next g Q' := by
  induction p generalizing g with
  | done x => exact hQ g x h
  | act a k ih =>
    intro r
    obtain ⟨g', hnext, hrest⟩ := h r
    exact ⟨g', hnext, ih r hrest⟩

theorem follows_bindExcept {x : ExceptT ε (Prog A R) α} {f : α → ExceptT ε (Prog A R) β}
    {Q : Γ → Except ε β → Prop} : (x >>= f).run.Follows next g Q ↔
      x.run.Follows next g (orError Q fun g' y => (f y).run.Follows next g' Q) := by
  refine follows_bind.trans ⟨fun h => h.mono ?_, fun h => h.mono ?_⟩
  · rintro g' (e | y) hy <;> exact hy
  · rintro g' (e | y) hy <;> exact hy

end Prog

/-! ## Threads -/

/-- The shared state, and what is left of the program of every thread. -/
structure Pool (σ : Type u) (ι : Type v) (P : Type w) where
  state : σ
  threads : ι → P

namespace Pool

variable {σ : Type u} {ι : Type v} [DecidableEq ι]

/-- Thread `i` performs its next action. -/
def step (run : (a : A) → σ → R a × σ) (c : Pool σ ι (Prog A R α)) (i : ι) :
    Except Unit (Pool σ ι (Prog A R α)) :=
  match c.threads i with
  | .done _ => .error ()
  | .act a k => .ok ⟨(run a c.state).2, Function.update c.threads i (k (run a c.state).1)⟩

variable {run : (a : A) → σ → R a × σ} {c c' : Pool σ ι (Prog A R α)} {i : ι}

theorem step_ok (h : c.step run i = .ok c') :
    ∃ a k, c.threads i = .act a k ∧
      c' = ⟨(run a c.state).2, Function.update c.threads i (k (run a c.state).1)⟩ := by
  unfold step at h
  split at h
  · cases h
  · next a k hi => exact ⟨a, k, hi, (Except.ok.inj h).symm⟩

/-- A condition on the next action of a thread, in the state it is performed in. -/
def NextMeets (good : A → σ → Prop) (c : Pool σ ι (Prog A R α)) (i : ι) : Prop :=
  match c.threads i with
  | .done _ => True
  | .act a _ => good a c.state

instance NextMeets.decidable (good : A → σ → Prop) [∀ a s, Decidable (good a s)]
    (c : Pool σ ι (Prog A R α)) (i : ι) : Decidable (NextMeets good c i) := by
  unfold NextMeets
  split <;> infer_instance

omit [DecidableEq ι] in
theorem NextMeets.mono {good good' : A → σ → Prop} (h : NextMeets good c i)
    (hgood : ∀ a s, good a s → good' a s) : NextMeets good' c i := by
  unfold NextMeets at h ⊢
  split at h
  · trivial
  · exact hgood _ _ h

theorem guardedStep {good : A → σ → Prop}
    (h : Guarded (NextMeets good) (okStep (step run)) c i c') :
    ∃ a k, c.threads i = .act a k ∧ good a c.state ∧
      c' = ⟨(run a c.state).2, Function.update c.threads i (k (run a c.state).1)⟩ := by
  obtain ⟨hgood, hstep⟩ := h
  obtain ⟨a, k, hi, hc'⟩ := step_ok hstep
  unfold NextMeets at hgood
  rw [hi] at hgood
  exact ⟨a, k, hi, hgood, hc'⟩

theorem invariant {good : A → σ → Prop} {P : σ → Prop} {hist : List (Pool σ ι (Prog A R α) × ι)}
    (hrun : Run (Guarded (NextMeets good) (okStep (step run))) c hist c') (hc : P c.state)
    (hact : ∀ a s, good a s → P s → P (run a s).2) : P c'.state := by
  refine hrun.invariant (P := fun c => P c.state) hc ?_
  intro t i t' ht h
  obtain ⟨a, k, -, hgood, rfl⟩ := guardedStep h
  exact hact a t.state hgood ht

theorem exact {good : A → σ → Prop} {P : σ → Prop} {hist : List (Pool σ ι (Prog A R α) × ι)}
    (hrun : Run (okStep (step run)) c hist c') (hc : P c.state)
    (hact : ∀ a s, P s → (P (run a s).2 ↔ good a s)) :
    (∀ e ∈ hist, NextMeets good e.1 e.2) ↔ (∀ e ∈ hist, P e.1.state) ∧ P c'.state := by
  induction hrun with
  | nil => simp [hc]
  | @step hist t t' i _ hstep ih =>
    obtain ⟨a, k, hi, rfl⟩ := step_ok hstep
    have hmeets : NextMeets good t i ↔ good a t.state := by
      unfold NextMeets
      rw [hi]
    rw [List.forall_mem_cons, List.forall_mem_cons, ih, hmeets]
    constructor
    · rintro ⟨hgood, hbefore, hstate⟩
      exact ⟨⟨hstate, hbefore⟩, (hact a t.state hstate).2 hgood⟩
    · rintro ⟨⟨hstate, hbefore⟩, hafter⟩
      exact ⟨(hact a t.state hstate).1 hafter, hbefore, hstate⟩

end Pool

/-! ## What a thread has done -/

theorem sum_change {ι : Type v} [Fintype ι] [DecidableEq ι] {M : Type w} [AddCommMonoid M]
    {f f' : ι → M} {i : ι} (h : ∀ j, j ≠ i → f' j = f j) :
    ∑ j, f' j + f i = ∑ j, f j + f' i := by
  have hrest : ∑ j ∈ Finset.univ.erase i, f' j = ∑ j ∈ Finset.univ.erase i, f j :=
    Finset.sum_congr rfl fun j hj => h j (Finset.ne_of_mem_erase hj)
  rw [← Finset.add_sum_erase Finset.univ f' (Finset.mem_univ i),
    ← Finset.add_sum_erase Finset.univ f (Finset.mem_univ i), hrest]
  abel

/-- **Threads keep to their protocols**: an invariant of the state and the phases that every
allowed move of a thread preserves holds after every run. -/
theorem Run.follows {σ : Type u} {ι : Type v} [DecidableEq ι] {Γ : Type w}
    {run : (a : A) → σ → R a × σ} {good : Pool σ ι (Prog A R α) → ι → Prop}
    {I : σ → (ι → Γ) → Prop} {next : ι → Protocol A R Γ} {Q : ι → Γ → α → Prop}
    {c c' : Pool σ ι (Prog A R α)} {hist : List (Pool σ ι (Prog A R α) × ι)}
    (hrun : Run (Guarded good (okStep (Pool.step run))) c hist c')
    (h : ∃ g, I c.state g ∧ ∀ j, (c.threads j).Follows (next j) (g j) (Q j))
    (hstep : ∀ (t : Pool σ ι (Prog A R α)) g i a g', good t i → (t.threads i).head = some a →
      (∀ j, (t.threads j).Follows (next j) (g j) (Q j)) → I t.state g →
      next i (g i) a (run a t.state).1 g' → I (run a t.state).2 (Function.update g i g')) :
    ∃ g, I c'.state g ∧ ∀ j, (c'.threads j).Follows (next j) (g j) (Q j) := by
  refine hrun.invariant
    (P := fun t => ∃ g, I t.state g ∧ ∀ j, (t.threads j).Follows (next j) (g j) (Q j)) h ?_
  rintro t i t' ⟨g, hinv, hfollows⟩ ⟨hgood, hok⟩
  obtain ⟨a, k, hi, rfl⟩ := Pool.step_ok hok
  have hthread := hfollows i
  rw [hi] at hthread
  obtain ⟨g', hmove, hrest⟩ := hthread (run a t.state).1
  have hhead : (t.threads i).head = some a := by rw [hi]; rfl
  refine ⟨_, hstep t g i a g' hgood hhead hfollows hinv hmove, fun j => ?_⟩
  by_cases hij : j = i
  · subst hij
    simpa only [Function.update_self] using hrest
  · simpa only [Function.update_of_ne hij] using hfollows j

section Log

variable {σ : Type u} {ι : Type v} [DecidableEq ι] {Γ : Type w}

/-- The log of thread `i` after the steps of a history. -/
def logOf (o : Observer A R Γ) (run : (a : A) → σ → R a × σ) (g : Γ) (i : ι) :
    List (Pool σ ι (Prog A R α) × ι) → Γ
  | [] => g
  | (c, j) :: hist =>
    if j = i then
      match c.threads i with
      | .done _ => logOf o run g i hist
      | .act a _ => o.note (logOf o run g i hist) a (run a c.state).1
    else logOf o run g i hist

variable {o : Observer A R Γ} {run : (a : A) → σ → R a × σ} {g : Γ} {i j : ι}
  {hist : List (Pool σ ι (Prog A R α) × ι)} {c c' : Pool σ ι (Prog A R α)}

theorem logOf_act {a : A} {k : R a → Prog A R α} (hi : c.threads i = .act a k) :
    logOf o run g i ((c, i) :: hist) = o.note (logOf o run g i hist) a (run a c.state).1 := by
  rw [logOf, if_pos rfl, hi]

theorem logOf_other (hne : i ≠ j) :
    logOf o run g j ((c, i) :: hist) = logOf o run g j hist := by
  rw [logOf, if_neg hne]

/-- **Threads run as their programs say**, whatever the other threads do: in a run whose
actions are replied to as allowed, every thread is left with a program that still holds. -/
theorem Run.holds {good : A → σ → Prop} {Q : ι → Γ → α → Prop}
    (hrun : Run (Guarded (Pool.NextMeets good) (okStep (Pool.step run))) c hist c')
    (hallows : ∀ a s, good a s → o.allows a (run a s).1)
    (h : ∀ i, (c.threads i).Holds o g (Q i)) :
    ∀ i, (c'.threads i).Holds o (logOf o run g i hist) (Q i) := by
  induction hrun with
  | nil => exact h
  | @step hist t t' i _ hstep ih =>
    obtain ⟨a, k, hi, hgood, rfl⟩ := Pool.guardedStep hstep
    intro j
    by_cases hij : i = j
    · subst hij
      have hnext := ih i
      rw [hi] at hnext
      rw [logOf_act hi]
      simp only [Function.update_self]
      exact hnext.2 _ (hallows a t.state hgood)
    · rw [logOf_other hij]
      simp only [Function.update_of_ne (Ne.symm hij)]
      exact ih j

/-- **Conservation.** When every action changes a measure of the state by what the thread
notes, the measure is what it was at the start and what all threads have noted. -/
theorem Run.conserved [Fintype ι] {good : A → σ → Prop} {F : σ → Int} {m : Γ → Int}
    (hrun : Run (Guarded (Pool.NextMeets good) (okStep (Pool.step run))) c hist c')
    (hact : ∀ a s, good a s → ∀ g', F (run a s).2 + m g' = F s + m (o.note g' a (run a s).1))
    (hg : m g = 0) :
    F c'.state = F c.state + ∑ i, m (logOf o run g i hist) := by
  induction hrun with
  | nil => simp [logOf, hg]
  | @step hist t t' i _ hstep ih =>
    obtain ⟨a, k, hi, hgood, rfl⟩ := Pool.guardedStep hstep
    have hnoted := hact a t.state hgood (logOf o run g i hist)
    have hsum : ∑ j, m (logOf o run g j ((t, i) :: hist)) + m (logOf o run g i hist) =
        ∑ j, m (logOf o run g j hist) + m (logOf o run g i ((t, i) :: hist)) :=
      sum_change fun j hj => congrArg m (logOf_other (Ne.symm hj))
    rw [logOf_act hi] at hsum
    simp only at ⊢
    omega

end Log

end Aeqi.Lib
