import Mathlib.Algebra.Order.Ring.Nat

/-!
# Fallible programs and their runs

The shape shared by every on-chain handler: a function into `Except` built from
guards (`require`), options turned into errors (`okOr`) and checked machine
arithmetic on unbounded integers (`checkedAdd`, `checkedSub`, …). Each
combinator comes with the equivalence that inverts a successful result, so a
handler is peeled apart by `simp only [...] at h` and its callees are never
unfolded again.

`Run` collects the successful steps of a partial transition relation together
with the history of the states they started from, newest first.
-/

namespace Aeqi.Lib

open List

universe u v w

/-! ## Inverting a successful computation -/

section Except

variable {ε : Type u} {α β : Type v}

theorem bind_eq_ok {x : Except ε α} {f : α → Except ε β} {b : β} :
    (x >>= f) = .ok b ↔ ∃ a, x = .ok a ∧ f a = .ok b := by
  cases x with
  | error e | ok a => simp [bind, Except.bind]

theorem bind_eq_error {x : Except ε α} {f : α → Except ε β} {e : ε} :
    (x >>= f) = .error e ↔ x = .error e ∨ ∃ a, x = .ok a ∧ f a = .error e := by
  cases x with
  | error e' | ok a => simp [bind, Except.bind]

@[simp] theorem pure_eq_error {a : α} {e : ε} : (pure a : Except ε α) = .error e ↔ False := by
  simp [pure, Except.pure]

@[simp] theorem pure_eq_ok {a b : α} : (pure a : Except ε α) = .ok b ↔ a = b := by
  simp [pure, Except.pure]

theorem ok_of_fst {β : Type v} {x : Except ε α} {a : α} {b b' : β}
    (h : (do let a ← x; pure (a, b)) = .ok (a, b')) : x = .ok a ∧ b = b' := by
  obtain ⟨_, hx, hpair⟩ := bind_eq_ok.1 h
  cases pure_eq_ok.1 hpair
  exact ⟨hx, rfl⟩

theorem ok_of_snd {β : Type v} {x : Except ε β} {a a' : α} {b : β}
    (h : (do let b ← x; pure (a, b)) = .ok (a', b)) : x = .ok b ∧ a = a' := by
  obtain ⟨_, hx, hpair⟩ := bind_eq_ok.1 h
  cases pure_eq_ok.1 hpair
  exact ⟨hx, rfl⟩

/-- `require!(c, e)`. -/
def require (c : Prop) [Decidable c] (e : ε) : Except ε PUnit.{v + 1} :=
  if c then .ok ⟨⟩ else .error e

@[simp] theorem require_eq_ok {c : Prop} [Decidable c] {e : ε} {a : PUnit.{v + 1}} :
    require c e = .ok a ↔ c := by
  unfold require
  split <;> simp_all

@[simp] theorem require_eq_error {c : Prop} [Decidable c] {e e' : ε} :
    (require c e : Except ε PUnit.{v + 1}) = .error e' ↔ ¬ c ∧ e = e' := by
  unfold require
  split <;> simp_all

def okOr (o : Option α) (e : ε) : Except ε α :=
  match o with
  | some a => .ok a
  | none => .error e

@[simp] theorem okOr_eq_ok {o : Option α} {e : ε} {a : α} : okOr o e = .ok a ↔ o = some a := by
  cases o <;> simp [okOr]

@[simp] theorem okOr_eq_error {o : Option α} {e e' : ε} :
    okOr o e = .error e' ↔ o = none ∧ e = e' := by
  cases o <;> simp [okOr]

@[simp] theorem exists_punit {p : PUnit.{v + 1} → Prop} : (∃ u, p u) ↔ p ⟨⟩ :=
  ⟨fun ⟨_, h⟩ => h, fun h => ⟨_, h⟩⟩

theorem mapError_eq_ok {ε' : Type w} {f : ε → ε'} {x : Except ε α} {a : α} :
    x.mapError f = .ok a ↔ x = .ok a := by
  cases x <;> simp [Except.mapError]

theorem mapError_eq_error {ε' : Type w} {f : ε → ε'} {x : Except ε α} {e' : ε'} :
    x.mapError f = .error e' ↔ ∃ e, x = .error e ∧ f e = e' := by
  cases x <;> simp [Except.mapError]

theorem toOption_eq_some {x : Except ε α} {a : α} : x.toOption = some a ↔ x = .ok a := by
  cases x <;> simp [Except.toOption]

theorem toOption_map_eq_some {x : Except ε α} {f : α → β} {b : β} :
    x.toOption.map f = some b ↔ ∃ a, x = .ok a ∧ f a = b := by
  cases x <;> simp [Except.toOption]

theorem isOk_eq_true {x : Except ε α} : x.isOk = true ↔ ∃ a, x = .ok a := by
  cases x <;> simp [Except.toBool]

end Except

/-! ## Checked machine arithmetic

Unsigned integers of width `w` are natural numbers; an operation answers only
when its exact result fits. -/

section Checked

variable {w a b c : Nat}

def tryInto (w a : Nat) : Option Nat := if a < 2 ^ w then some a else none

def checkedAdd (w a b : Nat) : Option Nat := tryInto w (a + b)

def checkedMul (w a b : Nat) : Option Nat := tryInto w (a * b)

def checkedSub (a b : Nat) : Option Nat := if b ≤ a then some (a - b) else none

def checkedDiv (a b : Nat) : Option Nat := if b = 0 then none else some (a / b)

@[simp] theorem tryInto_eq_some : tryInto w a = some c ↔ a < 2 ^ w ∧ a = c := by
  unfold tryInto
  split <;> simp_all

@[simp] theorem checkedAdd_eq_some : checkedAdd w a b = some c ↔ a + b < 2 ^ w ∧ a + b = c :=
  tryInto_eq_some

@[simp] theorem checkedMul_eq_some : checkedMul w a b = some c ↔ a * b < 2 ^ w ∧ a * b = c :=
  tryInto_eq_some

theorem checkedAdd_eq_none : checkedAdd w a b = none ↔ 2 ^ w ≤ a + b := by
  simp [checkedAdd, tryInto]

theorem checkedSub_eq_none : checkedSub a b = none ↔ a < b := by
  simp [checkedSub]

@[simp] theorem checkedSub_eq_some : checkedSub a b = some c ↔ b ≤ a ∧ a - b = c := by
  unfold checkedSub
  split <;> simp_all

@[simp] theorem checkedDiv_eq_some : checkedDiv a b = some c ↔ b ≠ 0 ∧ a / b = c := by
  unfold checkedDiv
  split <;> simp_all

/-- A share that is computed in `w` bits and narrowed to `v`. -/
theorem checkedShare_eq_some {v d : Nat} :
    ((checkedMul w a b).bind fun product => (checkedDiv product d).bind (tryInto v)) = some c ↔
      a * b < 2 ^ w ∧ d ≠ 0 ∧ c < 2 ^ v ∧ a * b / d = c := by
  simp only [Option.bind_eq_some_iff, checkedMul_eq_some, checkedDiv_eq_some, tryInto_eq_some]
  constructor
  · rintro ⟨_, ⟨hmul, rfl⟩, _, ⟨hne, rfl⟩, hlt, rfl⟩
    exact ⟨hmul, hne, hlt, rfl⟩
  · rintro ⟨hmul, hne, hlt, rfl⟩
    exact ⟨_, ⟨hmul, rfl⟩, _, ⟨hne, rfl⟩, hlt, rfl⟩

def checkedAddI64 (a b : Int) : Option Int :=
  if -2 ^ 63 ≤ a + b ∧ a + b < 2 ^ 63 then some (a + b) else none

@[simp] theorem checkedAddI64_eq_some {a b c : Int} :
    checkedAddI64 a b = some c ↔ (-2 ^ 63 ≤ a + b ∧ a + b < 2 ^ 63) ∧ a + b = c := by
  unfold checkedAddI64
  split <;> simp_all

def checkedSubI64 (a b : Int) : Option Int := checkedAddI64 a (-b)

/-- Arithmetic on `i64` in a release build: what a sum or a difference wraps to. -/
def wrapI64 (n : Int) : Int := Int.bmod n (2 ^ 64)

end Checked

/-! ## Runs -/

section Run

variable {σ : Type u} {ι : Type v} {step : σ → ι → σ → Prop} {s s' : σ}

/-- `Run step s h s'`: the steps recorded in `h`, newest first, each with the
state it was taken in, lead from `s` to `s'`. -/
inductive Run (step : σ → ι → σ → Prop) (s : σ) : List (σ × ι) → σ → Prop
  | nil : Run step s [] s
  | step {h : List (σ × ι)} {t t' : σ} {i : ι} (run : Run step s h t) (hstep : step t i t') :
      Run step s ((t, i) :: h) t'

namespace Run

theorem invariant {P : σ → Prop} {h : List (σ × ι)} (run : Run step s h s') (hs : P s)
    (hstep : ∀ t i t', P t → step t i t' → P t') : P s' := by
  induction run with
  | nil => exact hs
  | step _ hi ih => exact hstep _ _ _ ih hi

theorem of_mem {h : List (σ × ι)} (run : Run step s h s') {e : σ × ι} (he : e ∈ h) :
    ∃ h' t, Run step s h' e.1 ∧ step e.1 e.2 t := by
  induction run with
  | nil => exact nomatch he
  | step run hi ih =>
    rcases mem_cons.1 he with rfl | he
    · exact ⟨_, _, run, hi⟩
    · exact ih he

theorem mono {step' : σ → ι → σ → Prop} {h : List (σ × ι)} (run : Run step s h s')
    (hstep : ∀ t i t', step t i t' → step' t i t') : Run step' s h s' := by
  induction run with
  | nil => exact .nil
  | step _ hi ih => exact .step ih (hstep _ _ _ hi)

end Run

/-- What the steps of a history add up to. -/
def sumOver (f : σ → ι → Nat) (h : List (σ × ι)) : Nat := (h.map fun e => f e.1 e.2).sum

@[simp] theorem sumOver_cons (f : σ → ι → Nat) (i : ι) (h : List (σ × ι)) :
    sumOver f ((s, i) :: h) = f s i + sumOver f h := rfl

/-- The steps of a transition function that fails by `Except`. -/
def okStep {ε : Type w} (exec : σ → ι → Except ε σ) (s : σ) (i : ι) (s' : σ) : Prop :=
  exec s i = .ok s'

/-- A step relation restricted to the steps that meet a condition on the state
before and on the input. -/
def Guarded (good : σ → ι → Prop) (step : σ → ι → σ → Prop) (s : σ) (i : ι) (s' : σ) : Prop :=
  good s i ∧ step s i s'

theorem Run.guarded_iff {good : σ → ι → Prop} {h : List (σ × ι)} :
    Run (Guarded good step) s h s' ↔ Run step s h s' ∧ ∀ e ∈ h, good e.1 e.2 := by
  constructor
  · intro run
    induction run with
    | nil => exact ⟨.nil, nofun⟩
    | step _ hstep ih =>
      exact ⟨.step ih.1 hstep.2, forall_mem_cons.2 ⟨hstep.1, ih.2⟩⟩
  · rintro ⟨run, hgood⟩
    induction run with
    | nil => exact .nil
    | step _ hstep ih =>
      obtain ⟨hhead, htail⟩ := forall_mem_cons.1 hgood
      exact .step (ih htail) ⟨hhead, hstep⟩

def execAll {ε : Type w} (exec : σ → ι → Except ε σ) : σ → List ι → Except ε σ
  | s, [] => .ok s
  | s, i :: is =>
    match exec s i with
    | .ok s₁ => execAll exec s₁ is
    | .error e => .error e

theorem Run.guarded {ε : Type w} {good : σ → ι → Prop} {exec : σ → ι → Except ε σ}
    {is : List ι} {t t' : σ} {h : List (σ × ι)} (hgood : ∀ i ∈ is, ∀ s, good s i)
    (run : Run (Guarded good (okStep exec)) s h t) (e : Lib.execAll exec t is = .ok t') :
    ∃ h', Run (Guarded good (okStep exec)) s h' t' ∧ h'.map Prod.snd = is.reverse ++ h.map Prod.snd := by
  induction is generalizing t h with
  | nil =>
    simp only [Lib.execAll, Except.ok.injEq] at e
    exact ⟨h, e ▸ run, by simp⟩
  | cons i is ih =>
    have hi : good t i := hgood i mem_cons_self t
    have hrest : ∀ i ∈ is, ∀ s, good s i := fun i hi => hgood i (mem_cons_of_mem _ hi)
    simp only [Lib.execAll] at e
    split at e
    · next s₁ hs₁ =>
      obtain ⟨h', run', hmap⟩ := ih hrest (.step run ⟨hi, hs₁⟩) e
      exact ⟨h', run', by simpa using hmap⟩
    · cases e

theorem Run.execAll {ε : Type w} {exec : σ → ι → Except ε σ} {is : List ι} {t : σ}
    (h : Lib.execAll exec s is = .ok t) : ∃ h', Run (okStep exec) s h' t := by
  obtain ⟨h', run, -⟩ :=
    @Run.guarded σ ι s ε (fun _ _ => True) exec is s t [] (fun _ _ _ => trivial) .nil h
  exact ⟨h', run.mono fun _ _ _ hstep => hstep.2⟩

/-- Executes a list of inputs and records the history. -/
def traceAll {ε : Type w} (exec : σ → ι → Except ε σ) :
    List (σ × ι) → σ → List ι → Except ε (List (σ × ι) × σ)
  | h, s, [] => .ok (h, s)
  | h, s, i :: is =>
    match exec s i with
    | .ok s₁ => traceAll exec ((s, i) :: h) s₁ is
    | .error e => .error e

theorem Run.traceAll {ε : Type w} {exec : σ → ι → Except ε σ} {is : List ι} {t t' : σ}
    {h h' : List (σ × ι)} (run : Run (okStep exec) s h t)
    (e : Lib.traceAll exec h t is = .ok (h', t')) : Run (okStep exec) s h' t' := by
  induction is generalizing t h with
  | nil =>
    cases e
    exact run
  | cons i is ih =>
    unfold Lib.traceAll at e
    split at e
    · next s₁ hs₁ => exact ih (.step run hs₁) e
    · cases e

/-- Executing a list of inputs succeeds and each of them meets the condition
when it is executed. -/
def AllGood {ε : Type w} (good : σ → ι → Prop) (exec : σ → ι → Except ε σ) :
    σ → List ι → Prop
  | _, [] => True
  | s, i :: is => good s i ∧
    match exec s i with
    | .ok s₁ => AllGood good exec s₁ is
    | .error _ => False

instance AllGood.decidable {ε : Type w} (good : σ → ι → Prop) [∀ s i, Decidable (good s i)]
    (exec : σ → ι → Except ε σ) : ∀ s is, Decidable (AllGood good exec s is)
  | _, [] => isTrue trivial
  | s, i :: is => by
    unfold AllGood
    cases exec s i with
    | ok s₁ =>
      have := AllGood.decidable good exec s₁ is
      infer_instance
    | error e => infer_instance

theorem Run.of_allGood {ε : Type w} {good : σ → ι → Prop} {exec : σ → ι → Except ε σ}
    {is : List ι} {t : σ} {h : List (σ × ι)} (run : Run (Guarded good (okStep exec)) s h t)
    (hg : AllGood good exec t is) : ∃ h' t', Lib.execAll exec t is = .ok t' ∧
      Run (Guarded good (okStep exec)) s h' t' := by
  induction is generalizing t h with
  | nil => exact ⟨h, t, rfl, run⟩
  | cons i is ih =>
    obtain ⟨hi, hrest⟩ := hg
    unfold Lib.execAll
    cases he : exec t i with
    | ok s₁ =>
      rw [he] at hrest
      exact ih (.step run ⟨hi, he⟩) hrest
    | error e =>
      rw [he] at hrest
      exact hrest.elim

end Run

end Aeqi.Lib
