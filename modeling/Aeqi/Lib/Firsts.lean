import Mathlib.Data.List.Basic

/-!
# The first of each key

Of a list only the first element of each key is kept. Where some elements of the list are hidden,
nothing is lost by it exactly if each element that is the first of its key is shown, or is shown
again before any other new key is.
-/

namespace Aeqi.Lib

open List

universe u v

variable {α : Type u} {κ : Type v} [DecidableEq κ]

/-- The elements whose key has not been seen. -/
def firstsFrom (key : α → κ) : List κ → List α → List α
  | _, [] => []
  | seen, a :: l =>
    if key a ∈ seen then firstsFrom key seen l else a :: firstsFrom key (key a :: seen) l

/-- What is shown of a list; the mark of an element tells whether it is. -/
def shown (l : List (α × Bool)) : List α := (l.filter (·.2)).map (·.1)

/-- Each hidden element of a new key is the next one of a new key that is shown. -/
def Regained (key : α → κ) (seen : List κ) (l : List (α × Bool)) : Prop :=
  ∀ before a after, l = before ++ (a, false) :: after →
    key a ∉ seen → key a ∉ before.map (key ·.1) →
      (shown after).find? (fun b => key b ∉ seen ∧ key b ∉ before.map (key ·.1)) = some a

variable {key : α → κ} {seen : List κ} {a : α} {l : List α} {marked : List (α × Bool)}

theorem shown_cons_true : shown ((a, true) :: marked) = a :: shown marked := rfl

theorem shown_cons_false : shown ((a, false) :: marked) = shown marked := rfl

theorem firstsFrom_eq (seen : List κ) (l : List α) : firstsFrom key seen l =
    match l.find? (fun b => key b ∉ seen) with
    | none => []
    | some a => a :: firstsFrom key (key a :: seen) l := by
  induction l with
  | nil => rfl
  | cons b l ih =>
    rw [firstsFrom]
    split
    · next hseen =>
      rw [find?_cons_of_neg (by simpa using hseen), ih]
      cases l.find? (fun b => key b ∉ seen) with
      | none => rfl
      | some a =>
        dsimp only
        rw [firstsFrom, if_pos (mem_cons_of_mem _ hseen)]
    · next hnew =>
      rw [find?_cons_of_pos (by simpa using hnew)]
      dsimp only
      rw [firstsFrom, if_pos mem_cons_self]

theorem regained_nil : Regained key seen [] := by
  intro before a after hl
  cases before <;> cases hl

theorem regained_cons {mark : Bool} : Regained key seen ((a, mark) :: marked) ↔
    (mark = false → key a ∉ seen → (shown marked).find? (fun b => key b ∉ seen) = some a) ∧
      Regained key (key a :: seen) marked := by
  have hmove (before : List (α × Bool)) (k : κ) :
      k ∉ seen ∧ k ∉ (((a, mark) :: before).map (key ·.1)) ↔
        k ∉ key a :: seen ∧ k ∉ before.map (key ·.1) := by
    simp only [map_cons, mem_cons, not_or]
    tauto
  constructor
  · intro h
    refine ⟨fun hmark hnew => ?_, fun before b after hl hseen hbefore => ?_⟩
    · subst hmark
      have := h [] a marked rfl hnew not_mem_nil
      simpa using this
    · obtain ⟨hseen', hbefore'⟩ := (hmove before (key b)).2 ⟨hseen, hbefore⟩
      have := h ((a, mark) :: before) b after (congrArg _ hl) hseen' hbefore'
      simpa only [hmove] using this
  · rintro ⟨hhead, htail⟩ before b after hl hseen hbefore
    cases before with
    | nil =>
      cases hl
      simpa using hhead rfl hseen
    | cons x before =>
      cases hl
      obtain ⟨hseen', hbefore'⟩ := (hmove before (key b)).1 ⟨hseen, hbefore⟩
      simpa only [hmove] using htail before b after rfl hseen' hbefore'

theorem firstsFrom_congr {seen' : List κ} (h : ∀ k, k ∈ seen ↔ k ∈ seen') :
    firstsFrom key seen l = firstsFrom key seen' l := by
  induction l generalizing seen seen' with
  | nil => rfl
  | cons b l ih =>
    have hcons (k : κ) : k ∈ key b :: seen ↔ k ∈ key b :: seen' := by
      rw [mem_cons, mem_cons, h]
    rw [firstsFrom, firstsFrom, ih h, ih hcons]
    simp [h]

/-- **Nothing is lost by hiding**, exactly if each first one is regained. -/
theorem firsts_eq_firsts_shown : firstsFrom key seen (marked.map (·.1)) =
    firstsFrom key seen (shown marked) ↔ Regained key seen marked := by
  induction marked generalizing seen with
  | nil => exact iff_of_true rfl regained_nil
  | cons x marked ih =>
    obtain ⟨a, mark⟩ := x
    rw [regained_cons, ← ih, map_cons, firstsFrom]
    by_cases hseen : key a ∈ seen
    · have hcongr (l : List α) : firstsFrom key (key a :: seen) l = firstsFrom key seen l :=
        firstsFrom_congr fun k => mem_cons.trans (or_iff_right_of_imp fun h => h ▸ hseen)
      rw [if_pos hseen, hcongr, hcongr]
      cases mark with
      | false => simp [shown_cons_false, hseen]
      | true =>
        rw [shown_cons_true, firstsFrom, if_pos hseen]
        simp
    · rw [if_neg hseen]
      cases mark with
      | true =>
        rw [shown_cons_true, firstsFrom, if_neg hseen]
        simp
      | false =>
        rw [shown_cons_false, firstsFrom_eq seen (shown marked)]
        cases hfind : (shown marked).find? (fun b => key b ∉ seen) with
        | none => simp [hseen]
        | some b =>
          simp only [List.cons.injEq, Option.some.injEq, forall_const, hseen, not_false_eq_true]
          constructor
          · rintro ⟨rfl, h⟩
            exact ⟨rfl, h⟩
          · rintro ⟨rfl, h⟩
            exact ⟨rfl, h⟩

end Aeqi.Lib
