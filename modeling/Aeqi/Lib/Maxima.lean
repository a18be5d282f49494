import Mathlib.Data.List.Sort

/-!
# Choosing a greatest element

Of several elements with the greatest key, a scan with `≤` keeps the last one and a stable sort puts
the first one in front. So what is chosen depends on the order in which the elements come, unless
one element alone has the greatest key.
-/

namespace Aeqi.Lib

open List

universe u v w

variable {α : Type u} {β : Type v} [LinearOrder β] {key : α → β} {l l' : List α} {a b : α}

/-- An element with the greatest key. -/
def Greatest (key : α → β) (l : List α) (a : α) : Prop := a ∈ l ∧ ∀ b ∈ l, key b ≤ key a

/-- One element at most has the greatest key. -/
def Untied (key : α → β) (l : List α) : Prop :=
  ∀ a ∈ l, ∀ b ∈ l, Greatest key l a → Greatest key l b → a = b

section Decidable

variable [DecidableEq α]

instance greatestDecidable (key : α → β) (l : List α) (a : α) : Decidable (Greatest key l a) :=
  inferInstanceAs (Decidable (a ∈ l ∧ ∀ b ∈ l, key b ≤ key a))

instance untiedDecidable (key : α → β) (l : List α) : Decidable (Untied key l) :=
  inferInstanceAs
    (Decidable (∀ a ∈ l, ∀ b ∈ l, Greatest key l a → Greatest key l b → a = b))

end Decidable

theorem greatest_perm (h : l'.Perm l) : Greatest key l' a ↔ Greatest key l a := by
  simp [Greatest, h.mem_iff]

theorem Untied.eq (h : Untied key l) (ha : Greatest key l a) (hb : Greatest key l b) : a = b :=
  h a ha.1 b hb.1 ha hb

theorem untied_perm (h : l'.Perm l) : Untied key l' ↔ Untied key l := by
  simp [Untied, h.mem_iff, greatest_perm h]

/-! ## The last of the greatest -/

def lastMax (key : α → β) : List α → Option α
  | [] => none
  | a :: l => some (l.foldl (fun best b => if key b < key best then best else b) a)

theorem greatest_foldl (l : List α) (a : α) :
    Greatest key (a :: l)
      (l.foldl (fun best b => if key b < key best then best else b) a) := by
  induction l generalizing a with
  | nil => exact ⟨mem_singleton_self a, fun b hb => (mem_singleton.1 hb ▸ le_rfl)⟩
  | cons c l ih =>
    rw [foldl_cons]
    split
    · next hlt =>
      obtain ⟨hmem, hle⟩ := ih a
      have ha := hle a mem_cons_self
      refine ⟨?_, ?_⟩
      · simp only [mem_cons] at hmem ⊢
        tauto
      · intro b hb
        simp only [mem_cons] at hb hle
        rcases hb with rfl | rfl | hb
        · exact ha
        · exact hlt.le.trans ha
        · exact hle b (.inr hb)
    · next hlt =>
      obtain ⟨hmem, hle⟩ := ih c
      have hc := hle c mem_cons_self
      refine ⟨mem_cons_of_mem a hmem, ?_⟩
      intro b hb
      rcases mem_cons.1 hb with rfl | hb
      · exact (not_lt.1 hlt).trans hc
      · exact hle b hb

theorem greatest_of_lastMax (h : lastMax key l = some a) : Greatest key l a := by
  cases l with
  | nil => simp only [lastMax, reduceCtorEq] at h
  | cons b l =>
    simp only [lastMax, Option.some.injEq] at h
    exact h ▸ greatest_foldl l b

theorem lastMax_isSome (key : α → β) (h : a ∈ l) : ∃ b, lastMax key l = some b := by
  cases l with
  | nil => simp only [not_mem_nil] at h
  | cons c l => exact ⟨_, rfl⟩

theorem Untied.lastMax_perm (hl : Untied key l) (h : l'.Perm l) :
    lastMax key l' = lastMax key l := by
  cases hmax : lastMax key l with
  | none =>
    cases l with
    | nil => rw [h.eq_nil, lastMax]
    | cons a l => simp only [lastMax, reduceCtorEq] at hmax
  | some a =>
    have ha := greatest_of_lastMax hmax
    obtain ⟨b, hb⟩ := lastMax_isSome key (h.mem_iff.2 ha.1)
    rw [hb, hl.eq ((greatest_perm h).1 (greatest_of_lastMax hb)) ha]

theorem lastMax_map {γ : Type w} {f : γ → α} {l : List γ} :
    lastMax key (l.map f) = (lastMax (key ∘ f) l).map f := by
  cases l with
  | nil => rfl
  | cons c l =>
    simp only [lastMax, Function.comp_apply]
    induction l generalizing c with
    | nil => rfl
    | cons d l ih =>
      simp only [map_cons, foldl_cons]
      split
      · exact ih c
      · exact ih d

/-! ## The first of the greatest -/

/-- The front of a stable sort, the greatest keys first. -/
def firstMax (key : α → β) (l : List α) : Option α :=
  (l.insertionSort fun a b => key b ≤ key a).head?

theorem greatest_of_firstMax (h : firstMax key l = some a) : Greatest key l a := by
  have hsort := pairwise_insertionSort (fun a b : α => key b ≤ key a) l
  have hperm := perm_insertionSort (fun a b : α => key b ≤ key a) l
  rw [firstMax] at h
  cases hl : l.insertionSort fun a b => key b ≤ key a with
  | nil => simp only [hl, head?_nil, reduceCtorEq] at h
  | cons c m =>
    rw [hl] at h hsort hperm
    obtain rfl : c = a := Option.some.inj h
    refine (greatest_perm hperm).1 ⟨mem_cons_self, fun b hb => ?_⟩
    rcases mem_cons.1 hb with rfl | hb
    · exact le_rfl
    · exact rel_of_pairwise_cons hsort hb

theorem firstMax_isSome (key : α → β) (h : a ∈ l) : ∃ b, firstMax key l = some b := by
  rw [firstMax]
  cases hl : l.insertionSort fun a b => key b ≤ key a with
  | nil =>
    have hmem := (mem_insertionSort fun a b : α => key b ≤ key a).2 h
    simp only [hl, not_mem_nil] at hmem
  | cons b m => exact ⟨b, rfl⟩

theorem Untied.firstMax_perm (hl : Untied key l) (h : l'.Perm l) :
    firstMax key l' = firstMax key l := by
  cases hmax : firstMax key l with
  | none =>
    cases l with
    | nil => rw [h.eq_nil]; exact hmax
    | cons a l =>
      obtain ⟨b, hb⟩ := firstMax_isSome key (mem_cons_self (a := a) (l := l))
      simp only [hb, reduceCtorEq] at hmax
  | some a =>
    have ha := greatest_of_firstMax hmax
    obtain ⟨b, hb⟩ := firstMax_isSome key (h.mem_iff.2 ha.1)
    rw [hb, hl.eq ((greatest_perm h).1 (greatest_of_firstMax hb)) ha]

theorem firstMax_cons (h : ∀ b ∈ l, key b ≤ key a) : firstMax key (a :: l) = some a := by
  rw [firstMax, insertionSort_cons_of_forall_rel]
  · rfl
  · exact h

/-! ## An order with an element in front -/

section Front

variable [DecidableEq α]

/-- The list with the element in front, if it has it. -/
def toFront (a : α) (l : List α) : List α := if a ∈ l then a :: l.erase a else l

theorem toFront_perm (a : α) (l : List α) : (toFront a l).Perm l := by
  rw [toFront]
  split
  · next hmem => exact (perm_cons_erase hmem).symm
  · exact List.Perm.refl l

theorem toFront_of_mem (h : a ∈ l) : toFront a l = a :: l.erase a := if_pos h

theorem filter_toFront {p : α → Bool} (h : a ∈ l) (hp : p a = true) :
    (toFront a l).filter p = a :: (l.erase a).filter p := by
  rw [toFront_of_mem h, filter_cons_of_pos hp]

theorem firstMax_toFront (h : Greatest key l a) : firstMax key (toFront a l) = some a := by
  rw [toFront_of_mem h.1]
  exact firstMax_cons fun b hb => h.2 b (mem_of_mem_erase hb)

end Front

end Aeqi.Lib
