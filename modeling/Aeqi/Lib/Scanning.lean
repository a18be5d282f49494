import Mathlib.Data.List.Infix

/-!
# Replacing what is found

A scanner goes through a list once. Where it finds something it puts a mark and goes on behind
what it has found. What it finds is told by what stands at the start: one of its heads. If the
mark begins and ends with elements that no head has, then replacing leaves nothing to be found,
and lists are put together without anything new at such an element.
-/

namespace Aeqi.Lib

open List

universe u

/-- What is found at the start of a list, and the mark that is put in its place. -/
structure Scanner (α : Type u) where
  find : List α → Option Nat
  mark : List α
  head : List α → Prop
  found : ∀ s, (find s).isSome ↔ ∃ p, head p ∧ p <+: s
  shrinks : ∀ {s n}, find s = some n → mark.length < n ∧ n ≤ s.length
  short : ∀ {p}, head p → mark.length < p.length

namespace Scanner

variable {α : Type u} (sc : Scanner α)

/-- An element that is in no head. -/
def Stop (a : α) : Prop := ∀ p, sc.head p → a ∉ p

/-- The scan of a list of which the first elements are skipped. -/
def replaceFrom : Nat → List α → List α
  | _, [] => []
  | skip + 1, _ :: s => replaceFrom skip s
  | 0, a :: s =>
    match sc.find (a :: s) with
    | some n => sc.mark ++ replaceFrom (n - 1) s
    | none => a :: replaceFrom 0 s

def replaceAll (s : List α) : List α := sc.replaceFrom 0 s

/-- Nothing is found anywhere. -/
def Clean (s : List α) : Prop := ∀ t, t <:+ s → sc.find t = none

variable {sc} {s t u v w : List α} {a : α}

theorem find_nil : sc.find [] = none := by
  cases h : sc.find [] with
  | none => rfl
  | some n =>
    obtain ⟨hmark, hn⟩ := sc.shrinks h
    have hn : n ≤ 0 := hn
    omega

theorem find_eq_none : sc.find s = none ↔ ∀ p, sc.head p → ¬ p <+: s := by
  rw [← Option.not_isSome_iff_eq_none, sc.found]
  push Not
  rfl

theorem clean_nil : sc.Clean [] := fun _ ht => by
  rw [suffix_nil.mp ht]
  exact find_nil

theorem clean_cons : sc.Clean (a :: s) ↔ sc.find (a :: s) = none ∧ sc.Clean s := by
  simp [Clean, suffix_cons_iff]

theorem prefix_of_stop {p : List α} (hp : sc.head p) (ha : sc.Stop a) (h : p <+: u ++ a :: w) :
    p <+: u := by
  rcases prefix_or_prefix_of_prefix h (prefix_append u (a :: w)) with hu | hu
  · exact hu
  · obtain ⟨rest, rfl⟩ := hu
    rw [prefix_append_right_inj] at h
    cases rest with
    | nil => rw [append_nil]
    | cons b rest =>
      obtain ⟨rfl, -⟩ := cons_prefix_cons.mp h
      exact absurd (mem_append_right u mem_cons_self) (ha _ hp)

theorem find_stop (ha : sc.Stop a) : sc.find (a :: s) = none := by
  refine find_eq_none.mpr fun p hp h => ?_
  have hnil : p = [] := prefix_nil.mp (prefix_of_stop (u := []) hp ha h)
  have hshort := sc.short hp
  rw [hnil] at hshort
  exact Nat.not_lt_zero _ hshort

theorem clean_stop (ha : sc.Stop a) : sc.Clean (a :: s) ↔ sc.Clean s := by
  rw [clean_cons, and_iff_right (find_stop ha)]

theorem clean_append (hu : sc.Clean u) (ha : sc.Stop a) (hs : sc.Clean s) :
    sc.Clean (u ++ a :: s) := by
  induction u with
  | nil => exact (clean_stop ha).mpr hs
  | cons b u ih =>
    obtain ⟨hb, hu⟩ := clean_cons.mp hu
    refine clean_cons.mpr ⟨find_eq_none.mpr fun p hp h => ?_, ih hu⟩
    exact find_eq_none.mp hb p hp (prefix_of_stop (u := b :: u) hp ha h)

theorem Clean.of_part {part : List α} (hs : sc.Clean s) (hpart : part <:+: s) : sc.Clean part := by
  obtain ⟨before, after, rfl⟩ := hpart
  rintro t ⟨start, rfl⟩
  have hfind := hs (t ++ after) ⟨before ++ start, by simp⟩
  rw [find_eq_none] at hfind ⊢
  exact fun p hp hbegins => hfind p hp (hbegins.trans (prefix_append t after))

/-! ## What replacing leaves -/

theorem replaceFrom_length {skip : Nat} (h : skip ≤ s.length) :
    (sc.replaceFrom skip s).length + skip ≤ s.length := by
  induction s generalizing skip with
  | nil =>
    simp [replaceFrom, Nat.le_zero.mp h]
  | cons a s ih =>
    cases skip with
    | succ skip =>
      have hrest := ih (Nat.le_of_succ_le_succ h)
      rw [replaceFrom, length_cons]
      omega
    | zero =>
      rw [replaceFrom]
      cases hf : sc.find (a :: s) with
      | none =>
        have hrest := ih (Nat.zero_le _)
        simpa using hrest
      | some n =>
        obtain ⟨hmark, hn⟩ := sc.shrinks hf
        rw [length_cons] at hn
        have hrest := @ih (n - 1) (by omega)
        simp only [length_append, length_cons]
        omega

theorem replaceAll_eq_self_iff : sc.replaceAll s = s ↔ sc.Clean s := by
  induction s with
  | nil => exact ⟨fun _ => clean_nil, fun _ => rfl⟩
  | cons a s ih =>
    rw [clean_cons, replaceAll, replaceFrom]
    cases hf : sc.find (a :: s) with
    | none =>
      simp only [List.cons.injEq, true_and]
      exact ih
    | some n =>
      simp only [reduceCtorEq, false_and, iff_false]
      intro hsame
      obtain ⟨hmark, hn⟩ := sc.shrinks hf
      rw [length_cons] at hn
      have hlength := congrArg List.length hsame
      have hrest := @replaceFrom_length _ sc s (n - 1) (by omega)
      simp only [length_append, length_cons] at hlength
      omega

theorem replaceAll_split : sc.replaceAll s = s ∨
    ∃ u v w, s = u ++ v ∧ sc.replaceAll s = u ++ sc.mark ++ w := by
  induction s with
  | nil => exact .inl rfl
  | cons a s ih =>
    rw [replaceAll, replaceFrom]
    cases sc.find (a :: s) with
    | some n => exact .inr ⟨[], a :: s, sc.replaceFrom (n - 1) s, rfl, rfl⟩
    | none =>
      rcases ih with hsame | ⟨u, v, w, hs, hrest⟩
      · exact .inl (congrArg (a :: ·) hsame)
      · exact .inr ⟨a :: u, v, w, congrArg (a :: ·) hs, congrArg (a :: ·) hrest⟩

variable {b : α} {inner : List α}

theorem clean_mark (hinner : inner ++ [b] <:+ sc.mark) (hb : sc.Stop b) (hs : sc.Clean s) :
    sc.Clean (inner ++ b :: s) := by
  induction inner with
  | nil => exact (clean_stop hb).mpr hs
  | cons a inner ih =>
    refine clean_cons.mpr ⟨find_eq_none.mpr fun p hp h => ?_, ?_⟩
    · have hlength := (prefix_of_stop (u := a :: inner) hp hb h).length_le
      have hmark := hinner.length_le
      have hshort := sc.short hp
      rw [length_append] at hmark
      omega
    · exact ih ((suffix_cons a _).trans hinner)

theorem clean_replaceFrom (ha : sc.Stop a) (hb : sc.Stop b) (hmark : sc.mark = a :: (inner ++ [b]))
    (skip : Nat) : sc.Clean (sc.replaceFrom skip s) := by
  induction s generalizing skip with
  | nil => cases skip <;> exact clean_nil
  | cons c s ih =>
    cases skip with
    | succ skip => exact ih skip
    | zero =>
      rw [replaceFrom]
      cases hf : sc.find (c :: s) with
      | some n =>
        have hinner : inner ++ [b] <:+ sc.mark := hmark ▸ suffix_cons a _
        simp only [hmark, cons_append, append_assoc]
        exact (clean_stop ha).mpr (clean_mark hinner hb (ih _))
      | none =>
        refine clean_cons.mpr ⟨find_eq_none.mpr fun p hp h => ?_, ih 0⟩
        have hnone := find_eq_none.mp hf p hp
        rcases @replaceAll_split _ sc s with hsame | ⟨u, v, w, hs, hrest⟩
        · exact hnone (hsame ▸ h)
        · rw [replaceAll] at hrest
          rw [hrest, hmark, append_assoc] at h
          have hu : p <+: c :: u := prefix_of_stop (u := c :: u) hp ha h
          exact hnone (hs ▸ hu.trans (prefix_append (c :: u) v))

theorem clean_replaceAll (ha : sc.Stop a) (hb : sc.Stop b)
    (hmark : sc.mark = a :: (inner ++ [b])) : sc.Clean (sc.replaceAll s) :=
  clean_replaceFrom ha hb hmark 0

end Scanner

end Aeqi.Lib

/-!
## Rewriting a list from left to right

A rule looks at what is left of a list. Where it applies it says what is written and how many
elements behind the first are passed over; elsewhere the first element is copied. What is written
is not looked at again.
-/

namespace Aeqi.Lib

universe u

variable {α : Type u}

/-- What is written, and how many elements behind the first are passed over. -/
abbrev Rule (α : Type u) := α → List α → Option (List α × Nat)

/-- The rewriting of a list of which the first elements are passed over. -/
def rewriteFrom (rule : Rule α) : Nat → List α → List α
  | _, [] => []
  | skip + 1, _ :: s => rewriteFrom rule skip s
  | 0, a :: s =>
    match rule a s with
    | some (out, skip) => out ++ rewriteFrom rule skip s
    | none => a :: rewriteFrom rule 0 s

def rewrite (rule : Rule α) (s : List α) : List α := rewriteFrom rule 0 s

section

variable {rule : Rule α} {a : α} {s t u w out : List α} {skip : Nat}

theorem rewriteFrom_eq : rewriteFrom rule skip s = rewrite rule (s.drop skip) := by
  induction skip generalizing s with
  | zero => rfl
  | succ skip ih =>
    cases s with
    | nil => rfl
    | cons a s => exact ih

theorem rewrite_of_some (h : rule a (u ++ w) = some (out, u.length)) :
    rewrite rule (a :: (u ++ w)) = out ++ rewrite rule w := by
  unfold rewrite
  rw [rewriteFrom, h]
  simp only [rewriteFrom_eq]
  rw [List.drop_left, List.drop_zero]

theorem rewrite_of_none (h : rule a s = none) : rewrite rule (a :: s) = a :: rewrite rule s := by
  unfold rewrite
  rw [rewriteFrom, h]

theorem rewrite_append_of_none (h : ∀ t a v, u = t ++ a :: v → rule a (v ++ w) = none) :
    rewrite rule (u ++ w) = u ++ rewrite rule w := by
  induction u with
  | nil => rfl
  | cons a u ih =>
    rw [List.cons_append, rewrite_of_none (h [] a u rfl), List.cons_append,
      ih fun t b v hv => h (a :: t) b v (by rw [hv, List.cons_append])]

end

end Aeqi.Lib
