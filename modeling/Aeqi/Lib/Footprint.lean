import Mathlib.Data.Set.Lattice
import Mathlib.Order.CompletePartialOrder

/-!
# Footprints

A state is observed through its fields: `same i s s'` says that `s` and `s'` agree on the field `i`.
`Touches same A f` says that `f` leaves every field outside `A` alone, and that what it makes of the
fields of `A` depends on these only. Two functions with disjoint footprints commute, also where the
state is stored between them and a field that was touched is read back only up to a coarser relation
(`Touches.commute_stored`).
-/

namespace Aeqi.Lib

universe u v

variable {σ : Type u} {ι : Type v} {same near : ι → σ → σ → Prop} {A B : Set ι} {f g : σ → σ}
  {s s' sf sg : σ} {i : ι}

structure Touches (same : ι → σ → σ → Prop) (A : Set ι) (f : σ → σ) : Prop where
  frame : ∀ s, ∀ i ∉ A, same i (f s) s
  within : ∀ s s', (∀ i ∈ A, same i s s') → ∀ i ∈ A, same i (f s) (f s')

/-- The results for `s` and `s'` agree where `s` and `s'` do, the footprint included. -/
theorem Touches.congr (hf : Touches same A f) (hsame : ∀ i, Equivalence (same i))
    (hA : ∀ j ∈ A, same j s s') (hi : same i s s') : same i (f s) (f s') := by
  by_cases hmem : i ∈ A
  · exact hf.within s s' hA i hmem
  · have hleft : same i (f s) s := hf.frame s i hmem
    have hright : same i s' (f s') := (hsame i).symm (hf.frame s' i hmem)
    exact (hsame i).trans hleft ((hsame i).trans hi hright)

section Stored

variable (hsame : ∀ i, Equivalence (same i)) (hnear : ∀ i, Equivalence (near i))
  (hle : ∀ i s s', same i s s' → near i s s')
  (hf : Touches same A f) (hg : Touches same B g) (hdisj : Disjoint A B)
  (hstored : ∀ i ∉ A, same i sf s) (hstored' : ∀ i ∉ B, same i sg s)
  (hnearf : ∀ i, near i sf (f s)) (hnearg : ∀ i, near i sg (g s))

include hsame hnear hle hf hg hdisj hstored' hnearf in
theorem Touches.near_of_mem (hi : i ∈ A) : near i (g sf) (f sg) := by
  have hother : i ∉ B := fun hB => Set.disjoint_left.1 hdisj hi hB
  have hleft : near i (g sf) (f s) := (hnear i).trans (hle i _ _ (hg.frame sf i hother)) (hnearf i)
  have hseen : ∀ j ∈ A, same j s sg := fun j hj =>
    (hsame j).symm (hstored' j fun hB => Set.disjoint_left.1 hdisj hj hB)
  exact (hnear i).trans hleft (hle i _ _ (hf.within s sg hseen i hi))

include hsame hnear hle hf hg hdisj hstored hstored' hnearf hnearg in
/-- `sf` and `sg` are what is read of `f s` and `g s` after they have been stored. -/
theorem Touches.commute_stored : near i (g sf) (f sg) := by
  by_cases hA : i ∈ A
  · exact Touches.near_of_mem hsame hnear hle hf hg hdisj hstored' hnearf hA
  · by_cases hB : i ∈ B
    · exact (hnear i).symm
        (Touches.near_of_mem hsame hnear hle hg hf hdisj.symm hstored hnearg hB)
    · have hleft : same i (g sf) s := (hsame i).trans (hg.frame sf i hB) (hstored i hA)
      have hright : same i (f sg) s := (hsame i).trans (hf.frame sg i hA) (hstored' i hB)
      exact hle i _ _ ((hsame i).trans hleft ((hsame i).symm hright))

end Stored

end Aeqi.Lib
