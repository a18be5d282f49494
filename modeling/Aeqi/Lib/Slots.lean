import Mathlib.Data.List.Pairwise
import Mathlib.Order.Monotone.Basic

/-!
# Firing once in a slot

Something is asked at each tick whether it is due, and knows the last tick at which it was. Time is
cut into slots, and it should fire once in each slot that is wanted, if there is a tick in it. It
does so just where the answer is right for any last tick in a wanted slot (`firesExactly_of_due`).
-/

namespace Aeqi.Lib

open List

universe u v

variable {τ : Type u} {σ : Type v} [Preorder τ] [PartialOrder σ] (due : Option τ → τ → Bool)
  (slot : τ → σ) (wanted : σ → Prop)

/-- The ticks at which it is due. -/
def firings : Option τ → List τ → List τ
  | _, [] => []
  | last, now :: ticks =>
    if due last now then now :: firings (some now) ticks else firings last ticks

/-- Whenever the ticks are, it fires once in each wanted slot that has one, and nowhere else. -/
def FiresExactly : Prop :=
  ∀ ticks : List τ, ticks.Pairwise (· ≤ ·) →
    ((firings due none ticks).map slot).Nodup ∧
      ∀ s, s ∈ (firings due none ticks).map slot ↔ wanted s ∧ s ∈ ticks.map slot

variable {due slot wanted}

theorem firings_from (hslot : Monotone slot)
    (hdue : ∀ last now, (∀ l ∈ last, l ≤ now ∧ wanted (slot l)) →
      (due last now = true ↔ wanted (slot now) ∧ ∀ l ∈ last, slot l ≠ slot now))
    {ticks : List τ} (hticks : ticks.Pairwise (· ≤ ·)) {last : Option τ}
    (hlast : ∀ l ∈ last, wanted (slot l) ∧ ∀ now ∈ ticks, l ≤ now) :
    ((firings due last ticks).map slot).Nodup ∧ ∀ s, s ∈ (firings due last ticks).map slot ↔
        wanted s ∧ s ∈ ticks.map slot ∧ ∀ l ∈ last, slot l ≠ s := by
  induction ticks generalizing last with
  | nil => exact ⟨nodup_nil, fun s => by simp [firings]⟩
  | cons now ticks ih =>
    obtain ⟨hnow, hticks⟩ := pairwise_cons.1 hticks
    have hiff := hdue last now fun l hl => ⟨(hlast l hl).2 now mem_cons_self, (hlast l hl).1⟩
    rw [firings]
    split
    · next hfires =>
      obtain ⟨hwanted, hnew⟩ := hiff.1 hfires
      have hlast' : ∀ l ∈ some now, wanted (slot l) ∧ ∀ tick ∈ ticks, l ≤ tick := by
        intro l hl
        obtain rfl := Option.mem_some.1 hl
        exact ⟨hwanted, hnow⟩
      obtain ⟨hnodup, hmem⟩ := ih hticks hlast'
      simp only [Option.mem_some, forall_eq'] at hmem
      refine ⟨?_, fun s => ?_⟩
      · rw [map_cons, nodup_cons, hmem]
        exact ⟨fun h => h.2.2 rfl, hnodup⟩
      · rw [map_cons, map_cons, mem_cons, mem_cons, hmem]
        constructor
        · rintro (rfl | ⟨hs, hin, hne⟩)
          · exact ⟨hwanted, .inl rfl, hnew⟩
          · refine ⟨hs, .inr hin, fun l hl heq => hne ?_⟩
            -- a slot that the last tick shares with a later one has this tick between
            obtain ⟨tick, htick, rfl⟩ := List.mem_map.1 hin
            have hle := hslot ((hlast l hl).2 now mem_cons_self)
            exact le_antisymm (hslot (hnow tick htick)) (heq ▸ hle)
        · rintro ⟨hs, rfl | hin, -⟩
          · exact .inl rfl
          · by_cases heq : s = slot now
            · exact .inl heq
            · exact .inr ⟨hs, hin, fun h => heq h.symm⟩
    · next hquiet =>
      have hlast' : ∀ l ∈ last, wanted (slot l) ∧ ∀ tick ∈ ticks, l ≤ tick := fun l hl =>
        ⟨(hlast l hl).1, fun tick htick => (hlast l hl).2 tick (mem_cons_of_mem now htick)⟩
      obtain ⟨hnodup, hmem⟩ := ih hticks hlast'
      refine ⟨hnodup, fun s => ?_⟩
      rw [hmem, map_cons, mem_cons]
      constructor
      · exact fun ⟨hs, hin, hne⟩ => ⟨hs, .inr hin, hne⟩
      · rintro ⟨hs, rfl | hin, hne⟩
        · exact absurd (hiff.2 ⟨hs, hne⟩) hquiet
        · exact ⟨hs, hin, hne⟩

theorem firesExactly_of_due (hslot : Monotone slot)
    (hdue : ∀ last now, (∀ l ∈ last, l ≤ now ∧ wanted (slot l)) →
      (due last now = true ↔ wanted (slot now) ∧ ∀ l ∈ last, slot l ≠ slot now)) :
    FiresExactly due slot wanted := by
  intro ticks hticks
  have hlast : ∀ l ∈ (none : Option τ), wanted (slot l) ∧ ∀ now ∈ ticks, l ≤ now :=
    nofun
  obtain ⟨hnodup, hmem⟩ := firings_from hslot hdue hticks hlast
  refine ⟨hnodup, fun s => ?_⟩
  rw [hmem]
  exact and_congr_right fun _ => and_iff_left nofun

omit [PartialOrder σ] in
theorem FiresExactly.due_none (h : FiresExactly due slot wanted) (now : τ) :
    due none now = true ↔ wanted (slot now) := by
  have hmem := (h [now] (pairwise_singleton _ _)).2 (slot now)
  simp only [firings, map_cons, map_nil, mem_singleton, and_true] at hmem
  rw [← hmem]
  cases due none now
  · simp
  · simp

omit [PartialOrder σ] in
theorem FiresExactly.due_some (h : FiresExactly due slot wanted) {last now : τ}
    (hle : last ≤ now) (hlast : wanted (slot last)) (hnow : wanted (slot now))
    (hne : slot last ≠ slot now) : due (some last) now = true := by
  have hmem := (h [last, now] (pairwise_pair.2 hle)).2 (slot now)
  have hfirst := (h.due_none last).2 hlast
  simp only [firings, hfirst, if_true, map_cons, map_nil, mem_cons, hnow,
    not_mem_nil, or_false, or_true, true_and, iff_true] at hmem
  rcases hmem with heq | hin
  · exact absurd heq.symm hne
  · by_contra hdue
    simp [hdue] at hin

end Aeqi.Lib
