import Mathlib.Data.Option.Basic
import Mathlib.Tactic.SplitIfs

/-!
# Hierarchies that close from below

The nodes of a hierarchy are open or closed, and a node whose children are all closed is to be
closed too, unless it is exempt. `SettledAt` says that of one node. A write to a node concerns no
other node than itself and its parent: a node that is closed leaves only its parent unsettled
(`SettledBut.close`), one that is opened only itself (`SettledBut.reopen`).
-/

namespace Aeqi.Lib

open Function (update_apply update_of_ne update_self)
open Function (update)

universe u v

structure Hierarchy (ι : Type u) (σ : Type v) where
  parent : ι → Option ι
  closed : σ → Prop
  exempt : σ → Prop
  irrefl : ∀ i, parent i ≠ some i

namespace Hierarchy

variable {ι : Type u} {σ : Type v} (H : Hierarchy ι σ) (m : ι → Option σ)

/-- A child that is there. -/
def Child (p c : ι) : Prop := H.parent c = some p ∧ (m c).isSome

def ClosedAt (i : ι) : Prop := ∃ s, m i = some s ∧ H.closed s

/-- The node has children, and all of them are closed. -/
def Full (p : ι) : Prop := (∃ c, H.Child m p c) ∧ ∀ c, H.Child m p c → H.ClosedAt m c

def SettledAt (p : ι) : Prop := ∀ s, m p = some s → ¬ H.closed s → ¬ H.exempt s → ¬ H.Full m p

def Settled : Prop := ∀ p, H.SettledAt m p

def SettledBut (x : Option ι) : Prop := ∀ p, x ≠ some p → H.SettledAt m p

/-- An open parent of the node waits for no other child. -/
def LastOpen (i : ι) : Prop :=
  ∃ p s, H.parent i = some p ∧ m p = some s ∧ ¬ H.closed s ∧ ¬ H.exempt s ∧
    ∀ c, H.Child m p c → c ≠ i → H.ClosedAt m c

variable {H m} {i p c : ι} {s s' : σ} {x : Option ι}

theorem Settled.but (h : H.Settled m) : H.SettledBut m x := fun p _ => h p

theorem SettledBut.settled (h : H.SettledBut m x) (hx : ∀ p, x = some p → H.SettledAt m p) :
    H.Settled m := by
  intro p
  by_cases hp : x = some p
  · exact hx p hp
  · exact h p hp

theorem full_congr {m' : ι → Option σ} (h : ∀ c, H.parent c = some p → m' c = m c) :
    H.Full m' p ↔ H.Full m p := by
  have hchild : ∀ c, H.Child m' p c ↔ H.Child m p c := fun c =>
    and_congr_right fun hc => by rw [h c hc]
  unfold Full ClosedAt
  refine and_congr (exists_congr hchild) (forall_congr' fun c => ?_)
  rw [hchild c]
  exact forall_congr' fun hc => by rw [h c hc.1]

section Update

variable [DecidableEq ι]

theorem closedAt_update : H.ClosedAt (update m i (some s)) c ↔
    c = i ∧ H.closed s ∨ c ≠ i ∧ H.ClosedAt m c := by
  unfold ClosedAt
  rw [update_apply]
  split_ifs with hc
  · simp [hc]
  · simp [hc]

theorem closedAt_update_of_ne (h : c ≠ i) :
    H.ClosedAt (update m i (some s)) c ↔ H.ClosedAt m c := by
  unfold ClosedAt
  rw [update_of_ne h]

theorem child_update : H.Child (update m i (some s)) p c ↔
    H.parent c = some p ∧ (c = i ∨ (m c).isSome) := by
  unfold Child
  rw [update_apply]
  split_ifs with hc <;> simp [hc]

theorem full_update (h : H.parent i ≠ some p) :
    H.Full (update m i (some s)) p ↔ H.Full m p := by
  refine full_congr fun c hc => update_of_ne ?_ _ _
  rintro rfl
  exact h hc

theorem settledAt_update (hne : p ≠ i) (h : H.parent i ≠ some p) :
    H.SettledAt (update m i (some s)) p ↔ H.SettledAt m p := by
  unfold SettledAt
  rw [update_of_ne hne]
  exact forall_congr' fun s' => forall_congr' fun _ => forall_congr' fun _ =>
    forall_congr' fun _ => not_congr (full_update h)

theorem SettledBut.close (h : H.SettledBut m (some i)) (hs : H.closed s) :
    H.SettledBut (update m i (some s)) (H.parent i) := by
  intro p hp
  by_cases hi : p = i
  · intro s' hs' hopen
    rw [hi, update_self] at hs'
    obtain rfl := Option.some.inj hs'
    exact absurd hs hopen
  · rw [settledAt_update hi hp]
    exact h p fun heq => hi (Option.some.inj heq).symm

theorem Settled.close (h : H.Settled m) (hs : H.closed s) (hlast : ¬ H.LastOpen m i) :
    H.Settled (update m i (some s)) := by
  refine (h.but.close hs).settled fun p hp s' hs' hopen hexempt hfull => hlast ?_
  have hne : p ≠ i := fun heq => H.irrefl i (heq ▸ hp)
  rw [update_of_ne hne] at hs'
  refine ⟨p, s', hp, hs', hopen, hexempt, fun c hc hci => ?_⟩
  exact (closedAt_update_of_ne hci).1 (hfull.2 c (child_update.2 ⟨hc.1, .inr hc.2⟩))

theorem Settled.closed_again (h : H.Settled m) (hi : m i = some s) (hs : H.closed s)
    (hs' : H.closed s') : H.Settled (update m i (some s')) := by
  have hold : H.ClosedAt m i := ⟨s, hi, hs⟩
  refine (h.but.close hs').settled fun p hp s'' hs'' hopen hexempt hfull => ?_
  have hne : p ≠ i := fun heq => H.irrefl i (heq ▸ hp)
  rw [update_of_ne hne] at hs''
  refine h p s'' hs'' hopen hexempt ⟨⟨i, hp, by rw [hi]; rfl⟩, fun c hc => ?_⟩
  by_cases hci : c = i
  · rwa [hci]
  · exact (closedAt_update_of_ne hci).1 (hfull.2 c (child_update.2 ⟨hc.1, .inr hc.2⟩))

theorem SettledBut.reopen (h : H.SettledBut m (some i)) (hs : ¬ H.closed s)
    (hfull : ¬ H.exempt s → ¬ H.Full m i) : H.Settled (update m i (some s)) := by
  intro p
  by_cases hi : p = i
  · subst hi
    intro s' hs' _ hexempt
    rw [update_self] at hs'
    obtain rfl := Option.some.inj hs'
    rw [full_update (H.irrefl p)]
    exact hfull hexempt
  · by_cases hp : H.parent i = some p
    · intro _ _ _ _ hall
      have hclosed := hall.2 i (child_update.2 ⟨hp, .inl rfl⟩)
      rcases closedAt_update.1 hclosed with ⟨-, hclosed⟩ | ⟨hne, -⟩
      · exact hs hclosed
      · exact hne rfl
    · rw [settledAt_update hi hp]
      exact h p fun heq => hi (Option.some.inj heq).symm

end Update

end Hierarchy

end Aeqi.Lib
