import Aeqi.Lib.Accounts

/-!
# Counters that mirror a store

A family of counters is **balanced** against a store when each counter equals
the number of entries assigned to it. The entries of a store are assigned by a
partial function `dest`, so every entry is counted at most once.

`Balanced.step_iff` is the rule by which a change of one entry is checked: the
counters stay balanced exactly when they moved by that entry's old and new
destination. `Balanced.sum` adds the counters up.
-/

namespace Aeqi.Lib

namespace Accounts

universe u v w

variable {K : Type u} {V : Type v} {D : Type w} [DecidableEq K] [DecidableEq D]
  {dest dest' : K → V → Option D} {cnt cnt' : D → Nat} {s s' : Accounts K V}

/-- The counter that the entry at `k` belongs to, if any. -/
def destAt (dest : K → V → Option D) (s : Accounts K V) (k : K) : Option D :=
  (s.lookup k).bind (dest k)

/-- `1` for the counter an entry is assigned to, `0` for every other one. -/
def hit (o : Option D) (d : D) : Nat := if o = some d then 1 else 0

@[simp] theorem hit_none (d : D) : hit none d = 0 := rfl

@[simp] theorem hit_some_self (d : D) : hit (some d) d = 1 := by simp [hit]

theorem hit_some_ne {d d' : D} (h : d' ≠ d) : hit (some d) d' = 0 := by
  simp [hit, Ne.symm h]

theorem sum_hit (o : Option D) (T : Finset D) :
    ∑ d ∈ T, hit o d = if ∃ d ∈ T, o = some d then 1 else 0 := by
  cases o with
  | none => simp
  | some d =>
    by_cases hd : d ∈ T
    · rw [if_pos ⟨d, hd, rfl⟩, Finset.sum_eq_single_of_mem d hd fun _ _ hne => hit_some_ne hne,
        hit_some_self]
    · rw [if_neg (by simpa using hd)]
      exact Finset.sum_eq_zero fun d' hd' => hit_some_ne fun he => hd (he ▸ hd')

/-- Every counter shows how many entries are assigned to it. -/
def Balanced (dest : K → V → Option D) (cnt : D → Nat) (s : Accounts K V) : Prop :=
  ∀ d, cnt d = count (fun k v => dest k v = some d) s

theorem wt_dest (k : K) (d : D) :
    wt (fun k v => if dest k v = some d then 1 else 0) s k = hit (destAt dest s k) d := by
  cases hk : s.lookup k with
  | none | some v => simp [wt, hit, destAt, hk]

/-- The entries assigned to one counter. -/
def assigned (dest : K → V → Option D) (s : Accounts K V) (d : D) : Finset K :=
  s.keys.toFinset.filter fun k => destAt dest s k = some d

theorem mem_assigned {k : K} {d : D} :
    k ∈ assigned dest s d ↔ ∃ v, s.lookup k = some v ∧ dest k v = some d := by
  rw [assigned, Finset.mem_filter, destAt, Option.bind_eq_some_iff]
  constructor
  · exact fun h => h.2
  · rintro ⟨v, hv, hd⟩
    exact ⟨mem_keys_of_some hv, v, hv, hd⟩

theorem card_assigned (d : D) :
    (assigned dest s d).card = count (fun k v => dest k v = some d) s := by
  rw [assigned, Finset.card_filter]
  exact Finset.sum_congr rfl fun k _ => (wt_dest k d).symm

namespace Balanced

/-- **One entry changes.** Against stores that agree off `k`, balanced counters
stay balanced exactly when each of them moved by the old and the new destination
of the entry at `k`. -/
theorem step_iff (h : Balanced dest cnt s) (k : K)
    (hoff : ∀ k', k' ≠ k → destAt dest' s' k' = destAt dest s k') :
    Balanced dest' cnt' s' ↔
      ∀ d, cnt' d + hit (destAt dest s k) d = cnt d + hit (destAt dest' s' k) d := by
  apply forall_congr'
  intro d
  have hchange := total_change (f := fun k v => if dest k v = some d then 1 else 0)
    (g := fun k v => if dest' k v = some d then 1 else 0) (s := s) k
    fun k' hk' => by rw [wt_dest, wt_dest, hoff k' hk']
  rw [wt_dest, wt_dest] at hchange
  have hd : cnt d = total (fun k v => if dest k v = some d then 1 else 0) s := h d
  show cnt' d = total (fun k v => if dest' k v = some d then 1 else 0) s' ↔ _
  omega

theorem sum (h : Balanced dest cnt s) (T : Finset D) :
    ∑ d ∈ T, cnt d = count (fun k v => ∃ d ∈ T, dest k v = some d) s := by
  rw [Finset.sum_congr rfl fun d _ => h d]
  unfold count total
  rw [Finset.sum_comm]
  apply Finset.sum_congr rfl
  intro k _
  cases hk : s.lookup k with
  | none => simp [wt_of_none hk]
  | some v =>
    simp only [wt_of_some hk]
    exact sum_hit _ _

end Balanced

end Accounts

end Aeqi.Lib

/-!
## Mirrors of a table

A mirror has an entry for every row of a table. It is not made anew when the table changes: an
insert adds an entry, a delete erases one that equals the entry of the row that is gone. What a
mirror holds besides the entries of the rows is stale, and no insert or delete that reaches the
mirror makes it less.
-/

namespace Aeqi.Lib

open List

universe u v

variable {α : Type u} {β : Type v}

/-- The mirror is the entries of the rows and some that are stale. -/
def Mirrors (entry : α → β) (mirror : List β) (rows : List α) (stale : List β) : Prop :=
  mirror.Perm (rows.map entry ++ stale)

namespace Mirrors

variable {entry : α → β} {mirror : List β} {rows rows' gone : List α} {stale : List β} {x y : α}

theorem nil : Mirrors entry [] [] [] := List.Perm.refl _

theorem of_perm (h : Mirrors entry mirror rows stale) (hrows : rows.Perm rows') :
    Mirrors entry mirror rows' stale :=
  h.trans ((hrows.map entry).append_right stale)

theorem stale_eq_nil (h : Mirrors entry mirror rows stale) :
    stale = [] ↔ Mirrors entry mirror rows [] := by
  constructor
  · rintro rfl
    exact h
  · intro hexact
    have hlen := h.length_eq.symm.trans hexact.length_eq
    simp only [length_append, length_nil] at hlen
    exact eq_nil_of_length_eq_zero (by omega)

theorem insert (h : Mirrors entry mirror rows stale) :
    Mirrors entry (entry x :: mirror) (rows ++ [x]) stale := by
  have hcons : Mirrors entry (entry x :: mirror) (x :: rows) stale := h.cons (entry x)
  exact hcons.of_perm (perm_append_singleton x rows).symm

theorem unnoticed (h : Mirrors entry mirror (gone ++ rows) stale) :
    Mirrors entry mirror rows (stale ++ gone.map entry) := by
  refine List.Perm.trans h ?_
  rw [map_append, append_assoc]
  exact perm_append_comm.trans (List.Perm.of_eq (append_assoc ..))

variable [DecidableEq β]

theorem delete (h : Mirrors entry mirror (x :: rows) stale) :
    Mirrors entry (mirror.erase (entry x)) rows stale := by
  have herase := List.Perm.erase (entry x) h
  rwa [map_cons, cons_append, erase_cons_head] at herase

theorem deleteAll (h : Mirrors entry mirror (gone ++ rows) stale) :
    Mirrors entry (gone.foldl (fun mirror x => mirror.erase (entry x)) mirror) rows stale := by
  induction gone generalizing mirror with
  | nil => exact h
  | cons x gone ih => exact ih h.delete

theorem update (h : Mirrors entry mirror (x :: rows) stale) :
    Mirrors entry (entry y :: mirror.erase (entry x)) (y :: rows) stale :=
  h.delete.cons (entry y)

end Mirrors

end Aeqi.Lib
