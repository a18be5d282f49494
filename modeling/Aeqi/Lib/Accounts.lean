import Mathlib.Algebra.BigOperators.Ring.Finset
import Mathlib.Algebra.Order.BigOperators.Group.Finset
import Mathlib.Data.List.AList

/-!
# Finite account stores and their totals

A store maps finitely many addresses to the data held there. It is Mathlib's
association list without duplicate keys; what is added here is the **total** of
a weight over the entries of a store and how it moves when the data of one
address changes (`total_change`). Counting entries is the special case of a
zero-one weight.
-/

namespace Aeqi.Lib

universe u v w x

/-- A finite map from addresses to account data. -/
abbrev Accounts (K : Type u) (V : Type v) := AList fun _ : K => V

namespace Accounts

variable {K : Type u} {V : Type v} [DecidableEq K]

/-- The weight of what the store holds at `k`; an absent account weighs nothing. -/
def wt (f : K → V → Nat) (s : Accounts K V) (k : K) : Nat := (s.lookup k).elim 0 (f k)

/-- The total weight of a store. -/
def total (f : K → V → Nat) (s : Accounts K V) : Nat := ∑ k ∈ s.keys.toFinset, wt f s k

/-- The number of entries with a property. -/
def count (p : K → V → Prop) [∀ k v, Decidable (p k v)] (s : Accounts K V) : Nat :=
  total (fun k v => if p k v then 1 else 0) s

theorem lookup_insert_some {s : Accounts K V} {k k' : K} {v v' : V}
    (h : (s.insert k v).lookup k' = some v') :
    k' = k ∧ v' = v ∨ k' ≠ k ∧ s.lookup k' = some v' := by
  by_cases hk : k' = k
  · subst hk
    rw [AList.lookup_insert] at h
    exact .inl ⟨rfl, (Option.some.inj h).symm⟩
  · rw [AList.lookup_insert_ne hk] at h
    exact .inr ⟨hk, h⟩

section Weight

variable {f : K → V → Nat} {s : Accounts K V} {k k' : K} {v : V}

theorem wt_of_some (h : s.lookup k = some v) : wt f s k = f k v := by simp [wt, h]

theorem wt_of_none (h : s.lookup k = none) : wt f s k = 0 := by simp [wt, h]

@[simp] theorem wt_insert : wt f (s.insert k v) k = f k v := by simp [wt]

theorem wt_insert_ne (h : k' ≠ k) : wt f (s.insert k v) k' = wt f s k' := by
  simp [wt, AList.lookup_insert_ne h]

theorem wt_of_not_mem (h : k ∉ s.keys.toFinset) : wt f s k = 0 :=
  wt_of_none (AList.lookup_eq_none.2 fun hm => h (List.mem_toFinset.2 (AList.mem_keys.1 hm)))

theorem mem_keys_of_some (h : s.lookup k = some v) : k ∈ s.keys.toFinset :=
  List.mem_toFinset.2 (AList.mem_keys.1 (AList.lookup_isSome.1 (by simp [h])))

end Weight

section Total

variable {f g : K → V → Nat} {s s' : Accounts K V}

theorem total_eq_sum {S : Finset K} (hS : s.keys.toFinset ⊆ S) :
    total f s = ∑ k ∈ S, wt f s k :=
  Finset.sum_subset hS fun _ _ hk => wt_of_not_mem hk

theorem wt_le_total (k : K) : wt f s k ≤ total f s := by
  by_cases hk : k ∈ s.keys.toFinset
  · exact Finset.single_le_sum (f := wt f s) (fun _ _ => Nat.zero_le _) hk
  · rw [wt_of_not_mem hk]
    omega

/-- **Changing one address.** Two stores whose weights agree off `k` have totals
that differ by the weights at `k`. -/
theorem total_change (k : K) (h : ∀ k', k' ≠ k → wt g s' k' = wt f s k') :
    total g s' + wt f s k = total f s + wt g s' k := by
  let S := insert k (s.keys.toFinset ∪ s'.keys.toFinset)
  have hs : s.keys.toFinset ⊆ S := fun a ha => by simp [S, Finset.mem_union.2 (.inl ha)]
  have hs' : s'.keys.toFinset ⊆ S := fun a ha => by simp [S, Finset.mem_union.2 (.inr ha)]
  have hk : k ∈ S := Finset.mem_insert_self _ _
  have hrest : ∑ a ∈ S.erase k, wt g s' a = ∑ a ∈ S.erase k, wt f s a :=
    Finset.sum_congr rfl fun a ha => h a (Finset.ne_of_mem_erase ha)
  have hf := Finset.add_sum_erase S (wt f s) hk
  have hg := Finset.add_sum_erase S (wt g s') hk
  rw [total_eq_sum hs, total_eq_sum hs']
  omega

theorem total_congr (h : ∀ k, wt g s' k = wt f s k) : total g s' = total f s := by
  let S := s.keys.toFinset ∪ s'.keys.toFinset
  have hs : total f s = ∑ k ∈ S, wt f s k := total_eq_sum Finset.subset_union_left
  have hs' : total g s' = ∑ k ∈ S, wt g s' k := total_eq_sum Finset.subset_union_right
  rw [hs, hs']
  exact Finset.sum_congr rfl fun a _ => h a

theorem total_insert (k : K) (v : V) :
    total f (s.insert k v) + wt f s k = total f s + f k v := by
  have h : total f (s.insert k v) + wt f s k = total f s + wt f (s.insert k v) k :=
    total_change k fun _ hk => wt_insert_ne hk
  rwa [wt_insert] at h

theorem total_fun_congr (h : ∀ k v, s.lookup k = some v → g k v = f k v) :
    total g s = total f s := by
  apply total_congr
  intro k
  cases hk : s.lookup k with
  | none => rw [wt_of_none hk, wt_of_none hk]
  | some v => rw [wt_of_some hk, wt_of_some hk, h k v hk]

theorem total_mono (h : ∀ k v, s.lookup k = some v → f k v ≤ g k v) : total f s ≤ total g s := by
  apply Finset.sum_le_sum
  intro k _
  cases hk : s.lookup k with
  | none => simp [wt_of_none hk]
  | some v =>
    rw [wt_of_some hk, wt_of_some hk]
    exact h k v hk

theorem total_eq_zero_iff : total f s = 0 ↔ ∀ k, wt f s k = 0 := by
  constructor
  · intro h k
    have := wt_le_total (f := f) (s := s) k
    omega
  · exact fun h => Finset.sum_eq_zero fun k _ => h k

theorem total_floor_le (f : K → V → Nat) (s : Accounts K V) (a c : Nat) :
    total (fun k v => f k v * a / c) s ≤ total f s * a / c := by
  rcases Nat.eq_zero_or_pos c with rfl | hc
  · simp only [Nat.div_zero]
    exact (total_eq_zero_iff.2 fun k => by unfold wt; cases s.lookup k <;> rfl).le
  · rw [Nat.le_div_iff_mul_le hc, total, total, Finset.sum_mul, Finset.sum_mul]
    apply Finset.sum_le_sum
    intro k _
    cases hk : s.lookup k with
    | none => simp [wt_of_none hk]
    | some v =>
      rw [wt_of_some hk, wt_of_some hk]
      exact Nat.div_mul_le_self _ _

end Total

/-! ## Parts of a store -/

section Part

variable {p : K → Prop} [DecidablePred p] {g : V → Nat} {s s' : Accounts K V}

/-- The total over the entries whose addresses are in a part of the store. -/
def totalOn (p : K → Prop) [DecidablePred p] (g : V → Nat) (s : Accounts K V) : Nat :=
  total (fun k v => if p k then g v else 0) s

theorem wt_on {k : K} (hk : p k) :
    wt (fun k v => if p k then g v else 0) s k = wt (fun _ v => g v) s k := by
  unfold wt
  simp [if_pos hk]

theorem wt_off {k : K} (hk : ¬ p k) : wt (fun k v => if p k then g v else 0) s k = 0 := by
  unfold wt
  simp only [if_neg hk]
  cases s.lookup k <;> rfl

theorem wt_on_congr {k : K} (h : p k → s'.lookup k = s.lookup k) :
    wt (fun k v => if p k then g v else 0) s' k = wt (fun k v => if p k then g v else 0) s k := by
  by_cases hk : p k
  · unfold wt
    rw [h hk]
  · rw [wt_off hk, wt_off hk]

theorem totalOn_change {k : K} (hk : p k)
    (hoff : ∀ k', k' ≠ k → p k' → s'.lookup k' = s.lookup k') :
    totalOn p g s' + wt (fun _ v => g v) s k = totalOn p g s + wt (fun _ v => g v) s' k := by
  have hchange := total_change (f := fun k v => if p k then g v else 0)
    (g := fun k v => if p k then g v else 0) k fun k' hne => wt_on_congr (hoff k' hne)
  rwa [wt_on hk, wt_on hk] at hchange

theorem totalOn_congr (h : ∀ k, p k → s'.lookup k = s.lookup k) :
    totalOn p g s' = totalOn p g s :=
  total_congr fun k => wt_on_congr (h k)

theorem totalOn_floor_le (p : K → Prop) [DecidablePred p] (g : V → Nat) (s : Accounts K V)
    (a c : Nat) : totalOn p (fun v => g v * a / c) s ≤ totalOn p g s * a / c := by
  refine Nat.le_trans (Nat.le_of_eq ?_) (total_floor_le _ s a c)
  apply total_fun_congr
  intro k v _
  split
  · rfl
  · simp

end Part

section Count

variable {p q : K → V → Prop} [∀ k v, Decidable (p k v)] [∀ k v, Decidable (q k v)]
  {s : Accounts K V}

theorem count_pos {k : K} {v : V} (hk : s.lookup k = some v) (hp : p k v) : 0 < count p s := by
  have h := wt_le_total (f := fun k v => if p k v then 1 else 0) (s := s) k
  rw [wt_of_some hk, if_pos hp] at h
  exact h

theorem exists_of_count_pos (h : 0 < count p s) : ∃ k v, s.lookup k = some v ∧ p k v := by
  by_contra hne
  refine absurd (total_eq_zero_iff.2 fun k => ?_) (Nat.pos_iff_ne_zero.1 h)
  cases hk : s.lookup k with
  | none => exact wt_of_none hk
  | some v => exact (wt_of_some hk).trans (if_neg fun hp => hne ⟨k, v, hk, hp⟩)

theorem count_insert_none {k : K} {v : V} (hk : s.lookup k = none) :
    count p (s.insert k v) = count p s + if p k v then 1 else 0 := by
  have h := total_insert (f := fun k v => if p k v then 1 else 0) (s := s) k v
  rwa [wt_of_none hk] at h

theorem count_insert_congr {k : K} {v v' : V} (hk : s.lookup k = some v)
    (hp : p k v' ↔ p k v) : count p (s.insert k v') = count p s := by
  have h := total_insert (f := fun k v => if p k v then 1 else 0) (s := s) k v'
  rw [wt_of_some hk, if_congr hp rfl rfl] at h
  exact Nat.add_right_cancel h

theorem count_congr (h : ∀ k v, s.lookup k = some v → (q k v ↔ p k v)) :
    count q s = count p s :=
  total_fun_congr fun k v hk => if_congr (h k v hk) rfl rfl

theorem card_le_count {S : Finset K} (hS : ∀ k ∈ S, ∃ v, s.lookup k = some v ∧ p k v) :
    S.card ≤ count p s := by
  have hsub : S ⊆ s.keys.toFinset := by
    intro k hk
    obtain ⟨v, hv, -⟩ := hS k hk
    exact mem_keys_of_some hv
  calc S.card = ∑ _ ∈ S, 1 := Finset.card_eq_sum_ones S
    _ = ∑ k ∈ S, wt (fun k v => if p k v then 1 else 0) s k := by
      apply Finset.sum_congr rfl
      intro k hk
      obtain ⟨v, hv, hp⟩ := hS k hk
      rw [wt_of_some hv, if_pos hp]
    _ ≤ count p s := Finset.sum_le_sum_of_subset hsub

end Count

end Accounts

end Aeqi.Lib

/-!
## A bounded cache

A map with the order of its keys, the oldest first. What lies in it was inserted, and is there until
it is evicted, replaced or cleared.
-/

namespace Aeqi.Lib

universe u v

structure Lru (K : Type u) (V : Type v) where
  capacity : Nat
  order : List K
  map : Accounts K V

namespace Lru

variable {K : Type u} {V : Type v} [DecidableEq K] (c : Lru K V) (key : K)

omit [DecidableEq K] in
def empty (capacity : Nat) : Lru K V := ⟨max capacity 1, [], ∅⟩

/-- The key becomes the youngest. -/
def touch : Lru K V :=
  if key ∈ c.order then { c with order := c.order.erase key ++ [key] } else c

def evict : Lru K V :=
  match c.order with
  | old :: order => if c.capacity ≤ c.order.length then ⟨c.capacity, order, c.map.erase old⟩ else c
  | [] => c

def insert (value : V) : Lru K V :=
  if key ∈ c.map then { c.touch key with map := c.map.insert key value }
  else { c.evict with order := c.evict.order ++ [key], map := c.evict.map.insert key value }

def get : Option V × Lru K V :=
  match c.map.lookup key with
  | some value => (some value, c.touch key)
  | none => (none, c)

def remove : Lru K V :=
  { c with order := c.order.filter (· ≠ key), map := c.map.erase key }

omit [DecidableEq K] in
def clear : Lru K V := { c with order := [], map := ∅ }

variable {c} {key} {key' : K} {value w : V}

@[simp] theorem map_touch : (c.touch key).map = c.map := by
  unfold touch
  split <;> rfl

theorem get_fst : (c.get key).1 = c.map.lookup key := by
  unfold get
  split
  · next h => exact h.symm
  · next h => exact h.symm

@[simp] theorem map_get : (c.get key).2.map = c.map := by
  unfold get
  split
  · exact map_touch
  · rfl

theorem lookup_remove (h : (c.remove key).map.lookup key' = some value) :
    c.map.lookup key' = some value := by
  by_cases hk : key' = key
  · subst hk
    rw [remove, AList.lookup_erase] at h
    cases h
  · rwa [remove, AList.lookup_erase_ne hk] at h

theorem lookup_evict (h : c.evict.map.lookup key' = some value) :
    c.map.lookup key' = some value := by
  unfold evict at h
  split at h
  next old order _ =>
    split at h
    · by_cases hk : key' = old
      · subst hk
        rw [AList.lookup_erase] at h
        cases h
      · rwa [AList.lookup_erase_ne hk] at h
    · exact h
  · exact h

theorem lookup_insert (h : (c.insert key value).map.lookup key' = some w) :
    key' = key ∧ w = value ∨ c.map.lookup key' = some w := by
  unfold insert at h
  split at h
  · exact (Accounts.lookup_insert_some h).imp_right And.right
  · exact (Accounts.lookup_insert_some h).imp_right fun hold => lookup_evict hold.2

end Lru

end Aeqi.Lib

/-!
## Restricted stores

The part of a store whose entries have a property, in the same order: what a reader sees who is
shown these entries only.
-/

namespace Aeqi.Lib.Accounts

open List

universe u v

variable {K : Type u} {V : Type v} [DecidableEq K]

variable {p q : K → V → Bool} {s : Accounts K V} {k : K} {v : V}

/-- The entries with a property, in their order. -/
def restrict (p : K → V → Bool) (s : Accounts K V) : Accounts K V :=
  ⟨s.entries.filter fun e => p e.1 e.2, s.nodupKeys.sublist List.filter_sublist⟩

theorem mem_entries : (⟨k, v⟩ : Sigma fun _ : K => V) ∈ s.entries ↔ s.lookup k = some v :=
  (mem_dlookup_iff s.nodupKeys).symm

theorem lookup_restrict : (restrict p s).lookup k = (s.lookup k).filter (p k) := by
  refine Option.ext fun v => ?_
  rw [← mem_entries, Option.filter_eq_some_iff, ← mem_entries]
  exact mem_filter

theorem lookup_restrict_some : (restrict p s).lookup k = some v ↔ s.lookup k = some v ∧ p k v = true := by
  rw [lookup_restrict, Option.filter_eq_some_iff]

theorem restrict_self (h : ∀ k v, s.lookup k = some v → p k v = true) : restrict p s = s :=
  AList.ext (filter_eq_self.2 fun e he => h e.1 e.2 (mem_entries.1 he))

omit [DecidableEq K] in
theorem restrict_restrict : restrict p (restrict q s) = restrict (fun k v => p k v && q k v) s :=
  AList.ext filter_filter

theorem restrict_insert (hk : k ∉ s) (hp : p k v = false) :
    restrict p (s.insert k v) = restrict p s := by
  refine AList.ext ?_
  have hentries : (s.insert k v).entries = ⟨k, v⟩ :: s.entries := AList.entries_insert_of_notMem hk
  exact (congrArg (List.filter fun e => p e.1 e.2) hentries).trans
    (filter_cons_of_neg (by simp [hp]))

theorem filter_keys_restrict {r : K → Bool}
    (h : ∀ k v, s.lookup k = some v → r k = true → p k v = true) :
    (restrict p s).keys.filter r = s.keys.filter r := by
  have hnarrow : s.entries.filter (fun e => r e.1) =
      (s.entries.filter fun e => p e.1 e.2).filter fun e => r e.1 := by
    rw [filter_filter]
    refine filter_congr fun e he => ?_
    by_cases hr : r e.1 = true
    · simp [h e.1 e.2 (mem_entries.1 he) hr]
    · simp [hr]
  have hkeys : ∀ l : List (Sigma fun _ : K => V), l.keys.filter r = (l.filter fun e => r e.1).keys := by
    intro l
    unfold List.keys
    rw [filter_map]
    rfl
  change (s.entries.filter _).keys.filter r = s.entries.keys.filter r
  rw [hkeys, hkeys, hnarrow]

end Aeqi.Lib.Accounts
