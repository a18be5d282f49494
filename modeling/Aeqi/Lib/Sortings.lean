import Mathlib.Data.List.Sort

/-!
# The sorted orders of a list

A sort by a preorder leaves open how ties stand. `Sorting r l l'` says that `l'` is one of the
sorted orders of `l`: all that is known of a query with an `ORDER BY`, or of a stable sort of values
that come in no particular order. Two total preorders have the same sorted orders of two lists just
where the lists have the same elements and the preorders agree on them (`sortings_eq_iff`).
-/

namespace Aeqi.Lib

open List

universe u v

variable {α : Type u} {β : Type v} {r s : α → α → Prop} {l l₁ l₂ l' m : List α}

/-- The elements of `l`, sorted. -/
structure Sorting (r : α → α → Prop) (l l' : List α) : Prop where
  perm : l'.Perm l
  sorted : l'.Pairwise r

/-! ## Sorting by two keys -/

section Keys

universe w x

variable {κ : Type w} {κ' : Type x} [LinearOrder κ] [LinearOrder κ'] {k : α → κ} {k' : α → κ'}

/-- First by the one key, then by the other. -/
def ByKeys (k : α → κ) (k' : α → κ') (a b : α) : Prop := k a < k b ∨ k a = k b ∧ k' a ≤ k' b

instance byKeysDecidable (k : α → κ) (k' : α → κ') : DecidableRel (ByKeys k k') := fun a b =>
  inferInstanceAs (Decidable (k a < k b ∨ k a = k b ∧ k' a ≤ k' b))

instance byKeysTotal : Std.Total (ByKeys k k') where
  total a b := by
    rcases lt_trichotomy (k a) (k b) with hlt | heq | hlt
    · exact .inl (.inl hlt)
    · rcases le_total (k' a) (k' b) with hle | hle
      · exact .inl (.inr ⟨heq, hle⟩)
      · exact .inr (.inr ⟨heq.symm, hle⟩)
    · exact .inr (.inl hlt)

instance byKeysTrans : IsTrans α (ByKeys k k') where
  trans a b c := by
    rintro (hab | ⟨hab, hab'⟩) (hbc | ⟨hbc, hbc'⟩)
    · exact .inl (hab.trans hbc)
    · exact .inl (hab.trans_eq hbc)
    · exact .inl (hab.trans_lt hbc)
    · exact .inr ⟨hab.trans hbc, hab'.trans hbc'⟩

theorem byKeys_iff_byKeys {κ'' : Type x} [LinearOrder κ''] {k'' : α → κ''} {a b : α} :
    (ByKeys k k' a b ↔ ByKeys k k'' a b) ↔ (k a = k b → (k' a ≤ k' b ↔ k'' a ≤ k'' b)) := by
  by_cases heq : k a = k b
  · simp [ByKeys, heq]
  · simp [ByKeys, heq]

end Keys

/-! ## What a sort returns -/

theorem sorting_iff_insertionSort [DecidableRel r] [Std.Total r] [IsTrans α r] :
    Sorting r l l' ↔ ∃ m : List α, m.Perm l ∧ l' = m.insertionSort r := by
  constructor
  · intro h
    exact ⟨l', h.perm, h.sorted.insertionSort_eq.symm⟩
  · rintro ⟨m, hperm, rfl⟩
    exact ⟨(perm_insertionSort r m).trans hperm, pairwise_insertionSort r m⟩

theorem exists_sorting (r : α → α → Prop) [Std.Total r] [IsTrans α r] (l : List α) :
    ∃ l', Sorting r l l' := by
  classical
  exact ⟨l.insertionSort r, perm_insertionSort r l, pairwise_insertionSort r l⟩

/-! ## Filters and maps -/

theorem Sorting.filter {p : α → Bool} (h : Sorting r l l') :
    Sorting r (l.filter p) (l'.filter p) :=
  ⟨h.perm.filter p, h.sorted.filter p⟩

theorem sorting_filter_iff [Std.Total r] [IsTrans α r] {p : α → Bool} :
    Sorting r (l.filter p) m ↔ ∃ l', Sorting r l l' ∧ m = l'.filter p := by
  classical
  constructor
  · intro h
    have hperm : (m ++ l.filter fun a => !p a).Perm l :=
      (h.perm.append_right _).trans (filter_append_perm p l)
    have hsort : Sorting r l ((m ++ l.filter fun a => !p a).insertionSort r) :=
      sorting_iff_insertionSort.2 ⟨_, hperm, rfl⟩
    have hsub : m.Sublist ((m ++ l.filter fun a => !p a).insertionSort r) :=
      sublist_insertionSort h.sorted (sublist_append_left m _)
    have hkept : m.filter p = m := by
      refine filter_eq_self.2 fun a ha => ?_
      exact (mem_filter.1 (h.perm.mem_iff.1 ha)).2
    have hfilter : m.Sublist (((m ++ l.filter fun a => !p a).insertionSort r).filter p) := by
      have := hsub.filter p
      rwa [hkept] at this
    refine ⟨_, hsort, hfilter.eq_of_length ?_⟩
    rw [h.perm.length_eq, (hsort.filter (p := p)).perm.length_eq]
  · rintro ⟨l', hsort, rfl⟩
    exact hsort.filter

theorem exists_perm_of_perm_map {f : β → α} {l : List β} (h : l'.Perm (l.map f)) :
    ∃ m : List β, m.Perm l ∧ l' = m.map f := by
  generalize heq : l.map f = image at h
  induction h generalizing l with
  | nil => exact ⟨l, List.Perm.refl l, heq.symm⟩
  | cons a _ ih =>
    obtain ⟨b, rest, rfl, rfl, hrest⟩ := map_eq_cons_iff.1 heq
    obtain ⟨m, hm, rfl⟩ := ih hrest
    exact ⟨b :: m, hm.cons b, rfl⟩
  | swap a a' _ =>
    obtain ⟨b, rest, rfl, rfl, hrest⟩ := map_eq_cons_iff.1 heq
    obtain ⟨b', rest, rfl, rfl, rfl⟩ := map_eq_cons_iff.1 hrest
    exact ⟨b' :: b :: rest, List.Perm.swap b b' rest, rfl⟩
  | trans _ _ ih₁ ih₂ =>
    obtain ⟨m, hm, rfl⟩ := ih₂ heq
    obtain ⟨m', hm', rfl⟩ := ih₁ rfl
    exact ⟨m', hm'.trans hm, rfl⟩

theorem sorting_map_iff {f : β → α} {l : List β} :
    Sorting r (l.map f) l' ↔ ∃ m, Sorting (fun a b => r (f a) (f b)) l m ∧ l' = m.map f := by
  constructor
  · rintro ⟨hperm, hsorted⟩
    obtain ⟨m, hm, rfl⟩ := exists_perm_of_perm_map hperm
    exact ⟨m, ⟨hm, pairwise_map.1 hsorted⟩, rfl⟩
  · rintro ⟨m, ⟨hm, hsorted⟩, rfl⟩
    exact ⟨hm.map f, pairwise_map.2 hsorted⟩

theorem eq_of_map_eq {γ : Type v} {f : α → γ} (hinj : ∀ a ∈ l₁, ∀ b ∈ l₂, f a = f b → a = b)
    (h : l₁.map f = l₂.map f) : l₁ = l₂ := by
  induction l₁ generalizing l₂ with
  | nil => exact (map_eq_nil_iff.1 h.symm).symm
  | cons a l₁ ih =>
    obtain ⟨b, rest, rfl, hb, hrest⟩ := map_eq_cons_iff.1 h.symm
    have hhead : a = b := hinj a mem_cons_self b mem_cons_self hb.symm
    have htail : l₁ = rest := ih (fun a ha b hb =>
      hinj a (mem_cons_of_mem _ ha) b (mem_cons_of_mem _ hb)) hrest.symm
    rw [hhead, htail]

/-! ## When two sorts agree -/

theorem Sorting.congr (h : Sorting r l₁ l') (hperm : l₁.Perm l₂)
    (hagree : ∀ a ∈ l₁, ∀ b ∈ l₁, r a b → s a b) : Sorting s l₂ l' := by
  refine ⟨h.perm.trans hperm, h.sorted.imp_of_mem fun {a b} ha hb hab => ?_⟩
  exact hagree a (h.perm.mem_iff.1 ha) b (h.perm.mem_iff.1 hb) hab

theorem exists_sorting_before [Std.Total r] [IsTrans α r] {a b : α} (ha : a ∈ l) (hb : b ∈ l)
    (hne : a ≠ b) (hab : r a b) : ∃ l', Sorting r l l' ∧ [a, b].Sublist l' := by
  classical
  have hrest : b ∈ l.erase a := (mem_erase_of_ne hne.symm).2 hb
  have hperm : (a :: b :: (l.erase a).erase b).Perm l :=
    ((perm_cons_erase hrest).symm.cons a).trans (perm_cons_erase ha).symm
  have hfront : [a, b].Sublist (a :: b :: (l.erase a).erase b) :=
    (nil_sublist _).cons_cons b |>.cons_cons a
  exact ⟨_, sorting_iff_insertionSort.2 ⟨_, hperm, rfl⟩, pair_sublist_insertionSort hab hfront⟩

theorem agree_of_sortings [Std.Total r] [IsTrans α r] [Std.Total s]
    (h : ∀ l', Sorting r l₁ l' → Sorting s l₂ l') :
    ∀ a ∈ l₁, ∀ b ∈ l₁, r a b → s a b := by
  intro a ha b hb hab
  by_cases hne : a = b
  · subst hne
    exact (Std.Total.total a a).elim id id
  · obtain ⟨l', hsort, hsub⟩ := exists_sorting_before ha hb hne hab
    exact pairwise_pair.1 ((h l' hsort).sorted.sublist hsub)

theorem sortings_eq_iff [Std.Total r] [IsTrans α r] [Std.Total s] [IsTrans α s] :
    (∀ l', Sorting r l₁ l' ↔ Sorting s l₂ l') ↔ l₁.Perm l₂ ∧ ∀ a ∈ l₁, ∀ b ∈ l₁, (r a b ↔ s a b) := by
  constructor
  · intro h
    obtain ⟨l', hsort⟩ := exists_sorting r l₁
    have hperm : l₁.Perm l₂ := hsort.perm.symm.trans ((h l').1 hsort).perm
    refine ⟨hperm, fun a ha b hb => ⟨?_, ?_⟩⟩
    · exact agree_of_sortings (fun l' => (h l').1) a ha b hb
    · exact agree_of_sortings (fun l' => (h l').2) a (hperm.mem_iff.1 ha) b (hperm.mem_iff.1 hb)
  · rintro ⟨hperm, hagree⟩ -
    constructor
    · exact fun h => h.congr hperm fun a ha b hb => (hagree a ha b hb).1
    · refine fun h => h.congr hperm.symm fun a ha b hb => ?_
      exact (hagree a (hperm.mem_iff.2 ha) b (hperm.mem_iff.2 hb)).2

end Aeqi.Lib
