import Mathlib.Data.List.AList

/-!
# Logs that are read back

A log is a list of entries, and of the entries with one key the last one counts. `latest` is what
a reader finds under a key. A log may lie in several parts; a key that stands in one of them only
is found there, in whatever order the parts are read.
-/

namespace Aeqi.Lib

open List Option

universe u v w

variable {α : Type u} {κ : Type v} {β : Type w} [DecidableEq κ]

/-- The last entry with a key. -/
def latest (key : α → κ) (k : κ) : List α → Option α
  | [] => none
  | a :: log => (latest key k log).or (if key a = k then some a else none)

section Latest

variable {key : α → κ} {k : κ} {log log' : List α} {a : α}

@[simp] theorem latest_nil : latest key k [] = none := rfl

theorem latest_append : latest key k (log ++ log') = (latest key k log').or (latest key k log) := by
  induction log with
  | nil => simp
  | cons a log ih => rw [cons_append, latest, ih, latest, Option.or_assoc]

theorem latest_singleton : latest key k [a] = if key a = k then some a else none := rfl

theorem latest_eq_none : latest key k log = none ↔ ∀ a ∈ log, key a ≠ k := by
  induction log with
  | nil => simp
  | cons a log ih =>
    rw [latest, or_eq_none_iff, ih, and_comm]
    simp

theorem latest_some (h : latest key k log = some a) : a ∈ log ∧ key a = k := by
  induction log with
  | nil => cases h
  | cons b log ih =>
    rw [latest, or_eq_some_iff] at h
    rcases h with h | ⟨-, h⟩
    · exact ⟨mem_cons_of_mem _ (ih h).1, (ih h).2⟩
    · split_ifs at h with hb
      obtain rfl := some.inj h
      exact ⟨mem_cons_self, hb⟩

theorem latest_of_nodup (hnodup : (log.map key).Nodup) (ha : a ∈ log) :
    latest key (key a) log = some a := by
  induction log with
  | nil => cases ha
  | cons b log ih =>
    rw [map_cons, nodup_cons] at hnodup
    rw [latest]
    rcases mem_cons.1 ha with rfl | ha
    · have hnone : latest key (key a) log = none :=
        latest_eq_none.2 fun c hc heq => hnodup.1 (List.mem_map.2 ⟨c, hc, heq⟩)
      rw [hnone, if_pos rfl, none_or]
    · rw [ih hnodup.2 ha, some_or]

theorem lookup_foldl_insert {m : AList fun _ : κ => α} :
    (log.foldl (fun m a => m.insert (key a) a) m).lookup k = (latest key k log).or (m.lookup k) := by
  induction log generalizing m with
  | nil => simp
  | cons a log ih =>
    rw [foldl_cons, ih, latest, Option.or_assoc]
    by_cases h : key a = k
    · subst h
      rw [AList.lookup_insert, if_pos rfl, some_or]
    · rw [AList.lookup_insert_ne (Ne.symm h), if_neg h, none_or]

theorem latest_flatMap {parts : List β} {entries : β → List α} {b : β}
    (helse : ∀ b' ∈ parts, b' ≠ b → latest key k (entries b') = none) (hb : b ∈ parts) :
    latest key k (parts.flatMap entries) = latest key k (entries b) := by
  induction parts with
  | nil => cases hb
  | cons b' parts ih =>
    rw [flatMap_cons, latest_append]
    obtain ⟨hhead, htail⟩ := forall_mem_cons.1 helse
    by_cases hmem : b ∈ parts
    · rw [ih htail hmem]
      by_cases heq : b' = b
      · rw [heq, Option.or_self]
      · rw [hhead heq, or_none]
    · have hnone : latest key k (parts.flatMap entries) = none := by
        refine latest_eq_none.2 fun a ha => ?_
        obtain ⟨b'', hb'', ha⟩ := mem_flatMap.1 ha
        exact latest_eq_none.1 (htail b'' hb'' fun heq => hmem (heq ▸ hb'')) a ha
      rcases mem_cons.1 hb with rfl | hb
      · rw [hnone, none_or]
      · exact absurd hb hmem

theorem latest_flatMap_none {parts : List β} {entries : β → List α}
    (h : ∀ b ∈ parts, latest key k (entries b) = none) :
    latest key k (parts.flatMap entries) = none := by
  refine latest_eq_none.2 fun a ha => ?_
  obtain ⟨b, hb, ha⟩ := mem_flatMap.1 ha
  exact latest_eq_none.1 (h b hb) a ha

end Latest

end Aeqi.Lib
