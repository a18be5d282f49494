import Mathlib.Data.Finset.Card

/-!
# Breadth-first search

A search with a queue of nodes and their depths. A node that is taken from the queue is passed on,
and those of its successors that have not been visited are queued one deeper. `layers` does the same
level by level, and `search` comes to the same (`search_eq_layers`): it passes on every node at its
shortest distance from the start, once, and nearer nodes first.
-/

namespace Aeqi.Lib

open List

universe u

variable {α : Type u}

/-! ## Distances -/

/-- There is a path of that length from the start. -/
def Reach (next : α → List α) (start : List α) : Nat → α → Prop
  | 0, b => b ∈ start
  | k + 1, b => ∃ a, Reach next start k a ∧ b ∈ next a

def Shortest (next : α → List α) (start : List α) (k : Nat) (b : α) : Prop :=
  Reach next start k b ∧ ∀ j < k, ¬ Reach next start j b

section Shortest

variable {next : α → List α} {start : List α} {k j : Nat} {a b : α}

theorem Shortest.unique (h : Shortest next start k b) (h' : Shortest next start j b) : k = j := by
  rcases Nat.lt_trichotomy k j with hlt | heq | hlt
  · exact absurd h.1 (h'.2 k hlt)
  · exact heq
  · exact absurd h'.1 (h.2 j hlt)

theorem exists_shortest (h : Reach next start k b) : ∃ j ≤ k, Shortest next start j b := by
  induction k using Nat.strong_induction_on with
  | _ k ih =>
    by_cases hshort : ∃ j < k, Reach next start j b
    · obtain ⟨j, hj, hreach⟩ := hshort
      obtain ⟨i, hi, hshortest⟩ := ih j hj hreach
      exact ⟨i, hi.trans hj.le, hshortest⟩
    · exact ⟨k, le_rfl, h, fun j hj hreach => hshort ⟨j, hj, hreach⟩⟩

theorem shortest_succ_iff : Shortest next start (k + 1) b ↔
    (∀ j ≤ k, ¬ Shortest next start j b) ∧ ∃ a, Shortest next start k a ∧ b ∈ next a := by
  constructor
  · rintro ⟨⟨a, ha, hb⟩, hfirst⟩
    refine ⟨fun j hj h => hfirst j (by omega) h.1, a, ⟨ha, fun j hj hreach => ?_⟩, hb⟩
    exact hfirst (j + 1) (by omega) ⟨a, hreach, hb⟩
  · rintro ⟨hfirst, a, ha, hb⟩
    refine ⟨⟨a, ha.1, hb⟩, fun j hj hreach => ?_⟩
    obtain ⟨i, hi, hshortest⟩ := exists_shortest hreach
    exact hfirst i (by omega) hshortest

/-! ### Levels -/

theorem mem_level {level : List α} {depth : Nat}
    (hlevel : ∀ b, b ∈ level ↔ Shortest next start depth b) :
    (b, k) ∈ level.map (fun a => (a, depth)) ↔ k = depth ∧ Shortest next start k b := by
  rw [List.mem_map]
  constructor
  · rintro ⟨a, ha, heq⟩
    obtain ⟨rfl, rfl⟩ := Prod.mk.inj heq
    exact ⟨rfl, (hlevel a).1 ha⟩
  · rintro ⟨rfl, h⟩
    exact ⟨b, (hlevel b).2 h, rfl⟩

theorem nodup_level {level : List α} (depth : Nat) (h : level.Nodup) :
    (level.map fun a => (a, depth)).Nodup :=
  h.map fun _ _ heq => (Prod.mk.inj heq).1

end Shortest

/-! ## The search -/

section Search

variable [DecidableEq α] (next : α → List α)

/-- The successors that have not been visited, each once. -/
def unvisited (visited : List α) : List α → List α
  | [] => []
  | b :: found =>
    if b ∈ visited then unvisited visited found else b :: unvisited (b :: visited) found

/-- The nodes that are taken from the queue, with their depths. -/
def search (maxDepth : Nat) : Nat → List α → List (α × Nat) → List (α × Nat)
  | 0, _, _ => []
  | _ + 1, _, [] => []
  | fuel + 1, visited, (a, depth) :: queue =>
    if maxDepth ≤ depth then (a, depth) :: search maxDepth fuel visited queue
    else
      let fresh := unvisited visited (next a)
      (a, depth) :: search maxDepth fuel (visited ++ fresh)
        (queue ++ fresh.map fun b => (b, depth + 1))

/-- What is queued while a level is taken from the queue. -/
def sweep : List α → List α → List α
  | _, [] => []
  | visited, a :: level =>
    unvisited visited (next a) ++ sweep (visited ++ unvisited visited (next a)) level

/-- Level by level. -/
def layers : Nat → Nat → List α → List α → List (α × Nat)
  | 0, depth, _, level => level.map fun a => (a, depth)
  | n + 1, depth, visited, level =>
    (level.map fun a => (a, depth)) ++
      layers n (depth + 1) (visited ++ sweep next visited level) (sweep next visited level)

variable {next} {visited level found : List α} {b : α} {maxDepth depth fuel n : Nat}

theorem mem_unvisited : b ∈ unvisited visited found ↔ b ∉ visited ∧ b ∈ found := by
  induction found generalizing visited with
  | nil => simp [unvisited]
  | cons c found ih =>
    unfold unvisited
    split
    next hc =>
      rw [ih, List.mem_cons]
      refine and_congr_right fun hb => ⟨.inr, fun h => h.resolve_left ?_⟩
      rintro rfl
      exact hb hc
    next hc =>
      rw [List.mem_cons, ih]
      by_cases hbc : b = c
      · simp [hbc, hc]
      · simp [hbc]

theorem nodup_unvisited : (unvisited visited found).Nodup := by
  induction found generalizing visited with
  | nil => exact nodup_nil
  | cons c found ih =>
    unfold unvisited
    split
    · exact ih
    · refine nodup_cons.2 ⟨fun hmem => ?_, ih⟩
      exact (mem_unvisited.1 hmem).1 List.mem_cons_self

theorem mem_sweep : b ∈ sweep next visited level ↔ b ∉ visited ∧ ∃ a ∈ level, b ∈ next a := by
  induction level generalizing visited with
  | nil => simp [sweep]
  | cons a level ih =>
    rw [sweep, mem_append, ih, mem_append, mem_unvisited]
    constructor
    · rintro (⟨hb, hmem⟩ | ⟨hb, a', ha', hmem⟩)
      · exact ⟨hb, a, List.mem_cons_self, hmem⟩
      · exact ⟨fun h => hb (.inl h), a', List.mem_cons_of_mem _ ha', hmem⟩
    · rintro ⟨hb, a', ha', hmem⟩
      by_cases hnow : b ∈ next a
      · exact .inl ⟨hb, hnow⟩
      · rcases List.mem_cons.1 ha' with rfl | ha'
        · exact absurd hmem hnow
        · exact .inr ⟨fun h => h.elim hb fun h => hnow h.2, a', ha', hmem⟩

theorem nodup_sweep : (sweep next visited level).Nodup := by
  induction level generalizing visited with
  | nil => exact nodup_nil
  | cons a level ih =>
    refine nodup_unvisited.append ih fun b hb hb' => ?_
    exact (mem_sweep.1 hb').1 (mem_append_right _ hb)

theorem search_level (next : α → List α) (fuel : Nat) (visited level : List α)
    (hdepth : depth < maxDepth) (pending : List α) :
    search next maxDepth (fuel + level.length) visited
        ((level.map fun a => (a, depth)) ++ pending.map fun a => (a, depth + 1)) =
      (level.map fun a => (a, depth)) ++
        search next maxDepth fuel (visited ++ sweep next visited level)
          ((pending ++ sweep next visited level).map fun a => (a, depth + 1)) := by
  induction level generalizing visited pending with
  | nil => simp [sweep]
  | cons a level ih =>
    rw [length_cons, ← Nat.add_assoc, List.map_cons, cons_append, search, if_neg (by omega)]
    dsimp only
    rw [append_assoc, ← map_append, ih]
    simp [sweep]

theorem search_last (hdepth : maxDepth ≤ depth) :
    search next maxDepth (fuel + level.length) visited (level.map fun a => (a, depth)) =
      level.map fun a => (a, depth) := by
  induction level with
  | nil =>
    cases fuel <;> rfl
  | cons a level ih =>
    rw [length_cons, ← Nat.add_assoc, List.map_cons, search, if_pos hdepth, ih]

theorem search_eq_layers (depth n : Nat) {nodes : Finset α} (hnext : ∀ a, ∀ b ∈ next a, b ∈ nodes)
    (hfuel : level.length + (nodes \ visited.toFinset).card ≤ fuel) :
    search next (depth + n) fuel visited (level.map fun a => (a, depth)) =
      layers next n depth visited level := by
  induction n generalizing depth fuel visited level with
  | zero =>
    obtain ⟨-, rfl⟩ : ∃ spare, fuel = spare + level.length := ⟨fuel - level.length, by omega⟩
    exact search_last (le_rfl)
  | succ n ih =>
    obtain ⟨spare, rfl⟩ : ∃ spare, fuel = spare + level.length := ⟨fuel - level.length, by omega⟩
    have hdeeper : depth < depth + (n + 1) := Nat.lt_add_of_pos_right (by omega)
    have hlevel : search next (depth + (n + 1)) (spare + level.length) visited
        (level.map fun a => (a, depth)) = (level.map fun a => (a, depth)) ++
          search next (depth + (n + 1)) spare (visited ++ sweep next visited level)
            ((sweep next visited level).map fun a => (a, depth + 1)) := by
      have hall := search_level next spare visited level hdeeper []
      rwa [map_nil, append_nil] at hall
    rw [hlevel, layers]
    have hsucc : depth + (n + 1) = depth + 1 + n := by omega
    -- what is swept is taken from the nodes that are still to visit
    have hsub : (sweep next visited level).toFinset ⊆ nodes \ visited.toFinset := by
      intro b hb
      obtain ⟨hout, a, -, hmem⟩ := mem_sweep.1 (mem_toFinset.1 hb)
      exact Finset.mem_sdiff.2 ⟨hnext a b hmem, mt mem_toFinset.1 hout⟩
    have hcard := Finset.card_sdiff_add_card_eq_card hsub
    rw [toFinset_card_of_nodup nodup_sweep] at hcard
    have hrest : nodes \ (visited ++ sweep next visited level).toFinset =
        (nodes \ visited.toFinset) \ (sweep next visited level).toFinset := by
      rw [toFinset_append, sdiff_sdiff]
      rfl
    rw [hsucc, ih]
    rw [hrest]
    omega

/-! ## What the search passes on -/

variable {start : List α} {k : Nat}

theorem mem_layers (hvisited : ∀ b, b ∈ visited ↔ ∃ j ≤ depth, Shortest next start j b)
    (hlevel : ∀ b, b ∈ level ↔ Shortest next start depth b) :
    (b, k) ∈ layers next n depth visited level ↔
      depth ≤ k ∧ k ≤ depth + n ∧ Shortest next start k b := by
  induction n generalizing depth visited level with
  | zero =>
    rw [layers, mem_level hlevel]
    constructor
    · rintro ⟨rfl, h⟩
      exact ⟨le_rfl, le_rfl, h⟩
    · rintro ⟨hle, hge, h⟩
      exact ⟨le_antisymm hge hle, h⟩
  | succ n ih =>
    have hnextLevel : ∀ b, b ∈ sweep next visited level ↔ Shortest next start (depth + 1) b := by
      intro b
      rw [mem_sweep, shortest_succ_iff, hvisited]
      refine and_congr (by simp) (exists_congr fun a => ?_)
      rw [hlevel]
    have hnextVisited : ∀ b, b ∈ visited ++ sweep next visited level ↔
        ∃ j ≤ depth + 1, Shortest next start j b := by
      intro b
      rw [mem_append, hvisited, hnextLevel]
      constructor
      · rintro (⟨j, hj, h⟩ | h)
        · exact ⟨j, hj.trans (by omega), h⟩
        · exact ⟨depth + 1, le_rfl, h⟩
      · rintro ⟨j, hj, h⟩
        rcases Nat.lt_or_ge depth j with hlt | hge
        · obtain rfl : j = depth + 1 := by omega
          exact .inr h
        · exact .inl ⟨j, hge, h⟩
    rw [layers, mem_append, mem_level hlevel, ih hnextVisited hnextLevel]
    constructor
    · rintro (⟨rfl, h⟩ | ⟨hle, hge, h⟩)
      · exact ⟨le_rfl, Nat.le_add_right _ _, h⟩
      · exact ⟨by omega, by omega, h⟩
    · rintro ⟨hle, hge, h⟩
      rcases Nat.eq_or_lt_of_le hle with rfl | hlt
      · exact .inl ⟨rfl, h⟩
      · exact .inr ⟨hlt, by omega, h⟩

theorem sorted_layers : (layers next n depth visited level).Pairwise (fun e e' => e.2 ≤ e'.2) ∧
    ∀ e ∈ layers next n depth visited level, depth ≤ e.2 := by
  induction n generalizing depth visited level with
  | zero =>
    have hdepth : ∀ e ∈ level.map (fun a => (a, depth)), e.2 = depth := by simp
    refine ⟨pairwise_of_forall_mem_list fun e he e' he' => ?_, fun e he => ?_⟩
    · rw [hdepth e he, hdepth e' he']
    · exact (hdepth e he).ge
  | succ n ih =>
    have hdepth : ∀ e ∈ level.map (fun a => (a, depth)), e.2 = depth := by simp
    refine ⟨pairwise_append.2 ⟨?_, ih.1, fun e he e' he' => ?_⟩, fun e he => ?_⟩
    · exact pairwise_of_forall_mem_list fun e he e' he' => by rw [hdepth e he, hdepth e' he']
    · rw [hdepth e he]
      exact (Nat.le_succ _).trans (ih.2 e' he')
    · rcases mem_append.1 he with he | he
      · exact (hdepth e he).ge
      · exact (Nat.le_succ _).trans (ih.2 e he)

theorem nodup_layers (h : level.Nodup) : (layers next n depth visited level).Nodup := by
  induction n generalizing depth visited level with
  | zero => exact nodup_level depth h
  | succ n ih =>
    refine (nodup_level depth h).append (ih nodup_sweep) fun e he he' => ?_
    obtain ⟨a, -, rfl⟩ := List.mem_map.1 he
    exact absurd (sorted_layers.2 _ he') (by omega)

theorem nodup_layers_behind (next : α → List α) (n depth : Nat) (visited level : List α) :
    ((layers next n depth visited level).filter fun e => decide (depth < e.2)).Nodup := by
  have hfirst : (level.map fun a => (a, depth)).filter (fun e => decide (depth < e.2)) = [] := by
    rw [filter_eq_nil_iff]
    intro e he
    obtain ⟨a, -, rfl⟩ := List.mem_map.1 he
    simp
  cases n with
  | zero =>
    rw [layers, hfirst]
    exact nodup_nil
  | succ n =>
    rw [layers, filter_append, hfirst]
    exact (nodup_layers nodup_sweep).filter _

end Search

end Aeqi.Lib
