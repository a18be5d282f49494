import Mathlib.Data.List.Dedup
import Mathlib.Data.List.Perm.Subperm

/-!
# Reachability over a list of edges

What a recursive query over an edge table computes: the nodes that are reached from some
start nodes. `closure` adds the end of one edge that leaves the set at a time; there are no
more such additions than edges, so that much fuel reaches the fixed point. `byDepth` collects whole
levels, and does not end where it reaches a cycle; `waves` collects what is new of each level.
`Acyclic` relations stay acyclic when edges
are added into one node, or out of one node, as long as none of them closes a cycle.
-/

namespace Aeqi.Lib

open Relation List

universe u

variable {α : Type u}

/-- The relation of an edge list. -/
def Linked (edges : List (α × α)) (a b : α) : Prop := (a, b) ∈ edges

/-! ## The fixed point of a recursive query -/

theorem linked_map_swap (edges : List (α × α)) :
    Linked (edges.map Prod.swap) = Function.swap (Linked edges) := by
  funext a b
  apply propext
  constructor
  · intro h
    obtain ⟨⟨b', a'⟩, hedge, heq⟩ := List.mem_map.1 h
    cases heq
    exact hedge
  · intro h
    exact List.mem_map.2 ⟨(b, a), h, rfl⟩

section Closure

variable [DecidableEq α] {edges : List (α × α)} {start seen : List α} {a b : α}

instance : Decidable (Linked edges a b) := inferInstanceAs (Decidable ((a, b) ∈ edges))

def grow (edges : List (α × α)) : Nat → List α → List α
  | 0, seen => seen
  | n + 1, seen =>
    match edges.find? fun e => decide (e.1 ∈ seen ∧ e.2 ∉ seen) with
    | none => seen
    | some e => grow edges n (e.2 :: seen)

def closure (edges : List (α × α)) (start : List α) : List α := grow edges edges.length start

/-- The nodes below `a`. -/
def descendants (edges : List (α × α)) (a : α) : List α :=
  closure edges ((edges.filter fun e => e.1 = a).map Prod.snd)

theorem subset_grow (n : Nat) (ha : a ∈ seen) : a ∈ grow edges n seen := by
  induction n generalizing seen with
  | zero => exact ha
  | succ n ih =>
    unfold grow
    split
    · exact ha
    · exact ih (mem_cons_of_mem _ ha)

variable {n : Nat}

theorem reached_of_mem_grow (hb : b ∈ grow edges n seen) :
    ∃ a ∈ seen, ReflTransGen (Linked edges) a b := by
  induction n generalizing seen with
  | zero => exact ⟨b, hb, .refl⟩
  | succ n ih =>
    unfold grow at hb
    split at hb
    · exact ⟨b, hb, .refl⟩
    next e he =>
      have hleaves := find?_some he
      obtain ⟨hfrom, -⟩ := of_decide_eq_true hleaves
      have hedge : Linked edges e.1 e.2 := mem_of_find?_eq_some he
      obtain ⟨a, ha, hpath⟩ := ih hb
      rcases mem_cons.1 ha with rfl | ha
      · exact ⟨e.1, hfrom, .head hedge hpath⟩
      · exact ⟨a, ha, hpath⟩

theorem countP_outside_lt {more : List α} (hedge : Linked edges a b) (hsub : seen ⊆ more)
    (hout : b ∉ seen) (hin : b ∈ more) :
    edges.countP (fun e => decide (e.2 ∉ more)) < edges.countP (fun e => decide (e.2 ∉ seen)) := by
  have hmono : ∀ e : α × α, decide (e.2 ∉ more) = true → decide (e.2 ∉ seen) = true :=
    fun e he => decide_eq_true fun hmem => of_decide_eq_true he (hsub hmem)
  obtain ⟨l₁, l₂, rfl⟩ := append_of_mem hedge
  have h₁ := countP_mono_left (l := l₁) fun e _ => hmono e
  have h₂ := countP_mono_left (l := l₂) fun e _ => hmono e
  simp only [countP_append, countP_cons, hin, not_true_eq_false, decide_false, hout,
    not_false_eq_true, decide_true, if_true] at ⊢
  simp only [Bool.false_eq_true, if_false]
  omega

theorem grow_closed (hn : edges.countP (fun e => decide (e.2 ∉ seen)) ≤ n)
    (hedge : Linked edges a b) (ha : a ∈ grow edges n seen) : b ∈ grow edges n seen := by
  induction n generalizing seen with
  | zero =>
    have hnone := countP_eq_zero.1 (Nat.le_zero.1 hn) (a, b) hedge
    simpa [grow] using hnone
  | succ n ih =>
    unfold grow at ha ⊢
    split at ha
    next hnone =>
      by_contra hb
      have hout := find?_eq_none.1 hnone (a, b) hedge
      exact hout (decide_eq_true ⟨ha, hb⟩)
    next e he =>
      refine ih ?_ ha
      -- the edge that was followed no longer ends outside
      have hleaves := find?_some he
      obtain ⟨-, hout⟩ := of_decide_eq_true hleaves
      have hlt := countP_outside_lt (mem_of_find?_eq_some he) (subset_cons_self e.2 seen)
        hout mem_cons_self
      omega

theorem mem_closure :
    b ∈ closure edges start ↔ ∃ a ∈ start, ReflTransGen (Linked edges) a b := by
  constructor
  · exact reached_of_mem_grow
  · rintro ⟨a, ha, hpath⟩
    induction hpath with
    | refl => exact subset_grow _ ha
    | tail _ hedge ih => exact grow_closed countP_le_length hedge ih

theorem closure_subset {s : α → Prop} (hstart : ∀ a ∈ start, s a)
    (hclosed : ∀ a b, Linked edges a b → s a → s b) : ∀ b ∈ closure edges start, s b := by
  intro b hb
  obtain ⟨a, ha, hpath⟩ := mem_closure.1 hb
  induction hpath with
  | refl => exact hstart a ha
  | tail hpath hedge ih => exact hclosed _ _ hedge (ih (mem_closure.2 ⟨a, ha, hpath⟩))

theorem mem_descendants : b ∈ descendants edges a ↔ TransGen (Linked edges) a b := by
  rw [descendants, mem_closure]
  constructor
  · rintro ⟨c, hc, hpath⟩
    obtain ⟨⟨a', c'⟩, he, rfl⟩ := List.mem_map.1 hc
    obtain ⟨hedge, ha⟩ := mem_filter.1 he
    obtain rfl : a' = a := of_decide_eq_true ha
    exact .head' hedge hpath
  · intro hpath
    obtain ⟨c, hedge, hpath⟩ := TransGen.head'_iff.1 hpath
    exact ⟨c, List.mem_map.2 ⟨(a, c), mem_filter.2 ⟨hedge, decide_eq_true rfl⟩, rfl⟩, hpath⟩

/-! ## A recursive query that counts its depth

Its rows are pairs of a node and a depth, so `UNION` drops no node that comes back at another
depth: where a cycle is reached there is always a next level. -/

/-- The ends of the edges out of a level. -/
def nexts (edges : List (α × α)) (level : List α) : List α :=
  ((edges.filter fun e => decide (e.1 ∈ level)).map Prod.snd).dedup

/-- The rows from one level on, or `none` where the fuel ends before the levels do. -/
def levels (edges : List (α × α)) : Nat → Nat → List α → Option (List (α × Nat))
  | _, _, [] => some []
  | 0, _, _ :: _ => none
  | n + 1, depth, a :: level =>
    (levels edges n (depth + 1) (nexts edges (a :: level))).map fun rows =>
      (a :: level).map (fun b => (b, depth)) ++ rows

/-- The whole query; without a cycle there are no more levels than edges, and one. -/
def byDepth (edges : List (α × α)) (start : List α) : Option (List (α × Nat)) :=
  levels edges (edges.length + 1) 0 start

theorem mem_nexts : b ∈ nexts edges seen ↔ ∃ a ∈ seen, Linked edges a b := by
  simp only [nexts, mem_dedup, List.mem_map, mem_filter, decide_eq_true_eq]
  constructor
  · rintro ⟨⟨a, b⟩, ⟨hedge, ha⟩, rfl⟩
    exact ⟨a, ha, hedge⟩
  · rintro ⟨a, ha, hedge⟩
    exact ⟨(a, b), ⟨hedge, ha⟩, rfl⟩

variable {rows : List (α × Nat)} {depth : Nat}

theorem levels_succ (hne : seen ≠ []) (h : levels edges (n + 1) depth seen = some rows) :
    ∃ rest, levels edges n (depth + 1) (nexts edges seen) = some rest ∧
      rows = seen.map (fun b => (b, depth)) ++ rest := by
  cases seen with
  | nil => exact absurd rfl hne
  | cons a level =>
    obtain ⟨rest, hrest, rfl⟩ := Option.map_eq_some_iff.1 h
    exact ⟨rest, hrest, rfl⟩

theorem mem_levels (h : levels edges n depth seen = some rows) :
    b ∈ rows.map Prod.fst ↔ ∃ a ∈ seen, ReflTransGen (Linked edges) a b := by
  induction n generalizing depth seen rows with
  | zero =>
    cases seen with
    | nil =>
      obtain rfl : [] = rows := by simpa [levels] using h
      simp
    | cons a level => simp [levels] at h
  | succ n ih =>
    rcases eq_or_ne seen [] with rfl | hne
    · obtain rfl : [] = rows := by simpa [levels] using h
      simp
    obtain ⟨rest, hrest, rfl⟩ := levels_succ hne h
    have hfst : (seen.map fun b => (b, depth)).map Prod.fst = seen := by
      simp [Function.comp_def]
    rw [map_append, mem_append, hfst, ih hrest]
    constructor
    · rintro (hb | ⟨c, hc, hpath⟩)
      · exact ⟨b, hb, .refl⟩
      · obtain ⟨a, ha, hedge⟩ := mem_nexts.1 hc
        exact ⟨a, ha, .head hedge hpath⟩
    · rintro ⟨a, ha, hpath⟩
      rcases ReflTransGen.cases_head hpath with rfl | ⟨c, hedge, hpath⟩
      · exact .inl ha
      · exact .inr ⟨c, mem_nexts.2 ⟨a, ha, hedge⟩, hpath⟩

theorem no_cycle_of_levels (h : levels edges n depth seen = some rows) (ha : a ∈ seen)
    (hpath : ReflTransGen (Linked edges) a b) : ¬ TransGen (Linked edges) b b := by
  induction n generalizing depth seen rows a b with
  | zero =>
    cases seen with
    | nil => simp at ha
    | cons c level => simp [levels] at h
  | succ n ih =>
    obtain ⟨rest, hrest, -⟩ := levels_succ (ne_nil_of_mem ha) h
    intro hcycle
    -- the next level reaches the cycle too, from the next node on the way or on the cycle
    rcases ReflTransGen.cases_head hpath with rfl | ⟨c, hedge, hpath⟩
    · obtain ⟨c, hedge, hback⟩ := TransGen.head'_iff.1 hcycle
      exact ih hrest (mem_nexts.2 ⟨a, ha, hedge⟩) hback hcycle
    · exact ih hrest (mem_nexts.2 ⟨a, ha, hedge⟩) hpath hcycle

/-- A walk of distinct edges that ends in `a`. -/
structure Walked (edges : List (α × α)) (a : α) (walk : List (α × α)) : Prop where
  nodup : walk.Nodup
  subset : walk ⊆ edges
  ends : ∀ e ∈ walk, ReflTransGen (Linked edges) e.2 a

omit [DecidableEq α] in
theorem Walked.step {walk : List (α × α)} (h : Walked edges a walk) (hedge : Linked edges a b)
    (hcycle : ¬ TransGen (Linked edges) a a) : Walked edges b ((a, b) :: walk) where
  nodup := by
    refine nodup_cons.2 ⟨?_, h.nodup⟩
    intro hmem
    exact hcycle (.head' hedge (h.ends _ hmem))
  subset := cons_subset.2 ⟨hedge, h.subset⟩
  ends := by
    intro e he
    rcases mem_cons.1 he with rfl | he
    · exact .refl
    · exact (h.ends e he).tail hedge

theorem levels_of_no_cycle
    (hcycle : ∀ a ∈ seen, ∀ b, ReflTransGen (Linked edges) a b → ¬ TransGen (Linked edges) b b)
    (hwalk : ∀ a ∈ seen, ∃ walk, Walked edges a walk ∧ edges.length < walk.length + n) :
    ∃ rows, levels edges n depth seen = some rows := by
  induction n generalizing depth seen with
  | zero =>
    cases seen with
    | nil => exact ⟨[], rfl⟩
    | cons a level =>
      obtain ⟨walk, hw, hlong⟩ := hwalk a mem_cons_self
      have hshort : walk.length ≤ edges.length := (List.Nodup.subperm hw.nodup hw.subset).length_le
      omega
  | succ n ih =>
    cases seen with
    | nil => exact ⟨[], rfl⟩
    | cons a level =>
      have hnext : ∃ rows, levels edges n (depth + 1) (nexts edges (a :: level)) = some rows := by
        apply ih
        · intro c hc b hpath
          obtain ⟨a', ha', hedge⟩ := mem_nexts.1 hc
          exact hcycle a' ha' b (.head hedge hpath)
        · intro c hc
          obtain ⟨a', ha', hedge⟩ := mem_nexts.1 hc
          obtain ⟨walk, hw, hlong⟩ := hwalk a' ha'
          refine ⟨_, hw.step hedge (hcycle a' ha' a' .refl), ?_⟩
          rw [length_cons]
          omega
      obtain ⟨rest, hrest⟩ := hnext
      exact ⟨_, by rw [levels, hrest, Option.map_some]⟩

theorem byDepth_ends_iff : (∃ rows, byDepth edges start = some rows) ↔
    ∀ a ∈ start, ∀ b, ReflTransGen (Linked edges) a b → ¬ TransGen (Linked edges) b b := by
  constructor
  · rintro ⟨rows, h⟩ a ha b hpath
    exact no_cycle_of_levels h ha hpath
  · intro hcycle
    refine levels_of_no_cycle hcycle ?_
    intro a _
    exact ⟨[], ⟨nodup_nil, nil_subset _, by simp⟩, by simp⟩

/-! ## Levels without what was seen before -/

/-- `next` is what lies behind a level; only what was not seen makes the next level. -/
def waves (next : List α → List α) : Nat → List α → List α → List α
  | 0, seen, _ => seen
  | n + 1, seen, level =>
    if level = [] then seen
    else
      let fresh := (next level).filter (· ∉ seen)
      waves next n (seen ++ fresh) fresh

theorem subset_waves {next : List α → List α} {level : List α} (n : Nat) (ha : a ∈ seen) :
    a ∈ waves next n seen level := by
  induction n generalizing seen level with
  | zero => exact ha
  | succ n ih =>
    unfold waves
    split
    · exact ha
    · exact ih (mem_append_left _ ha)

theorem waves_closed {next : List α → List α} {level : List α}
    (hnext : ∀ level b, b ∈ next level ↔ b ∉ level ∧ ∃ a ∈ level, Linked edges a b)
    (hseen : ∀ a b, Linked edges a b → a ∈ seen → a ∉ level → b ∈ seen)
    (hn : edges.countP (fun e => decide (e.2 ∉ seen)) + (if level = [] then 0 else 1) ≤ n)
    (hsub : level ⊆ seen) (hedge : Linked edges a b) (ha : a ∈ waves next n seen level) :
    b ∈ waves next n seen level := by
  induction n generalizing seen level with
  | zero =>
    have hlevel : level = [] := by
      by_contra hne
      rw [if_neg hne] at hn
      omega
    exact hseen a b hedge ha (hlevel ▸ not_mem_nil)
  | succ n ih =>
    unfold waves at ha ⊢
    split at ha
    next hlevel =>
      rw [if_pos hlevel]
      exact hseen a b hedge ha (hlevel ▸ not_mem_nil)
    next hlevel =>
      rw [if_neg hlevel] at hn ⊢
      refine ih (fun c d hcd hc hfresh => ?_) ?_ (subset_append_right _ _) ha
      · have hc := (mem_append.1 hc).resolve_right hfresh
        by_cases hin : c ∈ level
        · by_cases hd : d ∈ seen
          · exact mem_append_left _ hd
          · have hbehind := (hnext level d).2 ⟨fun h => hd (hsub h), c, hin, hcd⟩
            exact mem_append_right _ (mem_filter.2 ⟨hbehind, decide_eq_true hd⟩)
        · exact mem_append_left _ (hseen c d hcd hc hin)
      · by_cases hfresh : (next level).filter (· ∉ seen) = []
        · rw [hfresh, append_nil, if_pos rfl]
          omega
        · -- an edge to what is new no longer ends outside
          obtain ⟨d, hd⟩ := exists_mem_of_ne_nil _ hfresh
          obtain ⟨hbehind, hout⟩ := mem_filter.1 hd
          obtain ⟨-, c, -, hcd⟩ := (hnext level d).1 hbehind
          have hout := of_decide_eq_true hout
          have hlt := countP_outside_lt hcd (subset_append_left seen _) hout
            (mem_append_right seen hd)
          rw [if_neg hfresh]
          omega

end Closure

/-! ## Acyclic relations -/

def Acyclic (r : α → α → Prop) : Prop := ∀ a, ¬ TransGen r a a

namespace Acyclic

variable {r r' : α → α → Prop}

/-- Edges into one node `b`, from nodes that are not reached from `b`. -/
theorem into (h : Acyclic r) {b : α} {s : α → Prop}
    (hr : ∀ x y, r' x y → r x y ∨ s x ∧ y = b) (hs : ∀ x, s x → ¬ ReflTransGen r b x) :
    Acyclic r' := by
  -- from `b` on, a path that comes back to `b` can start there
  have hfrom : ∀ z, ReflTransGen r' b z → ReflTransGen r b z := by
    intro z hpath
    induction hpath with
    | refl => exact .refl
    | tail _ hedge ih =>
      rcases hr _ _ hedge with hold | ⟨-, rfl⟩
      · exact ih.tail hold
      · exact .refl
  have hsplit : ∀ x y, TransGen r' x y →
      TransGen r x y ∨ ∃ p, s p ∧ ReflTransGen r' x p ∧ ReflTransGen r' b y := by
    intro x y hpath
    induction hpath with
    | single hedge =>
      rcases hr _ _ hedge with hold | ⟨hsx, rfl⟩
      · exact .inl (.single hold)
      · exact .inr ⟨x, hsx, .refl, .refl⟩
    | tail hpath hedge ih =>
      rcases ih with hold | ⟨p, hp, hxp, hby⟩
      · rcases hr _ _ hedge with hnext | ⟨hsy, rfl⟩
        · exact .inl (hold.tail hnext)
        · exact .inr ⟨_, hsy, hpath.to_reflTransGen, .refl⟩
      · exact .inr ⟨p, hp, hxp, hby.tail hedge⟩
  intro a hcycle
  rcases hsplit a a hcycle with hold | ⟨p, hp, hap, hba⟩
  · exact h a hold
  · exact hs p hp (hfrom p (hba.trans hap))

/-- Edges out of one node `a`, to nodes that do not reach `a`. -/
theorem out_of (h : Acyclic r) {a : α} {s : α → Prop}
    (hr : ∀ x y, r' x y → r x y ∨ x = a ∧ s y) (hs : ∀ y, s y → ¬ ReflTransGen r y a) :
    Acyclic r' := by
  have hswap : Acyclic (Function.swap r') := by
    refine into (r := Function.swap r) (b := a) (s := s) ?_ ?_ ?_
    · intro b hcycle
      exact h b (transGen_swap.1 hcycle)
    · intro x y hxy
      rcases hr y x hxy with hold | ⟨rfl, hsx⟩
      · exact .inl hold
      · exact .inr ⟨hsx, rfl⟩
    · intro x hsx hpath
      exact hs x hsx (reflTransGen_swap.1 hpath)
  intro b hcycle
  exact hswap b (transGen_swap.2 hcycle)

end Acyclic

end Aeqi.Lib
