import Aeqi.Lib.Closure

/-!
# Recursive queries

`WITH RECURSIVE .. UNION ..` as SQLite evaluates it. Rows wait in a queue; the first of them is
taken, and the rows that the recursive part makes of it join the queue, unless they have been in
it before. When none is left the rows that were taken are the table.

A query ends when all that it reaches lies in a finite set, and then it has found just that.
`deepen` counts the steps to a row, so its query finds the length of every walk, and
does not end where walks get longer and longer.
-/

namespace Aeqi.Lib

open Relation List

universe u

variable {α : Type u}

/-! ## Walks -/

/-- A walk of a length. -/
inductive WalkIn (r : α → α → Prop) : Nat → α → α → Prop
  | nil (a : α) : WalkIn r 0 a a
  | snoc {n : Nat} {a b c : α} (walk : WalkIn r n a b) (hstep : r b c) : WalkIn r (n + 1) a c

section Walks

variable {r : α → α → Prop} {a b c : α} {m n : Nat}

theorem WalkIn.append (h : WalkIn r m a b) (h' : WalkIn r n b c) : WalkIn r (m + n) a c := by
  induction h' with
  | nil => exact h
  | snoc _ hstep ih => exact .snoc (ih h) hstep

theorem WalkIn.path (h : WalkIn r n a b) : ReflTransGen r a b := by
  induction h with
  | nil => exact .refl
  | snoc _ hstep ih => exact ih.tail hstep

theorem exists_walkIn (h : ReflTransGen r a b) : ∃ n, WalkIn r n a b := by
  induction h with
  | refl => exact ⟨0, .nil a⟩
  | tail _ hstep ih =>
    obtain ⟨n, hn⟩ := ih
    exact ⟨n + 1, hn.snoc hstep⟩

theorem walkIn_zero (h : WalkIn r 0 a b) : a = b := by
  cases h
  rfl

theorem walkIn_succ : WalkIn r (n + 1) a c ↔ ∃ b, r a b ∧ WalkIn r n b c := by
  constructor
  · intro h
    induction n generalizing c with
    | zero =>
      obtain ⟨hnil, hstep⟩ : ∃ b, WalkIn r 0 a b ∧ r b c := by
        cases h with
        | snoc walk hstep => exact ⟨_, walk, hstep⟩
      cases walkIn_zero hstep.1
      exact ⟨c, hstep.2, .nil c⟩
    | succ n ih =>
      cases h with
      | snoc walk hstep =>
        obtain ⟨b, hfirst, hrest⟩ := ih walk
        exact ⟨b, hfirst, hrest.snoc hstep⟩
  · rintro ⟨b, hstep, hwalk⟩
    induction hwalk with
    | nil => exact .snoc (.nil a) hstep
    | snoc _ hlast ih => exact (ih hstep).snoc hlast

theorem walkIn_swap : WalkIn (Function.swap r) n a b ↔ WalkIn r n b a := by
  induction n generalizing a with
  | zero =>
    constructor
    · intro h
      cases walkIn_zero h
      exact .nil _
    · intro h
      cases walkIn_zero h
      exact .nil _
  | succ n ih =>
    rw [walkIn_succ]
    constructor
    · rintro ⟨c, hstep, hwalk⟩
      exact (ih.1 hwalk).snoc hstep
    · intro h
      cases h with
      | snoc walk hstep => exact ⟨_, hstep, ih.2 walk⟩

theorem long_walk (hpath : ReflTransGen r a b) (hcycle : TransGen r b b) (m : Nat) :
    ∃ n, m ≤ n ∧ WalkIn r n a b := by
  induction m with
  | zero =>
    obtain ⟨n, hn⟩ := exists_walkIn hpath
    exact ⟨n, n.zero_le, hn⟩
  | succ m ih =>
    obtain ⟨n, hmn, hn⟩ := ih
    obtain ⟨c, hpath', hstep⟩ := TransGen.tail'_iff.1 hcycle
    obtain ⟨k, hk⟩ := exists_walkIn hpath'
    exact ⟨n + (k + 1), by omega, hn.append (hk.snoc hstep)⟩

end Walks

/-! ## The queue -/

section Queue

variable [DecidableEq α] {expand : α → List α} {taken queue rows U : List α} {a b : α} {n : Nat}

/-- The rows that a query has taken when its queue is empty, or `none` where the fuel ends first. -/
def recursiveQuery (expand : α → List α) : Nat → List α → List α → Option (List α)
  | _, taken, [] => some taken
  | 0, _, _ :: _ => none
  | n + 1, taken, row :: queue =>
    recursiveQuery expand n (taken ++ [row])
      (queue ++ (expand row).dedup.filter fun r => r ∉ taken ++ row :: queue)

theorem reached_of_mem_query (h : recursiveQuery expand n taken queue = some rows)
    (hb : b ∈ rows) :
    b ∈ taken ∨ ∃ a ∈ queue, ReflTransGen (fun x y => y ∈ expand x) a b := by
  induction n generalizing taken queue with
  | zero =>
    cases queue with
    | nil => cases h; exact .inl hb
    | cons row queue => cases h
  | succ n ih =>
    cases queue with
    | nil => cases h; exact .inl hb
    | cons row queue =>
      rcases ih h with htaken | ⟨a, ha, hpath⟩
      · rcases mem_append.1 htaken with hold | hrow
        · exact .inl hold
        · cases mem_singleton.1 hrow
          exact .inr ⟨_, mem_cons_self, .refl⟩
      · right
        rcases mem_append.1 ha with hwait | hnew
        · exact ⟨a, mem_cons_of_mem _ hwait, hpath⟩
        · have hstep := mem_dedup.1 (mem_filter.1 hnew).1
          exact ⟨row, mem_cons_self, .head hstep hpath⟩

theorem query_closed (h : recursiveQuery expand n taken queue = some rows)
    (hclosed : ∀ a ∈ taken, ∀ b ∈ expand a, b ∈ taken ∨ b ∈ queue) :
    (∀ a ∈ taken ++ queue, a ∈ rows) ∧ ∀ a ∈ rows, ∀ b ∈ expand a, b ∈ rows := by
  have hend : ∀ taken : List α, (∀ a ∈ taken, ∀ b ∈ expand a, b ∈ taken ∨ b ∈ []) →
      (∀ a ∈ taken ++ [], a ∈ taken) ∧ ∀ a ∈ taken, ∀ b ∈ expand a, b ∈ taken := by
    intro taken hclosed
    refine ⟨fun a ha => by rwa [append_nil] at ha, fun a ha b hb => ?_⟩
    exact (hclosed a ha b hb).resolve_right not_mem_nil
  induction n generalizing taken queue with
  | zero =>
    cases queue with
    | nil => cases h; exact hend _ hclosed
    | cons row queue => cases h
  | succ n ih =>
    cases queue with
    | nil => cases h; exact hend _ hclosed
    | cons row queue =>
      have hstep : ∀ a ∈ taken ++ [row], ∀ b ∈ expand a, b ∈ taken ++ [row] ∨
          b ∈ queue ++ (expand row).dedup.filter fun r => r ∉ taken ++ row :: queue := by
        intro a ha b hb
        by_cases hold : b ∈ taken ++ row :: queue
        · rw [mem_append, mem_cons] at hold
          simp only [mem_append, mem_singleton]
          tauto
        · rcases mem_append.1 ha with ha | ha
          · have hmem : b ∈ taken ++ row :: queue := mem_append.2 (hclosed a ha b hb)
            exact absurd hmem hold
          · cases mem_singleton.1 ha
            right
            apply mem_append_right
            exact mem_filter.2 ⟨mem_dedup.2 hb, decide_eq_true hold⟩
      obtain ⟨hsub, hrows⟩ := ih h hstep
      refine ⟨fun a ha => hsub a ?_, hrows⟩
      simp only [mem_append, mem_cons] at ha ⊢
      tauto

theorem mem_recursiveQuery (h : recursiveQuery expand n [] queue = some rows) :
    b ∈ rows ↔ ∃ a ∈ queue, ReflTransGen (fun x y => y ∈ expand x) a b := by
  constructor
  · intro hb
    exact (reached_of_mem_query h hb).resolve_left not_mem_nil
  · rintro ⟨a, ha, hpath⟩
    obtain ⟨hsub, hclosed⟩ := query_closed h nofun
    induction hpath with
    | refl => exact hsub a ha
    | tail _ hstep ih => exact hclosed _ ih _ hstep

theorem query_ends (hnodup : (taken ++ queue).Nodup) (hsub : ∀ a ∈ taken ++ queue, a ∈ U)
    (hU : ∀ a ∈ U, ∀ b ∈ expand a, b ∈ U) (hn : U.length ≤ n + taken.length) :
    ∃ rows, recursiveQuery expand n taken queue = some rows := by
  induction n generalizing taken queue with
  | zero =>
    cases queue with
    | nil => exact ⟨taken, rfl⟩
    | cons row queue =>
      have hle := (List.Nodup.subperm hnodup hsub).length_le
      rw [length_append, length_cons] at hle
      omega
  | succ n ih =>
    cases queue with
    | nil => exact ⟨taken, rfl⟩
    | cons row queue =>
      have hsame : taken ++ row :: queue = (taken ++ [row]) ++ queue := by simp
      apply ih
      · rw [← append_assoc, ← hsame]
        refine List.Nodup.append hnodup ((nodup_dedup _).filter _) ?_
        intro a hold hnew
        exact of_decide_eq_true (mem_filter.1 hnew).2 hold
      · intro a ha
        rw [← append_assoc, ← hsame] at ha
        rcases mem_append.1 ha with hold | hnew
        · exact hsub a hold
        · have hrow : row ∈ U := hsub row (mem_append_right _ mem_cons_self)
          exact hU row hrow a (mem_dedup.1 (mem_filter.1 hnew).1)
      · rw [length_append, length_singleton]
        omega

end Queue

/-! ## Counting the depth -/

section Depth

variable [DecidableEq α] {edges : List (α × α)} {start : List α} {a b : α} {m n : Nat}

/-- Where the edges out of a node lead. -/
def successors (edges : List (α × α)) (a : α) : List α := (edges.filter fun e => e.1 = a).map Prod.snd

def deepen (next : α → List α) (row : α × Nat) : List (α × Nat) :=
  (next row.1).map fun b => (b, row.2 + 1)

theorem mem_successors : b ∈ successors edges a ↔ Linked edges a b := by
  unfold successors
  rw [mem_map]
  constructor
  · rintro ⟨e, he, rfl⟩
    obtain ⟨hedge, rfl⟩ := (mem_filter.1 he).imp id of_decide_eq_true
    exact hedge
  · intro hedge
    exact ⟨(a, b), mem_filter.2 ⟨hedge, decide_eq_true rfl⟩, rfl⟩

omit [DecidableEq α] in
theorem mem_deepen {next : α → List α} :
    (b, n) ∈ deepen next (a, m) ↔ b ∈ next a ∧ n = m + 1 := by
  simp only [deepen, mem_map, Prod.mk.injEq]
  constructor
  · rintro ⟨c, hc, rfl, rfl⟩
    exact ⟨hc, rfl⟩
  · rintro ⟨hb, rfl⟩
    exact ⟨b, hb, rfl, rfl⟩

theorem reached_deepen {row row' : α × Nat} :
    ReflTransGen (fun x y => y ∈ deepen (successors edges) x) row row' ↔
      ∃ n, row'.2 = row.2 + n ∧ WalkIn (Linked edges) n row.1 row'.1 := by
  constructor
  · intro h
    induction h with
    | refl => exact ⟨0, rfl, .nil _⟩
    | tail _ hstep ih =>
      obtain ⟨n, hn, hwalk⟩ := ih
      obtain ⟨hedge, hdepth⟩ := mem_deepen.1 hstep
      exact ⟨n + 1, by omega, hwalk.snoc (mem_successors.1 hedge)⟩
  · rintro ⟨n, hn, hwalk⟩
    obtain ⟨b, m⟩ := row'
    dsimp only at hwalk
    subst hn
    generalize hrow : row.1 = a at hwalk
    induction hwalk with
    | nil =>
      cases hrow
      exact .refl
    | snoc _ hstep ih => exact (ih hrow).tail (mem_deepen.2 ⟨mem_successors.2 hstep, rfl⟩)

variable {rows : List (α × Nat)}

theorem mem_depthQuery
    (h : recursiveQuery (deepen (successors edges)) n [] (start.map (·, 0)) = some rows) :
    (b, m) ∈ rows ↔ ∃ a ∈ start, WalkIn (Linked edges) m a b := by
  rw [mem_recursiveQuery h]
  simp only [mem_map, reached_deepen]
  constructor
  · rintro ⟨_, ⟨a, ha, rfl⟩, n, hn, hwalk⟩
    rw [Nat.zero_add] at hn
    exact ⟨a, ha, hn ▸ hwalk⟩
  · rintro ⟨a, ha, hwalk⟩
    exact ⟨_, ⟨a, ha, rfl⟩, m, (Nat.zero_add m).symm, hwalk⟩

/-- The levels of `byDepth` hold the same rows. -/
theorem mem_levels_iff {depth : Nat} {level : List α} (h : levels edges n depth level = some rows) :
    (b, m) ∈ rows ↔ ∃ a ∈ level, ∃ k, m = depth + k ∧ WalkIn (Linked edges) k a b := by
  induction n generalizing depth level rows with
  | zero =>
    cases level with
    | nil => cases h; simp
    | cons a level => cases h
  | succ n ih =>
    rcases eq_or_ne level [] with rfl | hne
    · cases h
      simp
    obtain ⟨rest, hrest, rfl⟩ := levels_succ hne h
    rw [mem_append, ih hrest]
    constructor
    · rintro (hrow | ⟨c, hc, k, rfl, hwalk⟩)
      · obtain ⟨a, ha, heq⟩ := mem_map.1 hrow
        cases heq
        exact ⟨_, ha, 0, rfl, .nil _⟩
      · obtain ⟨a, ha, hedge⟩ := mem_nexts.1 hc
        exact ⟨a, ha, k + 1, by omega, walkIn_succ.2 ⟨c, hedge, hwalk⟩⟩
    · rintro ⟨a, ha, k, rfl, hwalk⟩
      cases k with
      | zero =>
        cases walkIn_zero hwalk
        exact .inl (mem_map.2 ⟨_, ha, rfl⟩)
      | succ k =>
        obtain ⟨c, hedge, hwalk⟩ := walkIn_succ.1 hwalk
        exact .inr ⟨c, mem_nexts.2 ⟨a, ha, hedge⟩, k, by omega, hwalk⟩

theorem sorted_levels {depth : Nat} {level : List α} (h : levels edges n depth level = some rows) :
    rows.Pairwise (fun r r' => r.2 ≤ r'.2) ∧ ∀ r ∈ rows, depth ≤ r.2 := by
  induction n generalizing depth level rows with
  | zero =>
    cases level with
    | nil => cases h; simp
    | cons a level => cases h
  | succ n ih =>
    rcases eq_or_ne level [] with rfl | hne
    · cases h
      simp
    obtain ⟨rest, hrest, rfl⟩ := levels_succ hne h
    obtain ⟨hsorted, hdeeper⟩ := ih hrest
    have hlevel : ∀ r ∈ level.map fun b => (b, depth), r.2 = depth := by
      intro r hr
      obtain ⟨b, -, rfl⟩ := mem_map.1 hr
      rfl
    constructor
    · refine pairwise_append.2 ⟨?_, hsorted, fun r hr r' hr' => ?_⟩
      · apply pairwise_of_forall_mem_list
        intro r hr r' hr'
        exact Nat.le_of_eq ((hlevel r hr).trans (hlevel r' hr').symm)
      · have hbelow := hdeeper r' hr'
        rw [hlevel r hr]
        omega
    · intro r hr
      rcases mem_append.1 hr with hr | hr
      · exact Nat.le_of_eq (hlevel r hr).symm
      · have hbelow := hdeeper r hr
        omega

omit [DecidableEq α] in
theorem depth_bounded (rows : List (α × Nat)) : ∃ D, ∀ r ∈ rows, r.2 ≤ D := by
  induction rows with
  | nil => exact ⟨0, fun r hr => absurd hr not_mem_nil⟩
  | cons row rows ih =>
    obtain ⟨D, hD⟩ := ih
    refine ⟨max row.2 D, forall_mem_cons.2 ⟨Nat.le_max_left _ _, fun r hr => ?_⟩⟩
    exact Nat.le_trans (hD r hr) (Nat.le_max_right _ _)

theorem depthQuery_ends_iff (hstart : start.Nodup) :
    (∃ n rows, recursiveQuery (deepen (successors edges)) n [] (start.map (·, 0)) = some rows) ↔
      ∀ a ∈ start, ∀ b, ReflTransGen (Linked edges) a b → ¬ TransGen (Linked edges) b b := by
  constructor
  · rintro ⟨n, rows, h⟩ a ha b hpath hcycle
    -- the rows of a node on a cycle have depths above every bound
    obtain ⟨D, hD⟩ := depth_bounded rows
    obtain ⟨k, hk, hwalk⟩ := long_walk hpath hcycle (D + 1)
    have hle := hD (b, k) ((mem_depthQuery h).2 ⟨a, ha, hwalk⟩)
    exact absurd (by omega) (by omega)
  · intro hcycle
    obtain ⟨U, hU⟩ := byDepth_ends_iff.2 hcycle
    have hmem : ∀ b m, (b, m) ∈ U ↔ ∃ a ∈ start, WalkIn (Linked edges) m a b := by
      intro b m
      rw [mem_levels_iff hU]
      simp
    obtain ⟨rows, hrows⟩ := @query_ends _ _ (deepen (successors edges)) [] (start.map (·, 0)) U U.length
      (hstart.map fun a b hab => congrArg Prod.fst hab)
      (fun row hrow => by
        obtain ⟨a, ha, rfl⟩ := mem_map.1 hrow
        exact (hmem a 0).2 ⟨a, ha, .nil a⟩)
      (fun row hrow next hnext => by
        obtain ⟨hedge, hdepth⟩ := mem_deepen.1 hnext
        obtain ⟨a, ha, hwalk⟩ := (hmem row.1 row.2).1 hrow
        have hlonger := hwalk.snoc (mem_successors.1 hedge)
        exact (hmem next.1 next.2).2 ⟨a, ha, hdepth ▸ hlonger⟩)
      (by omega)
    exact ⟨_, rows, hrows⟩

theorem reachQuery_ends (hstart : start.Nodup) :
    ∃ rows, recursiveQuery (successors edges) (start.length + edges.length) [] start = some rows := by
  apply @query_ends _ _ (successors edges) [] start (start ++ edges.map Prod.snd) _ hstart
  · intro a ha
    exact mem_append_left _ ha
  · intro a _ b hb
    apply mem_append_right
    exact mem_map.2 ⟨(a, b), mem_successors.1 hb, rfl⟩
  · rw [length_append, length_map]
    omega

theorem mem_reachQuery {rows : List α} (h : recursiveQuery (successors edges) n [] start = some rows) :
    b ∈ rows ↔ ∃ a ∈ start, ReflTransGen (Linked edges) a b := by
  have hlinked : (fun x y => y ∈ successors edges x) = Linked edges := by
    funext x y
    exact propext mem_successors
  rw [mem_recursiveQuery h, hlinked]

end Depth

end Aeqi.Lib
