import Aeqi.Lib.Maxima
import Mathlib.Algebra.Order.Ring.Rat
import Mathlib.Data.List.Dedup
import Mathlib.Tactic.Ring

/-!
# Label propagation (`analysis/community.rs`)

Sweep after sweep, each node takes the label with the greatest weight among its neighbors, until a
sweep changes nothing. The votes of a node are in a hash map, so a tie goes to the label that the
map happens to hold last.

A run under other names of the labels is the run under these, with each label renamed
(`propagate_map`); where no vote is tied, no order matters (`propagate_eq_of_untied`).
-/

namespace Aeqi.Graph

open Aeqi.Lib List

variable {κ κ' : Type} [DecidableEq κ] [DecidableEq κ']

/-! ## The sweeps -/

def countVotes (labels : String → κ) (neighbors : List (String × Rat)) : List (κ × Rat) :=
  ((neighbors.map fun n => labels n.1).dedup).map fun label =>
    (label, ((neighbors.filter fun n => labels n.1 = label).map (·.2)).sum)

/-- The orders in which the votes are gone through, for each sweep and node. -/
structure VoteOrders (κ : Type) where
  order : Nat → String → List (κ × Rat) → List (κ × Rat)
  perm : ∀ iteration node votes, (order iteration node votes).Perm votes

structure Sweep (κ : Type) where
  labels : String → κ
  changed : Nat

section Run

variable (adjacency : String → List (String × Rat))

/-- `max_by` keeps the last of the greatest votes. -/
def relabel (order : String → List (κ × Rat) → List (κ × Rat)) (s : Sweep κ) (node : String) :
    Sweep κ :=
  match lastMax (·.2) (order node (countVotes s.labels (adjacency node))) with
  | none => s
  | some best =>
    if s.labels node = best.1 then s
    else ⟨Function.update s.labels node best.1, s.changed + 1⟩

def sweep (order : String → List (κ × Rat) → List (κ × Rat)) (nodeList : List String)
    (labels : String → κ) : Sweep κ :=
  nodeList.foldl (relabel adjacency order) ⟨labels, 0⟩

/-- The labels after at most `left` more sweeps. -/
def propagate (orders : VoteOrders κ) (nodeList : List String) :
    Nat → Nat → (String → κ) → String → κ
  | _, 0, labels => labels
  | iteration, left + 1, labels =>
    let swept := sweep adjacency (orders.order iteration) nodeList labels
    if swept.changed = 0 then swept.labels
    else propagate orders nodeList (iteration + 1) left swept.labels

end Run

/-! ## Votes -/

theorem mem_of_mem_countVotes {labels : String → κ} {neighbors : List (String × Rat)}
    {vote : κ × Rat} (h : vote ∈ countVotes labels neighbors) :
    ∃ n ∈ neighbors, labels n.1 = vote.1 := by
  simp only [countVotes, List.mem_map, mem_dedup] at h
  obtain ⟨_, ⟨n, hn, rfl⟩, rfl⟩ := h
  exact ⟨n, hn, rfl⟩

theorem dedup_map_of_injOn {f : κ → κ'} {l : List κ} (hf : Set.InjOn f {a | a ∈ l}) :
    (l.map f).dedup = l.dedup.map f := by
  induction l with
  | nil => rfl
  | cons a l ih =>
    have hrest : (l.map f).dedup = l.dedup.map f :=
      ih (hf.mono fun b hb => mem_cons_of_mem a hb)
    have hmem : f a ∈ l.map f ↔ a ∈ l := by
      constructor
      · intro h
        obtain ⟨b, hb, heq⟩ := List.mem_map.1 h
        exact hf (mem_cons_of_mem a hb) mem_cons_self heq ▸ hb
      · exact List.mem_map_of_mem
    by_cases ha : a ∈ l
    · rw [map_cons, dedup_cons_of_mem (hmem.2 ha), dedup_cons_of_mem ha, hrest]
    · rw [map_cons, dedup_cons_of_notMem (mt hmem.1 ha), dedup_cons_of_notMem ha, map_cons, hrest]

/-! ## Other names of the labels -/

section Rename

variable {f : κ → κ'} {names : Set κ}

theorem countVotes_map {labels : String → κ} {neighbors : List (String × Rat)}
    (hf : Set.InjOn f names) (hlabels : ∀ n ∈ neighbors, labels n.1 ∈ names) :
    countVotes (f ∘ labels) neighbors = (countVotes labels neighbors).map (Prod.map f id) := by
  have hnames : ∀ label ∈ neighbors.map fun n => labels n.1, label ∈ names := by
    intro label hlabel
    obtain ⟨n, hn, rfl⟩ := List.mem_map.1 hlabel
    exact hlabels n hn
  have hdedup : (neighbors.map fun n => (f ∘ labels) n.1).dedup =
      (neighbors.map fun n => labels n.1).dedup.map f := by
    rw [← dedup_map_of_injOn (hf.mono hnames), List.map_map]
    rfl
  rw [countVotes, hdedup, countVotes, List.map_map, List.map_map]
  refine map_congr_left fun label hlabel => ?_
  have hfilter : (neighbors.filter fun n => (f ∘ labels) n.1 = f label) =
      neighbors.filter fun n => labels n.1 = label := by
    refine filter_congr fun n hn => ?_
    have hiff := hf.eq_iff (hlabels n hn) (hnames label (mem_dedup.1 hlabel))
    exact decide_eq_decide.2 hiff
  simp only [Function.comp_apply, Prod.map_apply, id_eq] at hfilter ⊢
  rw [hfilter]

def VoteOrders.Renames (f : κ → κ') (names : Set κ) (orders : VoteOrders κ)
    (orders' : VoteOrders κ') : Prop :=
  ∀ iteration node votes, (∀ vote ∈ votes, vote.1 ∈ names) →
    orders'.order iteration node (votes.map (Prod.map f id)) =
      (orders.order iteration node votes).map (Prod.map f id)

def Sweep.map (f : κ → κ') (s : Sweep κ) : Sweep κ' := ⟨f ∘ s.labels, s.changed⟩

variable {adjacency : String → List (String × Rat)} {ids : List String}
  {orders : VoteOrders κ} {orders' : VoteOrders κ'} {iteration : Nat}

section Named

variable (hids : ∀ node, ∀ n ∈ adjacency node, n.1 ∈ ids)
include hids

variable {node : String} {s : Sweep κ}

theorem best_named {best : κ × Rat} (hs : ∀ id ∈ ids, s.labels id ∈ names) (hbest : lastMax (·.2)
      (orders.order iteration node (countVotes s.labels (adjacency node))) = some best) :
    best.1 ∈ names := by
  have hmem := (orders.perm _ _ _).mem_iff.1 (greatest_of_lastMax hbest).1
  obtain ⟨n, hn, heq⟩ := mem_of_mem_countVotes hmem
  exact heq ▸ hs n.1 (hids node n hn)

theorem relabel_named (hs : ∀ id ∈ ids, s.labels id ∈ names) :
    ∀ id ∈ ids, (relabel adjacency (orders.order iteration) s node).labels id ∈ names := by
  intro id hid
  rw [relabel]
  split
  · exact hs id hid
  · next best hbest =>
    split
    · exact hs id hid
    · change Function.update s.labels node best.1 id ∈ names
      rw [Function.update_apply]
      split
      · exact best_named hids hs hbest
      · exact hs id hid

variable {nodeList : List String} {labels : String → κ}

theorem sweep_named (hlabels : ∀ id ∈ ids, labels id ∈ names) :
    ∀ id ∈ ids, (sweep adjacency (orders.order iteration) nodeList labels).labels id ∈ names := by
  refine List.foldlRecOn (motive := fun s : Sweep κ => ∀ id ∈ ids, s.labels id ∈ names) nodeList
    (relabel adjacency (orders.order iteration)) hlabels ?_
  intro s hs node _
  exact relabel_named hids hs

theorem propagate_named (left : Nat) (hlabels : ∀ id ∈ ids, labels id ∈ names) :
    ∀ id ∈ ids, propagate adjacency orders nodeList iteration left labels id ∈ names := by
  induction left generalizing iteration labels with
  | zero => exact hlabels
  | succ left ih =>
    rw [propagate]
    split
    · exact sweep_named hids hlabels
    · exact ih (sweep_named hids hlabels)

variable (hf : Set.InjOn f names) (horders : orders.Renames f names orders')
include hf horders

theorem lastMax_renamed (hs : ∀ id ∈ ids, s.labels id ∈ names) :
    lastMax (·.2)
        (orders'.order iteration node (countVotes (s.map f).labels (adjacency node))) =
      (lastMax (·.2)
        (orders.order iteration node (countVotes s.labels (adjacency node)))).map
          (Prod.map f id) := by
  have hvotes := countVotes_map hf fun n hn => hs n.1 (hids node n hn)
  have hnamed : ∀ vote ∈ countVotes s.labels (adjacency node), vote.1 ∈ names := by
    intro vote hvote
    obtain ⟨n, hn, heq⟩ := mem_of_mem_countVotes hvote
    exact heq ▸ hs n.1 (hids node n hn)
  rw [Sweep.map, hvotes, horders iteration node _ hnamed, lastMax_map]
  rfl

theorem relabel_map (hnode : node ∈ ids) (hs : ∀ id ∈ ids, s.labels id ∈ names) :
    relabel adjacency (orders'.order iteration) (s.map f) node =
      (relabel adjacency (orders.order iteration) s node).map f := by
  rw [relabel, lastMax_renamed hids hf horders hs, relabel]
  cases hbest : lastMax (·.2)
      (orders.order iteration node (countVotes s.labels (adjacency node))) with
  | none => rfl
  | some best =>
    have hiff := hf.eq_iff (hs node hnode) (best_named hids hs hbest)
    simp only [Option.map_some, Sweep.map, Function.comp_apply, Prod.map_fst, hiff]
    split
    · rfl
    · rw [Function.comp_update]

theorem sweep_map (hnodes : ∀ node ∈ nodeList, node ∈ ids) (hlabels : ∀ id ∈ ids, labels id ∈ names) :
    
    sweep adjacency (orders'.order iteration) nodeList (f ∘ labels) =
      (sweep adjacency (orders.order iteration) nodeList labels).map f := by
  have hfold : ∀ s : Sweep κ, (∀ id ∈ ids, s.labels id ∈ names) →
      nodeList.foldl (relabel adjacency (orders'.order iteration)) (s.map f) =
        (nodeList.foldl (relabel adjacency (orders.order iteration)) s).map f := by
    induction nodeList with
    | nil => exact fun _ _ => rfl
    | cons node rest ih =>
      intro s hs
      rw [foldl_cons, relabel_map hids hf horders (hnodes node mem_cons_self) hs]
      exact ih (fun other hother => hnodes other (mem_cons_of_mem node hother)) _
        (relabel_named hids hs)
  exact hfold ⟨labels, 0⟩ hlabels

theorem propagate_map (hnodes : ∀ node ∈ nodeList, node ∈ ids) (left : Nat)
    (hlabels : ∀ id ∈ ids, labels id ∈ names) :
    propagate adjacency orders' nodeList iteration left (f ∘ labels) =
      f ∘ propagate adjacency orders nodeList iteration left labels := by
  induction left generalizing iteration labels with
  | zero => rfl
  | succ left ih =>
    rw [propagate, sweep_map hids hf horders hnodes hlabels, propagate]
    by_cases hchanged : (sweep adjacency (orders.order iteration) nodeList labels).changed = 0
    · simp [Sweep.map, hchanged]
    · simp only [Sweep.map, hchanged]
      exact ih (sweep_named hids hlabels)

end Named

/-! ## Orders under other names -/

omit [DecidableEq κ] [DecidableEq κ'] in
theorem map_there_back {there : κ → κ'} {back : κ' → κ} {votes : List (κ × Rat)}
    (h : ∀ vote ∈ votes, back (there vote.1) = vote.1) :
    (votes.map (Prod.map there id)).map (Prod.map back id) = votes := by
  rw [List.map_map]
  conv_rhs => rw [← List.map_id votes]
  refine map_congr_left fun vote hvote => ?_
  exact Prod.ext (h vote hvote) rfl

def VoteOrders.conj (orders : VoteOrders κ) (there : κ' → κ) (back : κ → κ') : VoteOrders κ' where
  order iteration node votes :=
    if ∀ vote ∈ votes, back (there vote.1) = vote.1 then
      (orders.order iteration node (votes.map (Prod.map there id))).map (Prod.map back id)
    else votes
  perm iteration node votes := by
    split
    · next hvotes =>
      have hperm := (orders.perm iteration node (votes.map (Prod.map there id))).map
        (Prod.map back id)
      rwa [map_there_back hvotes] at hperm
    · exact List.Perm.refl votes

omit [DecidableEq κ] in
theorem conj_order (orders : VoteOrders κ) {there : κ' → κ} {back : κ → κ'}
    {votes : List (κ' × Rat)} (h : ∀ vote ∈ votes, back (there vote.1) = vote.1) (node : String) :
    (orders.conj there back).order iteration node votes =
      (orders.order iteration node (votes.map (Prod.map there id))).map (Prod.map back id) :=
  if_pos h

omit [DecidableEq κ'] in
theorem conj_renames {back : κ' → κ} (hback : ∀ name ∈ names, back (f name) = name)
    (orders : VoteOrders κ') : (orders.conj f back).Renames f names orders := by
  intro iteration node votes hvotes
  rw [conj_order orders fun vote hvote => hback vote.1 (hvotes vote hvote)]
  refine (map_there_back fun vote hvote => ?_).symm
  have hmem := (orders.perm iteration node _).mem_iff.1 hvote
  obtain ⟨source, hsource, rfl⟩ := List.mem_map.1 hmem
  exact congrArg f (hback source.1 (hvotes source hsource))

omit [DecidableEq κ] in
theorem renames_conj {back : κ' → κ} (hback : ∀ name ∈ names, back (f name) = name)
    (orders : VoteOrders κ) : orders.Renames f names (orders.conj back f) := by
  intro iteration node votes hvotes
  have hnames : ∀ vote ∈ votes.map (Prod.map f id), f (back vote.1) = vote.1 := by
    intro vote hvote
    obtain ⟨source, hsource, rfl⟩ := List.mem_map.1 hvote
    exact congrArg f (hback source.1 (hvotes source hsource))
  rw [conj_order orders hnames, map_there_back fun vote hvote => hback vote.1 (hvotes vote hvote)]

end Rename

/-! ## Runs without a tie -/

section Untied

variable (adjacency : String → List (String × Rat)) (orders : VoteOrders κ)
  (nodeList : List String)

/-- No vote of the nodes that are left is tied. -/
def UntiedSweep (order : String → List (κ × Rat) → List (κ × Rat)) : Sweep κ → List String → Prop
  | _, [] => True
  | s, node :: rest =>
    Untied (·.2) (countVotes s.labels (adjacency node)) ∧
      UntiedSweep order (relabel adjacency order s node) rest

instance untiedSweepDecidable (order : String → List (κ × Rat) → List (κ × Rat)) :
    ∀ (s : Sweep κ) (nodes : List String), Decidable (UntiedSweep adjacency order s nodes)
  | _, [] => .isTrue trivial
  | s, node :: rest =>
    have := untiedSweepDecidable order (relabel adjacency order s node) rest
    inferInstanceAs (Decidable (_ ∧ _))

def UntiedRun : Nat → Nat → (String → κ) → Prop
  | _, 0, _ => True
  | iteration, left + 1, labels =>
    UntiedSweep adjacency (orders.order iteration) ⟨labels, 0⟩ nodeList ∧
      ((sweep adjacency (orders.order iteration) nodeList labels).changed ≠ 0 →
        UntiedRun (iteration + 1) left
          (sweep adjacency (orders.order iteration) nodeList labels).labels)

instance untiedRunDecidable :
    ∀ (iteration left : Nat) (labels : String → κ),
      Decidable (UntiedRun adjacency orders nodeList iteration left labels)
  | _, 0, _ => .isTrue trivial
  | iteration, left + 1, labels =>
    have := untiedRunDecidable (iteration + 1) left
      (sweep adjacency (orders.order iteration) nodeList labels).labels
    inferInstanceAs (Decidable (_ ∧ (_ → _)))

variable {adjacency orders nodeList} {iteration : Nat}

theorem relabel_eq_of_untied {s : Sweep κ} {node : String}
    (h : Untied (·.2) (countVotes s.labels (adjacency node))) (orders orders' : VoteOrders κ) :
    relabel adjacency (orders'.order iteration) s node =
      relabel adjacency (orders.order iteration) s node := by
  rw [relabel, h.lastMax_perm (orders'.perm iteration node _), relabel,
    h.lastMax_perm (orders.perm iteration node _)]

theorem foldl_relabel_eq_of_untied {s : Sweep κ}
    (h : UntiedSweep adjacency (orders.order iteration) s nodeList) (orders' : VoteOrders κ) :
    nodeList.foldl (relabel adjacency (orders'.order iteration)) s =
      nodeList.foldl (relabel adjacency (orders.order iteration)) s := by
  induction nodeList generalizing s with
  | nil => rfl
  | cons node rest ih =>
    obtain ⟨hnode, hrest⟩ := h
    rw [foldl_cons, relabel_eq_of_untied hnode orders]
    exact ih hrest

theorem propagate_eq_of_untied {left : Nat} {labels : String → κ}
    (h : UntiedRun adjacency orders nodeList iteration left labels) (orders' : VoteOrders κ) :
    propagate adjacency orders' nodeList iteration left labels =
      propagate adjacency orders nodeList iteration left labels := by
  induction left generalizing iteration labels with
  | zero => rfl
  | succ left ih =>
    obtain ⟨huntied, hrest⟩ := h
    have hsweep : sweep adjacency (orders'.order iteration) nodeList labels =
        sweep adjacency (orders.order iteration) nodeList labels :=
      foldl_relabel_eq_of_untied huntied orders'
    rw [propagate, hsweep, propagate]
    by_cases hchanged : (sweep adjacency (orders.order iteration) nodeList labels).changed = 0
    · simp [hchanged]
    · simp only [hchanged]
      exact ih (hrest hchanged)

end Untied

end Aeqi.Graph
