import Mathlib.Order.Lattice
import Mathlib.Data.List.Basic
import Mathlib.Data.Nat.Bitwise

/-!
# Sorted-pair Merkle trees

Leaves carry data of any type, digests are any linearly ordered type, and the
hash is any function on the two kinds of preimages. Two digests are hashed in
increasing order, so a proof is a bare list of siblings and the verifier folds it
from the leaf up (`climb`).

`up` builds one layer from the layer below and promotes a last unpaired digest.
Completeness is the step `up_getElem?`: one layer up, a position holds what its
old digest and its sibling climb to. Soundness is stated against trees: a proof
that climbs from a leaf to the digest of a tree starts from one of its leaves, or
exhibits a collision of the hash (`Tree.mem_leaves_or_collision`). It needs
nothing about the length of the proof or the origin of the siblings.
-/

namespace Aeqi.Lib.Merkle

open List

universe u v

/-- What is hashed: the data of a leaf, or the digests of two children. -/
inductive Preimage (L : Type u) (D : Type v)
  | leaf (l : L)
  | node (a b : D)
  deriving DecidableEq

inductive Tree (L : Type u)
  | leaf (l : L)
  | node (left right : Tree L)

variable {L : Type u} {D : Type v}

/-- Two different preimages with one digest. -/
def Collision (hash : Preimage L D → D) : Prop := ∃ p q, p ≠ q ∧ hash p = hash q

theorem not_collision {hash : Preimage L D → D} (hinj : Function.Injective hash) :
    ¬ Collision hash := by
  rintro ⟨p, q, hne, heq⟩
  exact hne (hinj heq)

variable [LinearOrder D] (hash : Preimage L D → D)

def pair (a b : D) : D := if a ≤ b then hash (.node a b) else hash (.node b a)

/-- The digest that a list of siblings leads to from `x`. -/
def climb (x : D) (siblings : List D) : D := siblings.foldl (pair hash) x

section Pair

variable (a b : D)

theorem pair_comm : pair hash a b = pair hash b a := by
  unfold pair
  rcases lt_trichotomy a b with hlt | heq | hlt
  · rw [if_pos (le_of_lt hlt), if_neg (not_le_of_gt hlt)]
  · rw [heq]
  · rw [if_neg (not_le_of_gt hlt), if_pos (le_of_lt hlt)]

theorem pair_eq_hash : pair hash a b = hash (.node a b) ∨ pair hash a b = hash (.node b a) := by
  unfold pair
  split
  · exact .inl rfl
  · exact .inr rfl

end Pair

variable {hash} {a b c d x : D}

theorem collision_of_leaf_node {l : L} (h : hash (.leaf l) = pair hash a b) : Collision hash := by
  rcases pair_eq_hash hash a b with hp | hp
  · exact ⟨.leaf l, .node a b, by simp, h.trans hp⟩
  · exact ⟨.leaf l, .node b a, by simp, h.trans hp⟩

theorem hash_node_inj (h : hash (.node a b) = hash (.node c d)) :
    (a = c ∧ b = d) ∨ Collision hash := by
  by_cases heq : a = c ∧ b = d
  · exact .inl heq
  · refine .inr ⟨_, _, fun hne => heq ?_, h⟩
    simpa using hne

theorem pair_inj (h : pair hash a b = pair hash c d) :
    (a = c ∧ b = d) ∨ (a = d ∧ b = c) ∨ Collision hash := by
  rcases pair_eq_hash hash a b with hab | hab <;>
    rcases pair_eq_hash hash c d with hcd | hcd <;>
    rw [hab, hcd] at h <;> rcases hash_node_inj h with ⟨rfl, rfl⟩ | hcol <;> simp_all

@[simp] theorem climb_nil : climb hash x [] = x := rfl

@[simp] theorem climb_cons {s : D} {ss : List D} :
    climb hash x (s :: ss) = climb hash (pair hash x s) ss := rfl

theorem climb_append {ss ts : List D} :
    climb hash x (ss ++ ts) = climb hash (climb hash x ss) ts := foldl_append

/-! ## Soundness -/

namespace Tree

def leaves : Tree L → List L
  | leaf l => [l]
  | node left right => left.leaves ++ right.leaves

variable (hash) in
def digest : Tree L → D
  | leaf l => hash (.leaf l)
  | node left right => pair hash left.digest right.digest

/-- **Soundness.** Whatever siblings lead from the digest of a leaf to the digest
of a tree, the leaf is one of the tree, or the hash collides. -/
theorem mem_leaves_or_collision {l : L} {t : Tree L} {siblings : List D}
    (h : climb hash (hash (.leaf l)) siblings = t.digest hash) :
    l ∈ t.leaves ∨ Collision hash := by
  -- the last sibling is the other child of the root: peel it and go down
  induction t generalizing siblings with
  | leaf l' =>
    rcases siblings.eq_nil_or_concat with rfl | ⟨ss, s, rfl⟩
    · by_cases heq : l = l'
      · exact .inl (by simp [leaves, heq])
      · exact .inr ⟨.leaf l, .leaf l', by simpa using heq, h⟩
    · rw [concat_eq_append, climb_append] at h
      exact .inr (collision_of_leaf_node h.symm)
  | node left right ihl ihr =>
    rcases siblings.eq_nil_or_concat with rfl | ⟨ss, s, rfl⟩
    · exact .inr (collision_of_leaf_node h)
    · rw [concat_eq_append, climb_append] at h
      rcases pair_inj h with ⟨hleft, -⟩ | ⟨hright, -⟩ | hcol
      · exact (ihl hleft).imp_left fun hm => mem_append_left _ hm
      · exact (ihr hright).imp_left fun hm => mem_append_right _ hm
      · exact .inr hcol

end Tree

/-! ## Layers -/

variable (hash) in
/-- The next layer: neighbours are paired, a last one left over is promoted. -/
def up : List D → List D
  | a :: b :: rest => pair hash a b :: up rest
  | [a] => [a]
  | [] => []

/-- `up` on trees. -/
def join : List (Tree L) → List (Tree L)
  | a :: b :: rest => .node a b :: join rest
  | [a] => [a]
  | [] => []

variable (hash) in
theorem length_up (l : List D) : (up hash l).length = (l.length + 1) / 2 := by
  fun_induction up hash l with
  | case1 a b rest ih =>
    simp only [length_cons, ih]
    omega
  | case2 | case3 => simp

variable (hash) in
theorem map_digest_join (ts : List (Tree L)) :
    (join ts).map (Tree.digest hash) = up hash (ts.map (Tree.digest hash)) := by
  fun_induction join ts with
  | case1 a b rest ih =>
    simp only [map_cons, up, ih]
    rfl
  | case2 | case3 => rfl

theorem flatMap_leaves_join (ts : List (Tree L)) :
    (join ts).flatMap Tree.leaves = ts.flatMap Tree.leaves := by
  fun_induction join ts with
  | case1 a b rest ih => simp [ih, Tree.leaves]
  | case2 | case3 => rfl

theorem xor_one_add_two (i : Nat) : (i + 2) ^^^ 1 = (i ^^^ 1) + 2 := by
  rcases i.even_or_odd with h | h
  · have h' : Even (i + 2) := h.add even_two
    rw [Nat.xor_one_of_even h, Nat.xor_one_of_even h']
  · have h' : Odd (i + 2) := h.add_even even_two
    rw [Nat.xor_one_of_odd h, Nat.xor_one_of_odd h']
    obtain ⟨k, rfl⟩ := h
    omega

variable (hash) in
/-- **Completeness, one layer.** -/
theorem up_getElem? : ∀ (l : List D) (i : Nat) (x : D), l[i]? = some x →
    (up hash l)[i / 2]? = some (climb hash x (l[i ^^^ 1]?).toList)
  | [], i, x, h => by simp at h
  | [a], 0, x, h => by
    simp only [getElem?_cons_zero, Option.some.injEq] at h
    subst h
    rfl
  | [a], i + 1, x, h => by simp at h
  | a :: b :: rest, 0, x, h => by
    simp only [getElem?_cons_zero, Option.some.injEq] at h
    subst h
    rfl
  | a :: b :: rest, 1, x, h => by
    simp only [getElem?_cons_succ, getElem?_cons_zero, Option.some.injEq] at h
    subst h
    change some (pair hash a b) = some (pair hash b a)
    rw [pair_comm]
  | a :: b :: rest, i + 2, x, h => by
    have ih := up_getElem? rest i x (by simpa using h)
    rw [xor_one_add_two, Nat.add_div_right i (by decide)]
    simpa [up] using ih

end Aeqi.Lib.Merkle
