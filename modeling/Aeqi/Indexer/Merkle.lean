import Aeqi.Governance.Tally

/-!
# The snapshot tree of the indexer and the verifier on chain

`token_vote_leaf`, `compute_merkle_root` and `merkle_proof` of the indexer's
`snapshot.rs`, and their agreement with the verifier of aeqi_governance. Both
sides are tied to the sorted-pair trees of `Aeqi.Lib.Merkle`: the verifier climbs,
each pass of the loop goes one layer up, and the root is the digest of a tree with
the given leaves in order.
-/

namespace Aeqi.Indexer

open Aeqi.Lib Aeqi.Lib.Merkle Aeqi.Solana List
open Aeqi.Governance (Sha256 VoteLeaf verifyMerkleProof)

section Source

variable {D : Type} [LinearOrder D] (sha256 : Sha256 D)

def tokenVoteLeaf (voter : Pubkey) (balance : Nat) : D := sha256 (.leaf (voter, balance))

def sha256Concat (a b : D) : D := sha256 (.node a b)

/-- `for chunk in layer.chunks(2)`: the next layer, a last odd element promoted. -/
def nextLayer : List D → List D
  | a :: b :: rest =>
    (if a ≤ b then sha256Concat sha256 a b else sha256Concat sha256 b a) :: nextLayer rest
  | [a] => [a]
  | [] => []

theorem nextLayer_eq_up (layer : List D) : nextLayer sha256 layer = up sha256 layer := by
  fun_induction nextLayer sha256 layer with
  | case1 a b rest ih =>
    rw [ih]
    rfl
  | case2 | case3 => rfl

theorem length_nextLayer (layer : List D) :
    (nextLayer sha256 layer).length = (layer.length + 1) / 2 := by
  rw [nextLayer_eq_up, length_up]

/-- `while layer.len() > 1`. -/
def rootLoop [Zero D] (layer : List D) : D :=
  if 1 < layer.length then rootLoop (nextLayer sha256 layer) else layer.headD 0
termination_by layer.length
decreasing_by
  rw [length_nextLayer]
  omega

def computeMerkleRoot [Zero D] (leaves : List D) : D :=
  match leaves with
  | [] => 0
  | [leaf] => leaf
  | _ => rootLoop sha256 leaves

/-- `while layers.last().len() > 1`: the layers from the leaves to the root. -/
def layersFrom (layer : List D) : List (List D) :=
  if 1 < layer.length then layer :: layersFrom (nextLayer sha256 layer) else [layer]
termination_by layer.length
decreasing_by
  rw [length_nextLayer]
  omega

/-- The loop that collects the siblings of `idx` on the way up. -/
def proofLoop : List (List D) → Nat → List D
  | [], _ => []
  | layer :: rest, idx =>
    let sibling := idx ^^^ 1
    match layer[sibling]? with
    | some s => s :: proofLoop rest (idx / 2)
    | none => proofLoop rest (idx / 2)

/-- `none` where the assertion on the index fails. -/
def merkleProof (leaves : List D) (targetLeafIndex : Nat) : Option (List D) :=
  if targetLeafIndex < leaves.length then
    if leaves.length = 1 then
      some []
    else
      some (proofLoop (layersFrom sha256 leaves).dropLast targetLeafIndex)
  else
    none

end Source

/-! ## Both sides climb -/

section Climb

variable {D : Type} [LinearOrder D] (sha256 : Sha256 D)

theorem foldProof_eq_climb (proof : List D) (current : D) :
    Governance.foldProof sha256 current proof = climb sha256 current proof := by
  induction proof generalizing current with
  | nil => rfl
  | cons sibling rest ih =>
    rw [Governance.foldProof, ih]
    rfl

theorem verifyMerkleProof_iff {leaf root : D} {proof : List D} :
    verifyMerkleProof sha256 leaf proof root = true ↔ climb sha256 leaf proof = root := by
  rw [verifyMerkleProof, foldProof_eq_climb, beq_iff_eq]

theorem layersFrom_ne_nil (layer : List D) : layersFrom sha256 layer ≠ [] := by
  rw [layersFrom]
  split <;> simp

variable [Zero D]

theorem computeMerkleRoot_eq_rootLoop (leaves : List D) :
    computeMerkleRoot sha256 leaves = rootLoop sha256 leaves := by
  match leaves with
  | [] | [leaf] =>
    rw [rootLoop]
    rfl
  | a :: b :: rest => rfl

/-- **Completeness of the loop.** The siblings collected from a position climb to
the root. -/
theorem climb_proofLoop (layer : List D) {i : Nat} {x : D} (hx : layer[i]? = some x) :
    climb sha256 x (proofLoop (layersFrom sha256 layer).dropLast i) = rootLoop sha256 layer := by
  induction hn : layer.length using Nat.strong_induction_on generalizing layer i x with
  | _ n ih =>
    subst hn
    have hi : i < layer.length := (List.getElem?_eq_some_iff.1 hx).1
    rw [rootLoop, layersFrom]
    split
    · next hlen =>
      have hshort : (nextLayer sha256 layer).length < layer.length := by
        rw [length_nextLayer]
        omega
      have hup : (nextLayer sha256 layer)[i / 2]? =
          some (climb sha256 x (layer[i ^^^ 1]?).toList) := by
        rw [nextLayer_eq_up]
        exact up_getElem? sha256 layer i x hx
      have hrest := ih _ hshort _ hup rfl
      rw [dropLast_cons_of_ne_nil (layersFrom_ne_nil sha256 _), ← hrest]
      cases hs : layer[i ^^^ 1]? with
      | none | some s => simp [proofLoop, hs]
    · next hlen =>
      -- one element is left, and it is the root
      have hzero : i = 0 := by omega
      subst hzero
      cases layer with
      | nil => simp at hx
      | cons a rest =>
        simp only [getElem?_cons_zero, Option.some.injEq] at hx
        subst hx
        rfl

theorem exists_tree (ts : List (Merkle.Tree VoteLeaf)) (hne : ts ≠ []) :
    ∃ t : Merkle.Tree VoteLeaf, t.leaves = ts.flatMap Merkle.Tree.leaves ∧
      rootLoop sha256 (ts.map (Merkle.Tree.digest sha256)) = t.digest sha256 := by
  induction hn : ts.length using Nat.strong_induction_on generalizing ts with
  | _ n ih =>
    rw [rootLoop]
    split
    · next hlen =>
      rw [length_map] at hlen
      have hmap : nextLayer sha256 (ts.map (Merkle.Tree.digest sha256)) =
          (join ts).map (Merkle.Tree.digest sha256) := by
        rw [nextLayer_eq_up, map_digest_join]
      have hlen' : (join ts).length = (ts.length + 1) / 2 := by
        have h := congrArg List.length hmap
        rw [length_nextLayer, length_map, length_map] at h
        exact h.symm
      have hne' : join ts ≠ [] := by
        intro he
        rw [he, length_nil] at hlen'
        omega
      obtain ⟨t, ht, hroot⟩ := ih (join ts).length (by omega) (join ts) hne' rfl
      exact ⟨t, ht.trans (flatMap_leaves_join ts), by rw [hmap, hroot]⟩
    · next hlen =>
      cases ts with
      | nil => exact absurd rfl hne
      | cons t rest =>
        have hrest : rest = [] := by
          rw [length_map, length_cons] at hlen
          exact length_eq_zero_iff.1 (by omega)
        subst hrest
        exact ⟨t, by simp, by simp⟩

end Climb

/-! ## Agreement -/

section Agreement

variable {D : Type} [LinearOrder D] [Zero D] {sha256 : Sha256 D}

/-- The digests of a snapshot's leaves, as `snapshot_proposal` hashes them. -/
def leafDigests {D : Type} (sha256 : Sha256 D) (leaves : List VoteLeaf) : List D :=
  leaves.map fun l => tokenVoteLeaf sha256 l.1 l.2

theorem proof_verifies (leaves : List VoteLeaf) {i : Nat} {l : VoteLeaf}
    (hl : leaves[i]? = some l) : ∃ proof, merkleProof sha256 (leafDigests sha256 leaves) i =
        some proof ∧
      verifyMerkleProof sha256 (Governance.tokenVoteLeaf sha256 l.1 l.2) proof
        (computeMerkleRoot sha256 (leafDigests sha256 leaves)) = true := by
  have hx : (leafDigests sha256 leaves)[i]? = some (tokenVoteLeaf sha256 l.1 l.2) := by
    rw [leafDigests, getElem?_map, hl, Option.map_some]
  have hi : i < (leafDigests sha256 leaves).length := (List.getElem?_eq_some_iff.1 hx).1
  have hclimb := climb_proofLoop sha256 _ hx
  simp only [verifyMerkleProof_iff, computeMerkleRoot_eq_rootLoop, merkleProof, if_pos hi]
  split
  · next hone =>
    refine ⟨[], rfl, ?_⟩
    rw [layersFrom, if_neg (by omega)] at hclimb
    exact hclimb
  · exact ⟨_, rfl, hclimb⟩

theorem mem_or_collision {leaves : List VoteLeaf} (hne : leaves ≠ []) {voter : Pubkey}
    {balance : Nat} {proof : List D}
    (h : verifyMerkleProof sha256 (Governance.tokenVoteLeaf sha256 voter balance) proof
      (computeMerkleRoot sha256 (leafDigests sha256 leaves)) = true) :
    (voter, balance) ∈ leaves ∨ Collision sha256 := by
  have hdigests : leafDigests sha256 leaves =
      (leaves.map Merkle.Tree.leaf).map (Merkle.Tree.digest sha256) := by
    rw [List.map_map]
    rfl
  obtain ⟨t, ht, hroot⟩ := exists_tree sha256 (leaves.map Merkle.Tree.leaf) (by simpa using hne)
  have hleaves : t.leaves = leaves := by
    rw [ht, flatMap_map]
    exact flatMap_singleton' leaves
  rw [verifyMerkleProof_iff, computeMerkleRoot_eq_rootLoop, hdigests, hroot] at h
  rw [← hleaves]
  exact Merkle.Tree.mem_leaves_or_collision h

/-- **The two programs agree**: every leaf of a snapshot has a proof that the chain accepts, and no
other voter or balance has one. -/
theorem snapshot_tree_agrees {leaves : List VoteLeaf} (hne : leaves ≠ []) :
    (∀ i l, leaves[i]? = some l → ∃ proof,
      merkleProof sha256 (leafDigests sha256 leaves) i = some proof ∧
      verifyMerkleProof sha256 (Governance.tokenVoteLeaf sha256 l.1 l.2) proof
        (computeMerkleRoot sha256 (leafDigests sha256 leaves)) = true) ∧
    (Function.Injective sha256 → ∀ voter balance proof,
      verifyMerkleProof sha256 (Governance.tokenVoteLeaf sha256 voter balance) proof
        (computeMerkleRoot sha256 (leafDigests sha256 leaves)) = true →
      (voter, balance) ∈ leaves) := by
  refine ⟨fun i l hl => proof_verifies leaves hl, ?_⟩
  intro hinj voter balance proof h
  rcases mem_or_collision hne h with hmem | hcol
  · exact hmem
  · exact absurd hcol (not_collision hinj)

def threeHolders : List VoteLeaf := [(1, 100), (2, 200), (3, 300)]

theorem threeHolders_agree :
    (∃ proof, merkleProof Governance.natHash (leafDigests Governance.natHash threeHolders) 2 =
        some proof ∧
      verifyMerkleProof Governance.natHash (Governance.tokenVoteLeaf Governance.natHash 3 300) proof
        (computeMerkleRoot Governance.natHash (leafDigests Governance.natHash threeHolders)) =
          true) ∧
    ∀ proof, verifyMerkleProof Governance.natHash
      (Governance.tokenVoteLeaf Governance.natHash 3 301) proof
      (computeMerkleRoot Governance.natHash (leafDigests Governance.natHash threeHolders)) ≠ true := by
  have hne : threeHolders ≠ [] := by decide
  obtain ⟨hproofs, hsound⟩ := @snapshot_tree_agrees Nat _ _ Governance.natHash threeHolders hne
  refine ⟨hproofs 2 (3, 300) rfl, fun proof h => ?_⟩
  have hmem := hsound Governance.natHash_injective 3 301 proof h
  exact nomatch hmem

end Agreement

end Aeqi.Indexer
