import Aeqi.Governance.Modes
import Aeqi.Indexer.Merkle

/-!
# aeqi_governance: token votes and the cap table

A token vote is proved against the root committed for its proposal, so the votes
are bounded by what the committed tree lets its holders claim. Nothing ties that
tree to the cap table: `commit_snapshot_root` takes any root from anyone. Under
the condition that the committed roots are roots of trees that stay within the
supply at the snapshot slot (`HonestCommit`), so do the tallies.
-/

namespace Aeqi.Governance

open Aeqi.Lib Aeqi.Lib.Accounts Aeqi.Lib.Merkle Aeqi.Solana List
open Aeqi.Indexer (computeMerkleRoot leafDigests)

def WithinSupply (leaves : List VoteLeaf) (supply : Nat) : Prop :=
  ∀ (V : Finset Pubkey) (b : Pubkey → Nat), (∀ v ∈ V, (v, b v) ∈ leaves) →
    ∑ v ∈ V, b v ≤ supply

section CapTable

variable {D : Type} [LinearOrder D] [Zero D] (sha256 : Sha256 D) (supplyAt : Pubkey → Nat → Nat)

/-- `root` is the root of a tree within the supply of the mint of a trust at a slot. -/
def CapTableRoot (trust : Pubkey) (slot : Nat) (root : D) (leaves : List VoteLeaf) : Prop :=
  leaves ≠ [] ∧ computeMerkleRoot sha256 (leafDigests sha256 leaves) = root ∧
    WithinSupply leaves (supplyAt trust slot)

def HonestCommit (w : Protocol D) (tx : ProtocolTx D) : Prop :=
  ∀ a root total, tx.ix = .gov (.commitSnapshotRoot a root total) →
    ∀ p ∈ w.gov.proposals.lookup a.proposal, p.unit = .tokens →
      ∃ leaves, CapTableRoot sha256 supplyAt p.trust p.snapshotSlot root leaves

def TokenVotes (w : Protocol D) (tx : ProtocolTx D) : Prop :=
  ∀ a, tx.cast = some (a, .roles) → ∀ p ∈ w.gov.proposals.lookup a.proposal, p.unit = .roles

/-- The state of one token proposal: before a root is committed nobody voted; then
the recorded votes are leaves of the committed cap table. -/
structure Canvassed (s : GovState D) (k : ProposalPda) (p : Proposal D) : Prop where
  early : p.snapshotRoot = 0 → ∀ voter, s.votes.lookup ⟨k.trust, k.proposalId, voter⟩ = none
  late : p.snapshotRoot ≠ 0 → ∃ leaves,
    CapTableRoot sha256 supplyAt p.trust p.snapshotSlot p.snapshotRoot leaves ∧
      ∀ voter v, s.votes.lookup ⟨k.trust, k.proposalId, voter⟩ = some v →
        (voter, v.weight) ∈ leaves

def AllCanvassed (w : Protocol D) : Prop :=
  ∀ k p, w.gov.proposals.lookup k = some p → p.unit = .tokens →
    Canvassed sha256 supplyAt w.gov k p

end CapTable

section Run

variable {D : Type} [LinearOrder D] [Zero D] {sha256 : Sha256 D} {supplyAt : Pubkey → Nat → Nat}
  {w w' : Protocol D} {tx : ProtocolTx D}

theorem Canvassed.tally_le {k : ProposalPda} {p : Proposal D}
    (hc : Canvassed sha256 supplyAt w.gov k p) (hwf : Wf w.gov)
    (hp : w.gov.proposals.lookup k = some p) : p.tally ≤ supplyAt p.trust p.snapshotSlot := by
  rw [hwf.tally hp, votesOn_eq_sum]
  by_cases hroot : p.snapshotRoot = 0
  · have hnone : votersOn w.gov k = ∅ := by
      apply Finset.eq_empty_of_forall_notMem
      intro voter hv
      obtain ⟨v, hv⟩ := mem_votersOn.1 hv
      rw [hc.early hroot voter] at hv
      cases hv
    rw [hnone]
    exact Nat.zero_le _
  · obtain ⟨leaves, ⟨-, -, hwithin⟩, hleaves⟩ := hc.late hroot
    apply hwithin
    intro voter hvoter
    obtain ⟨v, hv⟩ := mem_votersOn.1 hvoter
    rw [weightOn, wt_of_some hv]
    exact hleaves voter v hv

theorem Canvassed.congr {s s' : GovState D} {k : ProposalPda} {p p' : Proposal D}
    (hc : Canvassed sha256 supplyAt s k p) (hsame : SameBallot p p')
    (hroot : p'.snapshotRoot = p.snapshotRoot)
    (hv : ∀ voter, s'.votes.lookup ⟨k.trust, k.proposalId, voter⟩ =
      s.votes.lookup ⟨k.trust, k.proposalId, voter⟩) : Canvassed sha256 supplyAt s' k p' := by
  refine ⟨fun h voter => ?_, fun h => ?_⟩
  · rw [hv]
    exact hc.early (hroot ▸ h) voter
  · obtain ⟨leaves, htable, hleaves⟩ := hc.late (hroot ▸ h)
    refine ⟨leaves, ?_, fun voter v h₁ => hleaves voter v (by rw [← hv]; exact h₁)⟩
    rw [hsame.trust, hsame.slot, hroot]
    exact htable

section Moves

variable {s s' : GovState D} {k : ProposalPda} {p p' : Proposal D}

theorem Canvassed.opened (hwf : Wf s) (hfree : s.proposals.lookup k = none)
    (hv : s'.votes = s.votes) (hroot : p.snapshotRoot = 0) : Canvassed sha256 supplyAt s' k p := by
  refine ⟨fun _ voter => ?_, fun hne => absurd hroot hne⟩
  rw [hv]
  cases hvk : s.votes.lookup ⟨k.trust, k.proposalId, voter⟩ with
  | none => rfl
  | some v =>
    obtain ⟨p₁, hp₁⟩ := hwf.vote hvk
    rw [VotePda.proposal, hfree] at hp₁
    cases hp₁

theorem Canvassed.commit {leaves : List VoteLeaf} (hc : Canvassed sha256 supplyAt s k p)
    (hsame : SameBallot p p') (hroot : p.snapshotRoot = 0) (hne : p'.snapshotRoot ≠ 0)
    (htable : CapTableRoot sha256 supplyAt p.trust p.snapshotSlot p'.snapshotRoot leaves)
    (hv : s'.votes = s.votes) : Canvassed sha256 supplyAt s' k p' := by
  refine ⟨fun h₀ => absurd h₀ hne, fun _ => ⟨leaves, ?_, fun voter v hv₁ => ?_⟩⟩
  · rw [hsame.trust, hsame.slot]
    exact htable
  · rw [hv, hc.early hroot voter] at hv₁
    cases hv₁

theorem Canvassed.vote (hinj : Function.Injective sha256) {voter : Pubkey} {v : VoteRecord}
    {merkleProof : List D} (hc : Canvassed sha256 supplyAt s k p) (hsame : SameBallot p p')
    (hroot : p'.snapshotRoot = p.snapshotRoot) (hne : p.snapshotRoot ≠ 0)
    (hproof : verifyMerkleProof sha256 (tokenVoteLeaf sha256 voter v.weight) merkleProof
      p.snapshotRoot = true)
    (hv : s'.votes = s.votes.insert ⟨k.trust, k.proposalId, voter⟩ v) :
    Canvassed sha256 supplyAt s' k p' := by
  refine ⟨fun h₀ => absurd (hroot.symm.trans h₀) hne, fun _ => ?_⟩
  obtain ⟨leaves, htable, hleaves⟩ := hc.late hne
  refine ⟨leaves, ?_, fun voter' v' hv' => ?_⟩
  · rw [hsame.trust, hsame.slot, hroot]
    exact htable
  · rw [hv] at hv'
    rcases lookup_insert_some hv' with ⟨hkey, rfl⟩ | ⟨-, hv'⟩
    · obtain rfl : voter' = voter := congrArg VotePda.voter hkey
      rw [← htable.2.1] at hproof
      rcases Indexer.mem_or_collision htable.1 hproof with hmem | hcol
      · exact hmem
      · exact absurd hcol (not_collision hinj)
    · exact hleaves voter' v' hv'

end Moves

theorem AllCanvassed.step (hinj : Function.Injective sha256) (hwf : Wf w.gov)
    (hall : AllCanvassed sha256 supplyAt w) (hcommit : HonestCommit sha256 supplyAt w tx)
    (htokens : TokenVotes w tx) (h : w.exec sha256 tx = .ok w') :
    AllCanvassed sha256 supplyAt w' := by
  intro k p' hp' hunit'
  cases Protocol.change h with
  | role => exact hall k p' hp' hunit'
  | @gov ix gov hix _ hgov =>
    have hkept : gov.votes = w.gov.votes → w.gov.proposals.lookup k = some p' →
        Canvassed sha256 supplyAt gov k p' := fun hv hp =>
      (hall k p' hp hunit').congr (.refl p') rfl fun voter => by rw [hv]
    cases change hgov with
    | quiet hs' hv =>
      rw [hs'] at hp'
      exact hkept hv hp'
    | @proposed _ _ _ _ p₁ _ hfree hs' hv _ _ hroot =>
      rw [hs'] at hp'
      rcases lookup_insert_some hp' with ⟨rfl, rfl⟩ | ⟨-, hp'⟩
      · exact .opened hwf hfree hv hroot
      · exact hkept hv hp'
    | @voted a p p₁ choice n hk hkey hfree hwhy _ happly hs' hv =>
      obtain ⟨hsame, hroot, -⟩ := applyVoteTally_ok happly
      rw [hs'] at hp'
      rcases lookup_insert_some hp' with ⟨rfl, rfl⟩ | ⟨hne, hp'⟩
      · have hunit : p.unit = .tokens := hsame.unit.symm.trans hunit'
        cases hwhy with
        | checkpoint =>
          -- a role vote on a token proposal
          have hcast : tx.cast = some (a, .roles) := by rw [ProtocolTx.cast, hix]; rfl
          rw [htokens a hcast p hk] at hunit
          cases hunit
        | proof hne hproof =>
          have hkey' : (⟨a.proposal.trust, a.proposal.proposalId, a.voter⟩ : VotePda) =
              ⟨p.trust, p.proposalId, a.voter⟩ := by rw [hkey]
          rw [← hkey'] at hv
          exact (hall _ p hk hunit).vote hinj hsame hroot hne hproof hv
      · refine (hall k p' hp' hunit').congr (.refl p') rfl fun voter => ?_
        rw [hv]
        refine AList.lookup_insert_ne fun he => hne ?_
        exact (congrArg VotePda.proposal he).trans hkey.symm
    | @committed a p p₁ total hix' hk _ hsame hroot hne _ hs' hv =>
      rw [hs'] at hp'
      rcases lookup_insert_some hp' with ⟨rfl, rfl⟩ | ⟨-, hp'⟩
      · have hunit : p.unit = .tokens := hsame.unit.symm.trans hunit'
        obtain ⟨leaves, htable⟩ := hcommit a _ total (by rw [hix, hix']) p hk hunit
        exact (hall _ p hk hunit).commit hsame hroot hne htable hv
      · exact hkept hv hp'
    | @executed a p p₁ _ hk _ hsame hroot _ hs' hv =>
      rw [hs'] at hp'
      rcases lookup_insert_some hp' with ⟨rfl, rfl⟩ | ⟨-, hp'⟩
      · have hunit : p.unit = .tokens := hsame.unit.symm.trans hunit'
        exact (hall _ p hk hunit).congr hsame hroot fun voter => by rw [hv]
      · exact hkept hv hp'

/-- **Token votes within the cap table** where the roots committed for token proposals are roots of
cap tables and token proposals are voted on with tokens. -/
theorem tokenVotes_le_supply (hinj : Function.Injective sha256)
    {hist : List (Protocol D × ProtocolTx D)}
    (run : Run (Guarded (fun w tx => HonestCommit sha256 supplyAt w tx ∧ TokenVotes w tx)
      (okStep (Protocol.exec sha256))) .init hist w)
    {k : ProposalPda} {p : Proposal D} (hp : w.gov.proposals.lookup k = some p)
    (hunit : p.unit = .tokens) :
    p.forVotes + p.againstVotes + p.abstainVotes ≤ supplyAt p.trust p.snapshotSlot := by
  have hinv : Wf w.gov ∧ AllCanvassed sha256 supplyAt w := by
    refine run.invariant (P := fun w => Wf w.gov ∧ AllCanvassed sha256 supplyAt w) ⟨.init, ?_⟩ ?_
    · intro k p hp
      simp [Protocol.init, GovState.init] at hp
    · rintro t tx t' ⟨hwf, hall⟩ ⟨⟨hcommit, htokens⟩, hstep⟩
      refine ⟨?_, hall.step hinj hwf hcommit htokens hstep⟩
      cases Protocol.change hstep with
      | role => exact hwf
      | gov _ _ hgov => exact hwf.step hgov
  exact (hinv.2 k p hp hunit).tally_le hinv.1 hp

end Run

theorem withinSupply_of_nodup {leaves : List VoteLeaf} (hnodup : (leaves.map Prod.fst).Nodup) :
    WithinSupply leaves (leaves.map Prod.snd).sum := by
  induction leaves with
  | nil =>
    intro V b hV
    have hempty : V = ∅ := Finset.eq_empty_of_forall_notMem fun v hv => by simpa using hV v hv
    rw [hempty]
    exact Nat.zero_le _
  | cons leaf rest ih =>
    obtain ⟨v₀, b₀⟩ := leaf
    intro V b hV
    rw [List.map_cons, nodup_cons] at hnodup
    obtain ⟨hnew, hrest⟩ := hnodup
    have hin : ∀ v ∈ V.erase v₀, (v, b v) ∈ rest := by
      intro v hv
      obtain ⟨hne, hv⟩ := Finset.mem_erase.1 hv
      rcases List.mem_cons.1 (hV v hv) with heq | hmem
      · exact absurd (congrArg Prod.fst heq) hne
      · exact hmem
    have ih := ih hrest (V.erase v₀) b hin
    rw [List.map_cons, List.sum_cons]
    by_cases hv₀ : v₀ ∈ V
    · have hb : b v₀ = b₀ := by
        rcases List.mem_cons.1 (hV v₀ hv₀) with heq | hmem
        · exact congrArg Prod.snd heq
        · exact absurd (List.mem_map_of_mem (f := Prod.fst) hmem) hnew
      rw [← Finset.add_sum_erase V b hv₀, hb]
      omega
    · rw [Finset.erase_eq_of_notMem hv₀] at ih
      omega

/-- The accounts around trust 1, whose mint has a supply of 100. -/
def capTable : Env := { creation with mints := AList.insert 1 100 ∅ }

def tokenPoll : List (ProtocolTx Nat) :=
  [⟨⟨11, 101⟩, capTable, .gov (.init 1 9)⟩,
   ⟨⟨11, 101⟩, capTable, .gov (.registerConfig 1 9 0 anyMajority)⟩,
   ⟨⟨11, 101⟩, capTable, .gov (.propose ⟨1, 9, some ⟨1, 0⟩⟩ 3 0 0)⟩]

/-- Account 9 commits `root` for proposal 3, and account 66 votes with `balance`. -/
def tokenVote (root balance : Nat) (proof : List Nat) : List (ProtocolTx Nat) :=
  [⟨⟨12, 102⟩, capTable, .gov (.commitSnapshotRoot ⟨⟨1, 3⟩, 9⟩ root 100)⟩,
   ⟨⟨13, 103⟩, capTable, .gov (.castVoteToken ⟨⟨1, 3⟩, 66⟩ 1 balance proof)⟩]

def twoHolders : List VoteLeaf := [(66, 60), (67, 40)]

def twoHoldersRoot : Nat := natHash (.node (natHash (.leaf (66, 60))) (natHash (.leaf (67, 40))))

theorem twoHolders_root :
    computeMerkleRoot natHash (leafDigests natHash twoHolders) = twoHoldersRoot := by
  rw [Indexer.computeMerkleRoot_eq_rootLoop, Indexer.rootLoop]
  rw [Indexer.rootLoop]
  rfl

theorem twoHolders_le_supply : ∃ w p, execAll (Protocol.exec natHash) .init
      (tokenPoll ++ tokenVote twoHoldersRoot 60 [natHash (.leaf (67, 40))]) = .ok w ∧
    w.gov.proposals.lookup ⟨1, 3⟩ = some p ∧
    p.forVotes = 60 ∧ p.forVotes + p.againstVotes + p.abstainVotes ≤ 100 := by
  have hgood : ∀ tx ∈ tokenPoll ++ tokenVote twoHoldersRoot 60 [natHash (.leaf (67, 40))],
      ∀ w, HonestCommit natHash (fun _ _ => 100) w tx ∧ TokenVotes w tx := by
    have htable : ∀ trust slot, CapTableRoot natHash (fun _ _ => 100) trust slot twoHoldersRoot
        twoHolders :=
      fun _ _ => ⟨by decide, twoHolders_root, withinSupply_of_nodup (by decide)⟩
    intro tx htx w
    simp only [tokenPoll, tokenVote, cons_append, nil_append, List.mem_cons,
      not_mem_nil, or_false] at htx
    rcases htx with rfl | rfl | rfl | rfl | rfl
    all_goals
      refine ⟨fun a root total hix p _ _ => ?_, fun a hcast => ?_⟩
      · first
        | exact ⟨twoHolders, by cases hix; exact htable _ _⟩
        | cases hix
      · cases hcast
  have hok : ((execAll (Protocol.exec natHash) .init
      (tokenPoll ++ tokenVote twoHoldersRoot 60 [natHash (.leaf (67, 40))])).toOption.map fun w =>
        (w.gov.proposals.lookup ⟨1, 3⟩).map fun p => (p.forVotes, p.unit)) =
      some (some (60, .tokens)) := by decide
  obtain ⟨w, hw, hp⟩ := toOption_map_eq_some.1 hok
  obtain ⟨p, hp, hfacts⟩ := Option.map_eq_some_iff.1 hp
  obtain ⟨hfor, hunit⟩ := Prod.mk.inj hfacts
  obtain ⟨hist, run, -⟩ := Run.guarded hgood .nil hw
  exact ⟨w, p, hw, hp, hfor, tokenVotes_le_supply natHash_injective run hp hunit⟩

/-- The supplies that the transactions of a run find are those of `supplyAt`. -/
def SupplyHistory {D : Type} (supplyAt : Pubkey → Nat → Nat)
    (hist : List (Protocol D × ProtocolTx D)) : Prop :=
  ∀ e ∈ hist, ∀ trust n, e.2.env.mints.lookup trust = some n →
    supplyAt trust e.2.clock.slot = n

/-- Account 9 commits a tree that gives account 66 a balance of 1000, and 66 votes
with it. -/
def inflatedVote : List (ProtocolTx Nat) :=
  tokenPoll ++ tokenVote (natHash (.leaf (66, 1000))) 1000 []

theorem not_tokenVotes_le_supply : ¬ ∀ (supplyAt : Pubkey → Nat → Nat) hist w,
    Run (Guarded TokenVotes (okStep (Protocol.exec natHash))) .init hist w →
    SupplyHistory supplyAt hist → ∀ k p, w.gov.proposals.lookup k = some p → p.unit = .tokens →
      p.forVotes + p.againstVotes + p.abstainVotes ≤ supplyAt p.trust p.snapshotSlot := by
  intro hall
  have hgood : ∀ tx ∈ inflatedVote, ∀ w, TokenVotes w tx := by
    intro tx htx w a hcast
    have hnone : ∀ tx ∈ inflatedVote, tx.cast.map Prod.snd ≠ some .roles := by decide
    exact absurd (by rw [hcast]; rfl) (hnone tx htx)
  have hok : ((execAll (Protocol.exec natHash) .init inflatedVote).toOption.map fun w =>
      (w.gov.proposals.lookup ⟨1, 3⟩).map fun p => (p.forVotes, p.unit)) =
      some (some (1000, .tokens)) := by decide
  obtain ⟨w, hw, hp⟩ := toOption_map_eq_some.1 hok
  obtain ⟨p, hp, hfacts⟩ := Option.map_eq_some_iff.1 hp
  obtain ⟨hfor, hunit⟩ := Prod.mk.inj hfacts
  obtain ⟨hist, run, hmap⟩ := Run.guarded hgood .nil hw
  have hsupply : SupplyHistory (fun _ _ => 100) hist := by
    intro e he trust n hn
    have hmem : e.2 ∈ inflatedVote := by
      have h := List.mem_map_of_mem (f := Prod.snd) he
      rw [hmap] at h
      simpa using h
    have henv : ∀ tx ∈ inflatedVote, tx.env.mints = AList.insert 1 100 ∅ := by
      simp [inflatedVote, tokenPoll, tokenVote, capTable]
    rw [henv e.2 hmem] at hn
    by_cases htrust : trust = 1
    · rw [htrust] at hn
      exact Option.some.inj hn
    · rw [AList.lookup_insert_ne htrust] at hn
      cases hn
  have hle := hall (fun _ _ => 100) hist w run hsupply _ p hp hunit
  omega

end Aeqi.Governance
