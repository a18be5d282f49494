import Aeqi.Governance.Program

/-!
# aeqi_governance: what a successful instruction did

`change` inverts one instruction: which proposal and vote record it wrote and
what it had checked. Later proofs split on it and never unfold a handler.
-/

namespace Aeqi.Governance

open Aeqi.Lib Aeqi.Solana
open Aeqi.Roles (RoleState RoleVoteCheckpoint)

def Proposal.tally {D : Type} (p : Proposal D) : Nat := p.forVotes + p.againstVotes + p.abstainVotes

/-- The data of a proposal that no instruction changes after `propose`. -/
structure SameBallot {D : Type} (p p' : Proposal D) : Prop where
  trust : p'.trust = p.trust
  proposalId : p'.proposalId = p.proposalId
  config : p'.governanceConfigId = p.governanceConfigId
  slot : p'.snapshotSlot = p.snapshotSlot

structure SameTally {D : Type} (p p' : Proposal D) : Prop where
  forVotes : p'.forVotes = p.forVotes
  againstVotes : p'.againstVotes = p.againstVotes
  abstainVotes : p'.abstainVotes = p.abstainVotes

theorem SameTally.tally {D : Type} {p p' : Proposal D} (h : SameTally p p') :
    p'.tally = p.tally := by
  rw [Proposal.tally, Proposal.tally, h.forVotes, h.againstVotes, h.abstainVotes]

@[simp] theorem SameBallot.refl {D : Type} (p : Proposal D) : SameBallot p p := ⟨rfl, rfl, rfl, rfl⟩

section Helpers

variable {D : Type} {s : GovState D} {p p' : Proposal D} {k : ProposalPda} {choice w : Nat}

theorem loadProposal_ok : loadProposal s k = .ok p ↔
    s.proposals.lookup k = some p ∧ k = ⟨p.trust, p.proposalId⟩ := by
  simp only [loadProposal, bind_eq_ok, load_eq_ok, require_eq_ok, exists_punit, pure_eq_ok]
  constructor
  · rintro ⟨p, hp, hk, rfl⟩
    exact ⟨hp, hk⟩
  · rintro ⟨hp, hk⟩
    exact ⟨p, hp, hk, rfl⟩

theorem applyVoteTally_ok (h : applyVoteTally p choice w = .ok p') :
    SameBallot p p' ∧ p'.snapshotRoot = p.snapshotRoot ∧ p'.tally = p.tally + w := by
  simp only [applyVoteTally, bind_eq_ok, exists_punit] at h
  obtain ⟨-, h⟩ := h
  split at h <;>
    simp only [bind_eq_ok, okOr_eq_ok, checkedAdd_eq_some, pure_eq_ok] at h <;>
    obtain ⟨n, ⟨-, rfl⟩, rfl⟩ := h <;>
    refine ⟨⟨rfl, rfl, rfl, rfl⟩, rfl, ?_⟩ <;>
    simp only [Proposal.tally] <;>
    omega

variable {roles : RoleState}

theorem castVoteRole_ok {s' : GovState D} {clock : Clock} {a : CastVote}
    (h : castVoteRole s roles clock a choice = .ok s') :
    ∃ p c p', s.proposals.lookup a.proposal = some p ∧ a.proposal = ⟨p.trust, p.proposalId⟩ ∧
      s.votes.lookup ⟨p.trust, p.proposalId, a.voter⟩ = none ∧
      roles.checkpoints.lookup ⟨p.trust, p.governanceConfigId, a.voter⟩ = some c ∧
      c.account = a.voter ∧ c.slot ≤ p.snapshotSlot ∧ 0 < c.count ∧
      applyVoteTally p choice c.count = .ok p' ∧
      s' = { s with
        proposals := s.proposals.insert a.proposal p'
        votes := s.votes.insert ⟨p.trust, p.proposalId, a.voter⟩
          (recordVote p' a.voter choice c.count) } := by
  simp only [castVoteRole, bind_eq_ok, loadProposal_ok, requireFree_eq_ok, require_eq_ok,
    exists_punit, okOr_eq_ok, pure_eq_ok] at h
  obtain ⟨p, ⟨hk, hkey⟩, hfree, c, hc, haccount, -, hslot, hpos, -, p', happly, rfl⟩ := h
  exact ⟨p, c, p', hk, hkey, hfree, hc, haccount, hslot, hpos, happly, rfl⟩

theorem loadTotalVoteSupply_ok {env : Env} {acct : SupplyAccount} {n : Nat}
    (h : loadTotalVoteSupply env roles p acct = .ok n) :
    (p.governanceConfigId = TOKEN_VOTING_CONFIG_ID ∧ acct = .mint p.trust ∧
      env.mints.lookup p.trust = some n) ∨
    (p.governanceConfigId ≠ TOKEN_VOTING_CONFIG_ID ∧
      acct = .roleType ⟨p.trust, p.governanceConfigId⟩ ∧
      ∃ rt, roles.roleTypes.lookup ⟨p.trust, p.governanceConfigId⟩ = some rt ∧ rt.roleCount = n) := by
  unfold loadTotalVoteSupply at h
  split at h
  · next hmode =>
    simp only [loadTokenVoteSupply, bind_eq_ok, require_eq_ok, exists_punit, okOr_eq_ok,
      pure_eq_ok] at h
    obtain ⟨hacct, n, hn, -, rfl⟩ := h
    exact .inl ⟨hmode, hacct, hn⟩
  · next hmode =>
    simp only [loadRoleVoteSupply, bind_eq_ok, require_eq_ok, exists_punit, okOr_eq_ok,
      pure_eq_ok] at h
    obtain ⟨hacct, rt, hrt, -, -, -, hn⟩ := h
    exact .inr ⟨hmode, hacct, rt, hrt, hn⟩

theorem executeProposal_ok {s' : GovState D} {env : Env} {clock : Clock} {a : ExecuteProposal}
    (h : executeProposal s env roles clock a = .ok s') :
    ∃ p acct supply, s.proposals.lookup a.proposal = some p ∧
      a.proposal = ⟨p.trust, p.proposalId⟩ ∧ a.voteSupply = some acct ∧
      loadTotalVoteSupply env roles p acct = .ok supply ∧
      s' = { s with
        proposals := s.proposals.insert a.proposal
          { p with
            succeededAt := if p.succeededAt = 0 then clock.unixTimestamp else p.succeededAt
            executed := true } } := by
  simp only [executeProposal, bind_eq_ok, exists_punit, okOr_eq_ok] at h
  obtain ⟨p, hp, -, -, -, -, cfg, -, acct, hacct, supply, hsupply, voteEnd, -, -, -, -,
    -, -, -, -, -, -, -, -, -, h⟩ := h
  obtain ⟨hk, hkey⟩ := loadProposal_ok.1 hp
  refine ⟨p, acct, supply, hk, hkey, hacct, hsupply, ?_⟩
  split at h
  · simp only [bind_eq_ok, exists_punit, pure_eq_ok] at h
    obtain ⟨_, -, -, rfl⟩ := h
    rfl
  · exact (pure_eq_ok.1 h).symm

end Helpers

section Change

variable {D : Type} [LinearOrder D] [Zero D] (sha256 : Sha256 D)

/-- Why a vote of weight `w` by `a.voter` was accepted on the proposal `p`. -/
inductive Credential (roles : RoleState) (p : Proposal D) (a : CastVote) (choice w : Nat) :
    GovIx D → Prop
  | checkpoint {c : RoleVoteCheckpoint}
      (hc : roles.checkpoints.lookup ⟨p.trust, p.governanceConfigId, a.voter⟩ = some c)
      (haccount : c.account = a.voter) (hslot : c.slot ≤ p.snapshotSlot) (hw : c.count = w) :
      Credential roles p a choice w (.castVoteRole a choice)
  | proof {merkleProof : List D} (hroot : p.snapshotRoot ≠ 0)
      (hproof : verifyMerkleProof sha256 (tokenVoteLeaf sha256 a.voter w) merkleProof
        p.snapshotRoot = true) :
      Credential roles p a choice w (.castVoteToken a choice w merkleProof)

/-- The effect of one instruction on proposals and vote records. -/
inductive Change (roles : RoleState) (clock : Clock) (s : GovState D) (ix : GovIx D)
    (s' : GovState D) : Prop
  | quiet (hp : s'.proposals = s.proposals) (hv : s'.votes = s.votes)
      (hix : (∃ trust payer, ix = .init trust payer) ∨
        ∃ trust payer id config, ix = .registerConfig trust payer id config)
  | proposed {a : Propose} {id configId : Bytes32} {cid : Bytes64} {p : Proposal D}
      (hix : ix = .propose a id configId cid)
      (hfree : s.proposals.lookup ⟨p.trust, p.proposalId⟩ = none)
      (hp : s'.proposals = s.proposals.insert ⟨p.trust, p.proposalId⟩ p) (hv : s'.votes = s.votes)
      (htally : p.tally = 0) (hslot : p.snapshotSlot = clock.slot) (hroot : p.snapshotRoot = 0)
  | voted {a : CastVote} {p p' : Proposal D} {choice w : Nat}
      (hk : s.proposals.lookup a.proposal = some p) (hkey : a.proposal = ⟨p.trust, p.proposalId⟩)
      (hfree : s.votes.lookup ⟨p.trust, p.proposalId, a.voter⟩ = none)
      (hwhy : Credential sha256 roles p a choice w ix) (hpos : 0 < w)
      (happly : applyVoteTally p choice w = .ok p')
      (hp : s'.proposals = s.proposals.insert a.proposal p')
      (hv : s'.votes = s.votes.insert ⟨p.trust, p.proposalId, a.voter⟩
        (recordVote p' a.voter choice w))
  | committed {a : CommitSnapshotRoot} {p p' : Proposal D} {total : Nat}
      (hix : ix = .commitSnapshotRoot a p'.snapshotRoot total)
      (hk : s.proposals.lookup a.proposal = some p) (hkey : a.proposal = ⟨p.trust, p.proposalId⟩)
      (hsame : SameBallot p p') (hroot : p.snapshotRoot = 0) (hne : p'.snapshotRoot ≠ 0)
      (htally : SameTally p p') (hp : s'.proposals = s.proposals.insert a.proposal p')
      (hv : s'.votes = s.votes)
  | executed {a : ExecuteProposal} {p p' : Proposal D} (hix : ix = .executeProposal a)
      (hk : s.proposals.lookup a.proposal = some p) (hkey : a.proposal = ⟨p.trust, p.proposalId⟩)
      (hsame : SameBallot p p') (hroot : p'.snapshotRoot = p.snapshotRoot)
      (htally : SameTally p p') (hp : s'.proposals = s.proposals.insert a.proposal p')
      (hv : s'.votes = s.votes)

variable {sha256} {s s' : GovState D} {env : Env} {roles : RoleState} {clock : Clock}

theorem change {ix : GovIx D} (h : s.exec sha256 env roles clock ix = .ok s') :
    Change sha256 roles clock s ix s' := by
  unfold GovState.exec at h
  cases ix with
  | init trust payer =>
    simp only [init, bind_eq_ok, exists_punit, pure_eq_ok] at h
    obtain ⟨t, -, -, -, -, rfl⟩ := h
    exact .quiet rfl rfl (.inl ⟨_, _, rfl⟩)
  | registerConfig trust payer id config =>
    simp only [registerConfig, bind_eq_ok, exists_punit, pure_eq_ok] at h
    obtain ⟨t, -, m, -, -, -, -, -, -, -, -, -, -, rfl⟩ := h
    exact .quiet rfl rfl (.inr ⟨_, _, _, _, rfl⟩)
  | propose a id configId cid =>
    simp only [propose, bind_eq_ok, requireFree_eq_ok, exists_punit, pure_eq_ok] at h
    obtain ⟨m, -, hfree, -, -, cfg, -, n, -, rfl⟩ := h
    let p : Proposal D := ⟨a.trust, id, configId, a.proposer, cid, clock.unixTimestamp,
      cfg.votingPeriod, cfg.executionDelay, clock.slot, 0, 0, 0, 0, 0, false, false, 0⟩
    exact .proposed (p := p) rfl hfree rfl rfl rfl rfl rfl
  | castVoteRole a choice =>
    obtain ⟨p, c, p', hk, hkey, hfree, hc, haccount, hslot, hpos, happly, rfl⟩ :=
      castVoteRole_ok h
    exact .voted hk hkey hfree (.checkpoint hc haccount hslot rfl) hpos happly rfl rfl
  | castVoteToken a choice balance merkleProof =>
    simp only [castVoteToken, bind_eq_ok, loadProposal_ok, requireFree_eq_ok, require_eq_ok,
      exists_punit, pure_eq_ok] at h
    obtain ⟨p, ⟨hk, hkey⟩, hfree, hroot, hpos, hproof, -, p', happly, rfl⟩ := h
    exact .voted hk hkey hfree (.proof hroot hproof) hpos happly rfl rfl
  | commitSnapshotRoot a root total =>
    simp only [commitSnapshotRoot, bind_eq_ok, loadProposal_ok, require_eq_ok, exists_punit,
      pure_eq_ok] at h
    obtain ⟨p, ⟨hk, hkey⟩, hne, hroot, -, rfl⟩ := h
    let p' : Proposal D := { p with snapshotRoot := root, snapshotTotalSupply := total }
    have hsame : SameBallot p p' := ⟨rfl, rfl, rfl, rfl⟩
    exact .committed rfl hk hkey hsame hroot hne ⟨rfl, rfl, rfl⟩ rfl rfl
  | executeProposal a =>
    obtain ⟨p, -, -, hk, hkey, -, -, rfl⟩ := executeProposal_ok h
    refine .executed rfl hk hkey ?_ ?_ ?_ rfl rfl
    · exact ⟨rfl, rfl, rfl, rfl⟩
    · rfl
    · exact ⟨rfl, rfl, rfl⟩
  | castVote a choice weight =>
    simp [castVote, bind_eq_ok] at h

end Change

end Aeqi.Governance
