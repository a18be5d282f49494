import Aeqi.Governance.Steps
import Aeqi.Roles.Votes
import Mathlib.Data.Nat.Pairing

/-!
# aeqi_governance: tallies and vote records

In every reachable state the three counters of a proposal add up to the weights
of the vote records opened for it. Proposals and vote records are never closed,
and what a proposal is about never changes.
-/

namespace Aeqi.Governance

open Aeqi.Lib.Accounts Aeqi.Solana
open Aeqi.Roles (RoleState)

def VotePda.proposal (v : VotePda) : ProposalPda := ⟨v.trust, v.proposalId⟩

def votesOn {D : Type} (s : GovState D) (k : ProposalPda) : Nat :=
  total (fun vk v => if vk.proposal = k then v.weight else 0) s.votes

def votersOn {D : Type} (s : GovState D) (k : ProposalPda) : Finset Pubkey :=
  (s.votes.keys.toFinset.filter fun vk => vk.proposal = k).image VotePda.voter

def weightOn {D : Type} (s : GovState D) (k : ProposalPda) (voter : Pubkey) : Nat :=
  wt (fun _ v => v.weight) s.votes ⟨k.trust, k.proposalId, voter⟩

variable {D : Type} {k : ProposalPda}

theorem mem_votersOn {s : GovState D} {voter : Pubkey} :
    voter ∈ votersOn s k ↔ ∃ v, s.votes.lookup ⟨k.trust, k.proposalId, voter⟩ = some v := by
  simp only [votersOn, Finset.mem_image, Finset.mem_filter, List.mem_toFinset]
  constructor
  · rintro ⟨vk, ⟨hmem, rfl⟩, rfl⟩
    exact Option.isSome_iff_exists.1 (AList.lookup_isSome.2 (AList.mem_keys.2 hmem))
  · rintro ⟨v, hv⟩
    exact ⟨_, ⟨List.mem_toFinset.1 (mem_keys_of_some hv), rfl⟩, rfl⟩

theorem votesOn_eq_sum (s : GovState D) (k : ProposalPda) :
    votesOn s k = ∑ voter ∈ votersOn s k, weightOn s k voter := by
  have hinj : Set.InjOn VotePda.voter
      (s.votes.keys.toFinset.filter fun vk => vk.proposal = k : Finset VotePda) := by
    intro vk hvk vk' hvk' heq
    have h := (Finset.mem_filter.1 hvk).2.trans (Finset.mem_filter.1 hvk').2.symm
    simp only [VotePda.proposal] at h
    cases vk
    cases vk'
    simp_all
  rw [votersOn, Finset.sum_image hinj, Finset.sum_filter, votesOn]
  apply Finset.sum_congr rfl
  intro vk _
  by_cases hk : vk.proposal = k
  · have hvk : (⟨k.trust, k.proposalId, vk.voter⟩ : VotePda) = vk := by rw [← hk]; rfl
    rw [if_pos hk, weightOn, hvk]
    cases hv : s.votes.lookup vk with
    | none => rw [wt_of_none hv, wt_of_none hv]
    | some v => rw [wt_of_some hv, wt_of_some hv, if_pos hk]
  · rw [if_neg hk]
    cases hv : s.votes.lookup vk with
    | none => rw [wt_of_none hv]
    | some v => rw [wt_of_some hv, if_neg hk]

structure Wf {D : Type} (s : GovState D) : Prop where
  proposal : ∀ {k p}, s.proposals.lookup k = some p → k = ⟨p.trust, p.proposalId⟩
  vote : ∀ {vk v}, s.votes.lookup vk = some v → ∃ p, s.proposals.lookup vk.proposal = some p
  tally : ∀ {k p}, s.proposals.lookup k = some p → p.tally = votesOn s k

theorem Wf.init : Wf (GovState.init : GovState D) := by
  refine ⟨?_, ?_, ?_⟩ <;> intro k v h <;> simp [GovState.init] at h

theorem Wf.updateProposal {s s' : GovState D} (hwf : Wf s) {p p' : Proposal D}
    (hk : s.proposals.lookup k = some p) (hsame : SameBallot p p') (htally : p'.tally = p.tally)
    (hp : s'.proposals = s.proposals.insert k p') (hv : s'.votes = s.votes) : Wf s' := by
  refine ⟨fun h₁ => ?_, fun {vk v} h₁ => ?_, fun h₁ => ?_⟩
  · rw [hp] at h₁
    rcases lookup_insert_some h₁ with ⟨rfl, rfl⟩ | ⟨-, h₁⟩
    · rw [hsame.trust, hsame.proposalId]
      exact hwf.proposal hk
    · exact hwf.proposal h₁
  · rw [hv] at h₁
    obtain ⟨p₁, hp₁⟩ := hwf.vote h₁
    by_cases hk₁ : vk.proposal = k
    · exact ⟨p', by rw [hp, hk₁]; exact AList.lookup_insert _⟩
    · exact ⟨p₁, by rw [hp, AList.lookup_insert_ne hk₁, hp₁]⟩
  · rw [votesOn, hv]
    rw [hp] at h₁
    rcases lookup_insert_some h₁ with ⟨rfl, rfl⟩ | ⟨-, h₁⟩
    · rw [htally]
      exact hwf.tally hk
    · exact hwf.tally h₁

theorem Wf.votesOn_eq_zero {s : GovState D} (hwf : Wf s) (hfree : s.proposals.lookup k = none) :
    votesOn s k = 0 := by
  refine total_eq_zero_iff.2 fun vk => ?_
  cases hvk : s.votes.lookup vk with
  | none => exact wt_of_none hvk
  | some v =>
    obtain ⟨p, hp⟩ := hwf.vote hvk
    rw [wt_of_some hvk, if_neg]
    intro he
    rw [he, hfree] at hp
    cases hp

theorem votesOn_insert {s s' : GovState D} {vk : VotePda} {v : VoteRecord}
    (hfree : s.votes.lookup vk = none) (hv : s'.votes = s.votes.insert vk v) (k : ProposalPda) :
    votesOn s' k = votesOn s k + if vk.proposal = k then v.weight else 0 := by
  have hsum := total_insert (f := fun vk v => if vk.proposal = k then v.weight else 0)
    (s := s.votes) vk v
  rw [wt_of_none hfree] at hsum
  rw [votesOn, hv]
  exact hsum

section Step

variable {D : Type} [LinearOrder D] [Zero D] {sha256 : Sha256 D} {s s' : GovState D} {env : Env}
  {roles : RoleState} {clock : Clock} {ix : GovIx D}

theorem proposal_step (h : s.exec sha256 env roles clock ix = .ok s') {k : ProposalPda}
    {p : Proposal D} (hp : s.proposals.lookup k = some p) :
    ∃ p', s'.proposals.lookup k = some p' ∧ SameBallot p p' := by
  have keep : ∀ {k₁ : ProposalPda} {p₁ p₁' : Proposal D}, s.proposals.lookup k₁ = some p₁ →
      SameBallot p₁ p₁' → s'.proposals = s.proposals.insert k₁ p₁' →
      ∃ p', s'.proposals.lookup k = some p' ∧ SameBallot p p' := by
    intro k₁ p₁ p₁' hk₁ hsame hs'
    rw [hs']
    by_cases hk : k = k₁
    · subst hk
      obtain rfl : p₁ = p := Option.some.inj (hk₁.symm.trans hp)
      exact ⟨p₁', AList.lookup_insert _, hsame⟩
    · exact ⟨p, (AList.lookup_insert_ne hk).trans hp, .refl p⟩
  cases change h with
  | quiet hp' => exact ⟨p, by rw [hp', hp], .refl p⟩
  | @proposed a id configId cid p₁ hix hfree hs' =>
    refine ⟨p, ?_, .refl p⟩
    have hne : k ≠ ⟨p₁.trust, p₁.proposalId⟩ := by
      rintro rfl
      rw [hfree] at hp
      cases hp
    rw [hs', AList.lookup_insert_ne hne, hp]
  | voted hk hkey hfree hwhy hpos happly hs' => exact keep hk (applyVoteTally_ok happly).1 hs'
  | committed hix hk hkey hsame hroot hne htally hs'
  | executed hix hk hkey hsame hroot htally hs' => exact keep hk hsame hs'

theorem vote_step (h : s.exec sha256 env roles clock ix = .ok s') {vk : VotePda} {v : VoteRecord}
    (hv : s.votes.lookup vk = some v) : s'.votes.lookup vk = some v := by
  cases change h with
  | quiet _ hs' | proposed _ _ _ hs' => rw [hs', hv]
  | @voted a p p' choice w hk hkey hfree _ _ _ _ hs' =>
    have hne : vk ≠ ⟨p.trust, p.proposalId, a.voter⟩ := by
      rintro rfl
      rw [hfree] at hv
      cases hv
    rw [hs', AList.lookup_insert_ne hne, hv]
  | committed _ _ _ _ _ _ _ _ hs' | executed _ _ _ _ _ _ _ hs' => rw [hs', hv]

namespace Wf

theorem step (hwf : Wf s) (h : s.exec sha256 env roles clock ix = .ok s') : Wf s' := by
  cases change h with
  | quiet hp hv =>
    refine ⟨fun h₁ => hwf.proposal (hp ▸ h₁), fun h₁ => ?_, fun h₁ => ?_⟩
    · rw [hp]
      exact hwf.vote (hv ▸ h₁)
    · rw [votesOn, hv]
      exact hwf.tally (hp ▸ h₁)
  | @proposed a id configId cid p hix hfree hp hv htally =>
    refine ⟨fun {k₁ p₁} h₁ => ?_, fun {vk v} h₁ => ?_, fun {k₁ p₁} h₁ => ?_⟩
    · rw [hp] at h₁
      rcases lookup_insert_some h₁ with ⟨rfl, rfl⟩ | ⟨-, h₁⟩
      · rfl
      · exact hwf.proposal h₁
    · rw [hv] at h₁
      obtain ⟨p₁, hp₁⟩ := hwf.vote h₁
      obtain ⟨p₁', hp₁', -⟩ := proposal_step h hp₁
      exact ⟨p₁', hp₁'⟩
    · rw [votesOn, hv]
      rw [hp] at h₁
      rcases lookup_insert_some h₁ with ⟨rfl, rfl⟩ | ⟨-, h₁⟩
      · rw [htally]
        exact (hwf.votesOn_eq_zero hfree).symm
      · exact hwf.tally h₁
  | @voted a p p' choice w hk hkey hfree hwhy hpos happly hp hv =>
    obtain ⟨hsame, -, htally⟩ := applyVoteTally_ok happly
    have hvk : (⟨p.trust, p.proposalId, a.voter⟩ : VotePda).proposal = a.proposal := hkey.symm
    refine ⟨fun {k₁ p₁} h₁ => ?_, fun {vk v} h₁ => ?_, fun {k₁ p₁} h₁ => ?_⟩
    · rw [hp] at h₁
      rcases lookup_insert_some h₁ with ⟨rfl, rfl⟩ | ⟨-, h₁⟩
      · rw [hsame.trust, hsame.proposalId]
        exact hkey
      · exact hwf.proposal h₁
    · rw [hv] at h₁
      rcases lookup_insert_some h₁ with ⟨rfl, rfl⟩ | ⟨-, h₁⟩
      · rw [hvk, hp]
        exact ⟨p', AList.lookup_insert _⟩
      · obtain ⟨p₁, hp₁⟩ := hwf.vote h₁
        obtain ⟨p₁', hp₁', -⟩ := proposal_step h hp₁
        exact ⟨p₁', hp₁'⟩
    · rw [votesOn_insert hfree hv, hvk]
      rw [hp] at h₁
      rcases lookup_insert_some h₁ with ⟨rfl, rfl⟩ | ⟨hne, h₁⟩
      · rw [htally, if_pos rfl, hwf.tally hk]
        rfl
      · rw [if_neg (Ne.symm hne)]
        exact hwf.tally h₁
  | committed hix hk hkey hsame hroot hne htally hp hv
  | executed hix hk hkey hsame hroot htally hp hv =>
    exact hwf.updateProposal hk hsame htally.tally hp hv

end Wf

end Step

end Aeqi.Governance

/-!
## Role-based and token-based governance as one system

Transactions of aeqi_role and aeqi_governance in any order, at slots that never
decrease. The accounts of the other programs are read as each transaction finds
them.
-/

namespace Aeqi.Governance

open Aeqi.Lib Aeqi.Solana
open Aeqi.Roles (RoleState RoleIx RoleError)

structure Protocol (D : Type) where
  slot : Nat := 0
  roles : RoleState := .init
  gov : GovState D := .init

inductive ProtocolIx (D : Type)
  | role (ix : RoleIx)
  | gov (ix : GovIx D)

structure ProtocolTx (D : Type) where
  clock : Clock
  env : Env := {}
  ix : ProtocolIx D

inductive ProtocolError
  | staleSlot
  | role (e : RoleError)
  | gov (e : GovError)

namespace Protocol

variable {D : Type}

def init : Protocol D := {}

def exec [LinearOrder D] [Zero D] (sha256 : Sha256 D) (w : Protocol D) (tx : ProtocolTx D) :
    Except ProtocolError (Protocol D) := do
  require (w.slot ≤ tx.clock.slot) .staleSlot
  match tx.ix with
  | .role ix => do
    let roles ← (w.roles.exec ⟨tx.clock, ix⟩).mapError .role
    pure { w with slot := tx.clock.slot, roles }
  | .gov ix => do
    let gov ← (w.gov.exec sha256 tx.env w.roles tx.clock ix).mapError .gov
    pure { w with slot := tx.clock.slot, gov }

/-- What a transaction did: its slot is not in the past, and one of the two
programs moved. -/
inductive Change [LinearOrder D] [Zero D] (sha256 : Sha256 D) (w : Protocol D)
    (tx : ProtocolTx D) : Protocol D → Prop
  | role {ix : RoleIx} {roles : RoleState} (hix : tx.ix = .role ix)
      (hslot : w.slot ≤ tx.clock.slot) (hroles : w.roles.exec ⟨tx.clock, ix⟩ = .ok roles) :
      Change sha256 w tx ⟨tx.clock.slot, roles, w.gov⟩
  | gov {ix : GovIx D} {gov : GovState D} (hix : tx.ix = .gov ix)
      (hslot : w.slot ≤ tx.clock.slot)
      (hgov : w.gov.exec sha256 tx.env w.roles tx.clock ix = .ok gov) :
      Change sha256 w tx ⟨tx.clock.slot, w.roles, gov⟩

variable [LinearOrder D] [Zero D] {sha256 : Sha256 D} {w w' : Protocol D} {tx : ProtocolTx D}

theorem change (h : w.exec sha256 tx = .ok w') : Change sha256 w tx w' := by
  simp only [exec, bind_eq_ok, require_eq_ok, exists_punit] at h
  obtain ⟨hslot, h⟩ := h
  cases hix : tx.ix with
  | role ix =>
    simp only [hix, bind_eq_ok, mapError_eq_ok, pure_eq_ok] at h
    obtain ⟨roles, hroles, rfl⟩ := h
    exact .role hix hslot hroles
  | gov ix =>
    simp only [hix, bind_eq_ok, mapError_eq_ok, pure_eq_ok] at h
    obtain ⟨gov, hgov, rfl⟩ := h
    exact .gov hix hslot hgov

/-- Both programs keep their accounts well formed. -/
structure Wf (w : Protocol D) : Prop where
  roles : Roles.Wf w.roles
  gov : Governance.Wf w.gov

omit [LinearOrder D] [Zero D] in
theorem Wf.init : Wf (Protocol.init : Protocol D) := ⟨Roles.Wf.init, Governance.Wf.init⟩

theorem Wf.step (hwf : Wf w) (h : w.exec sha256 tx = .ok w') : Wf w' := by
  cases change h with
  | role _ _ hroles => exact ⟨hwf.roles.step hroles, hwf.gov⟩
  | gov _ _ hgov => exact ⟨hwf.roles, hwf.gov.step hgov⟩

theorem proposal_step (h : w.exec sha256 tx = .ok w') {k : ProposalPda} {p : Proposal D}
    (hp : w.gov.proposals.lookup k = some p) :
    ∃ p', w'.gov.proposals.lookup k = some p' ∧ SameBallot p p' := by
  cases change h with
  | role => exact ⟨p, hp, .refl p⟩
  | gov _ _ hgov => exact Governance.proposal_step hgov hp

theorem vote_step (h : w.exec sha256 tx = .ok w') {vk : VotePda} {v : VoteRecord}
    (hv : w.gov.votes.lookup vk = some v) : w'.gov.votes.lookup vk = some v := by
  cases change h with
  | role => exact hv
  | gov _ _ hgov => exact Governance.vote_step hgov hv

end Protocol

/-! ## A first organisation -/

/-- An injective hash on numbers, never zero, to run the system with. -/
def natHash : Sha256 Nat
  | .leaf (voter, balance) => 2 * Nat.pair voter.toNat balance + 1
  | .node a b => 2 * Nat.pair a b + 2

theorem natHash_injective : Function.Injective natHash := by
  intro p q h
  cases p with
  | leaf l =>
    cases q with
    | leaf l' =>
      simp only [natHash] at h
      have hpair : Nat.pair l.1.toNat l.2 = Nat.pair l'.1.toNat l'.2 := by omega
      obtain ⟨hv, hb⟩ := Nat.pair_eq_pair.1 hpair
      rw [Prod.ext (BitVec.eq_of_toNat_eq hv) hb]
    | node a b =>
      simp only [natHash] at h
      omega
  | node a b =>
    cases q with
    | leaf l' =>
      simp only [natHash] at h
      omega
    | node a' b' =>
      simp only [natHash] at h
      have hpair : Nat.pair a b = Nat.pair a' b' := by omega
      obtain ⟨rfl, rfl⟩ := Nat.pair_eq_pair.1 hpair
      rfl

def creation : Env := { trusts := AList.singleton 1 ⟨1, 9, true, false, 0⟩ }

def anyMajority : GovernanceConfigInput := ⟨0, 1, 1, 1000, 0, true⟩

/-- Trust 1 gets role type 7 with role 5, held by account 9, a governance module
with the config of that role type and proposal 3 under it. -/
def rolePoll : List (ProtocolTx Nat) :=
  Roles.bootstrap.map (fun tx => { clock := tx.clock, ix := .role tx.ix }) ++
    [⟨⟨11, 101⟩, creation, .gov (.init 1 9)⟩,
     ⟨⟨11, 101⟩, creation, .gov (.registerConfig 1 9 7 anyMajority)⟩,
     ⟨⟨11, 101⟩, creation, .gov (.propose ⟨1, 9, some ⟨1, 7⟩⟩ 3 7 0)⟩]

end Aeqi.Governance
