import Aeqi.Governance.Tally

/-!
# aeqi_governance: the two voting modes

A proposal under the config id `[0; 32]` is decided in tokens, every other one in
roles of the type its config names. `execute_proposal` reads the supply in the
unit of the proposal. The two ways to vote do not ask for the mode: `InMode` says
that a vote is cast the way of its proposal, and along runs of such votes the
units never mix.
-/

namespace Aeqi.Governance

open Aeqi.Lib Aeqi.Lib.Accounts Aeqi.Solana Option

inductive VoteUnit
  | roles
  | tokens
  deriving DecidableEq

def Proposal.unit {D : Type} (p : Proposal D) : VoteUnit :=
  if p.governanceConfigId = TOKEN_VOTING_CONFIG_ID then .tokens else .roles

def SupplyAccount.unit : SupplyAccount → Option VoteUnit
  | .mint _ => some .tokens
  | .roleType _ => some .roles
  | .other _ => none

def GovIx.cast {D : Type} : GovIx D → Option (CastVote × VoteUnit)
  | .castVoteRole a _ => some (a, .roles)
  | .castVoteToken a _ _ _ => some (a, .tokens)
  | _ => none

def ProtocolTx.cast {D : Type} (tx : ProtocolTx D) : Option (CastVote × VoteUnit) :=
  match tx.ix with
  | .role _ => none
  | .gov ix => ix.cast

theorem SameBallot.unit {D : Type} {p p' : Proposal D} (h : SameBallot p p') :
    p'.unit = p.unit := by
  rw [Proposal.unit, Proposal.unit, h.config]

def InMode {D : Type} (w : Protocol D) (tx : ProtocolTx D) : Prop :=
  ∀ c ∈ tx.cast, ∀ p ∈ w.gov.proposals.lookup c.1.proposal, p.unit = c.2

instance {D : Type} (w : Protocol D) (tx : ProtocolTx D) : Decidable (InMode w tx) := by
  unfold InMode
  infer_instance

section Backed

variable {D : Type} [LinearOrder D] (sha256 : Sha256 D)

/-- What stands for `n` votes of `voter` on a proposal: the count of the voter's
checkpoint of the proposal's role type, or a balance proved against the root. -/
def Evidence (w : Protocol D) (p : Proposal D) (voter : Pubkey) (n : Nat) : Prop :=
  match p.unit with
  | .roles => ∃ c, w.roles.checkpoints.lookup ⟨p.trust, p.governanceConfigId, voter⟩ = some c ∧
      c.account = voter ∧ c.count = n
  | .tokens => ∃ merkleProof,
      verifyMerkleProof sha256 (tokenVoteLeaf sha256 voter n) merkleProof p.snapshotRoot = true

/-- The counters of every proposal moved only by a vote, on the choice and by the
weight of that vote, and with evidence in the proposal's unit. -/
def TallyBacked (w : Protocol D) (tx : ProtocolTx D) (w' : Protocol D) : Prop :=
  ∀ k p p', w.gov.proposals.lookup k = some p → w'.gov.proposals.lookup k = some p' →
    SameTally p p' ∨ ∃ a u choice n, tx.cast = some (a, u) ∧ a.proposal = k ∧
      applyVoteTally p choice n = .ok p' ∧ Evidence sha256 w p a.voter n

end Backed

section Modes

variable {D : Type} [LinearOrder D] [Zero D] {sha256 : Sha256 D} {w w' : Protocol D}
  {tx : ProtocolTx D}

theorem exists_of_cast (h : w.exec sha256 tx = .ok w') {a : CastVote} {u : VoteUnit}
    (hcast : tx.cast = some (a, u)) : ∃ p, w.gov.proposals.lookup a.proposal = some p := by
  cases Protocol.change h with
  | role hix => simp [ProtocolTx.cast, hix] at hcast
  | gov hix _ hgov =>
    simp only [ProtocolTx.cast, hix] at hcast
    cases change hgov with
    | quiet _ _ hix' =>
      rcases hix' with ⟨_, _, rfl⟩ | ⟨_, _, _, _, rfl⟩ <;> cases hcast
    | proposed hix' | committed hix' | executed hix' =>
      subst hix'
      cases hcast
    | @voted a' p _ _ _ hk _ _ hwhy =>
      have ha : a' = a := by cases hwhy <;> cases hcast <;> rfl
      exact ⟨p, ha ▸ hk⟩

/-- **One transaction.** A vote cast in mode moves the counters with evidence. -/
theorem tallyBacked_step (h : w.exec sha256 tx = .ok w') (hmode : InMode w tx) :
    TallyBacked sha256 w tx w' := by
  intro k p p' hp hp'
  have hsame : ∀ {k₁ : ProposalPda} {p₁ p₁' : Proposal D}, w.gov.proposals.lookup k₁ = some p₁ →
      w'.gov.proposals = w.gov.proposals.insert k₁ p₁' → SameTally p₁ p₁' → SameTally p p' := by
    intro k₁ p₁ p₁' hk₁ hw' htally
    rw [hw'] at hp'
    rcases lookup_insert_some hp' with ⟨rfl, rfl⟩ | ⟨-, hp'⟩
    · obtain rfl : p₁ = p := some.inj (hk₁.symm.trans hp)
      exact htally
    · obtain rfl : p = p' := some.inj (hp.symm.trans hp')
      exact ⟨rfl, rfl, rfl⟩
  cases Protocol.change h with
  | role =>
    obtain rfl : p = p' := some.inj (hp.symm.trans hp')
    exact .inl ⟨rfl, rfl, rfl⟩
  | gov hix _ hgov =>
    cases change hgov with
    | quiet hs' =>
      rw [hs', hp, Option.some.injEq] at hp'
      exact .inl (hp' ▸ ⟨rfl, rfl, rfl⟩)
    | @proposed _ _ _ _ p₁ _ hfree hs' =>
      have hne : k ≠ ⟨p₁.trust, p₁.proposalId⟩ := by
        rintro rfl
        rw [hfree] at hp
        cases hp
      rw [hs', AList.lookup_insert_ne hne, hp, Option.some.injEq] at hp'
      exact .inl (hp' ▸ ⟨rfl, rfl, rfl⟩)
    | @voted a p₁ p₁' choice n hk _ _ hwhy _ happly hs' =>
      rw [hs'] at hp'
      rcases lookup_insert_some hp' with ⟨rfl, rfl⟩ | ⟨-, hp'⟩
      · obtain rfl : p₁ = p := some.inj (hk.symm.trans hp)
        refine .inr ?_
        cases hwhy with
        | @checkpoint c hc haccount _ hn =>
          have hcast : tx.cast = some (a, .roles) := by rw [ProtocolTx.cast, hix]; rfl
          have hunit : p₁.unit = .roles := hmode _ hcast _ hk
          refine ⟨a, _, choice, n, hcast, rfl, happly, ?_⟩
          rw [Evidence, hunit]
          exact ⟨c, hc, haccount, hn⟩
        | @proof merkleProof _ hproof =>
          have hcast : tx.cast = some (a, .tokens) := by rw [ProtocolTx.cast, hix]; rfl
          have hunit : p₁.unit = .tokens := hmode _ hcast _ hk
          refine ⟨a, _, choice, n, hcast, rfl, happly, ?_⟩
          rw [Evidence, hunit]
          exact ⟨merkleProof, hproof⟩
      · obtain rfl : p = p' := some.inj (hp.symm.trans hp')
        exact .inl ⟨rfl, rfl, rfl⟩
    | committed _ hk _ _ _ _ htally hs' | executed _ hk _ _ _ htally hs' =>
      exact .inl (hsame hk hs' htally)

def CastsInMode (hist : List (Protocol D × ProtocolTx D)) (w : Protocol D) : Prop :=
  ∀ e ∈ hist, ∀ a u, e.2.cast = some (a, u) →
    ∃ p, w.gov.proposals.lookup a.proposal = some p ∧ p.unit = u

theorem CastsInMode.of_run {hist : List (Protocol D × ProtocolTx D)}
    (run : Run (Guarded InMode (okStep (Protocol.exec sha256))) .init hist w) :
    CastsInMode hist w := by
  induction run with
  | nil =>
    intro e he
    cases he
  | @step hist t t' tx run hstep ih =>
    obtain ⟨hmode, hstep⟩ := hstep
    intro e he a u hcast
    have hold : ∃ p, t.gov.proposals.lookup a.proposal = some p ∧ p.unit = u := by
      rcases List.mem_cons.1 he with rfl | he
      · obtain ⟨p, hp⟩ := exists_of_cast hstep hcast
        exact ⟨p, hp, hmode _ hcast p hp⟩
      · exact ih e he a u hcast
    obtain ⟨p, hp, hunit⟩ := hold
    obtain ⟨p', hp', hsame⟩ := Protocol.proposal_step hstep hp
    exact ⟨p', hp', hsame.unit.trans hunit⟩

theorem supply_unit (h : w.exec sha256 tx = .ok w') {a : ExecuteProposal}
    (hix : tx.ix = .gov (.executeProposal a)) :
    ∃ p acct, w.gov.proposals.lookup a.proposal = some p ∧ a.voteSupply = some acct ∧
      acct.unit = some p.unit := by
  cases Protocol.change h with
  | role hix' =>
    rw [hix] at hix'
    cases hix'
  | gov hix' _ hgov =>
    rw [hix] at hix'
    cases hix'
    obtain ⟨p, acct, supply, hp, -, hacct, hsupply, -⟩ := executeProposal_ok hgov
    refine ⟨p, acct, hp, hacct, ?_⟩
    rcases loadTotalVoteSupply_ok hsupply with ⟨hmode, rfl, -⟩ | ⟨hmode, rfl, -⟩
    · rw [SupplyAccount.unit, Proposal.unit, if_pos hmode]
    · rw [SupplyAccount.unit, Proposal.unit, if_neg hmode]

/-- **The modes stay apart** after any run of votes cast in mode. -/
theorem modes_apart_of_run {hist : List (Protocol D × ProtocolTx D)}
    (run : Run (Guarded InMode (okStep (Protocol.exec sha256))) .init hist w) :
    (∀ tx w', w.exec sha256 tx = .ok w' → InMode w tx → TallyBacked sha256 w tx w') ∧
    ∀ tx w' a, w.exec sha256 tx = .ok w' → tx.ix = .gov (.executeProposal a) →
      ∃ acct u, a.voteSupply = some acct ∧ acct.unit = some u ∧
        ∀ e ∈ hist, ∀ c u', e.2.cast = some (c, u') → c.proposal = a.proposal → u' = u := by
  refine ⟨fun tx w' h hmode => tallyBacked_step h hmode, ?_⟩
  intro tx w' a h hix
  obtain ⟨p, acct, hp, hacct, hunit⟩ := supply_unit h hix
  refine ⟨acct, p.unit, hacct, hunit, fun e he c u' hcast hproposal => ?_⟩
  obtain ⟨p', hp', rfl⟩ := CastsInMode.of_run run e he c u' hcast
  rw [hproposal, hp, Option.some.injEq] at hp'
  rw [hp']

/-- **The tally is the recorded votes** in every run, and a recorded vote stays as it is. -/
theorem tally_of_votes {hist hist' : List (Protocol D × ProtocolTx D)} {k : ProposalPda}
    {p : Proposal D} (run : Run (okStep (Protocol.exec sha256)) .init hist w)
    (hp : w.gov.proposals.lookup k = some p)
    (later : Run (okStep (Protocol.exec sha256)) w hist' w') :
    p.tally = ∑ voter ∈ votersOn w.gov k, weightOn w.gov k voter ∧
      ∀ vk v, w.gov.votes.lookup vk = some v → w'.gov.votes.lookup vk = some v := by
  have hwf := run.invariant Protocol.Wf.init fun _ _ _ hwf h => hwf.step h
  refine ⟨(hwf.gov.tally hp).trans (votesOn_eq_sum w.gov k), fun vk v hv => ?_⟩
  exact later.invariant (P := fun t => t.gov.votes.lookup vk = some v) hv
    fun _ _ _ hv h => Protocol.vote_step h hv

end Modes

def roleVote : ProtocolTx Nat := ⟨⟨12, 102⟩, {}, .gov (.castVoteRole ⟨⟨1, 3⟩, 9⟩ 1)⟩

theorem roleVote_backed : ∃ w w', execAll (Protocol.exec natHash) .init rolePoll = .ok w ∧
    w.exec natHash roleVote = .ok w' ∧ TallyBacked natHash w roleVote w' := by
  have hpoll : AllGood InMode (Protocol.exec natHash) .init rolePoll := by decide
  have hvote : ((execAll (Protocol.exec natHash) .init rolePoll).toOption.map fun w =>
      ((w.exec natHash roleVote).isOk, decide (InMode w roleVote))) = some (true, true) := by
    decide
  obtain ⟨hist, w, hw, run⟩ := Run.of_allGood .nil hpoll
  obtain ⟨w₁, hw₁, hvote⟩ := toOption_map_eq_some.1 hvote
  obtain rfl : w = w₁ := Except.ok.inj (hw.symm.trans hw₁)
  obtain ⟨hok, hmode⟩ := Prod.mk.inj hvote
  obtain ⟨w', hw'⟩ := isOk_eq_true.1 hok
  exact ⟨w, w', hw, hw', (modes_apart_of_run run).1 _ w' hw' (of_decide_eq_true hmode)⟩

theorem roleVote_tally : ∃ w p, execAll (Protocol.exec natHash) .init (rolePoll ++ [roleVote]) =
      .ok w ∧ w.gov.proposals.lookup ⟨1, 3⟩ = some p ∧
    p.tally = ∑ voter ∈ votersOn w.gov ⟨1, 3⟩, weightOn w.gov ⟨1, 3⟩ voter := by
  have hpoll : (execAll (Protocol.exec natHash) .init (rolePoll ++ [roleVote])).toOption.map
      (fun w => (w.gov.proposals.lookup ⟨1, 3⟩).isSome) = some true := by decide
  obtain ⟨w, hw, hsome⟩ := toOption_map_eq_some.1 hpoll
  obtain ⟨p, hp⟩ := isSome_iff_exists.1 hsome
  obtain ⟨hist, run⟩ := Run.execAll hw
  exact ⟨w, p, hw, hp, (tally_of_votes run hp .nil).1⟩

/-- Account 66 holds no role. It commits a tree of one leaf, its own, for the
proposal that is decided in roles, and proves a balance of 1000 against it. -/
def forgedRoot : ProtocolTx Nat :=
  ⟨⟨12, 102⟩, {}, .gov (.commitSnapshotRoot ⟨⟨1, 3⟩, 66⟩ (natHash (.leaf (66, 1000))) 0)⟩

def forgedVote : ProtocolTx Nat :=
  ⟨⟨12, 102⟩, {}, .gov (.castVoteToken ⟨⟨1, 3⟩, 66⟩ 1 1000 [])⟩

theorem not_tallyBacked : ¬ ∀ hist w, Run (okStep (Protocol.exec natHash)) .init hist w →
    ∀ tx w', w.exec natHash tx = .ok w' → TallyBacked natHash w tx w' := by
  intro hall
  have hruns : ((execAll (Protocol.exec natHash) .init (rolePoll ++ [forgedRoot])).toOption.map
      fun w => (((w.exec natHash forgedVote).toOption.map fun w' =>
        (w'.gov.proposals.lookup ⟨1, 3⟩).map Proposal.forVotes),
        (w.gov.proposals.lookup ⟨1, 3⟩).map fun p =>
          (p.forVotes, p.unit, w.roles.checkpoints.lookup
            ⟨p.trust, p.governanceConfigId, 66⟩))) =
      some (some (some 1000), some (0, .roles, none)) := by decide
  obtain ⟨w, hw, hruns⟩ := toOption_map_eq_some.1 hruns
  obtain ⟨hafter, hbefore⟩ := Prod.mk.inj hruns
  obtain ⟨w', hw', hafter⟩ := toOption_map_eq_some.1 hafter
  obtain ⟨p', hp', hfor'⟩ := Option.map_eq_some_iff.1 hafter
  obtain ⟨p, hp, hbefore⟩ := Option.map_eq_some_iff.1 hbefore
  simp only [Prod.mk.injEq] at hbefore
  obtain ⟨hfor, hunit, hnone⟩ := hbefore
  obtain ⟨hist, run⟩ := Run.execAll hw
  rcases hall hist w run forgedVote w' hw' _ p p' hp hp' with hsame | ⟨a, u, c, n, hcast, -, -, he⟩
  · have hfor'' := hsame.forVotes
    omega
  · have ha : a = ⟨⟨1, 3⟩, 66⟩ := by
      cases hcast
      rfl
    rw [Evidence, hunit, ha] at he
    obtain ⟨ckpt, hckpt, -⟩ := he
    rw [hnone] at hckpt
    cases hckpt

end Aeqi.Governance
