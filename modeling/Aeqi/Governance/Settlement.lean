import Aeqi.Governance.CapTable

/-!
# When a proposal is settled

`execute_proposal` compares with ceilings in 128 bits. Where nothing overflows (`Fits`) it
succeeds exactly when the quorum, the support and the times meet the rational inequalities
(`Settles`), with the accounts of the proposal passed and a supply to measure by. A proposal is
executed once, and from then on its tallies stand.
-/

namespace Aeqi.Governance

open Aeqi.Lib Aeqi.Lib.Accounts Aeqi.Solana Option
open Aeqi.Roles (RoleState)

/-! ## The conditions -/

section Conditions

variable {D : Type}

def Proposal.supplyAccount (p : Proposal D) : SupplyAccount :=
  if p.governanceConfigId = TOKEN_VOTING_CONFIG_ID then
    .mint p.trust
  else
    .roleType ⟨p.trust, p.governanceConfigId⟩

def Proposal.supply (env : Env) (roles : RoleState) (p : Proposal D) : Option Nat :=
  if p.governanceConfigId = TOKEN_VOTING_CONFIG_ID then
    env.mints.lookup p.trust
  else
    (roles.roleTypes.lookup ⟨p.trust, p.governanceConfigId⟩).map (·.roleCount)

/-- No step of the computation leaves its machine word. -/
structure Fits (p : Proposal D) (cfg : GovernanceConfig) (supply : Nat) : Prop where
  participating : p.forVotes + p.abstainVotes < 2 ^ 128
  decisive : p.forVotes + p.againstVotes < 2 ^ 128
  quorum : supply * cfg.quorumBps + 9999 < 2 ^ 128
  support : (p.forVotes + p.againstVotes) * cfg.supportBps + 9999 < 2 ^ 128
  voteEnd : -2 ^ 63 ≤ p.voteStart + p.voteDuration ∧ p.voteStart + p.voteDuration < 2 ^ 63
  readyAt : 0 < cfg.executionDelay →
    -2 ^ 63 ≤ p.voteStart + p.voteDuration + cfg.executionDelay ∧
      p.voteStart + p.voteDuration + cfg.executionDelay < 2 ^ 63

/-- What a proposal has to meet at a time. -/
structure Settles (p : Proposal D) (cfg : GovernanceConfig) (supply : Nat) (now : Int) : Prop where
  notExecuted : p.executed = false
  notCanceled : p.canceled = false
  ended : p.voteStart + p.voteDuration ≤ now ∨ cfg.allowEarlyEnact = true
  quorum : supply * cfg.quorumBps ≤ (p.forVotes + p.abstainVotes) * 10000
  decisive : 0 < p.forVotes + p.againstVotes
  support : (p.forVotes + p.againstVotes) * cfg.supportBps ≤ p.forVotes * 10000
  delayed : 0 < cfg.executionDelay →
    p.voteStart + p.voteDuration + cfg.executionDelay ≤ now

end Conditions

/-! ## Exactness -/

section Exact

variable {D : Type} {s s' : GovState D} {env : Env} {roles : RoleState} {clock : Clock}
  {k : ProposalPda} {p : Proposal D} {a : ExecuteProposal} {acct : SupplyAccount} {n q : Nat}

theorem checkedBpsCeil_ok {value bps : Nat} : checkedBpsCeil value bps = .ok q ↔
    value * bps + 9999 < 2 ^ 128 ∧ (value * bps + 9999) / 10000 = q := by
  simp only [checkedBpsCeil, bind_eq_ok, okOr_eq_ok, checkedMul_eq_some, checkedAdd_eq_some,
    checkedDiv_eq_some]
  constructor
  · rintro ⟨_, ⟨-, rfl⟩, _, ⟨hlt, rfl⟩, -, rfl⟩
    exact ⟨hlt, rfl⟩
  · rintro ⟨hlt, rfl⟩
    exact ⟨_, ⟨by omega, rfl⟩, _, ⟨hlt, rfl⟩, by decide, rfl⟩

theorem ceil_le {x y : Nat} : (x + 9999) / 10000 ≤ y ↔ x ≤ y * 10000 := by omega

theorem loadTotalVoteSupply_iff (hroles : Roles.Wf roles) :
    loadTotalVoteSupply env roles p acct = .ok n ↔
      acct = p.supplyAccount ∧ p.supply env roles = some n ∧ 0 < n := by
  unfold loadTotalVoteSupply Proposal.supplyAccount Proposal.supply
  by_cases hmode : p.governanceConfigId = TOKEN_VOTING_CONFIG_ID
  · simp only [if_pos hmode, loadTokenVoteSupply, bind_eq_ok, require_eq_ok, exists_punit,
      okOr_eq_ok, pure_eq_ok]
    constructor
    · rintro ⟨hacct, _, hn, hpos, rfl⟩
      exact ⟨hacct, hn, hpos⟩
    · rintro ⟨hacct, hn, hpos⟩
      exact ⟨hacct, n, hn, hpos, rfl⟩
  · simp only [if_neg hmode, loadRoleVoteSupply, bind_eq_ok, require_eq_ok, exists_punit,
      okOr_eq_ok, pure_eq_ok, map_eq_some_iff]
    constructor
    · rintro ⟨hacct, rt, hrt, -, -, hpos, rfl⟩
      exact ⟨hacct, ⟨rt, hrt, rfl⟩, hpos⟩
    · rintro ⟨hacct, ⟨rt, hrt, rfl⟩, hpos⟩
      obtain ⟨htrust, hid, -⟩ := hroles.roleType hrt
      exact ⟨hacct, rt, hrt, htrust, hid, hpos, rfl⟩

def ConfigsWf (s : GovState D) : Prop :=
  ∀ k cfg, s.configs.lookup k = some cfg → k = ⟨cfg.trust, cfg.governanceConfigId⟩

theorem loadGovernanceConfig_iff (hwf : ConfigsWf s) {acct : ConfigPda} {trust : Pubkey}
    {id : Bytes32} {cfg : GovernanceConfig} :
    loadGovernanceConfig s acct trust id = .ok cfg ↔
      acct = ⟨trust, id⟩ ∧ s.configs.lookup ⟨trust, id⟩ = some cfg := by
  simp only [loadGovernanceConfig, bind_eq_ok, require_eq_ok, exists_punit, okOr_eq_ok, pure_eq_ok]
  constructor
  · rintro ⟨rfl, _, hcfg, -, -, rfl⟩
    exact ⟨rfl, hcfg⟩
  · rintro ⟨rfl, hcfg⟩
    have hkey := hwf _ _ hcfg
    rw [ConfigPda.mk.injEq] at hkey
    exact ⟨rfl, cfg, hcfg, hkey.1.symm, hkey.2.symm, rfl⟩

theorem delay_ok {σ : Type} {t t' : σ} {voteEnd delay now : Int} :
    ((if 0 < delay then do
        let executionReadyAt ← okOr (checkedAddI64 voteEnd delay) (.custom .mathOverflow)
        require (executionReadyAt ≤ now) (.custom .executionDelayNotMet)
        pure t
      else pure t : Except GovError σ) = .ok t') ↔
      (0 < delay → (-2 ^ 63 ≤ voteEnd + delay ∧ voteEnd + delay < 2 ^ 63) ∧
        voteEnd + delay ≤ now) ∧ t = t' := by
  split
  · next hpos =>
    simp only [bind_eq_ok, require_eq_ok, exists_punit, okOr_eq_ok, checkedAddI64_eq_some,
      pure_eq_ok]
    constructor
    · rintro ⟨_, ⟨hfits, rfl⟩, hready, rfl⟩
      exact ⟨fun _ => ⟨hfits, hready⟩, rfl⟩
    · rintro ⟨hdelay, rfl⟩
      exact ⟨_, ⟨(hdelay hpos).1, rfl⟩, (hdelay hpos).2, rfl⟩
  · next hnone =>
    rw [pure_eq_ok]
    exact ⟨fun h => ⟨fun hpos => absurd hpos hnone, h⟩, fun h => h.2⟩

theorem executeProposal_iff (hroles : Roles.Wf roles) (hconfigs : ConfigsWf s)
    (hk : s.proposals.lookup a.proposal = some p) (hkey : a.proposal = ⟨p.trust, p.proposalId⟩) :
    (∃ s', executeProposal s env roles clock a = .ok s') ↔ ∃ cfg supply,
      a.config = some ⟨p.trust, p.governanceConfigId⟩ ∧
      s.configs.lookup ⟨p.trust, p.governanceConfigId⟩ = some cfg ∧
      a.voteSupply = some p.supplyAccount ∧ p.supply env roles = some supply ∧ 0 < supply ∧
      Fits p cfg supply ∧ Settles p cfg supply clock.unixTimestamp := by
  have hload : loadProposal s a.proposal = .ok p := loadProposal_ok.2 ⟨hk, hkey⟩
  simp only [executeProposal, proposalVoteEnd, bind_eq_ok, require_eq_ok, exists_punit, okOr_eq_ok,
    loadGovernanceConfig_iff hconfigs, loadTotalVoteSupply_iff hroles, checkedBpsCeil_ok,
    checkedAdd_eq_some, checkedAddI64_eq_some, hload, Except.ok.injEq, exists_eq_left', delay_ok]
  constructor
  · rintro ⟨-, hexecuted, hcanceled, _, hacct, cfg, ⟨rfl, hcfg⟩, _, hsupplyAcct,
      supply, ⟨rfl, hsupply, hpos⟩, _, ⟨hend, rfl⟩, hended, _, ⟨hpart, rfl⟩, _, ⟨hquorumFits, rfl⟩,
      hquorum, _, ⟨hdecFits, rfl⟩, hdecisive, _, ⟨hsupportFits, rfl⟩, hsupport, hdelay, -⟩
    exact ⟨cfg, supply, hacct, hcfg, hsupplyAcct, hsupply, hpos,
      ⟨hpart, hdecFits, hquorumFits, hsupportFits, hend, fun h => (hdelay h).1⟩,
      ⟨hexecuted, hcanceled, hended, ceil_le.1 hquorum, hdecisive, ceil_le.1 hsupport,
        fun h => (hdelay h).2⟩⟩
  · rintro ⟨cfg, supply, hacct, hcfg, hsupplyAcct, hsupply, hpos, hfits, hsettles⟩
    exact ⟨_, hsettles.notExecuted, hsettles.notCanceled, _, hacct, cfg, ⟨rfl, hcfg⟩, _,
      hsupplyAcct, supply, ⟨rfl, hsupply, hpos⟩, _, ⟨hfits.voteEnd, rfl⟩, hsettles.ended, _,
      ⟨hfits.participating, rfl⟩, _, ⟨hfits.quorum, rfl⟩, ceil_le.2 hsettles.quorum, _,
      ⟨hfits.decisive, rfl⟩, hsettles.decisive, _, ⟨hfits.support, rfl⟩,
      ceil_le.2 hsettles.support, fun h => ⟨hfits.readyAt h, hsettles.delayed h⟩, rfl⟩

end Exact

/-! ## Finality -/

/-- The instruction executes the proposal at `k`. -/
def GovIx.executes {D : Type} (k : ProposalPda) : GovIx D → Bool
  | .executeProposal a => a.proposal == k
  | _ => false

/-- What one instruction does to the proposal at `k`. -/
inductive BallotMoved {D : Type} (k : ProposalPda) (ix : GovIx D) :
    Option (Proposal D) → Option (Proposal D) → Prop
  | kept {o : Option (Proposal D)} (hix : ix.executes k = false) : BallotMoved k ix o o
  | proposed {p : Proposal D} (hopen : p.executed = false) (hix : ix.executes k = false) :
      BallotMoved k ix none (some p)
  | voted {p p' : Proposal D} (hopen : p.executed = false) (hopen' : p'.executed = false)
      (hix : ix.executes k = false) : BallotMoved k ix (some p) (some p')
  | committed {p p' : Proposal D} (hsame : p'.executed = p.executed) (htally : SameTally p p')
      (hix : ix.executes k = false) : BallotMoved k ix (some p) (some p')
  | executed {p p' : Proposal D} (hopen : p.executed = false) (hdone : p'.executed = true)
      (htally : SameTally p p') (hix : ix.executes k = true) : BallotMoved k ix (some p) (some p')

section Finality

variable {D : Type} [LinearOrder D] [Zero D] {sha256 : Sha256 D} {s s' : GovState D} {env : Env}
  {roles : RoleState} {clock : Clock} {ix : GovIx D} {k k' : ProposalPda} {p p' : Proposal D}
  {choice w : Nat}

omit [LinearOrder D] [Zero D] in
theorem requireVoteOpen_ok {now : Int} {u : Unit} (h : requireVoteOpen p now = .ok u) :
    p.executed = false := by
  simp only [requireVoteOpen, bind_eq_ok, require_eq_ok, exists_punit] at h
  exact h.1

omit [LinearOrder D] [Zero D] in
theorem applyVoteTally_executed (h : applyVoteTally p choice w = .ok p') :
    p'.executed = p.executed := by
  simp only [applyVoteTally, bind_eq_ok, require_eq_ok, exists_punit] at h
  obtain ⟨-, h⟩ := h
  split at h <;>
    simp only [bind_eq_ok, okOr_eq_ok, pure_eq_ok] at h <;>
    obtain ⟨_, -, rfl⟩ := h <;>
    rfl

omit [LinearOrder D] [Zero D] in
theorem BallotMoved.insert {proposals : Accounts ProposalPda (Proposal D)}
    (hother : k' ≠ k → ix.executes k = false)
    (hmoved : k' = k → BallotMoved k ix (proposals.lookup k) (some p')) :
    BallotMoved k ix (proposals.lookup k) ((proposals.insert k' p').lookup k) := by
  by_cases hk : k' = k
  · subst hk
    rw [AList.lookup_insert]
    exact hmoved rfl
  · rw [AList.lookup_insert_ne (Ne.symm hk)]
    exact .kept (hother hk)

omit [LinearOrder D] [Zero D] in
theorem castVoteRole_open {a : CastVote} (h : castVoteRole s roles clock a choice = .ok s') :
    ∃ p p', s.proposals.lookup a.proposal = some p ∧ p.executed = false ∧
      p'.executed = false ∧ s'.proposals = s.proposals.insert a.proposal p' := by
  simp only [castVoteRole, bind_eq_ok, loadProposal_ok, requireFree_eq_ok, require_eq_ok,
    exists_punit, okOr_eq_ok, pure_eq_ok] at h
  obtain ⟨p, ⟨hk, -⟩, -, _, -, -, -, -, -, hvote, p', happly, rfl⟩ := h
  have hopen := requireVoteOpen_ok hvote
  exact ⟨p, p', hk, hopen, (applyVoteTally_executed happly).trans hopen, rfl⟩

theorem castVoteToken_open {a : CastVote} {balance : Nat} {merkleProof : List D}
    (h : castVoteToken sha256 s clock a choice balance merkleProof = .ok s') :
    ∃ p p', s.proposals.lookup a.proposal = some p ∧ p.executed = false ∧
      p'.executed = false ∧ s'.proposals = s.proposals.insert a.proposal p' := by
  simp only [castVoteToken, bind_eq_ok, loadProposal_ok, exists_punit, pure_eq_ok] at h
  obtain ⟨p, ⟨hk, -⟩, -, -, -, -, hvote, p', happly, rfl⟩ := h
  have hopen := requireVoteOpen_ok hvote
  exact ⟨p, p', hk, hopen, (applyVoteTally_executed happly).trans hopen, rfl⟩

omit [LinearOrder D] [Zero D] in
theorem executeProposal_open {a : ExecuteProposal}
    (h : executeProposal s env roles clock a = .ok s')
    (hk : s.proposals.lookup a.proposal = some p) : p.executed = false := by
  simp only [executeProposal, bind_eq_ok, loadProposal_ok, require_eq_ok, exists_punit] at h
  obtain ⟨p', ⟨hk', -⟩, hopen, -⟩ := h
  obtain rfl : p = p' := some.inj (hk.symm.trans hk')
  exact hopen

theorem ballot_moved (h : s.exec sha256 env roles clock ix = .ok s') (k : ProposalPda) :
    BallotMoved k ix (s.proposals.lookup k) (s'.proposals.lookup k) := by
  have vote : ∀ {a : CastVote}, ix.executes k = false →
      (∃ p p', s.proposals.lookup a.proposal = some p ∧ p.executed = false ∧
        p'.executed = false ∧ s'.proposals = s.proposals.insert a.proposal p') →
      BallotMoved k ix (s.proposals.lookup k) (s'.proposals.lookup k) := by
    rintro a hix ⟨p, p', hp, hopen, hopen', hs'⟩
    rw [hs']
    refine .insert (fun _ => hix) ?_
    rintro rfl
    rw [hp]
    exact .voted hopen hopen' hix
  unfold GovState.exec at h
  cases ix with
  | init trust payer =>
    simp only [init, bind_eq_ok, exists_punit, pure_eq_ok] at h
    obtain ⟨_, -, -, -, -, rfl⟩ := h
    exact .kept rfl
  | registerConfig trust payer id config =>
    simp only [registerConfig, bind_eq_ok, exists_punit, pure_eq_ok] at h
    obtain ⟨_, -, _, -, -, -, -, -, -, -, -, _, -, rfl⟩ := h
    exact .kept rfl
  | propose a id configId cid =>
    simp only [propose, bind_eq_ok, requireFree_eq_ok, exists_punit, pure_eq_ok] at h
    obtain ⟨_, -, hfree, _, -, _, -, _, -, rfl⟩ := h
    refine .insert (fun _ => rfl) ?_
    rintro rfl
    rw [hfree]
    exact .proposed rfl rfl
  | castVoteRole a choice => exact vote rfl (castVoteRole_open h)
  | castVoteToken a choice balance merkleProof => exact vote rfl (castVoteToken_open h)
  | commitSnapshotRoot a root total =>
    simp only [commitSnapshotRoot, bind_eq_ok, loadProposal_ok, exists_punit, pure_eq_ok] at h
    obtain ⟨p, ⟨hp, -⟩, -, -, -, rfl⟩ := h
    refine .insert (fun _ => rfl) ?_
    rintro rfl
    rw [hp]
    exact .committed rfl ⟨rfl, rfl, rfl⟩ rfl
  | executeProposal a =>
    obtain ⟨p, _, _, hp, -, -, -, hs'⟩ := executeProposal_ok h
    have hopen := executeProposal_open h hp
    rw [hs']
    refine .insert (fun hne => beq_false_of_ne hne) ?_
    rintro rfl
    rw [hp]
    exact .executed hopen rfl ⟨rfl, rfl, rfl⟩ (beq_self_eq_true a.proposal)
  | castVote a choice weight => simp [castVote, bind_eq_ok] at h

omit [LinearOrder D] [Zero D] in
theorem SameTally.trans {p'' : Proposal D} (h : SameTally p p') (h' : SameTally p' p'') :
    SameTally p p'' :=
  ⟨h'.1.trans h.1, h'.2.trans h.2, h'.3.trans h.3⟩

def done {D : Type} : Option (Proposal D) → Bool
  | some p => p.executed
  | none => false

omit [LinearOrder D] [Zero D] in
theorem BallotMoved.done {o o' : Option (Proposal D)} (h : BallotMoved k ix o o') :
    (done o').toNat = (done o).toNat + (ix.executes k).toNat := by
  cases h with
  | kept hix => rw [hix]; rfl
  | proposed hopen hix => simp [Governance.done, hopen, hix]
  | voted hopen hopen' hix => simp [Governance.done, hopen, hopen', hix]
  | committed hsame _ hix => simp [Governance.done, hsame, hix]
  | executed hopen hdone _ hix => simp [Governance.done, hopen, hdone, hix]

omit [LinearOrder D] [Zero D] in
theorem BallotMoved.final {o' : Option (Proposal D)} (hdone : p.executed = true)
    (h : BallotMoved k ix (some p) o') :
    ∃ p', o' = some p' ∧ p'.executed = true ∧ SameTally p p' := by
  cases h with
  | kept _ => exact ⟨p, rfl, hdone, ⟨rfl, rfl, rfl⟩⟩
  | voted hopen _ _ | executed hopen _ _ _ =>
    rw [hdone] at hopen
    cases hopen
  | committed hsame htally _ => exact ⟨_, rfl, hsame.trans hdone, htally⟩

/-- Only `register_config` writes a config, and at its own address. -/
theorem configs_step (hwf : ConfigsWf s) (h : s.exec sha256 env roles clock ix = .ok s') :
    ConfigsWf s' := by
  unfold GovState.exec at h
  cases ix with
  | init trust payer =>
    simp only [init, bind_eq_ok, pure_eq_ok] at h
    obtain ⟨_, -, _, -, _, -, _, -, rfl⟩ := h
    exact hwf
  | registerConfig trust payer id config =>
    simp only [registerConfig, bind_eq_ok, exists_punit] at h
    obtain ⟨_, -, _, -, _, -, -, -, -, -, -, -, _, -, rfl⟩ := h
    intro k cfg hcfg
    rcases lookup_insert_some hcfg with ⟨rfl, rfl⟩ | ⟨-, hcfg⟩
    · rfl
    · exact hwf k cfg hcfg
  | propose a id configId cid =>
    simp only [propose, bind_eq_ok, pure_eq_ok] at h
    obtain ⟨_, -, _, -, _, -, _, -, _, -, rfl⟩ := h
    exact hwf
  | castVoteRole a choice =>
    obtain ⟨_, _, _, -, -, -, -, -, -, -, -, rfl⟩ := castVoteRole_ok h
    exact hwf
  | castVoteToken a choice balance merkleProof =>
    simp only [castVoteToken, bind_eq_ok, exists_punit] at h
    obtain ⟨_, -, _, -, -, -, -, _, -, _, -, rfl⟩ := h
    exact hwf
  | commitSnapshotRoot a root total =>
    simp only [commitSnapshotRoot, bind_eq_ok, exists_punit, pure_eq_ok] at h
    obtain ⟨_, -, -, -, -, rfl⟩ := h
    exact hwf
  | executeProposal a =>
    obtain ⟨_, _, _, -, -, -, -, rfl⟩ := executeProposal_ok h
    exact hwf
  | castVote a choice weight => simp [castVote, bind_eq_ok] at h

end Finality

/-! ## Runs -/

/-- The transaction executes the proposal at `k`. -/
def ProtocolTx.executes {D : Type} (k : ProposalPda) (tx : ProtocolTx D) : Bool :=
  match tx.ix with
  | .gov ix => ix.executes k
  | _ => false

/-- How often the proposal at `k` was executed. -/
def executions {D : Type} (k : ProposalPda) (hist : List (Protocol D × ProtocolTx D)) : Nat :=
  sumOver (fun _ tx => (tx.executes k).toNat) hist

section Runs

variable {D : Type} [LinearOrder D] [Zero D] {sha256 : Sha256 D} {w w' : Protocol D}
  {tx : ProtocolTx D} {hist hist' : List (Protocol D × ProtocolTx D)} {k : ProposalPda}
  {p : Proposal D}

theorem done_step (h : w.exec sha256 tx = .ok w') (k : ProposalPda) :
    (done (w'.gov.proposals.lookup k)).toNat =
      (done (w.gov.proposals.lookup k)).toNat + (tx.executes k).toNat := by
  cases Protocol.change h with
  | role hix _ _ => simp only [ProtocolTx.executes, hix]; rfl
  | gov hix _ hgov =>
    simp only [ProtocolTx.executes, hix]
    exact (ballot_moved hgov k).done

theorem executions_eq (run : Run (okStep (Protocol.exec sha256)) .init hist w) :
    executions k hist = (done (w.gov.proposals.lookup k)).toNat := by
  induction run with
  | nil => rfl
  | step _ hstep ih =>
    rw [executions, sumOver_cons, ← executions, ih, done_step hstep, Nat.add_comm]

theorem final_step (hp : w.gov.proposals.lookup k = some p) (hdone : p.executed = true)
    (h : w.exec sha256 tx = .ok w') :
    ∃ p', w'.gov.proposals.lookup k = some p' ∧ p'.executed = true ∧ SameTally p p' := by
  cases Protocol.change h with
  | role => exact ⟨p, hp, hdone, ⟨rfl, rfl, rfl⟩⟩
  | gov _ _ hgov =>
    have hmoved := ballot_moved hgov k
    rw [hp] at hmoved
    exact hmoved.final hdone

theorem final_run (hp : w.gov.proposals.lookup k = some p) (hdone : p.executed = true)
    (run : Run (okStep (Protocol.exec sha256)) w hist w') :
    ∃ p', w'.gov.proposals.lookup k = some p' ∧ p'.executed = true ∧ SameTally p p' := by
  induction run with
  | nil => exact ⟨p, hp, hdone, ⟨rfl, rfl, rfl⟩⟩
  | step _ hstep ih =>
    obtain ⟨q, hq, hdone, htally⟩ := ih
    obtain ⟨p', hp', hdone', htally'⟩ := final_step hq hdone hstep
    exact ⟨p', hp', hdone', htally.trans htally'⟩

theorem configs_of_run (run : Run (okStep (Protocol.exec sha256)) .init hist w) :
    ConfigsWf w.gov := by
  refine run.invariant (P := fun w => ConfigsWf w.gov) ?_ fun t tx t' hwf h => ?_
  · intro k cfg hcfg
    cases hcfg
  · cases Protocol.change h with
    | role => exact hwf
    | gov _ _ hgov => exact configs_step hwf hgov

/-- **Proposal settlement is exact and final**: executing a proposal succeeds exactly when its
conditions hold and no word overflows, and at most once. -/
theorem settlement_exact_and_final (run : Run (okStep (Protocol.exec sha256)) .init hist w)
    (hp : w.gov.proposals.lookup k = some p) :
    (∀ env clock a, a.proposal = k →
      ((∃ s', executeProposal w.gov env w.roles clock a = .ok s') ↔ ∃ cfg supply,
        a.config = some ⟨p.trust, p.governanceConfigId⟩ ∧
        w.gov.configs.lookup ⟨p.trust, p.governanceConfigId⟩ = some cfg ∧
        a.voteSupply = some p.supplyAccount ∧ p.supply env w.roles = some supply ∧ 0 < supply ∧
        Fits p cfg supply ∧ Settles p cfg supply clock.unixTimestamp)) ∧
    executions k hist ≤ 1 ∧
    (0 < executions k hist → ∀ hist' w', Run (okStep (Protocol.exec sha256)) w hist' w' →
      ∃ p', w'.gov.proposals.lookup k = some p' ∧ SameTally p p') := by
  have hwf : w.Wf := run.invariant Protocol.Wf.init fun _ _ _ hwf h => hwf.step h
  have hcount : executions k hist = p.executed.toNat := by rw [executions_eq run, hp]; rfl
  refine ⟨?_, ?_, ?_⟩
  · rintro - - a rfl
    exact executeProposal_iff hwf.roles (configs_of_run run) hp (hwf.gov.proposal hp)
  · rw [hcount]
    exact Bool.toNat_le _
  · intro hpos hist' w' later
    have hdone : p.executed = true := by
      rw [hcount] at hpos
      cases hexecuted : p.executed with
      | true => rfl
      | false =>
        rw [hexecuted] at hpos
        exact nomatch hpos
    obtain ⟨p', hp', -, htally⟩ := final_run hp hdone later
    exact ⟨p', hp', htally⟩

end Runs

def executeTx (now : Int) (supply : Nat) : ProtocolTx Nat :=
  ⟨⟨13, now⟩, { creation with mints := AList.insert 1 supply ∅ },
    .gov (.executeProposal ⟨⟨1, 3⟩, some ⟨1, 0⟩, some (.mint 1)⟩)⟩

/-- A proposal with a thousand votes is executed, once. -/
theorem inflatedVote_settles : ∃ hist w p, Run (okStep (Protocol.exec natHash)) .init hist w ∧
    w.gov.proposals.lookup ⟨1, 3⟩ = some p ∧ p.executed = true ∧ executions ⟨1, 3⟩ hist ≤ 1 := by
  have hok : ((execAll (Protocol.exec natHash) .init
      (inflatedVote ++ [executeTx 5000 100])).toOption.map fun w =>
        (w.gov.proposals.lookup ⟨1, 3⟩).map (·.executed)) = some (some true) := by decide
  obtain ⟨w, hw, hp⟩ := toOption_map_eq_some.1 hok
  obtain ⟨p, hp, hexecuted⟩ := map_eq_some_iff.1 hp
  obtain ⟨hist, run⟩ := Run.execAll hw
  exact ⟨hist, w, p, run, hp, hexecuted, (settlement_exact_and_final run hp).2.1⟩

/-- Once all tokens of the mint are burned nothing is executed, although a quorum of no votes is
reached by any. -/
theorem not_settles_iff : ¬ ∀ hist w, Run (okStep (Protocol.exec natHash)) .init hist w →
    ∀ k p cfg supply env clock, w.gov.proposals.lookup k = some p →
      w.gov.configs.lookup ⟨p.trust, p.governanceConfigId⟩ = some cfg →
      p.supply env w.roles = some supply → Fits p cfg supply →
      ((∃ s', executeProposal w.gov env w.roles clock
        ⟨k, some ⟨p.trust, p.governanceConfigId⟩, some p.supplyAccount⟩ = .ok s') ↔
        Settles p cfg supply clock.unixTimestamp) := by
  intro hall
  have hok : ((execAll (Protocol.exec natHash) .init inflatedVote).toOption.bind fun w =>
      (w.gov.proposals.lookup ⟨1, 3⟩).bind fun p =>
        (w.gov.configs.lookup ⟨p.trust, p.governanceConfigId⟩).map fun cfg =>
          (decide (p.forVotes = 1000 ∧ p.againstVotes = 0 ∧ p.abstainVotes = 0 ∧
              p.voteStart = 101 ∧ p.voteDuration = 1000 ∧ p.executed = false ∧ p.canceled = false),
            decide (cfg.supportBps = 1 ∧ cfg.executionDelay = 0),
            p.supply (executeTx 5000 0).env w.roles,
            (executeProposal w.gov (executeTx 5000 0).env w.roles ⟨13, 5000⟩
              ⟨⟨1, 3⟩, some ⟨p.trust, p.governanceConfigId⟩, some p.supplyAccount⟩).isOk)) =
      some (true, true, some 0, false) := by decide
  simp only [bind_eq_some_iff, map_eq_some_iff, toOption_eq_some,
    Prod.mk.injEq, decide_eq_true_eq] at hok
  obtain ⟨w, hw, p, hp, cfg, hcfg, ⟨hfor, hagainst, habstain, hstart, hduration, hexecuted,
    hcanceled⟩, ⟨hsupport, hdelay⟩, hsupply, hfails⟩ := hok
  have hfits : Fits p cfg 0 := by
    constructor <;> simp [hfor, hagainst, habstain, hstart, hduration, hsupport, hdelay]
  have hsettles : Settles p cfg 0 5000 := by
    constructor <;>
      simp [hfor, hagainst, hstart, hduration, hexecuted, hcanceled, hsupport, hdelay]
  obtain ⟨hist, run⟩ := Run.execAll hw
  obtain ⟨s', hs'⟩ := (hall hist w run ⟨1, 3⟩ p cfg 0 (executeTx 5000 0).env ⟨13, 5000⟩ hp hcfg
    hsupply hfits).2 hsettles
  rw [hs'] at hfails
  cases hfails

end Aeqi.Governance
