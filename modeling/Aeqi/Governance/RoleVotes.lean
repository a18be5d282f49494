import Aeqi.Governance.Modes
import Aeqi.Roles.Authority

/-!
# aeqi_governance: no role votes twice

The roles behind a role vote are those whose seat is the voter's checkpoint when
the vote is cast. A role that stood behind a vote on a proposal is **spent** on it
when its present holder can cast no vote with it: the holder has voted, or the
holder's checkpoint was written after the snapshot slot.

Within the snapshot slot itself a checkpoint may still be written and used, so a
role can be handed on after a vote and vote again. `SettledTransfer` rules this
out, and then roles stay spent along every run.
-/

namespace Aeqi.Governance

open Aeqi.Lib Aeqi.Lib.Accounts Aeqi.Solana Option
open AList (lookup_insert_ne)
open Aeqi.Roles

/-! ## The roles behind a vote -/

section Behind

variable {D : Type}

/-- The roles that a vote of `voter` on the proposal at `k` is weighed by. -/
def rolesBehind (w : Protocol D) (k : ProposalPda) (voter : Pubkey) : Finset RolePda :=
  match w.gov.proposals.lookup k with
  | some p => assigned (seat w.roles) w.roles.roles ⟨p.trust, p.governanceConfigId, voter⟩
  | none => ∅

/-- The roles that contributed to the vote of `voter` on the proposal at `k` in
the course of a run. -/
def contributors (k : ProposalPda) (voter : Pubkey) :
    List (Protocol D × ProtocolTx D) → Finset RolePda
  | [] => ∅
  | (w, tx) :: hist =>
    match tx.ix with
    | .gov (.castVoteRole a _) =>
      if a = ⟨k, voter⟩ then rolesBehind w k voter ∪ contributors k voter hist
      else contributors k voter hist
    | _ => contributors k voter hist

def Voted (w : Protocol D) (k : ProposalPda) (x : Pubkey) : Prop :=
  (w.gov.votes.lookup ⟨k.trust, k.proposalId, x⟩).isSome = true

instance (w : Protocol D) (k : ProposalPda) (x : Pubkey) : Decidable (Voted w k x) :=
  inferInstanceAs (Decidable (_ = _))

/-! ## The runs -/

/-- The moves of the protocol: roles are assigned, resigned and transferred to
other accounts but not delegated, and votes are cast the way of their proposal. -/
def RoleMove (w : Protocol D) (tx : ProtocolTx D) : Prop :=
  match tx.ix with
  | .role (.delegateRole _ _) => False
  | .role (.transferRole a newAccount) =>
    ∀ r ∈ w.roles.roles.lookup a.role, newAccount ≠ r.account
  | _ => InMode w tx

def SettledTransfer (w : Protocol D) (tx : ProtocolTx D) : Prop :=
  match tx.ix with
  | .role (.transferRole a newAccount) => ∀ r ∈ w.roles.roles.lookup a.role,
      ∀ k ∈ w.gov.proposals.keys, ∀ p ∈ w.gov.proposals.lookup k,
        p.trust = r.trust → p.governanceConfigId = r.roleTypeId →
        tx.clock.slot ≤ p.snapshotSlot → Voted w k r.account → Voted w k newAccount
  | _ => True

instance (w : Protocol D) (tx : ProtocolTx D) : Decidable (RoleMove w tx) := by
  unfold RoleMove
  split <;> infer_instance

instance (w : Protocol D) (tx : ProtocolTx D) : Decidable (SettledTransfer w tx) := by
  unfold SettledTransfer
  split <;> infer_instance

end Behind

/-! ## Checkpoints and slots -/

section Slots

variable {s s' : RoleState} {tx : RoleTx}

theorem checkpoint_step (h : s.exec tx = .ok s') (hdeleg : ∀ a d, tx.ix ≠ .delegateRole a d)
    (pda : CheckpointPda) : s'.checkpoints.lookup pda = s.checkpoints.lookup pda ∨
      ∃ c, s'.checkpoints.lookup pda = some c ∧ c.slot = tx.clock.slot := by
  have insert_cases : ∀ (ckpts : Accounts CheckpointPda RoleVoteCheckpoint) (k : CheckpointPda)
      (c : RoleVoteCheckpoint), c.slot = tx.clock.slot →
      (ckpts.insert k c).lookup pda = ckpts.lookup pda ∨
        ∃ c', (ckpts.insert k c).lookup pda = some c' ∧ c'.slot = tx.clock.slot := by
    intro ckpts k c hc
    by_cases hk : pda = k
    · subst hk
      exact .inr ⟨c, AList.lookup_insert _, hc⟩
    · exact .inl (lookup_insert_ne hk)
  unfold RoleState.exec at h
  cases hix : tx.ix with
  | createRoleType a t hierarchy config =>
    rw [hix] at h
    obtain ⟨-, rfl⟩ := createRoleType_ok h
    exact .inl rfl
  | createRole a id t parent cid =>
    rw [hix] at h
    obtain ⟨-, -, -, -, -, -, -, rfl⟩ := createRole_ok h
    exact .inl rfl
  | assignRole a account =>
    rw [hix] at h
    obtain ⟨r, -, -, -, -, -, -, -, -, -, -, -, rfl⟩ := assignRole_ok h
    exact insert_cases _ _ _ rfl
  | resignRole a =>
    rw [hix] at h
    obtain ⟨r, c, -, -, -, -, -, rfl⟩ := resignRole_ok h
    exact insert_cases _ _ _ rfl
  | transferRole a account =>
    rw [hix] at h
    obtain ⟨r, c, -, -, -, -, -, rfl⟩ := transferRole_ok h
    by_cases hnew : pda = ⟨r.trust, r.roleTypeId, account⟩
    · exact .inr ⟨_, by rw [hnew]; exact AList.lookup_insert _, rfl⟩
    · by_cases hprev : pda = ⟨r.trust, r.roleTypeId, r.account⟩
      · subst hprev
        exact .inr ⟨_, (lookup_insert_ne hnew).trans (AList.lookup_insert _), rfl⟩
      · exact .inl ((lookup_insert_ne hnew).trans (lookup_insert_ne hprev))
  | delegateRole a account => exact absurd hix (hdeleg a account)

theorem transferRole_writes {clock : Clock} {a : TransferRole} {account : Pubkey} {r : Role}
    (h : transferRole s clock a account = .ok s') (hr : s.roles.lookup a.role = some r) :
    ∃ c, s'.checkpoints.lookup ⟨r.trust, r.roleTypeId, account⟩ = some c ∧ c.slot = clock.slot := by
  obtain ⟨r₁, c, hr₁, -, -, -, -, rfl⟩ := transferRole_ok h
  obtain rfl : r = r₁ := some.inj (hr.symm.trans hr₁)
  exact ⟨_, AList.lookup_insert _, rfl⟩

theorem delegations_step (h : s.exec tx = .ok s') (hdeleg : ∀ a d, tx.ix ≠ .delegateRole a d) :
    s'.delegations = s.delegations := by
  unfold RoleState.exec at h
  cases hix : tx.ix with
  | createRoleType a t hierarchy config =>
    rw [hix] at h
    obtain ⟨-, rfl⟩ := createRoleType_ok h
    rfl
  | createRole a id t parent cid =>
    rw [hix] at h
    obtain ⟨-, -, -, -, -, -, -, rfl⟩ := createRole_ok h
    rfl
  | assignRole a account =>
    rw [hix] at h
    obtain ⟨r, -, -, -, -, -, -, -, -, -, -, -, rfl⟩ := assignRole_ok h
    rfl
  | resignRole a =>
    rw [hix] at h
    obtain ⟨r, c, -, -, -, -, -, rfl⟩ := resignRole_ok h
    rfl
  | transferRole a account =>
    rw [hix] at h
    obtain ⟨r, c, -, -, -, -, -, rfl⟩ := transferRole_ok h
    rfl
  | delegateRole a account => exact absurd hix (hdeleg a account)

end Slots

theorem snapshotSlot_of_new {D : Type} [LinearOrder D] [Zero D] {sha256 : Sha256 D}
    {g g' : GovState D} {env : Env} {roles : RoleState} {clock : Clock} {ix : GovIx D}
    (h : g.exec sha256 env roles clock ix = .ok g') {k : ProposalPda} {p : Proposal D}
    (hk : g.proposals.lookup k = none) (hp : g'.proposals.lookup k = some p) :
    p.snapshotSlot = clock.slot := by
  have hinsert : ∀ {k₁ : ProposalPda} {p₁ p₁' : Proposal D}, g.proposals.lookup k₁ = some p₁ →
      g'.proposals = g.proposals.insert k₁ p₁' → False := by
    intro k₁ p₁ p₁' hk₁ hg'
    have hne : k ≠ k₁ := by
      rintro rfl
      rw [hk] at hk₁
      cases hk₁
    rw [hg', lookup_insert_ne hne, hk] at hp
    cases hp
  cases change h with
  | quiet hg' =>
    rw [hg', hk] at hp
    cases hp
  | @proposed _ _ _ _ p₁ _ _ hg' _ _ hslot =>
    by_cases hk₁ : k = ⟨p₁.trust, p₁.proposalId⟩
    · rw [hg', hk₁, AList.lookup_insert, Option.some.injEq] at hp
      rw [← hp]
      exact hslot
    · rw [hg', lookup_insert_ne hk₁, hk] at hp
      cases hp
  | voted hk₁ _ _ _ _ _ hg' | committed _ hk₁ _ _ _ _ _ hg' | executed _ hk₁ _ _ _ _ hg' =>
    exact (hinsert hk₁ hg').elim

/-! ## The state of the system between two moves -/

/-- Counts, delegations and slots along a run of role moves. -/
structure Steady {D : Type} (w : Protocol D) : Prop where
  wf : w.Wf
  balanced : SeatsBalanced w.roles
  direct : w.roles.delegations = ∅
  ckptSlot : ∀ {pda c}, w.roles.checkpoints.lookup pda = some c → c.slot ≤ w.slot
  snapshotSlot : ∀ {k p}, w.gov.proposals.lookup k = some p → p.snapshotSlot ≤ w.slot

namespace Steady

variable {D : Type}

theorem init : Steady (Protocol.init : Protocol D) := by
  refine ⟨.init, SeatsBalanced.init, rfl, ?_, ?_⟩
  · intro pda c h
    simp [Protocol.init, RoleState.init] at h
  · intro k p h
    simp [Protocol.init, GovState.init] at h

theorem seat_eq_some {w : Protocol D} (hs : Steady w) {k : RolePda} {r : Role}
    {pda : CheckpointPda} : seat w.roles k r = some pda ↔
      r.trust = pda.trust ∧ r.roleTypeId = pda.roleTypeId ∧ r.status = .occupied ∧
        r.account = pda.account := by
  have hnone : w.roles.delegations.lookup k = none := by rw [hs.direct]; rfl
  rw [Roles.seat_eq_some, votingPower, hnone]

variable [LinearOrder D] [Zero D] {sha256 : Sha256 D} {w w' : Protocol D} {tx : ProtocolTx D}

theorem step (hs : Steady w) (hmove : RoleMove w tx) (h : w.exec sha256 tx = .ok w') :
    Steady w' := by
  have hwf' := hs.wf.step h
  cases Protocol.change h with
  | @role ix roles hix hslot hroles =>
    have hdeleg : ∀ a d, ix ≠ .delegateRole a d := by
      rintro a d rfl
      simp [RoleMove, hix] at hmove
    have hsafe : VoteSafe w.roles ⟨tx.clock, ix⟩ := by
      have hnone : ∀ k, w.roles.delegations.lookup k = none := fun k => by rw [hs.direct]; rfl
      cases ix with
      | resignRole a =>
        intro r _
        rw [votingPower, hnone]
      | transferRole a account =>
        refine ⟨hnone _, ?_⟩
        simpa [RoleMove, hix] using hmove
      | delegateRole a d => exact absurd rfl (hdeleg a d)
      | _ => trivial
    refine ⟨hwf', (seatsBalanced_step_iff hs.wf.roles hs.balanced hroles).2 hsafe, ?_, ?_, ?_⟩
    · exact (delegations_step hroles hdeleg).trans hs.direct
    · intro pda c hc
      rcases checkpoint_step hroles hdeleg pda with hold | ⟨c', hc', hnew⟩
      · exact Nat.le_trans (hs.ckptSlot (hold.symm.trans hc)) hslot
      · obtain rfl : c = c' := some.inj (hc.symm.trans hc')
        exact Nat.le_of_eq hnew
    · exact fun hp => Nat.le_trans (hs.snapshotSlot hp) hslot
  | @gov ix gov hix hslot hgov =>
    refine ⟨hwf', hs.balanced, hs.direct, ?_, ?_⟩
    · exact fun hc => Nat.le_trans (hs.ckptSlot hc) hslot
    · intro k p hp
      cases hk : w.gov.proposals.lookup k with
      | some p₀ =>
        obtain ⟨p', hp', hsame⟩ := Governance.proposal_step hgov hk
        obtain rfl : p = p' := some.inj (hp.symm.trans hp')
        rw [hsame.slot]
        exact Nat.le_trans (hs.snapshotSlot hk) hslot
      | none =>
        -- a new proposal is snapshotted now
        exact Nat.le_of_eq (snapshotSlot_of_new hgov hk hp)

end Steady

/-! ## Spent roles -/

section Spent

variable {D : Type}

/-- The checkpoint that `x` would vote on `p` with was written after the snapshot. -/
def LateCheckpoint (w : Protocol D) (p : Proposal D) (x : Pubkey) : Prop :=
  ∃ c, w.roles.checkpoints.lookup ⟨p.trust, p.governanceConfigId, x⟩ = some c ∧
    p.snapshotSlot < c.slot

/-- The holder of a role of the proposal's type, if it has one, cannot vote with it
on the proposal `p` at `k`. -/
def Spent (w : Protocol D) (k : ProposalPda) (p : Proposal D) (role : RolePda) : Prop :=
  ∃ r, w.roles.roles.lookup role = some r ∧ r.trust = p.trust ∧
    r.roleTypeId = p.governanceConfigId ∧ r.status ≠ .vacant ∧
    (r.status = .occupied → Voted w k r.account ∨ LateCheckpoint w p r.account)

variable {w w' : Protocol D} {tx : ProtocolTx D} {k : ProposalPda} {p p' : Proposal D}

theorem Spent.transfer (hs : Steady w) (hsettled : SettledTransfer w tx)
    (hp : w.gov.proposals.lookup k = some p) (hsame : SameBallot p p') {roles : RoleState}
    {a : TransferRole} {account : Pubkey} (hix : tx.ix = .role (.transferRole a account))
    (hslot : w.slot ≤ tx.clock.slot) (h : transferRole w.roles tx.clock a account = .ok roles)
    {r : Role} (hr : w.roles.roles.lookup a.role = some r) (htrust : r.trust = p.trust)
    (htype : r.roleTypeId = p.governanceConfigId)
    (hold : Voted w k r.account ∨ LateCheckpoint w p r.account) :
    Voted w k account ∨
      ∃ c, roles.checkpoints.lookup ⟨p'.trust, p'.governanceConfigId, account⟩ = some c ∧
        p'.snapshotSlot < c.slot := by
  obtain ⟨c, hc, hwritten⟩ := transferRole_writes h hr
  rw [hsame.trust, hsame.config, hsame.slot]
  by_cases hlt : p.snapshotSlot < tx.clock.slot
  · refine .inr ⟨c, ?_, ?_⟩
    · rw [← htrust, ← htype]
      exact hc
    · rw [hwritten]
      exact hlt
  · have hvoted : Voted w k r.account := by
      rcases hold with hv | ⟨c', hc', hlt'⟩
      · exact hv
      · have hle := hs.ckptSlot hc'
        omega
    have hkey : k ∈ w.gov.proposals.keys :=
      AList.mem_keys.1 (AList.lookup_isSome.1 (by rw [hp]; rfl))
    have hset : ∀ r ∈ w.roles.roles.lookup a.role, ∀ k ∈ w.gov.proposals.keys,
        ∀ p ∈ w.gov.proposals.lookup k, p.trust = r.trust →
          p.governanceConfigId = r.roleTypeId → tx.clock.slot ≤ p.snapshotSlot →
            Voted w k r.account → Voted w k account := by
      simpa [SettledTransfer, hix] using hsettled
    exact .inl (hset r hr k hkey p hp htrust.symm htype.symm (by omega) hvoted)

variable [LinearOrder D] [Zero D] {sha256 : Sha256 D}

theorem Voted.step (h : w.exec sha256 tx = .ok w') {x : Pubkey} (hv : Voted w k x) :
    Voted w' k x := by
  obtain ⟨v, hv⟩ := isSome_iff_exists.1 hv
  exact isSome_iff_exists.2 ⟨v, Protocol.vote_step h hv⟩

theorem LateCheckpoint.step (hs : Steady w) (hmove : RoleMove w tx)
    (h : w.exec sha256 tx = .ok w') (hsame : SameBallot p p') {x : Pubkey}
    (hlate : LateCheckpoint w p x) : LateCheckpoint w' p' x := by
  obtain ⟨c, hc, hlt⟩ := hlate
  rw [LateCheckpoint, hsame.trust, hsame.config, hsame.slot]
  cases Protocol.change h with
  | @role ix roles hix hslot hroles =>
    have hdeleg : ∀ a d, ix ≠ .delegateRole a d := by
      rintro a d rfl
      simp [RoleMove, hix] at hmove
    rcases checkpoint_step hroles hdeleg ⟨p.trust, p.governanceConfigId, x⟩ with
      hold | ⟨c', hc', hnew⟩
    · exact ⟨c, hold.trans hc, hlt⟩
    · have hle := hs.ckptSlot hc
      simp only at hnew
      exact ⟨c', hc', by omega⟩
  | gov => exact ⟨c, hc, hlt⟩

theorem Spent.step (hs : Steady w) (hmove : RoleMove w tx) (hsettled : SettledTransfer w tx)
    (h : w.exec sha256 tx = .ok w') (hp : w.gov.proposals.lookup k = some p)
    (hsame : SameBallot p p') {role : RolePda} (hspent : Spent w k p role) :
    Spent w' k p' role := by
  obtain ⟨r, hr, htrust, htype, hvac, hold⟩ := hspent
  have hvoted : ∀ x, Voted w k x → Voted w' k x := fun x => Voted.step h
  have hlate : ∀ x, LateCheckpoint w p x → LateCheckpoint w' p' x :=
    fun x => LateCheckpoint.step hs hmove h hsame
  have keep : w'.roles.roles.lookup role = some r → Spent w' k p' role := by
    intro hr'
    refine ⟨r, hr', htrust.trans hsame.trust.symm, htype.trans hsame.config.symm, hvac, ?_⟩
    exact fun hocc => (hold hocc).imp (hvoted _) (hlate _)
  cases Protocol.change h with
  | gov => exact keep hr
  | @role ix roles hix hslot hroles =>
    cases ix with
    | createRoleType a t hierarchy config =>
      obtain ⟨-, rfl⟩ := createRoleType_ok hroles
      exact keep hr
    | createRole a id t parent cid => exact keep (createRole_keeps hroles hr)
    | assignRole a account =>
      obtain ⟨r₁, -, -, hr₁, -, -, -, -, -, -, hst, -, rfl⟩ := assignRole_ok hroles
      have hne : role ≠ a.role := by
        rintro rfl
        obtain rfl : r = r₁ := some.inj (hr.symm.trans hr₁)
        exact hvac hst
      exact keep ((lookup_insert_ne hne).trans hr)
    | resignRole a =>
      obtain ⟨r₁, c, hr₁, -, -, -, -, rfl⟩ := resignRole_ok hroles
      by_cases hrole : role = a.role
      · subst hrole
        obtain rfl : r = r₁ := some.inj (hr.symm.trans hr₁)
        refine ⟨_, AList.lookup_insert _, htrust.trans hsame.trust.symm,
          htype.trans hsame.config.symm, RoleStatus.noConfusion, RoleStatus.noConfusion⟩
      · exact keep ((lookup_insert_ne hrole).trans hr)
    | transferRole a account =>
      have htransfer := hroles
      obtain ⟨r₁, c, hr₁, -, hst, -, -, rfl⟩ := transferRole_ok hroles
      by_cases hrole : role = a.role
      · subst hrole
        obtain rfl : r = r₁ := some.inj (hr.symm.trans hr₁)
        refine ⟨_, AList.lookup_insert _, htrust.trans hsame.trust.symm,
          htype.trans hsame.config.symm, hvac, fun _ => ?_⟩
        exact (Spent.transfer hs hsettled hp hsame hix hslot htransfer hr htrust htype
          (hold hst)).imp_left (hvoted _)
      · exact keep ((lookup_insert_ne hrole).trans hr)
    | delegateRole a d => simp [RoleMove, hix] at hmove

end Spent

/-! ## Counting -/

/-- The contributions recorded along a run. -/
structure Counted {D : Type} (hist : List (Protocol D × ProtocolTx D)) (w : Protocol D) :
    Prop where
  spent : ∀ {k v role}, role ∈ contributors k v hist →
    ∃ p, w.gov.proposals.lookup k = some p ∧ Spent w k p role
  voted : ∀ {k v role}, role ∈ contributors k v hist → Voted w k v
  once : ∀ {k v v' role}, role ∈ contributors k v hist → role ∈ contributors k v' hist → v = v'
  weight : ∀ {k p v rec}, w.gov.proposals.lookup k = some p → p.unit = .roles →
    w.gov.votes.lookup ⟨k.trust, k.proposalId, v⟩ = some rec →
      rec.weight = (contributors k v hist).card

namespace Counted

variable {D : Type}

theorem init : Counted [] (Protocol.init : Protocol D) := by
  refine ⟨?_, ?_, ?_, ?_⟩
  · intro k v role h
    simp [contributors] at h
  · intro k v role h
    simp [contributors] at h
  · intro k v v' role h
    simp [contributors] at h
  · intro k p v rec h
    simp [Protocol.init, GovState.init] at h

theorem contributors_cons_of_ne (hist : List (Protocol D × ProtocolTx D)) (w : Protocol D)
    {tx : ProtocolTx D} (hne : ∀ a c, tx.ix ≠ .gov (.castVoteRole a c)) (k : ProposalPda)
    (v : Pubkey) : contributors k v ((w, tx) :: hist) = contributors k v hist := by
  rw [contributors]
  split
  · next hix => exact absurd hix (hne _ _)
  · rfl

theorem contributors_cons (hist : List (Protocol D × ProtocolTx D)) (w : Protocol D)
    {tx : ProtocolTx D} {a : CastVote} {c : Nat} (hix : tx.ix = .gov (.castVoteRole a c))
    (k : ProposalPda) (v : Pubkey) : contributors k v ((w, tx) :: hist) =
      if a = ⟨k, v⟩ then rolesBehind w k v ∪ contributors k v hist else contributors k v hist := by
  simp [contributors, hix]

variable {k : ProposalPda} {p : Proposal D} {v : Pubkey}

theorem mem_rolesBehind {w : Protocol D} (hs : Steady w) (hk : w.gov.proposals.lookup k = some p)
    {role : RolePda} :
    role ∈ rolesBehind w k v ↔ ∃ r, w.roles.roles.lookup role = some r ∧ r.trust = p.trust ∧
      r.roleTypeId = p.governanceConfigId ∧ r.status = .occupied ∧ r.account = v := by
  rw [rolesBehind, hk]
  simp [mem_assigned, hs.seat_eq_some]

theorem card_rolesBehind {w : Protocol D} (hs : Steady w) (hk : w.gov.proposals.lookup k = some p)
    {c : RoleVoteCheckpoint}
    (hc : w.roles.checkpoints.lookup ⟨p.trust, p.governanceConfigId, v⟩ = some c) :
    (rolesBehind w k v).card = c.count := by
  rw [rolesBehind, hk]
  exact (card_assigned _).trans ((hs.balanced _).symm.trans (ckptCount_of_some hc))

theorem votePda_eq_iff {a : CastVote} {trust : Pubkey} {id : Bytes32}
    (hkey : a.proposal = ⟨trust, id⟩) :
    (⟨k.trust, k.proposalId, v⟩ : VotePda) = ⟨trust, id, a.voter⟩ ↔ a = ⟨k, v⟩ := by
  obtain ⟨pda, voter⟩ := a
  subst hkey
  constructor
  · intro h
    cases k
    cases h
    rfl
  · intro h
    cases h
    rfl

theorem contributors_eq_empty {hist : List (Protocol D × ProtocolTx D)} {w : Protocol D}
    (hc : Counted hist w) (hnone : w.gov.votes.lookup ⟨k.trust, k.proposalId, v⟩ = none) :
    contributors k v hist = ∅ := by
  apply Finset.eq_empty_of_forall_notMem
  intro role hrole
  have hvoted := hc.voted hrole
  rw [Voted, hnone] at hvoted
  cases hvoted

theorem rolesBehind_fresh {hist : List (Protocol D × ProtocolTx D)} {w : Protocol D} (hs : Steady w)
    (hc : Counted hist w) (hk : w.gov.proposals.lookup k = some p) {x : Pubkey}
    (hnone : w.gov.votes.lookup ⟨k.trust, k.proposalId, x⟩ = none) {c : RoleVoteCheckpoint}
    (hckpt : w.roles.checkpoints.lookup ⟨p.trust, p.governanceConfigId, x⟩ = some c)
    (hslot : c.slot ≤ p.snapshotSlot) {role : RolePda} (hbehind : role ∈ rolesBehind w k x) :
    role ∉ contributors k v hist := by
  intro hrole
  obtain ⟨r, hr, -, -, hocc, haccount⟩ := (mem_rolesBehind hs hk).1 hbehind
  obtain ⟨p₁, hp₁, r₁, hr₁, -, -, -, hspent⟩ := hc.spent hrole
  obtain rfl : p = p₁ := some.inj (hk.symm.trans hp₁)
  obtain rfl : r = r₁ := some.inj (hr.symm.trans hr₁)
  rcases hspent hocc with hvoted | ⟨c₁, hc₁, hlate⟩
  · rw [haccount, Voted, hnone] at hvoted
    cases hvoted
  · rw [haccount] at hc₁
    obtain rfl : c = c₁ := some.inj (hckpt.symm.trans hc₁)
    omega

theorem weightOn_eq {hist : List (Protocol D × ProtocolTx D)} {w : Protocol D} (hc : Counted hist w)
    (hp : w.gov.proposals.lookup k = some p) (hunit : p.unit = .roles) (v : Pubkey) :
    weightOn w.gov k v = (contributors k v hist).card := by
  cases hrec : w.gov.votes.lookup ⟨k.trust, k.proposalId, v⟩ with
  | some rec => rw [weightOn, wt_of_some hrec, hc.weight hp hunit hrec]
  | none => rw [weightOn, wt_of_none hrec, hc.contributors_eq_empty hrec, Finset.card_empty]

theorem tally_le {hist : List (Protocol D × ProtocolTx D)} {w : Protocol D} (hs : Steady w)
    (hc : Counted hist w) (hp : w.gov.proposals.lookup k = some p) (hunit : p.unit = .roles) :
    p.tally ≤ rolesOfType w.roles p.trust p.governanceConfigId := by
  have hdisjoint : Set.PairwiseDisjoint (votersOn w.gov k) fun v => contributors k v hist := by
    intro v _ v' _ hne
    exact Finset.disjoint_left.2 fun role hrole hrole' => hne (hc.once hrole hrole')
  calc p.tally = ∑ v ∈ votersOn w.gov k, weightOn w.gov k v := by
        rw [hs.wf.gov.tally hp, votesOn_eq_sum]
    _ = ∑ v ∈ votersOn w.gov k, (contributors k v hist).card :=
        Finset.sum_congr rfl fun v _ => hc.weightOn_eq hp hunit v
    _ = ((votersOn w.gov k).biUnion fun v => contributors k v hist).card :=
        (Finset.card_biUnion hdisjoint).symm
    _ ≤ rolesOfType w.roles p.trust p.governanceConfigId := by
        apply card_le_count
        intro role hrole
        obtain ⟨v, -, hrole⟩ := Finset.mem_biUnion.1 hrole
        obtain ⟨p₁, hp₁, r, hr, htrust, htype, -⟩ := hc.spent hrole
        obtain rfl : p = p₁ := some.inj (hp.symm.trans hp₁)
        exact ⟨r, hr, (hs.wf.roles.role hr).1.symm.trans htrust, htype⟩

variable [LinearOrder D] [Zero D] {sha256 : Sha256 D} {w w' : Protocol D} {tx : ProtocolTx D}
  {hist : List (Protocol D × ProtocolTx D)}

theorem step_other (hs : Steady w) (hc : Counted hist w) (hmove : RoleMove w tx)
    (hsettled : SettledTransfer w tx) (h : w.exec sha256 tx = .ok w')
    (hne : ∀ a c, tx.ix ≠ .gov (.castVoteRole a c)) : Counted ((w, tx) :: hist) w' := by
  have hcons := contributors_cons_of_ne hist w hne
  refine ⟨?_, ?_, ?_, ?_⟩
  · intro k v role hrole
    rw [hcons] at hrole
    obtain ⟨p, hp, hspent⟩ := hc.spent hrole
    obtain ⟨p', hp', hsame⟩ := Protocol.proposal_step h hp
    exact ⟨p', hp', hspent.step hs hmove hsettled h hp hsame⟩
  · intro k v role hrole
    rw [hcons] at hrole
    exact (hc.voted hrole).step h
  · intro k v v' role hrole hrole'
    rw [hcons] at hrole hrole'
    exact hc.once hrole hrole'
  · intro k p' v rec hp' hunit hrec
    rw [hcons]
    -- the record was there before: a new one would be a token vote on a role proposal
    have hold : w.gov.votes.lookup ⟨k.trust, k.proposalId, v⟩ = some rec := by
      cases Protocol.change h with
      | role => exact hrec
      | @gov ix gov hix _ hgov =>
        cases change hgov with
        | quiet _ hv | proposed _ _ _ hv | committed _ _ _ _ _ _ _ _ hv
          | executed _ _ _ _ _ _ _ hv => rwa [hv] at hrec
        | @voted a p p₁ choice n hk hkey _ hwhy _ happly hg' hv =>
          rw [hv] at hrec
          by_cases hvk : (⟨k.trust, k.proposalId, v⟩ : VotePda) = ⟨p.trust, p.proposalId, a.voter⟩
          · cases hwhy with
            | checkpoint => exact absurd hix (hne _ _)
            | proof =>
              have hmode : InMode w tx := by
                rw [RoleMove, hix] at hmove
                exact hmove
              have htokens := hmode (a, .tokens) (by rw [ProtocolTx.cast, hix]; rfl) p hk
              have hka : k = a.proposal := by
                rw [VotePda.mk.injEq] at hvk
                rw [hkey, ← hvk.1, ← hvk.2.1]
              rw [hka, hg', AList.lookup_insert, Option.some.injEq] at hp'
              rw [← hp', (applyVoteTally_ok happly).1.unit, htokens] at hunit
              cases hunit
          · rwa [lookup_insert_ne hvk] at hrec
    obtain ⟨p, hp⟩ := hs.wf.gov.vote hold
    obtain ⟨p₁, hp₁, hsame⟩ := Protocol.proposal_step h hp
    obtain rfl : p' = p₁ := some.inj (hp'.symm.trans hp₁)
    exact hc.weight hp (hsame.unit.symm.trans hunit) hold

theorem step_vote (hs : Steady w) (hc : Counted hist w) (hmove : RoleMove w tx)
    (hsettled : SettledTransfer w tx) (h : w.exec sha256 tx = .ok w') {a : CastVote} {choice : Nat}
    (hix : tx.ix = .gov (.castVoteRole a choice)) : Counted ((w, tx) :: hist) w' := by
  have hcons := fun k v => contributors_cons hist w hix k v
  have hstep := h
  cases Protocol.change h with
  | role hix' => simp [hix'] at hix
  | @gov ix gov hix' hslot hgov =>
    obtain rfl : ix = .castVoteRole a choice := by
      rw [hix'] at hix
      exact ProtocolIx.gov.inj hix
    obtain ⟨p, c, p', hk, hkey, hfree, hckpt, -, hcslot, -, -, rfl⟩ := castVoteRole_ok hgov
    have hunused : w.gov.votes.lookup ⟨a.proposal.trust, a.proposal.proposalId, a.voter⟩ = none := by
      rw [(votePda_eq_iff hkey).2 rfl]
      exact hfree
    have hfresh : ∀ {v role}, role ∈ rolesBehind w a.proposal a.voter →
        role ∉ contributors a.proposal v hist := hc.rolesBehind_fresh hs hk hunused hckpt hcslot
    have hnone : contributors a.proposal a.voter hist = ∅ := hc.contributors_eq_empty hunused
    refine ⟨?_, ?_, ?_, ?_⟩
    · intro k v role hrole
      rw [hcons] at hrole
      split at hrole
      · next ha =>
        subst ha
        rw [hnone, Finset.union_empty] at hrole
        obtain ⟨r, hr, htrust, htype, hocc, haccount⟩ := (mem_rolesBehind hs hk).1 hrole
        obtain ⟨p₁, hp₁, hsame⟩ := Protocol.proposal_step hstep hk
        refine ⟨p₁, hp₁, r, hr, htrust.trans hsame.trust.symm, htype.trans hsame.config.symm,
          by rw [hocc]; decide, fun _ => .inl ?_⟩
        rw [haccount, Voted, votePda_eq_iff hkey |>.2 rfl]
        simp
      · obtain ⟨p₁, hp₁, hspent⟩ := hc.spent hrole
        obtain ⟨p₁', hp₁', hsame⟩ := Protocol.proposal_step hstep hp₁
        exact ⟨p₁', hp₁', hspent.step hs hmove hsettled hstep hp₁ hsame⟩
    · intro k v role hrole
      rw [hcons] at hrole
      split at hrole
      · next ha =>
        subst ha
        rw [Voted, votePda_eq_iff hkey |>.2 rfl]
        simp
      · exact (hc.voted hrole).step hstep
    · intro k v v' role hrole hrole'
      rw [hcons] at hrole hrole'
      by_cases ha : a = ⟨k, v⟩ <;> by_cases ha' : a = ⟨k, v'⟩
      · subst ha
        exact (CastVote.mk.inj ha').2
      · subst ha
        rw [if_pos rfl, hnone, Finset.union_empty] at hrole
        rw [if_neg ha'] at hrole'
        exact absurd hrole' (hfresh hrole)
      · subst ha'
        rw [if_pos rfl, hnone, Finset.union_empty] at hrole'
        rw [if_neg ha] at hrole
        exact absurd hrole (hfresh hrole')
      · rw [if_neg ha] at hrole
        rw [if_neg ha'] at hrole'
        exact hc.once hrole hrole'
    · intro k p₁' v rec hp₁' hunit hrec
      rw [hcons]
      by_cases ha : a = ⟨k, v⟩
      · rw [if_pos ha]
        subst ha
        rw [hnone, Finset.union_empty, card_rolesBehind hs hk hckpt]
        rw [votePda_eq_iff hkey |>.2 rfl, AList.lookup_insert, Option.some.injEq] at hrec
        rw [← hrec]
        rfl
      · rw [if_neg ha]
        rw [lookup_insert_ne fun he => ha ((votePda_eq_iff hkey).1 he)] at hrec
        obtain ⟨p₁, hp₁⟩ := hs.wf.gov.vote hrec
        obtain ⟨p₂, hp₂, hsame⟩ := Protocol.proposal_step hstep hp₁
        obtain rfl : p₁' = p₂ := some.inj (hp₁'.symm.trans hp₂)
        exact hc.weight hp₁ (hsame.unit.symm.trans hunit) hrec

theorem of_run (run : Run (Guarded (fun w tx => RoleMove w tx ∧ SettledTransfer w tx)
    (okStep (Protocol.exec sha256))) .init hist w) : Steady w ∧ Counted hist w := by
  induction run with
  | nil => exact ⟨.init, .init⟩
  | @step hist t t' tx _ hstep ih =>
    obtain ⟨⟨hmove, hsettled⟩, hstep⟩ := hstep
    obtain ⟨hs, hc⟩ := ih
    refine ⟨hs.step hmove hstep, ?_⟩
    by_cases hvote : ∃ a c, tx.ix = .gov (.castVoteRole a c)
    · obtain ⟨a, c, hix⟩ := hvote
      exact hc.step_vote hs hmove hsettled hstep hix
    · exact hc.step_other hs hmove hsettled hstep fun a c hix => hvote ⟨a, c, hix⟩

end Counted

/-- **No role votes twice** along every run of role moves whose transfers are settled. -/
theorem no_role_votes_twice {D : Type} [LinearOrder D] [Zero D] {sha256 : Sha256 D}
    {hist : List (Protocol D × ProtocolTx D)} {w : Protocol D}
    (run : Run (Guarded (fun w tx => RoleMove w tx ∧ SettledTransfer w tx)
      (okStep (Protocol.exec sha256))) .init hist w)
    {k : ProposalPda} {p : Proposal D} (hp : w.gov.proposals.lookup k = some p)
    (hunit : p.unit = .roles) :
    p.forVotes + p.againstVotes + p.abstainVotes ≤
        rolesOfType w.roles p.trust p.governanceConfigId ∧
      (∀ v, weightOn w.gov k v = (contributors k v hist).card) ∧
      ∀ v v' role, role ∈ contributors k v hist → role ∈ contributors k v' hist → v = v' := by
  obtain ⟨hs, hc⟩ := Counted.of_run run
  exact ⟨hc.tally_le hs hp hunit, hc.weightOn_eq hp hunit, fun _ _ _ => hc.once⟩

/-- Account 9 votes with its role in slot 12 and hands it on to account 8. -/
def voteAndLeave : List (ProtocolTx Nat) :=
  rolePoll ++
    [⟨⟨12, 102⟩, {}, .gov (.castVoteRole ⟨⟨1, 3⟩, 9⟩ 1)⟩,
     ⟨⟨12, 102⟩, {}, .role (.transferRole ⟨⟨1, 5⟩, ⟨1, 7⟩, 1, 8, 9⟩ 8)⟩]

theorem voteAndLeave_once : ∃ w p, execAll (Protocol.exec natHash) .init voteAndLeave = .ok w ∧
    w.gov.proposals.lookup ⟨1, 3⟩ = some p ∧
    p.forVotes + p.againstVotes + p.abstainVotes ≤ rolesOfType w.roles p.trust p.governanceConfigId := by
  have hgood : AllGood (fun w tx => RoleMove w tx ∧ SettledTransfer w tx)
      (Protocol.exec natHash) .init voteAndLeave := by decide
  have hpoll : ((execAll (Protocol.exec natHash) .init voteAndLeave).toOption.map fun w =>
      (w.gov.proposals.lookup ⟨1, 3⟩).map Proposal.unit) = some (some .roles) := by decide
  obtain ⟨hist, w, hw, run⟩ := Run.of_allGood .nil hgood
  obtain ⟨w₁, hw₁, hpoll⟩ := toOption_map_eq_some.1 hpoll
  obtain rfl : w = w₁ := Except.ok.inj (hw.symm.trans hw₁)
  obtain ⟨p, hp, hunit⟩ := map_eq_some_iff.1 hpoll
  exact ⟨w, p, hw, hp, (no_role_votes_twice run hp hunit).1⟩

/-- All in slot 11, the snapshot slot: account 9 votes, hands its role on to account
8, and 8 votes with it. -/
def voteInTurn : List (ProtocolTx Nat) :=
  rolePoll ++
    [⟨⟨11, 101⟩, {}, .gov (.castVoteRole ⟨⟨1, 3⟩, 9⟩ 1)⟩,
     ⟨⟨11, 101⟩, {}, .role (.transferRole ⟨⟨1, 5⟩, ⟨1, 7⟩, 1, 8, 9⟩ 8)⟩,
     ⟨⟨11, 101⟩, {}, .gov (.castVoteRole ⟨⟨1, 3⟩, 8⟩ 1)⟩]

/-- Two votes are counted, and the type has one role. -/
theorem not_no_role_votes_twice : ¬ ∀ hist w,
    Run (Guarded RoleMove (okStep (Protocol.exec natHash))) .init hist w →
    ∀ k p, w.gov.proposals.lookup k = some p → p.unit = .roles →
      p.forVotes + p.againstVotes + p.abstainVotes ≤
        rolesOfType w.roles p.trust p.governanceConfigId := by
  intro hall
  have hgood : AllGood RoleMove (Protocol.exec natHash) .init voteInTurn := by decide
  have hpoll : ((execAll (Protocol.exec natHash) .init voteInTurn).toOption.map fun w =>
      (w.gov.proposals.lookup ⟨1, 3⟩).map fun p =>
        (p.unit, p.forVotes, rolesOfType w.roles p.trust p.governanceConfigId)) =
      some (some (.roles, 2, 1)) := by decide
  obtain ⟨hist, w, hw, run⟩ := Run.of_allGood .nil hgood
  obtain ⟨w₁, hw₁, hpoll⟩ := toOption_map_eq_some.1 hpoll
  obtain rfl : w = w₁ := Except.ok.inj (hw.symm.trans hw₁)
  obtain ⟨p, hp, hfacts⟩ := map_eq_some_iff.1 hpoll
  simp only [Prod.mk.injEq] at hfacts
  obtain ⟨hunit, hfor, hroles⟩ := hfacts
  have hle := hall hist w run _ p hp hunit
  omega

end Aeqi.Governance
