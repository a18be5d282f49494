import Aeqi.Roles.Invariant
import Aeqi.Lib.Balance

/-!
# aeqi_role: vote conservation

Each occupied role carries one vote of its type, resting with the delegatee of
the role if it has a delegation and with its holder otherwise. Its **seat** is
the checkpoint that has to count it. The checkpoints of the program are meant to
be counters balanced against the seats of the roles.

`resign_role` and `transfer_role` move the vote of the *holder*, whoever it was
delegated to; `transfer_role` to the holder itself reads one checkpoint twice and
keeps the incremented copy; `delegate_role` takes the vote away from a checkpoint
the caller names. `VoteSafe` is the condition under which none of this happens,
and `seatsBalanced_step_iff` shows that it is exact.
-/

namespace Aeqi.Roles

open Aeqi.Lib Aeqi.Lib.Accounts Aeqi.Solana Option

/-! ## Seats -/

def votingPower (s : RoleState) (k : RolePda) (r : Role) : Pubkey :=
  match s.delegations.lookup k with
  | some d => d.delegatee
  | none => r.account

def seat (s : RoleState) (k : RolePda) (r : Role) : Option CheckpointPda :=
  if r.status = .occupied then some ⟨r.trust, r.roleTypeId, votingPower s k r⟩ else none

/-- The votes recorded at a checkpoint; an absent one records none. -/
def ckptCount (s : RoleState) (p : CheckpointPda) : Nat := wt (fun _ c => c.count) s.checkpoints p

def SeatsBalanced (s : RoleState) : Prop := Balanced (seat s) (ckptCount s) s.roles

def seatAt (s : RoleState) (k : RolePda) : Option CheckpointPda := destAt (seat s) s.roles k

section Seat

variable {s s' : RoleState} {k : RolePda} {r : Role}

theorem seatAt_occupied (hr : s.roles.lookup k = some r) (hst : r.status = .occupied) :
    seatAt s k = some ⟨r.trust, r.roleTypeId, votingPower s k r⟩ := by
  simp [seatAt, destAt, hr, seat, hst]

theorem seatAt_vacant (hr : s.roles.lookup k = some r) (hst : r.status ≠ .occupied) :
    seatAt s k = none := by
  simp [seatAt, destAt, hr, seat, hst]

theorem seatAt_congr (hr : s'.roles.lookup k = s.roles.lookup k)
    (hd : s'.delegations.lookup k = s.delegations.lookup k) : seatAt s' k = seatAt s k := by
  unfold seatAt destAt
  congr 1
  funext r
  rw [seat, seat, votingPower, votingPower, hd]

theorem initIfNeeded_count (p : CheckpointPda) :
    (initIfNeeded s.checkpoints p .zeroed).count = ckptCount s p := by
  cases hp : s.checkpoints.lookup p <;>
    simp [initIfNeeded, ckptCount, wt, hp, RoleVoteCheckpoint.zeroed]

theorem ckptCount_of_some {p : CheckpointPda} {c : RoleVoteCheckpoint}
    (h : s.checkpoints.lookup p = some c) : ckptCount s p = c.count := wt_of_some h

/-- In a well-formed state `delegate_role` reads the previous delegatee where the
vote rests. -/
theorem Wf.prevDelegatee_eq (hwf : Wf s) (hr : s.roles.lookup k = some r) :
    prevDelegatee s r = votingPower s k r := by
  rw [prevDelegatee, hwf.pda_eq hr, votingPower]
  cases hd : s.delegations.lookup k with
  | none => simp [initIfNeeded, hd, RoleDelegation.zeroed]
  | some d =>
    have hne : d.delegatee ≠ 0 := (hwf.deleg hd).1
    simp only [initIfNeeded, hd, Option.getD_some, hne, if_false]

theorem Wf.delegation_of_vacant (hwf : Wf s) (hr : s.roles.lookup k = some r)
    (hst : r.status = .vacant) : s.delegations.lookup k = none := by
  cases hd : s.delegations.lookup k with
  | none => rfl
  | some d =>
    obtain ⟨-, r', hr', hst'⟩ := hwf.deleg hd
    obtain rfl : r = r' := some.inj (hr.symm.trans hr')
    exact absurd hst hst'

end Seat

/-! ## The condition on a transaction -/

/-- A transaction under which the checkpoints follow the votes: a role is
resigned by the account its vote rests with, transferred undelegated and to
another account, and delegated out of the checkpoint of the account its vote
rests with. -/
def VoteSafe (s : RoleState) (tx : RoleTx) : Prop :=
  match tx.ix with
  | .resignRole a => ∀ r ∈ s.roles.lookup a.role, votingPower s a.role r = r.account
  | .transferRole a newAccount => s.delegations.lookup a.role = none ∧
      ∀ r ∈ s.roles.lookup a.role, newAccount ≠ r.account
  | .delegateRole a delegatee => ∀ r ∈ s.roles.lookup a.role,
      votingPower s a.role r = delegatee ∨
        a.prevCheckpoint = some ⟨r.trust, r.roleTypeId, votingPower s a.role r⟩
  | _ => True

instance (s : RoleState) : ∀ tx, Decidable (VoteSafe s tx)
  | ⟨_, .resignRole a⟩ =>
    inferInstanceAs (Decidable (∀ r ∈ s.roles.lookup a.role, votingPower s a.role r = r.account))
  | ⟨_, .transferRole a newAccount⟩ =>
    inferInstanceAs (Decidable (s.delegations.lookup a.role = none ∧
      ∀ r ∈ s.roles.lookup a.role, newAccount ≠ r.account))
  | ⟨_, .delegateRole a delegatee⟩ =>
    inferInstanceAs (Decidable (∀ r ∈ s.roles.lookup a.role,
      votingPower s a.role r = delegatee ∨
        a.prevCheckpoint = some ⟨r.trust, r.roleTypeId, votingPower s a.role r⟩))
  | ⟨_, .createRoleType ..⟩ => instDecidableTrue
  | ⟨_, .createRole ..⟩ => instDecidableTrue
  | ⟨_, .assignRole ..⟩ => instDecidableTrue

/-! ## One lemma per instruction -/

section Step

variable {s s' : RoleState} {clock : Clock}

theorem SeatsBalanced.role_iff (hb : SeatsBalanced s) (k : RolePda) (r' : Role)
    (rts : Accounts RoleTypePda RoleType) (c' : Accounts CheckpointPda RoleVoteCheckpoint) :
    SeatsBalanced ⟨rts, s.roles.insert k r', s.delegations, c'⟩ ↔
      ∀ p, wt (fun _ c => c.count) c' p + hit (seatAt s k) p = ckptCount s p + hit (seat s k r') p := by
  have hnew : seatAt ⟨rts, s.roles.insert k r', s.delegations, c'⟩ k = seat s k r' := by
    simp only [seatAt, destAt, AList.lookup_insert]
    rfl
  rw [← hnew]
  exact Balanced.step_iff hb k fun k' hk' => seatAt_congr (AList.lookup_insert_ne hk') rfl

theorem SeatsBalanced.delegation_iff (hb : SeatsBalanced s) {k : RolePda} {r : Role}
    (hr : s.roles.lookup k = some r) (hst : r.status = .occupied) (d : RoleDelegation)
    (c' : Accounts CheckpointPda RoleVoteCheckpoint) :
    SeatsBalanced ⟨s.roleTypes, s.roles, s.delegations.insert k d, c'⟩ ↔
      ∀ p, wt (fun _ c => c.count) c' p + hit (some ⟨r.trust, r.roleTypeId, votingPower s k r⟩) p =
        ckptCount s p + hit (some ⟨r.trust, r.roleTypeId, d.delegatee⟩) p := by
  have hnew : seatAt ⟨s.roleTypes, s.roles, s.delegations.insert k d, c'⟩ k =
      some ⟨r.trust, r.roleTypeId, d.delegatee⟩ := by
    simp [seatAt, destAt, hr, seat, hst, votingPower]
  rw [← hnew, ← seatAt_occupied hr hst]
  exact Balanced.step_iff hb k fun k' hk' => seatAt_congr rfl (AList.lookup_insert_ne hk')

theorem createRole_balanced (hb : SeatsBalanced s) {a : CreateRole} {id t : Bytes32}
    {parent : Option Bytes32} {cid : Bytes64}
    (h : createRole s clock a id t parent cid = .ok s') : SeatsBalanced s' := by
  obtain ⟨-, -, -, hfree, -, -, -, rfl⟩ := createRole_ok h
  rw [hb.role_iff]
  intro p
  simp [seatAt, destAt, hfree, seat, ckptCount]

variable {account : Pubkey}

theorem assignRole_balanced (hwf : Wf s) (hb : SeatsBalanced s) {a : AssignRole}
     (h : assignRole s clock a account = .ok s') : SeatsBalanced s' := by
  obtain ⟨r, -, -, hr, -, -, -, -, -, -, hst, -, rfl⟩ := assignRole_ok h
  have hold : seatAt s a.role = none := seatAt_vacant hr (by rw [hst]; decide)
  rw [hb.role_iff, hold]
  intro p
  simp only [seat, votingPower, hwf.delegation_of_vacant hr hst, initIfNeeded_count]
  by_cases hp : p = ⟨r.trust, r.roleTypeId, account⟩
  · subst hp
    simp
  · simp [ckptCount, wt_insert_ne hp, hit_some_ne hp]

theorem resignRole_balanced_iff (hb : SeatsBalanced s) {a : ResignRole}
    (h : resignRole s clock a = .ok s') : SeatsBalanced s' ↔
      ∀ r ∈ s.roles.lookup a.role, votingPower s a.role r = r.account := by
  obtain ⟨r, c, hr, hc, hst, -, hn, rfl⟩ := resignRole_ok h
  have hcount := ckptCount_of_some hc
  rw [hb.role_iff, seatAt_occupied hr hst]
  simp only [seat, reduceCtorEq, if_false, hit_none]
  constructor
  · intro hall r' hr'
    obtain rfl : r = r' := some.inj (hr.symm.trans hr')
    by_contra hne
    -- the delegatee's counter would have to move
    have hp := hall ⟨r.trust, r.roleTypeId, votingPower s a.role r⟩
    rw [wt_insert_ne (by simpa using hne), hit_some_self, ckptCount] at hp
    omega
  · intro hpower p
    rw [hpower r hr]
    by_cases hp : p = ⟨r.trust, r.roleTypeId, r.account⟩
    · subst hp
      rw [wt_insert, hit_some_self, hcount]
      exact Nat.sub_add_cancel hn
    · rw [wt_insert_ne hp, hit_some_ne hp, ckptCount, Nat.add_zero]

theorem transferRole_balanced_iff (hb : SeatsBalanced s) {a : TransferRole}
     (h : transferRole s clock a account = .ok s') : SeatsBalanced s' ↔
      s.delegations.lookup a.role = none ∧ ∀ r ∈ s.roles.lookup a.role, account ≠ r.account := by
  obtain ⟨r, c, hr, hc, hst, -, hn, rfl⟩ := transferRole_ok h
  have hcount := ckptCount_of_some hc
  rw [hb.role_iff, seatAt_occupied hr hst]
  simp only [seat, hst, if_true, initIfNeeded_count]
  constructor
  · intro hall
    have hnew := hall ⟨r.trust, r.roleTypeId, account⟩
    rw [wt_insert] at hnew
    cases hd : s.delegations.lookup a.role with
    | some d =>
      -- the vote stays with the delegatee, the new holder's counter moves
      simp only [votingPower, hd] at hnew
      omega
    | none =>
      refine ⟨rfl, fun r' hr' he => ?_⟩
      obtain rfl : r = r' := some.inj (hr.symm.trans hr')
      simp only [votingPower, he] at hnew
      omega
  · rintro ⟨hd, hne⟩ p
    have hne := hne r hr
    simp only [votingPower, hd]
    by_cases hp : p = ⟨r.trust, r.roleTypeId, account⟩
    · subst hp
      have hnp : (⟨r.trust, r.roleTypeId, account⟩ : CheckpointPda) ≠
          ⟨r.trust, r.roleTypeId, r.account⟩ := by simpa using hne
      rw [wt_insert, hit_some_self, hit_some_ne hnp]
    · by_cases hp' : p = ⟨r.trust, r.roleTypeId, r.account⟩
      · subst hp'
        rw [wt_insert_ne hp, wt_insert, hit_some_self, hit_some_ne hp, hcount]
        exact Nat.sub_add_cancel hn
      · rw [wt_insert_ne hp, wt_insert_ne hp', hit_some_ne hp, hit_some_ne hp', ckptCount]

theorem delegateRole_balanced_iff (hwf : Wf s) (hb : SeatsBalanced s) {a : DelegateRole}
     (h : delegateRole s clock a account = .ok s') : SeatsBalanced s' ↔
      ∀ r ∈ s.roles.lookup a.role, votingPower s a.role r = account ∨
        a.prevCheckpoint = some ⟨r.trust, r.roleTypeId, votingPower s a.role r⟩ := by
  obtain ⟨r, hr, hst, -, -, h⟩ := delegateRole_ok h
  rw [hwf.prevDelegatee_eq hr, hwf.pda_eq hr] at h
  have honly : ∀ r', s.roles.lookup a.role = some r' → r' = r :=
    fun r' hr' => some.inj (hr'.symm.trans hr)
  rcases h with ⟨hprev, rfl⟩ | ⟨hprev, q, c, hq, hc, hn, rfl⟩
  · refine iff_of_true ?_ fun r' hr' => .inl (by rw [honly r' hr']; exact hprev)
    rw [hb.delegation_iff hr hst, hprev]
    intro p
    by_cases hp : p = ⟨r.trust, r.roleTypeId, account⟩
    · subst hp
      rw [wt_insert, initIfNeeded_count]
    · rw [wt_insert_ne hp, ckptCount]
  · have hcount := ckptCount_of_some hc
    have hne : (⟨r.trust, r.roleTypeId, votingPower s a.role r⟩ : CheckpointPda) ≠
        ⟨r.trust, r.roleTypeId, account⟩ := by simpa using hprev
    rw [hb.delegation_iff hr hst]
    simp only [initIfNeeded_count]
    constructor
    · intro hall r' hr'
      rw [honly r' hr', hq]
      refine .inr ?_
      by_contra hqne
      -- the counter the vote rests with would have to move
      have hp := hall ⟨r.trust, r.roleTypeId, votingPower s a.role r⟩
      rw [hit_some_self, hit_some_ne hne, wt_insert_ne hne,
        wt_insert_ne fun he => hqne (by rw [he]), ckptCount] at hp
      omega
    · intro hall p
      have hqe : q = ⟨r.trust, r.roleTypeId, votingPower s a.role r⟩ := by
        rcases hall r hr with he | he
        · exact absurd he hprev
        · exact some.inj (hq.symm.trans he)
      subst hqe
      by_cases hp : p = ⟨r.trust, r.roleTypeId, account⟩
      · subst hp
        rw [wt_insert, hit_some_self, hit_some_ne hne.symm]
      · by_cases hp' : p = ⟨r.trust, r.roleTypeId, votingPower s a.role r⟩
        · subst hp'
          rw [wt_insert_ne hp, wt_insert, hit_some_self, hit_some_ne hp, hcount]
          exact Nat.sub_add_cancel hn
        · rw [wt_insert_ne hp, wt_insert_ne hp', hit_some_ne hp, hit_some_ne hp', ckptCount]

/-- **One transaction.** It keeps the seats balanced exactly when it is safe. -/
theorem seatsBalanced_step_iff (hwf : Wf s) (hb : SeatsBalanced s) {tx : RoleTx}
    (h : s.exec tx = .ok s') : SeatsBalanced s' ↔ VoteSafe s tx := by
  unfold RoleState.exec at h
  unfold VoteSafe
  cases hix : tx.ix with
  | createRoleType a t hierarchy config =>
    rw [hix] at h
    obtain ⟨-, rfl⟩ := createRoleType_ok h
    exact iff_of_true hb trivial
  | createRole a id t parent cid =>
    rw [hix] at h
    exact iff_of_true (createRole_balanced hb h) trivial
  | assignRole a account =>
    rw [hix] at h
    exact iff_of_true (assignRole_balanced hwf hb h) trivial
  | resignRole a =>
    rw [hix] at h
    exact resignRole_balanced_iff hb h
  | transferRole a account =>
    rw [hix] at h
    exact transferRole_balanced_iff hb h
  | delegateRole a account =>
    rw [hix] at h
    exact delegateRole_balanced_iff hwf hb h

end Step

/-! ## Conservation -/

/-- Every occupied role is counted exactly once: each checkpoint shows the
occupied roles of its type whose vote rests with its account, and the checkpoints
of a type add up to the occupied roles of the type. -/
structure VotesConserved (s : RoleState) : Prop where
  each : ∀ trust t account, ckptCount s ⟨trust, t, account⟩ =
    count (fun k r => r.trust = trust ∧ r.roleTypeId = t ∧ r.status = .occupied ∧
      votingPower s k r = account) s.roles
  sum : ∀ trust t,
    total (fun p c => if p.trust = trust ∧ p.roleTypeId = t then c.count else 0) s.checkpoints =
      count (fun _ r => r.trust = trust ∧ r.roleTypeId = t ∧ r.status = .occupied) s.roles

section Conserved

variable {s : RoleState}

theorem seat_eq_some {k : RolePda} {r : Role} {p : CheckpointPda} :
    seat s k r = some p ↔ r.trust = p.trust ∧ r.roleTypeId = p.roleTypeId ∧
      r.status = .occupied ∧ votingPower s k r = p.account := by
  cases p
  unfold seat
  split <;> simp_all

def ckptsOfType (s : RoleState) (trust : Pubkey) (t : Bytes32) : Finset CheckpointPda :=
  s.checkpoints.keys.toFinset.filter fun p => p.trust = trust ∧ p.roleTypeId = t

theorem total_ckptsOfType (trust : Pubkey) (t : Bytes32) :
    total (fun p c => if p.trust = trust ∧ p.roleTypeId = t then c.count else 0) s.checkpoints =
      ∑ p ∈ ckptsOfType s trust t, ckptCount s p := by
  rw [ckptsOfType, Finset.sum_filter]
  apply Finset.sum_congr rfl
  intro p _
  unfold ckptCount
  cases hp : s.checkpoints.lookup p with
  | none => simp [wt_of_none hp]
  | some c => simp [wt_of_some hp]

theorem SeatsBalanced.sum_eq (hb : SeatsBalanced s) (trust : Pubkey) (t : Bytes32) :
    ∑ p ∈ ckptsOfType s trust t, ckptCount s p =
      count (fun _ r => r.trust = trust ∧ r.roleTypeId = t ∧ r.status = .occupied) s.roles := by
  rw [Balanced.sum hb]
  refine count_congr fun k r hr => ⟨?_, fun ⟨htrust, ht, hst⟩ => ?_⟩
  · rintro ⟨p, hp, hseat⟩
    obtain ⟨h₁, h₂, h₃, -⟩ := seat_eq_some.1 hseat
    obtain ⟨-, hpt, hpi⟩ := Finset.mem_filter.1 hp
    exact ⟨h₁.trans hpt, h₂.trans hpi, h₃⟩
  · -- the seat of an occupied role has a positive counter, so its checkpoint exists
    have hseat : seat s k r = some ⟨trust, t, votingPower s k r⟩ :=
      seat_eq_some.2 ⟨htrust, ht, hst, rfl⟩
    have hpos : 0 < ckptCount s ⟨trust, t, votingPower s k r⟩ := by
      rw [hb]
      exact count_pos hr hseat
    refine ⟨_, Finset.mem_filter.2 ⟨?_, rfl, rfl⟩, hseat⟩
    by_contra hmem
    rw [ckptCount, wt_of_not_mem hmem] at hpos
    omega

theorem votesConserved_iff : VotesConserved s ↔ SeatsBalanced s := by
  constructor
  · intro h p
    rw [h.each p.trust p.roleTypeId p.account]
    exact count_congr fun k r _ => seat_eq_some.symm
  · intro hb
    refine ⟨fun trust t account => ?_, fun trust t => ?_⟩
    · rw [hb]
      exact count_congr fun k r _ => seat_eq_some
    · rw [total_ckptsOfType, hb.sum_eq]

theorem SeatsBalanced.init : SeatsBalanced RoleState.init := fun _ => rfl

theorem SeatsBalanced.of_run {hist : List (RoleState × RoleTx)}
    (run : Run (Guarded VoteSafe (okStep RoleState.exec)) RoleState.init hist s) :
    Wf s ∧ SeatsBalanced s := by
  refine run.invariant (P := fun s => Wf s ∧ SeatsBalanced s) ⟨Wf.init, SeatsBalanced.init⟩ ?_
  rintro t tx t' ⟨hwf, hb⟩ ⟨hsafe, hstep⟩
  exact ⟨hwf.step hstep, (seatsBalanced_step_iff hwf hb hstep).2 hsafe⟩

/-- **Role vote conservation**: votes stay conserved exactly by the transactions that are
`VoteSafe`. -/
theorem votesConserved_of_safe_run {hist : List (RoleState × RoleTx)}
    (run : Run (Guarded VoteSafe (okStep RoleState.exec)) RoleState.init hist s) :
    VotesConserved s ∧ ∀ tx s', s.exec tx = .ok s' → (VotesConserved s' ↔ VoteSafe s tx) := by
  obtain ⟨hwf, hb⟩ := SeatsBalanced.of_run run
  refine ⟨votesConserved_iff.2 hb, fun tx s' h => ?_⟩
  rw [votesConserved_iff]
  exact seatsBalanced_step_iff hwf hb h

end Conserved

/-! ## Runs on fixed inputs -/

def handover : List RoleTx :=
  bootstrap ++
    [⟨⟨11, 101⟩, .transferRole ⟨⟨1, 5⟩, ⟨1, 7⟩, 1, 8, 9⟩ 8⟩,
     ⟨⟨12, 102⟩, .delegateRole ⟨⟨1, 5⟩, ⟨1, 7⟩, some ⟨1, 7, 8⟩, 6, 8⟩ 6⟩]

theorem handover_conserved :
    ∃ s, execAll RoleState.exec RoleState.init handover = .ok s ∧ VotesConserved s := by
  have hsafe : AllGood VoteSafe RoleState.exec RoleState.init handover := by decide
  obtain ⟨hist, s, hs, run⟩ := Run.of_allGood .nil hsafe
  exact ⟨s, hs, (votesConserved_of_safe_run run).1⟩

def selfTransfer : List RoleTx :=
  bootstrap ++ [⟨⟨10, 100⟩, .transferRole ⟨⟨1, 5⟩, ⟨1, 7⟩, 1, 9, 9⟩ 9⟩]

/-- After the transfer the checkpoint of account 9 shows two votes for one role. -/
theorem not_votesConserved :
    ¬ ∀ hist s, Run (okStep RoleState.exec) RoleState.init hist s → VotesConserved s := by
  intro hall
  have hcounts : (execAll RoleState.exec RoleState.init selfTransfer).toOption.map (fun s =>
      (ckptCount s ⟨1, 7, 9⟩, count (fun k r => r.trust = 1 ∧ r.roleTypeId = 7 ∧
        r.status = .occupied ∧ votingPower s k r = 9) s.roles)) = some (2, 1) := by decide
  obtain ⟨s, hs, hcounts⟩ := toOption_map_eq_some.1 hcounts
  obtain ⟨hist, run⟩ := Run.execAll hs
  have heach := (hall hist s run).each 1 7 9
  rw [Prod.mk.injEq] at hcounts
  rw [hcounts.1, hcounts.2] at heach
  exact nomatch heach

/-- **The role accounts agree** in every run: a role has its type, which counts its roles, and
a vacant role delegates to nobody. -/
theorem accounts_agree {hist : List (RoleState × RoleTx)} {s : RoleState} {k : RolePda} {r : Role}
    (run : Run (okStep RoleState.exec) RoleState.init hist s) (hr : s.roles.lookup k = some r) :
    (∃ rt, s.roleTypes.lookup ⟨k.trust, r.roleTypeId⟩ = some rt ∧
      rt.roleCount = rolesOfType s k.trust r.roleTypeId) ∧
    ∀ d ∈ s.delegations.lookup k, r.status ≠ .vacant ∧ d.delegatee ≠ 0 := by
  have hwf := Wf.of_run run
  constructor
  · obtain ⟨rt, hrt⟩ := hwf.typed hr
    exact ⟨rt, hrt, (hwf.roleType hrt).2.2⟩
  · intro d hd
    obtain ⟨hne, r', hr', hst⟩ := hwf.deleg hd
    cases hr.symm.trans hr'
    exact ⟨hst, hne⟩

theorem handover_agrees : ∃ s r, execAll RoleState.exec RoleState.init handover = .ok s ∧
    s.roles.lookup ⟨1, 5⟩ = some r ∧ ∀ d ∈ s.delegations.lookup ⟨1, 5⟩, d.delegatee ≠ 0 := by
  have hrole : ((execAll RoleState.exec RoleState.init handover).toOption.map fun s =>
      (s.roles.lookup ⟨1, 5⟩).isSome) = some true := by decide
  obtain ⟨s, hs, hsome⟩ := toOption_map_eq_some.1 hrole
  obtain ⟨r, hr⟩ := Option.isSome_iff_exists.1 hsome
  obtain ⟨hist, run⟩ := Run.execAll hs
  exact ⟨s, r, hs, hr, fun d hd => ((accounts_agree run hr).2 d hd).2⟩

end Aeqi.Roles
