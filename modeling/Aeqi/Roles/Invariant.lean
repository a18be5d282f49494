import Aeqi.Roles.Program

/-!
# aeqi_role: well-formed states

`Wf` says that the data of every account agrees with the address it lives at,
that a role type counts its roles, and that only roles that have been occupied
carry a delegation. Every reachable state is well formed (`Wf.of_run`), with no
condition on the callers.
-/

/-!
## aeqi_role: what a successful instruction did

One lemma per handler, saying which accounts a successful call read, which
guards it passed and which accounts it wrote. Later proofs start from these and
never unfold a handler.
-/

namespace Aeqi.Roles

open Aeqi.Lib Aeqi.Solana

section Bump

variable {clock : Clock} {c c' : RoleVoteCheckpoint} {account : Pubkey} {t : Bytes32}

theorem bumpCheckpoint_one_ok : bumpCheckpoint clock c account t 1 = .ok c' ↔
    c.count + 1 < 2 ^ 64 ∧ ⟨account, t, clock.slot, c.count + 1⟩ = c' := by
  have h1 : (0 : Int) ≤ 1 := by decide
  simp only [bumpCheckpoint, h1, ↓reduceIte, bind_eq_ok, okOr_eq_ok, checkedAdd_eq_some, pure_eq_ok]
  constructor
  · rintro ⟨n, ⟨hn, rfl⟩, h⟩
    exact ⟨hn, h⟩
  · rintro ⟨hn, h⟩
    exact ⟨_, ⟨hn, rfl⟩, h⟩

theorem bumpCheckpoint_neg_one_ok : bumpCheckpoint clock c account t (-1) = .ok c' ↔
    1 ≤ c.count ∧ ⟨account, t, clock.slot, c.count - 1⟩ = c' := by
  have h1 : ¬ (0 : Int) ≤ -1 := by decide
  simp only [bumpCheckpoint, h1, ↓reduceIte, bind_eq_ok, okOr_eq_ok, checkedSub_eq_some, pure_eq_ok]
  constructor
  · rintro ⟨n, ⟨hn, rfl⟩, h⟩
    exact ⟨hn, h⟩
  · rintro ⟨hn, h⟩
    exact ⟨_, ⟨hn, rfl⟩, h⟩

end Bump

theorem requireRoleTypeMatches_ok {role : Role} {roleType : RoleType} {u : Unit} :
    requireRoleTypeMatches role roleType = .ok u ↔
      roleType.trust = role.trust ∧ roleType.roleTypeId = role.roleTypeId := by
  simp [requireRoleTypeMatches, bind_eq_ok]

theorem bumpRoleCount_ok {rt rt' : RoleType} : bumpRoleCount rt = .ok rt' ↔
    rt.roleCount + 1 < 2 ^ 32 ∧ { rt with roleCount := rt.roleCount + 1 } = rt' := by
  simp only [bumpRoleCount, bind_eq_ok, okOr_eq_ok, checkedAdd_eq_some, pure_eq_ok]
  constructor
  · rintro ⟨n, ⟨hn, rfl⟩, h⟩
    exact ⟨hn, h⟩
  · rintro ⟨hn, h⟩
    exact ⟨_, ⟨hn, rfl⟩, h⟩

section Handlers

variable {s s' : RoleState} {clock : Clock}

theorem createRoleType_ok {a : CreateRoleType} {t : Bytes32} {hierarchy : Nat}
    {config : RoleTypeConfig} (h : createRoleType s a t hierarchy config = .ok s') :
    s.roleTypes.lookup ⟨a.trust, t⟩ = none ∧
    s' = { s with
      roleTypes := s.roleTypes.insert ⟨a.trust, t⟩ ⟨a.trust, t, hierarchy, config, 0⟩ } := by
  simp only [createRoleType, bind_eq_ok, requireFree_eq_ok, exists_punit, pure_eq_ok] at h
  exact ⟨h.1, h.2.symm⟩

theorem createRole_ok {a : CreateRole} {id t : Bytes32} {parent : Option Bytes32}
    {cid : Bytes64} (h : createRole s clock a id t parent cid = .ok s') :
    ∃ rt caller, s.roleTypes.lookup ⟨a.trust, t⟩ = some rt ∧ s.roles.lookup ⟨a.trust, id⟩ = none ∧
      loadOption s.roles a.callerRole = (.ok caller : Except RoleError _) ∧
      gateRoleCreation s.roles a.trust rt caller a.payer parent a.remaining = .ok () ∧
      rt.roleCount + 1 < 2 ^ 32 ∧
      s' = { s with
        roleTypes := s.roleTypes.insert ⟨a.trust, t⟩ { rt with roleCount := rt.roleCount + 1 }
        roles := s.roles.insert ⟨a.trust, id⟩
          ⟨a.trust, id, t, 0, parent.getD 0, .vacant, clock.unixTimestamp, cid⟩ } := by
  simp only [createRole, bind_eq_ok, load_eq_ok, requireFree_eq_ok, exists_punit, pure_eq_ok,
    bumpRoleCount_ok] at h
  obtain ⟨rt, hrt, hfree, caller, hcaller, hgate, -, ⟨hcount, rfl⟩, rfl⟩ := h
  exact ⟨rt, caller, hrt, hfree, hcaller, hgate, hcount, rfl⟩

variable {account : Pubkey}

theorem assignRole_ok {a : AssignRole} (h : assignRole s clock a account = .ok s') :
    ∃ r rt caller, s.roles.lookup a.role = some r ∧ r.trust = a.trust ∧
      s.roleTypes.lookup a.roleType = some rt ∧ rt.trust = r.trust ∧
      rt.roleTypeId = r.roleTypeId ∧
      loadOption s.roles a.callerRole = (.ok caller : Except RoleError _) ∧
      gateRoleAssignment s.roles r rt caller a.payer account a.remaining = .ok () ∧
      r.status = .vacant ∧
      (initIfNeeded s.checkpoints ⟨r.trust, r.roleTypeId, account⟩ .zeroed).count + 1 < 2 ^ 64 ∧
      s' = { s with
        roles := s.roles.insert a.role
          { r with account, status := .occupied, statusSince := clock.unixTimestamp }
        checkpoints := s.checkpoints.insert ⟨r.trust, r.roleTypeId, account⟩
          ⟨account, r.roleTypeId, clock.slot,
            (initIfNeeded s.checkpoints ⟨r.trust, r.roleTypeId, account⟩ .zeroed).count + 1⟩ } := by
  simp only [assignRole, bind_eq_ok, load_eq_ok, require_eq_ok, exists_punit, pure_eq_ok,
    requireRoleTypeMatches_ok, bumpCheckpoint_one_ok] at h
  obtain ⟨r, hr, htrust, rt, hrt, caller, hcaller, hgate, ⟨hrtt, hrti⟩, hst, c, ⟨hc, rfl⟩, rfl⟩ := h
  rw [← htrust, hrti] at hc ⊢
  exact ⟨r, rt, caller, hr, rfl, hrt, hrtt, hrti, hcaller, hgate, hst, hc, rfl⟩

theorem resignRole_ok {a : ResignRole} (h : resignRole s clock a = .ok s') :
    ∃ r c, s.roles.lookup a.role = some r ∧
      s.checkpoints.lookup ⟨r.trust, r.roleTypeId, r.account⟩ = some c ∧
      r.status = .occupied ∧ a.payer = r.account ∧ 1 ≤ c.count ∧
      s' = { s with
        roles := s.roles.insert a.role
          { r with account := 0, status := .resigned, statusSince := clock.unixTimestamp }
        checkpoints := s.checkpoints.insert ⟨r.trust, r.roleTypeId, r.account⟩
          ⟨r.account, r.roleTypeId, clock.slot, c.count - 1⟩ } := by
  simp only [resignRole, bind_eq_ok, load_eq_ok, require_eq_ok, exists_punit, pure_eq_ok,
    requireRoleTypeMatches_ok, bumpCheckpoint_neg_one_ok] at h
  obtain ⟨r, hr, htrust, rt, -, c, hc, ⟨-, hrti⟩, hst, hp, -, ⟨hn, rfl⟩, rfl⟩ := h
  rw [← htrust, hrti] at hc ⊢
  exact ⟨r, c, hr, hc, hst, hp, hn, rfl⟩

theorem transferRole_ok {a : TransferRole} (h : transferRole s clock a account = .ok s') :
    ∃ r c, s.roles.lookup a.role = some r ∧
      s.checkpoints.lookup ⟨r.trust, r.roleTypeId, r.account⟩ = some c ∧
      r.status = .occupied ∧ a.payer = r.account ∧ 1 ≤ c.count ∧
      s' = { s with
        roles := s.roles.insert a.role
          { r with account, statusSince := clock.unixTimestamp }
        checkpoints :=
          (s.checkpoints.insert ⟨r.trust, r.roleTypeId, r.account⟩
            ⟨r.account, r.roleTypeId, clock.slot, c.count - 1⟩).insert
          ⟨r.trust, r.roleTypeId, account⟩
          ⟨account, r.roleTypeId, clock.slot,
            (initIfNeeded s.checkpoints ⟨r.trust, r.roleTypeId, account⟩ .zeroed).count + 1⟩ } := by
  simp only [transferRole, bind_eq_ok, load_eq_ok, require_eq_ok, exists_punit, pure_eq_ok,
    requireRoleTypeMatches_ok, bumpCheckpoint_neg_one_ok, bumpCheckpoint_one_ok] at h
  obtain ⟨r, hr, htrust, rt, -, c, hc, ⟨-, hrti⟩, rfl, hst, hp, -, ⟨hn, rfl⟩, -, ⟨-, rfl⟩, rfl⟩ := h
  rw [← htrust, hrti] at hc ⊢
  exact ⟨r, c, hr, hc, hst, hp, hn, rfl⟩

/-- The account `delegate_role` takes the vote away from. -/
def prevDelegatee (s : RoleState) (r : Role) : Pubkey :=
  let deleg := initIfNeeded s.delegations ⟨r.trust, r.roleId⟩ .zeroed
  if deleg.delegatee = 0 then r.account else deleg.delegatee

theorem delegateRole_ok {a : DelegateRole} (h : delegateRole s clock a account = .ok s') :
    ∃ r, s.roles.lookup a.role = some r ∧ r.status = .occupied ∧ a.payer = r.account ∧ account ≠ 0 ∧
      ((prevDelegatee s r = account ∧ s' = { s with
          delegations := s.delegations.insert ⟨r.trust, r.roleId⟩ ⟨r.trust, r.roleId, account⟩
          checkpoints := s.checkpoints.insert ⟨r.trust, r.roleTypeId, account⟩
            (initIfNeeded s.checkpoints ⟨r.trust, r.roleTypeId, account⟩ .zeroed) }) ∨
      (prevDelegatee s r ≠ account ∧ ∃ p c, a.prevCheckpoint = some p ∧
        s.checkpoints.lookup p = some c ∧ 1 ≤ c.count ∧
        s' = { s with
          delegations := s.delegations.insert ⟨r.trust, r.roleId⟩ ⟨r.trust, r.roleId, account⟩
          checkpoints :=
            (s.checkpoints.insert p
              ⟨prevDelegatee s r, r.roleTypeId, clock.slot, c.count - 1⟩).insert
            ⟨r.trust, r.roleTypeId, account⟩
            ⟨account, r.roleTypeId, clock.slot,
              (initIfNeeded s.checkpoints ⟨r.trust, r.roleTypeId, account⟩ .zeroed).count + 1⟩ })) := by
  simp only [delegateRole, bind_eq_ok, load_eq_ok, require_eq_ok, exists_punit,
    requireRoleTypeMatches_ok] at h
  obtain ⟨r, hr, rt, -, c, hc, ⟨-, hrti⟩, hne, hnew, hst, hp, h⟩ := h
  rw [hnew, hrti] at h
  change (if prevDelegatee s r = account then _ else _) = _ at h
  refine ⟨r, hr, hst, hp, hne, ?_⟩
  split at h
  · next hprev => exact .inl ⟨hprev, (pure_eq_ok.1 h).symm⟩
  · next hprev =>
    simp only [bind_eq_ok, okOr_eq_ok, pure_eq_ok, bumpCheckpoint_neg_one_ok,
      bumpCheckpoint_one_ok] at h
    obtain ⟨p, hpp, c, rfl, -, ⟨hn, rfl⟩, -, ⟨-, rfl⟩, rfl⟩ := h
    obtain ⟨p', hp', hlook⟩ := loadOption_eq_some.1 hc
    obtain rfl : p' = p := Option.some.inj (hp'.symm.trans hpp)
    exact .inr ⟨hprev, p', c, hpp, hlook, hn, rfl⟩

end Handlers

open Aeqi.Lib.Accounts

/-- The roles of type `t` of a trust. -/
def OfType (trust : Pubkey) (t : Bytes32) (k : RolePda) (r : Role) : Prop :=
  k.trust = trust ∧ r.roleTypeId = t

instance (trust : Pubkey) (t : Bytes32) (k : RolePda) (r : Role) :
    Decidable (OfType trust t k r) := inferInstanceAs (Decidable (_ ∧ _))

/-- The number of roles of type `t` of a trust. -/
def rolesOfType (s : RoleState) (trust : Pubkey) (t : Bytes32) : Nat :=
  count (OfType trust t) s.roles

structure Wf (s : RoleState) : Prop where
  role : ∀ {k r}, s.roles.lookup k = some r → r.trust = k.trust ∧ r.roleId = k.roleId
  roleType : ∀ {k rt}, s.roleTypes.lookup k = some rt →
    rt.trust = k.trust ∧ rt.roleTypeId = k.roleTypeId ∧
      rt.roleCount = rolesOfType s k.trust k.roleTypeId
  typed : ∀ {k r}, s.roles.lookup k = some r →
    ∃ rt, s.roleTypes.lookup ⟨k.trust, r.roleTypeId⟩ = some rt
  deleg : ∀ {k d}, s.delegations.lookup k = some d →
    d.delegatee ≠ 0 ∧ ∃ r, s.roles.lookup k = some r ∧ r.status ≠ .vacant

namespace Wf

variable {s s' : RoleState} {clock : Clock}

theorem init : Wf RoleState.init := by
  refine ⟨?_, ?_, ?_, ?_⟩ <;> intro k v h <;> simp [RoleState.init] at h

variable {k : RolePda}

theorem pda_eq (hwf : Wf s) {r : Role} (h : s.roles.lookup k = some r) :
    (⟨r.trust, r.roleId⟩ : RolePda) = k := by
  obtain ⟨ht, hi⟩ := hwf.role h
  rw [ht, hi]

theorem rolesOfType_insert {r r' : Role} (hr : s.roles.lookup k = some r)
    (htype : r'.roleTypeId = r.roleTypeId) (trust : Pubkey) (t : Bytes32) :
    count (OfType trust t) (s.roles.insert k r') = rolesOfType s trust t :=
  count_insert_congr hr (by rw [OfType, OfType, htype])

theorem updateRole (hwf : Wf s) {r r' : Role} {ckpts : Accounts CheckpointPda RoleVoteCheckpoint}
    (hr : s.roles.lookup k = some r) (htrust : r'.trust = r.trust) (hid : r'.roleId = r.roleId)
    (htype : r'.roleTypeId = r.roleTypeId) (hst : r.status ≠ .vacant → r'.status ≠ .vacant) :
    Wf { s with roles := s.roles.insert k r', checkpoints := ckpts } := by
  refine ⟨?_, ?_, ?_, ?_⟩
  · intro k₁ r₁ h₁
    rcases lookup_insert_some h₁ with ⟨rfl, rfl⟩ | ⟨-, h₁⟩
    · rw [htrust, hid]
      exact hwf.role hr
    · exact hwf.role h₁
  · intro k₁ rt h₁
    obtain ⟨ht, hi, hc⟩ := hwf.roleType h₁
    exact ⟨ht, hi, hc.trans (rolesOfType_insert hr htype _ _).symm⟩
  · intro k₁ r₁ h₁
    rcases lookup_insert_some h₁ with ⟨rfl, rfl⟩ | ⟨-, h₁⟩
    · rw [htype]
      exact hwf.typed hr
    · exact hwf.typed h₁
  · intro k₁ d h₁
    obtain ⟨hd, r₁, hr₁, hst₁⟩ := hwf.deleg h₁
    refine ⟨hd, ?_⟩
    by_cases hk : k₁ = k
    · subst hk
      obtain rfl : r₁ = r := Option.some.inj (hr₁.symm.trans hr)
      exact ⟨r', AList.lookup_insert _, hst hst₁⟩
    · exact ⟨r₁, (AList.lookup_insert_ne hk).trans hr₁, hst₁⟩

theorem updateDelegation (hwf : Wf s) {r : Role} {d : RoleDelegation}
    {ckpts : Accounts CheckpointPda RoleVoteCheckpoint} (hr : s.roles.lookup k = some r)
    (hst : r.status ≠ .vacant) (hd : d.delegatee ≠ 0) :
    Wf { s with delegations := s.delegations.insert k d, checkpoints := ckpts } := by
  refine ⟨hwf.role, hwf.roleType, hwf.typed, ?_⟩
  intro k₁ d₁ h₁
  rcases lookup_insert_some h₁ with ⟨rfl, rfl⟩ | ⟨-, h₁⟩
  · exact ⟨hd, r, hr, hst⟩
  · exact hwf.deleg h₁

theorem createRoleType (hwf : Wf s) {a : CreateRoleType} {t : Bytes32} {hierarchy : Nat}
    {config : RoleTypeConfig} (h : Roles.createRoleType s a t hierarchy config = .ok s') :
    Wf s' := by
  obtain ⟨hfree, rfl⟩ := createRoleType_ok h
  refine ⟨hwf.role, ?_, ?_, hwf.deleg⟩
  · intro k rt hk
    rcases lookup_insert_some hk with ⟨rfl, rfl⟩ | ⟨-, hk⟩
    · refine ⟨rfl, rfl, ?_⟩
      -- a role of the type would name an existing role type
      by_contra hne
      obtain ⟨k, r, hr, hkt, hrt⟩ := exists_of_count_pos (Nat.pos_of_ne_zero (Ne.symm hne))
      obtain ⟨rt, hrt'⟩ := hwf.typed hr
      rw [hkt, hrt, hfree] at hrt'
      cases hrt'
    · exact hwf.roleType hk
  · intro k r hr
    obtain ⟨rt, hrt⟩ := hwf.typed hr
    by_cases hk : (⟨k.trust, r.roleTypeId⟩ : RoleTypePda) = ⟨a.trust, t⟩
    · exact ⟨_, by rw [hk]; exact AList.lookup_insert _⟩
    · exact ⟨rt, (AList.lookup_insert_ne hk).trans hrt⟩

theorem createRole (hwf : Wf s) {a : CreateRole} {id t : Bytes32} {parent : Option Bytes32}
    {cid : Bytes64} (h : Roles.createRole s clock a id t parent cid = .ok s') : Wf s' := by
  obtain ⟨rt, -, hrt, hfree, -, -, -, rfl⟩ := createRole_ok h
  refine ⟨?_, ?_, ?_, ?_⟩
  · intro k r hk
    rcases lookup_insert_some hk with ⟨rfl, rfl⟩ | ⟨-, hk⟩
    · exact ⟨rfl, rfl⟩
    · exact hwf.role hk
  · intro k rt₁ hk
    show _ ∧ _ ∧ rt₁.roleCount = count (OfType k.trust k.roleTypeId) (s.roles.insert _ _)
    rw [count_insert_none hfree]
    rcases lookup_insert_some hk with ⟨rfl, rfl⟩ | ⟨hkk, hk⟩
    · obtain ⟨ht, hi, hc⟩ := hwf.roleType hrt
      exact ⟨ht, hi, by simp [OfType, hc, rolesOfType]⟩
    · obtain ⟨ht, hi, hc⟩ := hwf.roleType hk
      refine ⟨ht, hi, ?_⟩
      rw [if_neg, hc, Nat.add_zero, rolesOfType]
      rintro ⟨h₁, h₂⟩
      exact hkk (by cases k; simp_all)
  · intro k r hk
    rcases lookup_insert_some hk with ⟨rfl, rfl⟩ | ⟨-, hk⟩
    · exact ⟨_, AList.lookup_insert _⟩
    · obtain ⟨rt₁, hrt₁⟩ := hwf.typed hk
      by_cases hkt : (⟨k.trust, r.roleTypeId⟩ : RoleTypePda) = ⟨a.trust, t⟩
      · exact ⟨_, by rw [hkt]; exact AList.lookup_insert _⟩
      · exact ⟨rt₁, (AList.lookup_insert_ne hkt).trans hrt₁⟩
  · intro k d hk
    obtain ⟨hd, r, hr, hst⟩ := hwf.deleg hk
    refine ⟨hd, r, ?_, hst⟩
    rw [← hr]
    apply AList.lookup_insert_ne
    rintro rfl
    rw [hfree] at hr
    cases hr

theorem delegateRole (hwf : Wf s) {a : DelegateRole} {account : Pubkey}
    (h : Roles.delegateRole s clock a account = .ok s') : Wf s' := by
  obtain ⟨r, hr, hst, -, hne, h⟩ := delegateRole_ok h
  have hvac : r.status ≠ .vacant := by rw [hst]; decide
  have hr' : s.roles.lookup ⟨r.trust, r.roleId⟩ = some r := by rw [hwf.pda_eq hr]; exact hr
  rcases h with ⟨-, rfl⟩ | ⟨-, p, c, -, -, -, rfl⟩
  · exact hwf.updateDelegation hr' hvac hne
  · exact hwf.updateDelegation hr' hvac hne

theorem step (hwf : Wf s) {tx : RoleTx} (h : s.exec tx = .ok s') : Wf s' := by
  unfold RoleState.exec at h
  cases hix : tx.ix with
  | createRoleType a t hierarchy config =>
    rw [hix] at h
    exact hwf.createRoleType h
  | createRole a id t parent cid =>
    rw [hix] at h
    exact hwf.createRole h
  | assignRole a account =>
    rw [hix] at h
    obtain ⟨r, -, -, hr, -, -, -, -, -, -, -, -, rfl⟩ := assignRole_ok h
    exact hwf.updateRole hr rfl rfl rfl fun _ => RoleStatus.noConfusion
  | resignRole a =>
    rw [hix] at h
    obtain ⟨r, -, hr, -, -, -, -, rfl⟩ := resignRole_ok h
    exact hwf.updateRole hr rfl rfl rfl fun _ => RoleStatus.noConfusion
  | transferRole a account =>
    rw [hix] at h
    obtain ⟨r, -, hr, -, -, -, -, rfl⟩ := transferRole_ok h
    exact hwf.updateRole hr rfl rfl rfl id
  | delegateRole a account =>
    rw [hix] at h
    exact hwf.delegateRole h

theorem of_run {hist : List (RoleState × RoleTx)}
    (run : Run (okStep RoleState.exec) RoleState.init hist s) : Wf s :=
  run.invariant init fun _ _ _ hwf h => hwf.step h

end Wf

end Aeqi.Roles
