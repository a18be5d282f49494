import Aeqi.Roles.Invariant

/-!
# aeqi_role: authority in the role hierarchy

Roles of a trust form a forest by their parent ids. Authority flows top-down: who
creates or assigns a role is meant to hold a role above it.

The two gates check this by a walk from the parent of the target up to the
caller's role. The walk is skipped when there is no parent to start from, and
then any occupied role of the trust will do. `commands_iff` says that this is
exactly where authority is lost; `Outside.of_run` that a signer who stays within
the branches where a type is in use never enters a type from outside.
-/

namespace Aeqi.Roles

open Aeqi.Lib Aeqi.Lib.Accounts Aeqi.Solana Option
open Relation (TransGen ReflTransGen)
open RoleState (exec init)

/-! ## The hierarchy -/

/-- Role `a` is the parent of role `b`; the id zero stands for no parent. -/
def ParentOf (s : RoleState) (trust : Pubkey) (a b : Bytes32) : Prop :=
  a ≠ 0 ∧ (s.roles.lookup ⟨trust, b⟩).map Role.parentRoleId = some a

/-- Role `a` is the parent of role `b` or a proper ancestor of its parent. -/
abbrev Above (s : RoleState) (trust : Pubkey) : Bytes32 → Bytes32 → Prop :=
  TransGen (ParentOf s trust)

def Holds (s : RoleState) (x : Pubkey) (k : RolePda) : Prop :=
  ∃ r, s.roles.lookup k = some r ∧ r.status = .occupied ∧ r.account = x

/-- Some role of type `t` lies below role `a`. -/
def TypeBelow (s : RoleState) (trust : Pubkey) (t a : Bytes32) : Prop :=
  ∃ b, Above s trust a b ∧ (s.roles.lookup ⟨trust, b⟩).map Role.roleTypeId = some t

/-- `x` holds a role above some role of type `t`. -/
def Leads (s : RoleState) (x trust : Pubkey) (t : Bytes32) : Prop :=
  ∃ a, Holds s x ⟨trust, a⟩ ∧ TypeBelow s trust t a

section Hierarchy

variable {s s' : RoleState} {trust : Pubkey} {a b : Bytes32}

theorem parentOf_congr
    (h : ∀ k, (s'.roles.lookup k).map Role.parentRoleId = (s.roles.lookup k).map Role.parentRoleId) :
    ParentOf s' trust a b ↔ ParentOf s trust a b := by
  rw [ParentOf, ParentOf, h]

theorem map_lookup_insert {α : Type} {f : Role → α} {roles : Accounts RolePda Role} {k : RolePda}
    {r r' : Role} (hr : roles.lookup k = some r) (hf : f r' = f r) (k' : RolePda) :
    ((roles.insert k r').lookup k').map f = (roles.lookup k').map f := by
  by_cases hk : k' = k
  · subst hk
    rw [AList.lookup_insert, hr, map_some, map_some, hf]
  · rw [AList.lookup_insert_ne hk]

end Hierarchy

/-! ## The authority walk -/

section Walk

variable {s : RoleState} {caller : Role}

variable {remaining : List RolePda}

theorem walkFrom_ok (hwf : Wf s) :
    ∀ {i : Nat} {e : Bytes32}, walkFrom s.roles caller i e remaining = .ok () →
      ReflTransGen (ParentOf s caller.trust) caller.roleId e ∧
        ∃ r, s.roles.lookup ⟨caller.trust, e⟩ = some r := by
  induction remaining with
  | nil =>
    intro i e h
    cases h
  | cons acc rest ih =>
    intro i e h
    simp only [walkFrom, bind_eq_ok, okOr_eq_ok, require_eq_ok, exists_punit] at h
    obtain ⟨r, hr, htrust, hid, h⟩ := h
    have hacc : s.roles.lookup ⟨caller.trust, e⟩ = some r := by
      rw [← htrust, ← hid, hwf.pda_eq hr]
      exact hr
    refine ⟨?_, r, hacc⟩
    split at h
    · next heq =>
      rw [← hid, heq]
    · split at h
      · cases h
      · next hparent =>
        split at h
        · cases h
        · have hup : ParentOf s caller.trust r.parentRoleId e := ⟨hparent, by rw [hacc]; rfl⟩
          exact (ih h).1.tail hup

theorem checkAuthorityWalk_ok (hwf : Wf s) {k : RolePda} (hcaller : s.roles.lookup k = some caller)
    {target : Bytes32} (h : checkAuthorityWalk s.roles caller target remaining = .ok ()) :
    ReflTransGen (ParentOf s caller.trust) caller.roleId target ∧
      ∃ r, s.roles.lookup ⟨caller.trust, target⟩ = some r := by
  unfold checkAuthorityWalk at h
  split at h
  · next heq =>
    subst heq
    exact ⟨.refl, caller, by rw [hwf.pda_eq hcaller]; exact hcaller⟩
  · exact walkFrom_ok hwf h

theorem holds_of_walk (hwf : Wf s) {k : RolePda} (hcaller : s.roles.lookup k = some caller)
    {x trust : Pubkey} (htrust : caller.trust = trust) (hst : caller.status = .occupied)
    (hx : caller.account = x) {p : Bytes32}
    (h : checkAuthorityWalk s.roles caller p remaining = .ok ()) :
    (∃ c, Holds s x ⟨trust, c⟩ ∧ ReflTransGen (ParentOf s trust) c p) ∧
      ∃ r, s.roles.lookup ⟨trust, p⟩ = some r := by
  obtain ⟨hup, hex⟩ := checkAuthorityWalk_ok hwf hcaller h
  subst htrust
  refine ⟨⟨caller.roleId, ⟨caller, ?_, hst, hx⟩, hup⟩, hex⟩
  rw [hwf.pda_eq hcaller]
  exact hcaller

end Walk

section Gates

variable {s s' : RoleState} {clock : Clock}

theorem createRole_parent (hwf : Wf s) {a : CreateRole} {id t : Bytes32} {parent : Option Bytes32}
    {cid : Bytes64} (h : createRole s clock a id t parent cid = .ok s')
    (hp : parent.getD 0 ≠ 0) :
    (∃ c, Holds s a.payer ⟨a.trust, c⟩ ∧ ReflTransGen (ParentOf s a.trust) c (parent.getD 0)) ∧
      ∃ r, s.roles.lookup ⟨a.trust, parent.getD 0⟩ = some r := by
  obtain ⟨rt, caller, -, -, hcaller, hgate, -, -⟩ := createRole_ok h
  cases parent with
  | none => exact absurd rfl hp
  | some p =>
    cases caller with
    | none => simp [gateRoleCreation, bind_eq_ok] at hgate
    | some c =>
      simp only [gateRoleCreation, bind_eq_ok, require_eq_ok, exists_punit] at hgate
      obtain ⟨htrust, hst, hx, hwalk⟩ := hgate
      obtain ⟨k, -, hk⟩ := loadOption_eq_some.1 hcaller
      exact holds_of_walk hwf hk htrust hst hx hwalk

theorem assignRole_parent (hwf : Wf s) {a : AssignRole} {account : Pubkey}
    (h : assignRole s clock a account = .ok s') {r : Role}
    (hr : s.roles.lookup a.role = some r) (hp : r.parentRoleId ≠ 0) :
    ∃ c, Holds s a.payer ⟨a.role.trust, c⟩ ∧
      ReflTransGen (ParentOf s a.role.trust) c r.parentRoleId := by
  obtain ⟨r', rt, caller, hr', -, -, -, -, hcaller, hgate, -⟩ := assignRole_ok h
  obtain rfl : r' = r := some.inj (hr'.symm.trans hr)
  cases caller with
  | none =>
    simp only [gateRoleAssignment, bind_eq_ok, require_eq_ok, exists_punit] at hgate
    exact absurd hgate.2.2.1 hp
  | some c =>
    simp only [gateRoleAssignment, bind_eq_ok, require_eq_ok, exists_punit, hp, ne_eq] at hgate
    obtain ⟨-, -, htrust, hst, hx, hwalk⟩ := hgate
    obtain ⟨k, -, hk⟩ := loadOption_eq_some.1 hcaller
    exact (holds_of_walk hwf hk (htrust.trans (hwf.role hr).1) hst hx hwalk).1

end Gates

/-! ## What a step does to the hierarchy -/

section Step

variable {s s' : RoleState}

/-- A transaction either opens one role by `create_role`, or rewrites one that
exists and does not make it vacant, or leaves the roles alone. An occupied role
that is rewritten was the signer's own, unless it was assigned. -/
inductive RoleChange (s : RoleState) (tx : RoleTx) (s' : RoleState) : Prop
  | same (h : s'.roles = s.roles)
  | opened {a : CreateRole} {id t : Bytes32} {parent : Option Bytes32} {cid : Bytes64}
      (hix : tx.ix = .createRole a id t parent cid)
      (h : createRole s tx.clock a id t parent cid = .ok s')
  | rewritten {k : RolePda} {r r' : Role} (hr : s.roles.lookup k = some r)
      (hroles : s'.roles = s.roles.insert k r') (hparent : r'.parentRoleId = r.parentRoleId)
      (htype : r'.roleTypeId = r.roleTypeId) (hst : r'.status ≠ .vacant)
      (hown : r'.status = .occupied → Holds s tx.signer k ∨ ∃ a account,
        tx.ix = .assignRole a account ∧ assignRole s tx.clock a account = .ok s' ∧ a.role = k ∧
          r.status = .vacant)

theorem roleChange {tx : RoleTx} (h : s.exec tx = .ok s') : RoleChange s tx s' := by
  unfold exec at h
  cases hix : tx.ix with
  | createRoleType a t hierarchy config =>
    rw [hix] at h
    obtain ⟨-, rfl⟩ := createRoleType_ok h
    exact .same rfl
  | createRole a id t parent cid =>
    rw [hix] at h
    exact .opened hix h
  | assignRole a account =>
    rw [hix] at h
    obtain ⟨r, -, -, hr, -, -, -, -, -, -, hst, -, rfl⟩ := assignRole_ok h
    exact .rewritten hr rfl rfl rfl RoleStatus.noConfusion
      fun _ => .inr ⟨a, account, hix, h, rfl, hst⟩
  | resignRole a =>
    rw [hix] at h
    obtain ⟨r, c, hr, -, -, -, -, rfl⟩ := resignRole_ok h
    exact .rewritten hr rfl rfl rfl RoleStatus.noConfusion RoleStatus.noConfusion
  | transferRole a account =>
    rw [hix] at h
    obtain ⟨r, c, hr, -, hst, hp, -, rfl⟩ := transferRole_ok h
    refine .rewritten hr rfl rfl rfl (by simp [hst]) fun _ => .inl ⟨r, hr, hst, ?_⟩
    rw [RoleTx.signer, hix]
    exact hp.symm
  | delegateRole a account =>
    rw [hix] at h
    obtain ⟨r, -, -, -, -, ⟨-, rfl⟩ | ⟨-, p, c, -, -, -, rfl⟩⟩ := delegateRole_ok h
    · exact .same rfl
    · exact .same rfl

section Create

variable {clock : Clock} {a : CreateRole} {id t : Bytes32} {parent : Option Bytes32}
  {cid : Bytes64}

theorem createRole_keeps (h : createRole s clock a id t parent cid = .ok s') {k : RolePda}
    {r : Role} (hr : s.roles.lookup k = some r) : s'.roles.lookup k = some r := by
  obtain ⟨-, -, -, hfree, -, -, -, rfl⟩ := createRole_ok h
  rw [← hr]
  apply AList.lookup_insert_ne
  rintro rfl
  rw [hfree] at hr
  cases hr

theorem createRole_parentOf (h : createRole s clock a id t parent cid = .ok s') {trust : Pubkey}
    {p b : Bytes32} : ParentOf s' trust p b ↔
      ParentOf s trust p b ∨ (trust = a.trust ∧ b = id ∧ p ≠ 0 ∧ parent.getD 0 = p) := by
  obtain ⟨-, -, -, hfree, -, -, -, rfl⟩ := createRole_ok h
  unfold ParentOf
  by_cases hk : (⟨trust, b⟩ : RolePda) = ⟨a.trust, id⟩
  · obtain ⟨rfl, rfl⟩ := hk
    simp [hfree]
  · have hk' : ¬ (trust = a.trust ∧ b = id) := by simpa using hk
    rw [AList.lookup_insert_ne hk]
    constructor
    · exact .inl
    · rintro (hold | ⟨htrust, hb, -⟩)
      · exact hold
      · exact absurd ⟨htrust, hb⟩ hk'

end Create

theorem ParentOf.step {tx : RoleTx} (h : s.exec tx = .ok s') {trust : Pubkey} {a b : Bytes32}
    (hab : ParentOf s trust a b) : ParentOf s' trust a b := by
  cases roleChange h with
  | same hroles => exact (parentOf_congr fun k => by rw [hroles]).2 hab
  | opened hix hc => exact (createRole_parentOf hc).2 (.inl hab)
  | rewritten hr hroles hparent =>
    refine (parentOf_congr fun k => ?_).2 hab
    rw [hroles, map_lookup_insert hr hparent]

end Step

/-! ## Who commands the target of a call -/

def RoleTx.target (tx : RoleTx) : Option RolePda :=
  match tx.ix with
  | .createRole a roleId _ _ _ => some ⟨a.trust, roleId⟩
  | .assignRole a _ => some a.role
  | _ => none

/-- In `s` the account `x` holds a role that in `s'` is the parent of the role at
`k` or an ancestor of its parent. -/
def Commands (s : RoleState) (x : Pubkey) (s' : RoleState) (k : RolePda) : Prop :=
  ∃ c, Holds s x ⟨k.trust, c⟩ ∧ Above s' k.trust c k.roleId

def NamesParent (s : RoleState) (tx : RoleTx) : Prop :=
  match tx.ix with
  | .createRole _ _ _ parentRoleId _ => parentRoleId.getD 0 ≠ 0
  | .assignRole a _ => ∀ r ∈ s.roles.lookup a.role, r.parentRoleId ≠ 0
  | _ => True

instance (s : RoleState) (tx : RoleTx) : Decidable (NamesParent s tx) := by
  unfold NamesParent
  split <;> infer_instance

section Commands

variable {s s' : RoleState} {tx : RoleTx} {k : RolePda}

theorem Commands.parent (h : Commands s tx.signer s' k) : ∃ p, ParentOf s' k.trust p k.roleId := by
  obtain ⟨c, -, hup⟩ := h
  cases hup with
  | single hp => exact ⟨c, hp⟩
  | tail _ hp => exact ⟨_, hp⟩

theorem commands_iff (hwf : Wf s) (h : s.exec tx = .ok s') (hk : tx.target = some k) :
    Commands s tx.signer s' k ↔ NamesParent s tx := by
  have hlift : ∀ {c p}, ReflTransGen (ParentOf s k.trust) c p → ParentOf s' k.trust p k.roleId →
      Above s' k.trust c k.roleId :=
    fun hup hp => .tail' (hup.lift id fun _ _ => ParentOf.step h) hp
  unfold RoleTx.target at hk
  unfold NamesParent
  have hexec := h
  unfold exec at hexec
  cases hix : tx.ix with
  | createRole a id t parent cid =>
    simp only [hix, Option.some.injEq] at hk hexec ⊢
    subst hk
    have hparent : ∀ p, ParentOf s' a.trust p id ↔ p ≠ 0 ∧ parent.getD 0 = p := by
      intro p
      obtain ⟨-, -, -, hfree, -⟩ := createRole_ok hexec
      rw [createRole_parentOf hexec]
      simp [ParentOf, hfree]
    constructor
    · intro hcmd
      obtain ⟨p, hp⟩ := hcmd.parent
      obtain ⟨hne, heq⟩ := (hparent p).1 hp
      rw [heq]
      exact hne
    · intro hp
      obtain ⟨⟨c, hc, hup⟩, -⟩ := createRole_parent hwf hexec hp
      refine ⟨c, ?_, hlift hup ((hparent _).2 ⟨hp, rfl⟩)⟩
      rw [RoleTx.signer, hix]
      exact hc
  | assignRole a account =>
    simp only [hix, Option.some.injEq] at hk hexec
    subst hk
    obtain ⟨r, -, -, hr, -⟩ := assignRole_ok hexec
    have hparent : ∀ p, ParentOf s' a.role.trust p a.role.roleId ↔ p ≠ 0 ∧ r.parentRoleId = p := by
      intro p
      obtain ⟨r', -, -, hr', -, -, -, -, -, -, -, -, rfl⟩ := assignRole_ok hexec
      obtain rfl : r' = r := some.inj (hr'.symm.trans hr)
      simp [ParentOf]
    constructor
    · intro hcmd r' hr'
      obtain rfl : r = r' := some.inj (hr.symm.trans hr')
      obtain ⟨p, hp⟩ := hcmd.parent
      obtain ⟨hne, heq⟩ := (hparent p).1 hp
      rw [heq]
      exact hne
    · intro hp
      obtain ⟨c, hc, hup⟩ := assignRole_parent hwf hexec hr (hp r hr)
      refine ⟨c, ?_, hlift hup ((hparent _).2 ⟨hp r hr, rfl⟩)⟩
      rw [RoleTx.signer, hix]
      exact hc
  | _ => simp [hix] at hk

end Commands

/-! ## The forest -/

/-- The parent of a role is a role, and a vacant role without a parent is still
without children: only a role above it, or its own holder, could give it any. -/
structure Forest (s : RoleState) : Prop where
  rooted : ∀ {trust a b}, ParentOf s trust a b → ∃ r, s.roles.lookup ⟨trust, a⟩ = some r
  bare : ∀ {k r}, s.roles.lookup k = some r → r.status = .vacant → r.parentRoleId = 0 →
    ∀ b, ¬ ParentOf s k.trust k.roleId b

namespace Forest

variable {s s' : RoleState} {tx : RoleTx}

theorem init : Forest RoleState.init := by
  refine ⟨?_, ?_⟩
  · rintro trust a b ⟨-, h⟩
    simp [RoleState.init] at h
  · intro k r h
    simp [RoleState.init] at h

theorem not_parentOf (hf : Forest s) {trust : Pubkey} {a b : Bytes32}
    (hfree : s.roles.lookup ⟨trust, a⟩ = none) : ¬ ParentOf s trust a b := by
  intro h
  obtain ⟨r, hr⟩ := hf.rooted h
  rw [hfree] at hr
  cases hr

theorem createRole (hwf : Wf s) (hf : Forest s) {clock : Clock} {a : CreateRole} {id t : Bytes32}
    {parent : Option Bytes32} {cid : Bytes64}
    (h : Roles.createRole s clock a id t parent cid = .ok s') : Forest s' := by
  obtain ⟨-, -, -, -, -⟩ := createRole_ok h
  refine ⟨?_, ?_⟩
  · intro trust p b hp
    rcases (createRole_parentOf h).1 hp with hold | ⟨rfl, rfl, hne, rfl⟩
    · obtain ⟨r, hr⟩ := hf.rooted hold
      exact ⟨r, createRole_keeps h hr⟩
    · obtain ⟨r, hr⟩ := (createRole_parent hwf h hne).2
      exact ⟨r, createRole_keeps h hr⟩
  · intro k r hr hst hroot b hp
    cases hr₀ : s.roles.lookup k with
    | none =>
      -- the new role itself: its parent existed before
      rcases (createRole_parentOf h).1 hp with hold | ⟨htrust, -, hne, hpar⟩
      · exact hf.not_parentOf hr₀ hold
      · obtain ⟨r', hr'⟩ := (createRole_parent hwf h (hpar ▸ hne)).2
        rw [hpar, ← htrust] at hr'
        rw [hr₀] at hr'
        cases hr'
    | some r₀ =>
      obtain rfl : r₀ = r := some.inj ((createRole_keeps h hr₀).symm.trans hr)
      rcases (createRole_parentOf h).1 hp with hold | ⟨htrust, -, hne, hpar⟩
      · exact hf.bare hr₀ hst hroot b hold
      · -- the caller's role would be this vacant one or above it
        obtain ⟨⟨c, ⟨rc, hrc, hocc, -⟩, hcup⟩, -⟩ := createRole_parent hwf h (hpar ▸ hne)
        rw [hpar, ← htrust] at hcup
        rw [← htrust] at hrc
        cases hcup with
        | refl =>
          obtain rfl : r₀ = rc := some.inj (hr₀.symm.trans hrc)
          rw [hst] at hocc
          cases hocc
        | tail _ hlast =>
          obtain ⟨hne', hlast⟩ := hlast
          rw [hr₀, map_some, hroot, Option.some.injEq] at hlast
          exact hne' hlast.symm

theorem step (hwf : Wf s) (hf : Forest s) (h : s.exec tx = .ok s') : Forest s' := by
  cases roleChange h with
  | same hroles =>
    have hedge : ∀ {trust a b}, ParentOf s' trust a b ↔ ParentOf s trust a b :=
      parentOf_congr fun k => by rw [hroles]
    refine ⟨fun hp => ?_, fun hr hst hroot b hp => ?_⟩
    · rw [hroles]
      exact hf.rooted (hedge.1 hp)
    · rw [hroles] at hr
      exact hf.bare hr hst hroot b (hedge.1 hp)
  | opened hix hc => exact createRole hwf hf hc
  | @rewritten k r r' hr hroles hparent htype hvac =>
    have hedge : ∀ {trust a b}, ParentOf s' trust a b ↔ ParentOf s trust a b :=
      parentOf_congr fun k => by rw [hroles, map_lookup_insert hr hparent]
    refine ⟨fun {trust a b} hp => ?_, fun {k₁ r₁} hr₁ hst hroot b hp => ?_⟩
    · obtain ⟨r₀, hr₀⟩ := hf.rooted (hedge.1 hp)
      rw [hroles]
      by_cases hk : (⟨trust, a⟩ : RolePda) = k
      · exact ⟨r', by rw [hk]; exact AList.lookup_insert _⟩
      · exact ⟨r₀, (AList.lookup_insert_ne hk).trans hr₀⟩
    · rw [hroles] at hr₁
      rcases lookup_insert_some hr₁ with ⟨rfl, rfl⟩ | ⟨-, hr₁⟩
      · exact hvac hst
      · exact hf.bare hr₁ hst hroot b (hedge.1 hp)

theorem of_run {hist : List (RoleState × RoleTx)}
    (run : Run (okStep exec) RoleState.init hist s) : Wf s ∧ Forest s :=
  run.invariant (P := fun s => Wf s ∧ Forest s) ⟨Wf.init, init⟩
    fun _ _ _ hs h => ⟨hs.1.step h, hs.2.step hs.1 h⟩

end Forest

/-! ## Staying outside a type -/

def InBranch (s : RoleState) (tx : RoleTx) : Prop :=
  match tx.ix with
  | .createRole a _ roleTypeId parentRoleId _ =>
    0 < rolesOfType s a.trust roleTypeId →
      TypeBelow s a.trust roleTypeId (parentRoleId.getD 0)
  | _ => True

/-- Since state `s₀` no role of type `t` was opened, and `x` leads none. -/
structure Outside (s₀ : RoleState) (x trust : Pubkey) (t : Bytes32) (s : RoleState) : Prop where
  wf : Wf s
  forest : Forest s
  populated : 0 < rolesOfType s trust t
  known : ∀ {id}, (s.roles.lookup ⟨trust, id⟩).map Role.roleTypeId = some t →
    ∃ r, s₀.roles.lookup ⟨trust, id⟩ = some r
  apart : ¬ Leads s x trust t

section Outside

variable {s s' s₀ : RoleState} {tx : RoleTx} {x trust : Pubkey} {t : Bytes32}

theorem rolesOfType_pos : 0 < rolesOfType s trust t ↔
    ∃ id, (s.roles.lookup ⟨trust, id⟩).map Role.roleTypeId = some t := by
  constructor
  · intro h
    obtain ⟨k, r, hr, rfl, rfl⟩ := exists_of_count_pos h
    exact ⟨k.roleId, by rw [hr]; rfl⟩
  · rintro ⟨id, h⟩
    obtain ⟨r, hr, rfl⟩ := map_eq_some_iff.1 h
    exact count_pos hr ⟨rfl, rfl⟩

theorem typeBelow_congr
    (hp : ∀ k, (s'.roles.lookup k).map Role.parentRoleId = (s.roles.lookup k).map Role.parentRoleId)
    (ht : ∀ k, (s'.roles.lookup k).map Role.roleTypeId = (s.roles.lookup k).map Role.roleTypeId)
    {a : Bytes32} : TypeBelow s' trust t a ↔ TypeBelow s trust t a := by
  have hedge : ParentOf s' trust = ParentOf s trust := by
    funext a b
    exact propext (parentOf_congr hp)
  simp [TypeBelow, Above, hedge, ht]

/-- Seen from a role that was there before, `create_role` adds nothing above. -/
theorem createRole_above (hf : Forest s) {clock : Clock} {a : CreateRole} {id t' : Bytes32}
    {parent : Option Bytes32} {cid : Bytes64}
    (h : createRole s clock a id t' parent cid = .ok s') {c b : Bytes32} {r : Role}
    (hr : s.roles.lookup ⟨trust, b⟩ = some r) (hup : Above s' trust c b) : Above s trust c b := by
  obtain ⟨-, -, -, hfree, -⟩ := createRole_ok h
  have hold : ∀ {p b r}, s.roles.lookup ⟨trust, b⟩ = some r → ParentOf s' trust p b →
      ParentOf s trust p b := by
    intro p b r hr hp
    rcases (createRole_parentOf h).1 hp with hp | ⟨rfl, rfl, -⟩
    · exact hp
    · rw [hfree] at hr
      cases hr
  -- up the chain: the parent of an old role is an old role
  induction hup generalizing r with
  | single hp => exact .single (hold hr hp)
  | tail _ hp ih =>
    have hp := hold hr hp
    obtain ⟨r', hr'⟩ := hf.rooted hp
    exact .tail (ih hr') hp

namespace Outside

theorem createRole (ho : Outside s₀ x trust t s) {clock : Clock} {a : CreateRole} {id t' : Bytes32}
    {parent : Option Bytes32} {cid : Bytes64} (hx : a.payer = x)
    (hin : 0 < rolesOfType s a.trust t' → TypeBelow s a.trust t' (parent.getD 0))
    (h : Roles.createRole s clock a id t' parent cid = .ok s') : Outside s₀ x trust t s' := by
  -- opening a role of the type would take a role above one of the type
  have hother : ¬ (a.trust = trust ∧ t' = t) := by
    rintro ⟨rfl, rfl⟩
    obtain ⟨b, hup, htype⟩ := hin ho.populated
    have hne : parent.getD 0 ≠ 0 := by
      obtain ⟨c, hpc, -⟩ := TransGen.head'_iff.1 hup
      exact hpc.1
    obtain ⟨⟨c, hc, hcup⟩, -⟩ := createRole_parent ho.wf h hne
    rw [hx] at hc
    exact ho.apart ⟨c, hc, b, .trans_right hcup hup, htype⟩
  obtain ⟨rt, -, -, -, -, -, -, hs'⟩ := createRole_ok h
  have hback : ∀ {k r}, s'.roles.lookup k = some r →
      s.roles.lookup k = some r ∨ (k = ⟨a.trust, id⟩ ∧ r.roleTypeId = t' ∧ r.status = .vacant) := by
    intro k r hr
    rw [hs'] at hr
    rcases lookup_insert_some hr with ⟨rfl, rfl⟩ | ⟨-, hr⟩
    · exact .inr ⟨rfl, rfl, rfl⟩
    · exact .inl hr
  have htyped : ∀ {b}, (s'.roles.lookup ⟨trust, b⟩).map Role.roleTypeId = some t →
      ∃ r, s.roles.lookup ⟨trust, b⟩ = some r ∧ r.roleTypeId = t := by
    intro b hb
    obtain ⟨r, hr, hrt⟩ := map_eq_some_iff.1 hb
    rcases hback hr with hr | ⟨hk, ht', -⟩
    · exact ⟨r, hr, hrt⟩
    · simp only [RolePda.mk.injEq] at hk
      exact absurd ⟨hk.1.symm, ht'.symm.trans hrt⟩ hother
  refine ⟨ho.wf.createRole h, ho.forest.createRole ho.wf h, ?_, ?_, ?_⟩
  · obtain ⟨b, hb⟩ := rolesOfType_pos.1 ho.populated
    obtain ⟨r, hr, hrt⟩ := map_eq_some_iff.1 hb
    exact rolesOfType_pos.2 ⟨b, by rw [createRole_keeps h hr, map_some, hrt]⟩
  · intro b hb
    obtain ⟨r, hr, hrt⟩ := htyped hb
    exact ho.known (by rw [hr, map_some, hrt])
  · rintro ⟨c, ⟨rc, hrc, hst, hxc⟩, b, hup, hb⟩
    obtain ⟨r, hr, hrt⟩ := htyped hb
    refine ho.apart ⟨c, ⟨rc, ?_, hst, hxc⟩, b, createRole_above ho.forest h hr hup, ?_⟩
    · rcases hback hrc with hrc | ⟨-, -, hvac⟩
      · exact hrc
      · rw [hst] at hvac
        cases hvac
    · rw [hr, map_some, hrt]

theorem step (ho : Outside s₀ x trust t s) (hx : tx.signer = x) (hin : InBranch s tx)
    (h : s.exec tx = .ok s') : Outside s₀ x trust t s' := by
  have hwf' := ho.wf.step h
  have hf' := ho.forest.step ho.wf h
  cases roleChange h with
  | same hroles =>
    have hpop : rolesOfType s' trust t = rolesOfType s trust t := by rw [rolesOfType, hroles]; rfl
    refine ⟨hwf', hf', hpop ▸ ho.populated, fun hb => ho.known (hroles ▸ hb), ?_⟩
    rintro ⟨c, hc, hbelow⟩
    refine ho.apart ⟨c, ?_, (typeBelow_congr (fun k => by rw [hroles]) fun k => by rw [hroles]).1
      hbelow⟩
    rwa [Holds, hroles] at hc
  | opened hix hc =>
    rw [InBranch, hix] at hin
    rw [RoleTx.signer, hix] at hx
    exact createRole ho hx hin hc
  | @rewritten k r r' hr hroles hparent htype hvac hown =>
    have hp : ∀ k, (s'.roles.lookup k).map Role.parentRoleId =
        (s.roles.lookup k).map Role.parentRoleId := fun k => by
      rw [hroles, map_lookup_insert hr hparent]
    have ht : ∀ k, (s'.roles.lookup k).map Role.roleTypeId =
        (s.roles.lookup k).map Role.roleTypeId := fun k => by
      rw [hroles, map_lookup_insert hr htype]
    refine ⟨hwf', hf', ?_, fun hb => ho.known ((ht _).symm.trans hb), ?_⟩
    · obtain ⟨b, hb⟩ := rolesOfType_pos.1 ho.populated
      exact rolesOfType_pos.2 ⟨b, (ht _).trans hb⟩
    · rintro ⟨c, ⟨rc, hrc, hst, hxc⟩, hbelow⟩
      have hbelow := (typeBelow_congr hp ht).1 hbelow
      rw [hroles] at hrc
      by_cases hk : (⟨trust, c⟩ : RolePda) = k
      · subst hk
        rw [AList.lookup_insert, Option.some.injEq] at hrc
        subst hrc
        rcases hown hst with hheld | ⟨a, account, hix, ha, hrole, hrv⟩
        · rw [hx] at hheld
          exact ho.apart ⟨c, hheld, hbelow⟩
        · obtain ⟨b, hup, hb⟩ := hbelow
          by_cases hroot : r.parentRoleId = 0
          · -- a vacant root has nothing below it
            obtain ⟨d, hcd, -⟩ := TransGen.head'_iff.1 hup
            exact ho.forest.bare hr hrv hroot d hcd
          · -- whoever may assign the role is above it already
            rw [← hrole] at hr
            obtain ⟨d, hd, hdup⟩ := assignRole_parent ho.wf ha hr hroot
            have hdc : TransGen (ParentOf s trust) d c := by
              rw [hrole] at hdup hr
              exact .tail' hdup ⟨hroot, by rw [hr]; rfl⟩
            rw [hrole] at hd
            rw [RoleTx.signer, hix] at hx
            rw [show a.payer = x from hx] at hd
            exact ho.apart ⟨d, hd, b, hdc.trans hup, hb⟩
      · rw [AList.lookup_insert_ne hk] at hrc
        exact ho.apart ⟨c, ⟨rc, hrc, hst, hxc⟩, hbelow⟩

theorem of_run (hwf : Wf s) (hf : Forest s) (hpop : 0 < rolesOfType s trust t)
    (hx : ¬ Leads s x trust t) {hist : List (RoleState × RoleTx)}
    (run : Run (Guarded (fun s tx => tx.signer = x ∧ InBranch s tx) (okStep exec))
      s hist s') : Outside s x trust t s' := by
  refine run.invariant (P := Outside s x trust t) ⟨hwf, hf, hpop, ?_, hx⟩ ?_
  · intro id h
    obtain ⟨r, hr, -⟩ := map_eq_some_iff.1 h
    exact ⟨r, hr⟩
  · rintro s₁ tx s₂ ho ⟨⟨hsig, hin⟩, hstep⟩
    exact ho.step hsig hin hstep

end Outside

/-- **Role authority**: roles are created and assigned from above, where there is an above, and
nobody comes to hold a role of a type from outside its branches. -/
theorem authority_of_run {hist : List (RoleState × RoleTx)}
    (run : Run (okStep RoleState.exec) RoleState.init hist s) :
    (∀ tx s' k, s.exec tx = .ok s' → tx.target = some k →
      (Commands s tx.signer s' k ↔ NamesParent s tx)) ∧
    ∀ x trust t, 0 < rolesOfType s trust t → ¬ Leads s x trust t → ∀ hist' s',
      Run (Guarded (fun s tx => tx.signer = x ∧ InBranch s tx) (okStep RoleState.exec))
        s hist' s' →
      ∀ id, Holds s' x ⟨trust, id⟩ → (s'.roles.lookup ⟨trust, id⟩).map Role.roleTypeId = some t →
        ∃ r, s.roles.lookup ⟨trust, id⟩ = some r := by
  obtain ⟨hwf, hf⟩ := Forest.of_run run
  refine ⟨fun tx s' k h hk => commands_iff hwf h hk, ?_⟩
  intro x trust t hpop hx hist' s' run' id _ htype
  exact (Outside.of_run hwf hf hpop hx run').known htype

def openBelow : RoleTx := ⟨⟨11, 101⟩, .createRole ⟨1, some ⟨1, 5⟩, 9, []⟩ 6 7 (some 5) 0⟩

theorem openBelow_commands : ∃ s s', execAll RoleState.exec RoleState.init bootstrap = .ok s ∧
    s.exec openBelow = .ok s' ∧ Commands s 9 s' ⟨1, 6⟩ := by
  have hok : ((execAll exec init bootstrap).toOption.map fun s =>
      (s.exec openBelow).isOk) = some true := by decide
  obtain ⟨s, hs, hok⟩ := toOption_map_eq_some.1 hok
  obtain ⟨s', hs'⟩ := isOk_eq_true.1 hok
  obtain ⟨hist, run⟩ := Run.execAll hs
  have hparent : NamesParent s openBelow := by simp [NamesParent, openBelow]
  exact ⟨s, s', hs, hs', ((authority_of_run run).1 openBelow s' ⟨1, 6⟩ hs' rfl).2 hparent⟩

def intrude : List RoleTx :=
  bootstrap ++
    [⟨⟨11, 101⟩, .createRoleType ⟨1, 77⟩ 8 0 noConfig⟩,
     ⟨⟨11, 101⟩, .createRole ⟨1, none, 77, []⟩ 50 8 none 0⟩,
     ⟨⟨11, 101⟩, .assignRole ⟨⟨1, 50⟩, ⟨1, 8⟩, 1, none, 77, []⟩ 77⟩]

def openRoot : RoleTx := ⟨⟨12, 102⟩, .createRole ⟨1, some ⟨1, 50⟩, 77, []⟩ 51 7 none 0⟩

/-- The type of the new role has a role already, and the signer commands nothing
above the new one. -/
theorem not_commands : ¬ ∀ hist s, Run (okStep RoleState.exec) RoleState.init hist s →
    ∀ clock a id t parent cid s', createRole s clock a id t parent cid = .ok s' →
      0 < rolesOfType s a.trust t → Commands s a.payer s' ⟨a.trust, id⟩ := by
  intro hall
  have hok : ((execAll exec init intrude).toOption.map fun s =>
      ((s.exec openRoot).isOk, rolesOfType s 1 7)) = some (true, 1) := by decide
  obtain ⟨s, hs, hok⟩ := toOption_map_eq_some.1 hok
  obtain ⟨hok, hcount⟩ := Prod.mk.inj hok
  obtain ⟨s', hs'⟩ := isOk_eq_true.1 hok
  obtain ⟨hist, run⟩ := Run.execAll hs
  have hpop : 0 < rolesOfType s 1 7 := by omega
  have hcmd := hall hist s run _ _ _ _ _ _ s' hs' hpop
  have hroot : ¬ NamesParent s openRoot := by simp [NamesParent, openRoot]
  exact hroot ((commands_iff (Wf.of_run run) hs' rfl).1 hcmd)

end Outside

end Aeqi.Roles
