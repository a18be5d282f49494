import Aeqi.Roles.Authority

/-!
# aeqi_role: the authority walk is exact

A role is opened under one that exists, at an address where there is none, so the parent ids never
close a cycle. The walk follows them upwards, at most `MAX_AUTHORITY_WALK` accounts far: it finds
the caller's role above the target or not at all, and it does find it when the accounts are those
of the chain and the bound does not cut it off first.
-/

namespace Aeqi.Roles

open Aeqi.Lib Aeqi.Solana
open Relation (TransGen)

/-! ## No cycles -/

def Acyclic (s : RoleState) : Prop := ∀ trust a, ¬ Above s trust a a

namespace Acyclic

variable {s s' : RoleState} {tx : RoleTx}

theorem init : Acyclic RoleState.init := by
  intro trust a h
  obtain ⟨b, -, -, hb⟩ := TransGen.tail'_iff.1 h
  simp [RoleState.init] at hb

theorem congr (hs : Acyclic s)
    (h : ∀ {trust a b}, ParentOf s' trust a b → ParentOf s trust a b) : Acyclic s' :=
  fun trust a hup => hs trust a (TransGen.mono (fun _ _ => h) _ _ hup)

theorem above_of_createRole {clock : Clock} {a : CreateRole} {id t : Bytes32}
    {parent : Option Bytes32} {cid : Bytes64} (hwf : Wf s) (hf : Forest s)
    (h : Roles.createRole s clock a id t parent cid = .ok s') {trust : Pubkey} {p b : Bytes32}
    (hup : Above s' trust p b) : Above s trust p b ∨ (trust = a.trust ∧ b = id ∧ p ≠ id) := by
  have hfree : s.roles.lookup ⟨a.trust, id⟩ = none := by
    obtain ⟨-, -, -, hfree, -⟩ := createRole_ok h
    exact hfree
  -- The parent of the new role exists, so it is another one.
  have hother {q : Bytes32} (hne : q ≠ 0) (hq : parent.getD 0 = q) : q ≠ id := by
    rintro rfl
    obtain ⟨r, hr⟩ := (createRole_parent hwf h (hq ▸ hne)).2
    rw [hq, hfree] at hr
    cases hr
  induction hup with
  | single hp =>
    rcases (createRole_parentOf h).1 hp with hold | ⟨rfl, rfl, hne, hq⟩
    · exact .inl (.single hold)
    · exact .inr ⟨rfl, rfl, hother hne hq⟩
  | tail hup hp ih =>
    rcases (createRole_parentOf h).1 hp with hold | ⟨rfl, rfl, hne, hq⟩
    · rcases ih with hup' | ⟨rfl, rfl, -⟩
      · exact .inl (hup'.tail hold)
      · exact absurd hold (hf.not_parentOf hfree)
    · rcases ih with hup' | ⟨-, hq', -⟩
      · refine .inr ⟨rfl, rfl, ?_⟩
        rintro rfl
        obtain ⟨c, hc, -⟩ := TransGen.head'_iff.1 hup'
        exact hf.not_parentOf hfree hc
      · exact absurd hq' (hother hne hq)

theorem step (hwf : Wf s) (hf : Forest s) (hs : Acyclic s) (h : s.exec tx = .ok s') :
    Acyclic s' := by
  cases roleChange h with
  | same hroles => exact hs.congr fun hp => (parentOf_congr fun k => by rw [hroles]).1 hp
  | opened hix hc =>
    intro trust a hup
    rcases above_of_createRole hwf hf hc hup with hold | ⟨-, hid, hne⟩
    · exact hs trust a hold
    · exact hne hid
  | rewritten hr hroles hparent =>
    exact hs.congr fun hp =>
      (parentOf_congr fun k => by rw [hroles, map_lookup_insert hr hparent]).1 hp

theorem of_run {hist : List (RoleState × RoleTx)}
    (run : Run (okStep RoleState.exec) RoleState.init hist s) : Acyclic s := by
  have hall := run.invariant (P := fun s => (Wf s ∧ Forest s) ∧ Acyclic s)
    ⟨⟨Wf.init, Forest.init⟩, init⟩
    fun _ _ _ hs h => ⟨⟨hs.1.1.step h, hs.1.2.step hs.1.1 h⟩, hs.2.step hs.1.1 hs.1.2 h⟩
  exact hall.2

end Acyclic

/-! ## Chains -/

/-- Role `a` is `d` parents up from role `b`. -/
def AboveBy (s : RoleState) (trust : Pubkey) : Nat → Bytes32 → Bytes32 → Prop
  | 0, a, b => a = b
  | d + 1, a, b => ∃ p, ParentOf s trust p b ∧ AboveBy s trust d a p

def Chain (s : RoleState) (trust : Pubkey) : Bytes32 → List RolePda → Prop
  | _, [] => True
  | e, acc :: rest => acc = ⟨trust, e⟩ ∧
      (rest = [] ∨ ∃ p, ParentOf s trust p e ∧ Chain s trust p rest)

section Walk

variable {s : RoleState} {caller : Role} {target : Bytes32}

theorem ParentOf.unique {trust : Pubkey} {a a' b : Bytes32} (h : ParentOf s trust a b)
    (h' : ParentOf s trust a' b) : a = a' := Option.some.inj (h.2.symm.trans h'.2)

theorem AboveBy.above {trust : Pubkey} {d : Nat} {a b : Bytes32}
    (h : AboveBy s trust (d + 1) a b) : Above s trust a b := by
  induction d generalizing b with
  | zero =>
    obtain ⟨p, hp, rfl⟩ := h
    exact .single hp
  | succ d ih =>
    obtain ⟨p, hp, hup⟩ := h
    exact (ih hup).tail hp

theorem walkFrom_up {i : Nat} {e : Bytes32} {acc : RolePda} {rest : List RolePda} {r : Role}
    (hr : s.roles.lookup acc = some r) (htrust : r.trust = caller.trust) (hid : r.roleId = e)
    (hcaller : e ≠ caller.roleId) (hroot : r.parentRoleId ≠ 0)
    (hdepth : i + 1 ≠ MAX_AUTHORITY_WALK) : walkFrom s.roles caller i e (acc :: rest) =
      walkFrom s.roles caller (i + 1) r.parentRoleId rest := by
  subst hid
  rw [walkFrom, hr]
  simp only [okOr, require, if_pos htrust, if_neg hcaller, if_neg hroot, if_neg hdepth, bind,
    Except.bind, if_true]

/-- The walk along the chain, from account number `i` on, comes to the caller's role. -/
theorem walkFrom_chain (hwf : Wf s) (hacyclic : Acyclic s) (hcaller : s.roles.lookup
    ⟨caller.trust, caller.roleId⟩ = some caller) {d : Nat} :
    ∀ {i : Nat} {e : Bytes32} {accs : List RolePda}, AboveBy s caller.trust d caller.roleId e →
      Chain s caller.trust e accs → d < accs.length → i + d < MAX_AUTHORITY_WALK →
      walkFrom s.roles caller i e accs = .ok () := by
  induction d with
  | zero =>
    intro i e accs hup hchain hlen _
    obtain rfl : caller.roleId = e := hup
    cases accs with
    | nil => cases hlen
    | cons acc rest =>
      obtain ⟨rfl, -⟩ := hchain
      simp [walkFrom, hcaller, bind_eq_ok]
  | succ d ih =>
    intro i e accs hup hchain hlen hbound
    have habove := hup.above
    obtain ⟨p, hp, hup⟩ := hup
    cases accs with
    | nil => cases hlen
    | cons acc rest =>
      obtain ⟨rfl, hrest⟩ := hchain
      have hlen' : d < rest.length := by simpa using hlen
      obtain ⟨p', hp', hchain'⟩ : ∃ p, ParentOf s caller.trust p e ∧
          Chain s caller.trust p rest := by
        rcases hrest with rfl | hrest
        · cases hlen'
        · exact hrest
      obtain rfl := hp'.unique hp
      obtain ⟨r, hr, hparent⟩ := Option.map_eq_some_iff.1 hp.2
      obtain ⟨htrust, hid⟩ := hwf.role hr
      have hcallerId : e ≠ caller.roleId := by
        rintro rfl
        exact hacyclic _ _ habove
      have hdepth : i + 1 ≠ MAX_AUTHORITY_WALK := by omega
      rw [walkFrom_up hr htrust hid hcallerId (hparent ▸ hp.1) hdepth, hparent]
      exact ih hup hchain' hlen' (by omega)

theorem chain_take {trust : Pubkey} {n : Nat} {e : Bytes32} {accs : List RolePda}
    (h : Chain s trust e accs) : Chain s trust e (accs.take n) := by
  induction accs generalizing n e with
  | nil => rw [List.take_nil]; exact h
  | cons acc rest ih =>
    cases n with
    | zero => trivial
    | succ n =>
      obtain ⟨hacc, hrest⟩ := h
      refine ⟨hacc, ?_⟩
      rcases hrest with rfl | ⟨p, hp, hchain⟩
      · exact .inl List.take_nil
      · exact .inr ⟨p, hp, ih hchain⟩

theorem checkAuthorityWalk_chain (hwf : Wf s) (hacyclic : Acyclic s) {k : RolePda}
    (hcaller : s.roles.lookup k = some caller) {d : Nat} (hd : d < MAX_AUTHORITY_WALK)
    (hup : AboveBy s caller.trust d caller.roleId target) {remaining : List RolePda}
    (hchain : Chain s caller.trust target remaining) (hlen : d < remaining.length) :
    checkAuthorityWalk s.roles caller target remaining = .ok () := by
  have hown : s.roles.lookup ⟨caller.trust, caller.roleId⟩ = some caller := by
    rw [hwf.pda_eq hcaller]
    exact hcaller
  unfold checkAuthorityWalk
  split
  · rfl
  · refine walkFrom_chain hwf hacyclic hown hup (chain_take hchain) ?_ (by omega)
    rw [List.length_take]
    omega

end Walk

/-- No role is above itself, and a walk succeeds just for the target's own role and, given the
chain, for one up to seven parents up. -/
theorem authority_walk_exact {s : RoleState} {hist : List (RoleState × RoleTx)}
    (run : Run (okStep RoleState.exec) RoleState.init hist s) :
    (∀ trust a, ¬ Above s trust a a) ∧
    ∀ k caller, s.roles.lookup k = some caller → ∀ target remaining,
      (checkAuthorityWalk s.roles caller target remaining = .ok () →
        caller.roleId = target ∨ Above s caller.trust caller.roleId target) ∧
      ∀ d ≤ 7, AboveBy s caller.trust d caller.roleId target →
        Chain s caller.trust target remaining → d < remaining.length →
        checkAuthorityWalk s.roles caller target remaining = .ok () := by
  have hwf := (Forest.of_run run).1
  have hacyclic := Acyclic.of_run run
  refine ⟨hacyclic, fun k caller hcaller target remaining => ⟨fun h => ?_, ?_⟩⟩
  · rcases Relation.reflTransGen_iff_eq_or_transGen.1 (checkAuthorityWalk_ok hwf hcaller h).1
      with heq | hup
    · exact .inl heq.symm
    · exact .inr hup
  · intro d hd hup hchain hlen
    exact checkAuthorityWalk_chain hwf hacyclic hcaller (Nat.lt_succ_of_le hd) hup hchain hlen

/-- Role 5 is found above role 6, which was opened below it. -/
theorem openedBelow_walk : ∃ s caller,
    execAll RoleState.exec RoleState.init (bootstrap ++ [openBelow]) = .ok s ∧
    s.roles.lookup ⟨1, 5⟩ = some caller ∧
    checkAuthorityWalk s.roles caller 6 [⟨1, 6⟩, ⟨1, 5⟩] = .ok () ∧
    (caller.roleId = 6 ∨ Above s caller.trust caller.roleId 6) := by
  have hok : ((execAll RoleState.exec RoleState.init (bootstrap ++ [openBelow])).toOption.map
      fun s => ((s.roles.lookup ⟨1, 5⟩).map fun r => (r.trust, r.roleId),
        (s.roles.lookup ⟨1, 6⟩).map Role.parentRoleId)) = some (some (1, 5), some 5) := by decide
  obtain ⟨s, hs, hroles⟩ := toOption_map_eq_some.1 hok
  obtain ⟨hcaller, hparent⟩ := Prod.mk.inj hroles
  obtain ⟨caller, hcaller, hown⟩ := Option.map_eq_some_iff.1 hcaller
  obtain ⟨htrust, hid⟩ := Prod.mk.inj hown
  obtain ⟨hist, run⟩ := Run.execAll hs
  have hup : ParentOf s 1 5 6 := ⟨by decide, hparent⟩
  have hchain : Chain s 1 6 [⟨1, 6⟩, ⟨1, 5⟩] :=
    ⟨rfl, .inr ⟨5, hup, rfl, .inl rfl⟩⟩
  obtain ⟨hsound, hfound⟩ :=
    (authority_walk_exact run).2 _ caller hcaller 6 [⟨1, 6⟩, ⟨1, 5⟩]
  have hwalk := hfound 1 (by decide) ⟨5, htrust ▸ hup, hid⟩ (htrust ▸ hchain) (by decide)
  exact ⟨s, caller, hs, hcaller, hwalk, hsound hwalk⟩

end Aeqi.Roles
