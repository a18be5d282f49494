import Aeqi.Orchestrator.OrgChart

/-!
# What a user can manage

The authority of a user over the roles of an entity follows from the seats it holds, the edges
below them and the types of the roles, and its own requests edit all three. A request adds to
the branch of its caller by a new seat or by an edge into one of its roles; what lies below that
role comes with it. So the caller gains nothing when that was in its branch already, and when
neither a new director's seat nor a dropped edge hands it the roles without a parent.
-/

namespace Aeqi.Orchestrator

open Aeqi.Lib Handler List Option

namespace RoleStore

variable {s s' : RoleStore} {trustId userId id : String}

/-! ## Authority by membership -/

theorem ownsManaging_iff :
    s.ownsManaging trustId userId id = true ↔ ∃ r, s.roles.lookup id = some r ∧
      r.trustId = trustId ∧ r.occupantKind = .human ∧ r.occupantId = some userId ∧
        (id, GRANT_ROLES_MANAGE) ∈ s.roleGrants := by
  unfold ownsManaging
  cases s.roles.lookup id <;> simp [and_assoc]

theorem mem_keys_of_lookup {r : Role} (h : s.roles.lookup id = some r) : id ∈ s.roles.keys :=
  AList.mem_keys.1 (AList.lookup_isSome.1 (by rw [h]; rfl))

theorem canCreateRoot_iff :
    s.userCanCreateRootRole trustId userId = true ↔ ∃ id r, s.roles.lookup id = some r ∧
      s.ownsManaging trustId userId id = true ∧ r.roleType = .director := by
  unfold userCanCreateRootRole
  simp only [List.any_eq_true, Bool.and_eq_true, Option.any_eq_true, decide_eq_true_eq]
  constructor
  · rintro ⟨id, -, howns, r, hr, htype⟩
    exact ⟨id, r, hr, howns, htype⟩
  · rintro ⟨id, r, hr, howns, htype⟩
    exact ⟨id, mem_keys_of_lookup hr, howns, r, hr, htype⟩

theorem own_mem_branch (h : s.ownsManaging trustId userId id = true) :
    id ∈ s.branch trustId userId := by
  obtain ⟨r, hr, -⟩ := ownsManaging_iff.1 h
  exact mem_closure.2 ⟨id, mem_filter.2 ⟨mem_keys_of_lookup hr, h⟩, .refl⟩

theorem mem_branchEdges {e : String × String} :
    e ∈ s.branchEdges trustId ↔ e ∈ s.roleEdges ∧ s.roleInEntity trustId e.2 = true :=
  mem_filter

theorem child_mem_branch {p c : String} (hp : p ∈ s.branch trustId userId)
    (hedge : (p, c) ∈ s.branchEdges trustId) : c ∈ s.branch trustId userId := by
  obtain ⟨a, ha, hpath⟩ := mem_closure.1 hp
  exact mem_closure.2 ⟨a, ha, hpath.tail hedge⟩

theorem hasParent_iff : s.hasParent id = true ↔ ∃ p, (p, id) ∈ s.roleEdges := by
  unfold hasParent
  simp only [List.any_eq_true, decide_eq_true_eq, Prod.exists]
  constructor
  · rintro ⟨p, c, hedge, rfl⟩
    exact ⟨p, hedge⟩
  · rintro ⟨p, hedge⟩
    exact ⟨p, id, hedge, rfl⟩

theorem canManage_iff :
    s.userCanManageRole trustId userId id = true ↔ s.roleInEntity trustId id = true ∧
      ((s.hasParent id = false ∧ s.userCanCreateRootRole trustId userId = true) ∨
        id ∈ s.branch trustId userId) := by
  simp [userCanManageRole]

/-! ## Conditions -/

def Settled (s : RoleStore) (trustId userId id : String) : Prop :=
  ∀ e ∈ s.branchEdges trustId, e.1 = id → e.2 ∈ s.branch trustId userId

instance : Decidable (s.Settled trustId userId id) := by
  unfold Settled
  infer_instance

def HoldsRoots (s : RoleStore) (trustId userId : String) : Prop :=
  s.userCanCreateRootRole trustId userId = true ∨
    ∀ id ∈ s.roles.keys, s.roleInEntity trustId id = true → s.hasParent id = false →
      id ∈ s.branch trustId userId

instance : Decidable (s.HoldsRoots trustId userId) := by
  unfold HoldsRoots
  infer_instance

/-- When a write leaves the user in the role with `roles.manage`, the user gains nothing by
it. -/
def MaySeat (s : RoleStore) (trustId userId id : String) (kind : OccupantKind)
    (occupantId : Option String) (roleType : RoleType) (manages : Prop) : Prop :=
  kind = .human → occupantId = some userId → manages →
    s.Settled trustId userId id ∧ (roleType = .director → s.HoldsRoots trustId userId)

instance {kind : OccupantKind} {occupantId : Option String} {roleType : RoleType}
    {manages : Prop} [Decidable manages] :
    Decidable (s.MaySeat trustId userId id kind occupantId roleType manages) := by
  unfold MaySeat
  infer_instance

/-- The foreign keys of `role_edges`. -/
def EdgesExist (s : RoleStore) : Prop :=
  ∀ p c, (p, c) ∈ s.roleEdges → (s.roles.lookup p).isSome ∧ (s.roles.lookup c).isSome

/-- Roles that the user cannot manage stay so, with their rows and grants. -/
def HeldBack (userId : String) (s s' : RoleStore) : Prop :=
  ∀ id r, s.roles.lookup id = some r → s.userCanManageRole r.trustId userId id = false →
    s'.userCanManageRole r.trustId userId id = false ∧ s'.roles.lookup id = some r ∧
      ∀ grant, (id, grant) ∈ s'.roleGrants ↔ (id, grant) ∈ s.roleGrants

theorem HeldBack.refl : HeldBack userId s s := fun _ _ hr hno => ⟨hno, hr, fun _ => Iff.rfl⟩

theorem HeldBack.trans {t : RoleStore} (h : HeldBack userId s s') (h' : HeldBack userId s' t) :
    HeldBack userId s t := by
  intro id r hr hno
  obtain ⟨hno', hr', hgrants⟩ := h id r hr hno
  obtain ⟨hno'', hr'', hgrants'⟩ := h' id r hr' hno'
  exact ⟨hno'', hr'', fun grant => (hgrants' grant).trans (hgrants grant)⟩

/-! ## One role is written, and hung below others -/

/-- Only the row and the grants of one role differ. -/
structure TouchedAt (s s' : RoleStore) (id : String) : Prop where
  rows : ∀ x, x ≠ id → s'.roles.lookup x = s.roles.lookup x
  grants : ∀ g, g.1 ≠ id → (g ∈ s'.roleGrants ↔ g ∈ s.roleGrants)

theorem Edited.touchedAt {f : Role → Role} (h : Edited s id f s') : TouchedAt s s' id :=
  ⟨fun x hx => by rw [h.lookup, if_neg hx], h.others⟩

theorem Created.touchedAt {role : Role} {grants : List String} (h : Created s id role grants s') :
    TouchedAt s s' id := by
  refine ⟨fun x hx => by rw [h.lookup, if_neg hx], fun g hg => (h.roleGrants g).trans ?_⟩
  exact ⟨fun hor => hor.elim (fun heq => absurd heq.1 hg) fun hold => hold, .inr⟩

theorem TouchedAt.trans {t : RoleStore} (h : TouchedAt s s' id) (h' : TouchedAt s' t id) :
    TouchedAt s t id :=
  ⟨fun x hx => (h'.rows x hx).trans (h.rows x hx),
    fun g hg => (h'.grants g hg).trans (h.grants g hg)⟩

/-- The write of one role and of the edges into it. -/
structure Seating (s s' : RoleStore) (userId id : String) (r' : Role) : Prop where
  touched : TouchedAt s s' id
  row : s'.roles.lookup id = some r'
  old : ∀ r, s.roles.lookup id = some r →
    r.trustId = r'.trustId ∧ s.userCanManageRole r.trustId userId id = true
  seat : s.MaySeat r'.trustId userId id r'.occupantKind r'.occupantId r'.roleType
    ((id, GRANT_ROLES_MANAGE) ∈ s'.roleGrants)
  kept : ∀ p c, (p, c) ∈ s.roleEdges → c ≠ id → (p, c) ∈ s'.roleEdges
  new : ∀ p c, (p, c) ∈ s'.roleEdges → (p, c) ∈ s.roleEdges ∨ c = id ∧ p ≠ id ∧
    (p ∈ s.branch r'.trustId userId → s.Settled r'.trustId userId id)

namespace Seating

variable {r' : Role}

theorem owns (h : Seating s s' userId id r') {x : String}
    (hown : s'.ownsManaging trustId userId x = true) :
    s.ownsManaging trustId userId x = true ∨ x = id ∧ s.Settled trustId userId id := by
  obtain ⟨r, hr, htrust, hkind, hocc, hgrant⟩ := ownsManaging_iff.1 hown
  by_cases hx : x = id
  · subst hx
    cases h.row.symm.trans hr
    subst htrust
    exact .inr ⟨rfl, (h.seat hkind hocc hgrant).1⟩
  · rw [h.touched.rows x hx] at hr
    exact .inl (ownsManaging_iff.2 ⟨r, hr, htrust, hkind, hocc, (h.touched.grants _ hx).1 hgrant⟩)

theorem inEntity (h : Seating s s' userId id r') {x : String}
    (hx : s'.roleInEntity trustId x = true) (hexists : (s.roles.lookup x).isSome) :
    s.roleInEntity trustId x = true := by
  obtain ⟨r, hr, htrust⟩ := roleInEntity_iff.1 hx
  by_cases hid : x = id
  · subst hid
    cases h.row.symm.trans hr
    obtain ⟨r, hold⟩ := isSome_iff_exists.1 hexists
    exact roleInEntity_iff.2 ⟨r, hold, (h.old r hold).1.trans htrust⟩
  · rw [h.touched.rows x hid] at hr
    exact roleInEntity_iff.2 ⟨r, hr, htrust⟩

theorem branch (h : Seating s s' userId id r') (hs : s.EdgesExist) :
    ∀ x ∈ s'.branch trustId userId, x ∈ s.branch trustId userId ∨ x = id := by
  have hdrawn : ∀ x ∈ s'.branch trustId userId, x ∈ s.branch trustId userId ∨
      x = id ∧ s.Settled trustId userId id := by
    refine closure_subset ?_ ?_
    · intro x hx
      rcases h.owns (mem_filter.1 hx).2 with hown | ⟨rfl, hsettled⟩
      · exact .inl (own_mem_branch hown)
      · exact .inr ⟨rfl, hsettled⟩
    · intro a b hedge ha
      obtain ⟨hedge, hentity⟩ := mem_branchEdges.1 hedge
      rcases h.new a b hedge with hold | ⟨rfl, hne, hsettled⟩
      · have hin := mem_branchEdges.2 ⟨hold, h.inEntity hentity (hs a b hold).2⟩
        rcases ha with ha | ⟨rfl, hsettled⟩
        · exact .inl (child_mem_branch ha hin)
        · exact .inl (hsettled _ hin rfl)
      · -- the edge into the written role
        obtain ⟨r, hr, htrust⟩ := roleInEntity_iff.1 hentity
        cases h.row.symm.trans hr
        subst htrust
        rcases ha with ha | ⟨rfl, -⟩
        · exact .inr ⟨rfl, hsettled ha⟩
        · exact absurd rfl hne
  intro x hx
  exact (hdrawn x hx).imp_right And.left

theorem heldBack (h : Seating s s' userId id r') (hs : s.EdgesExist) : HeldBack userId s s' := by
  intro x r hr hno
  have hx : x ≠ id := by
    rintro rfl
    exact Bool.noConfusion (hno.symm.trans (h.old r hr).2)
  have hin : s.roleInEntity r.trustId x = true := roleInEntity_iff.2 ⟨r, hr, rfl⟩
  have hroot : s.hasParent x = false → ¬ s.HoldsRoots r.trustId userId := by
    rintro hparent (hdirector | hall)
    · exact Bool.noConfusion (hno.symm.trans (canManage_iff.2 ⟨hin, .inl ⟨hparent, hdirector⟩⟩))
    · have hmem := hall x (mem_keys_of_lookup hr) hin hparent
      exact Bool.noConfusion (hno.symm.trans (canManage_iff.2 ⟨hin, .inr hmem⟩))
  refine ⟨?_, by rw [h.touched.rows x hx, hr], fun grant => h.touched.grants (x, grant) hx⟩
  refine Bool.eq_false_iff.2 fun hcan => ?_
  obtain ⟨-, ⟨hparent, hdirector⟩ | hmem⟩ := canManage_iff.1 hcan
  · have hparentless : s.hasParent x = false := by
      refine Bool.eq_false_iff.2 fun htrue => ?_
      obtain ⟨p, hp⟩ := hasParent_iff.1 htrue
      exact Bool.noConfusion (hparent.symm.trans (hasParent_iff.2 ⟨p, h.kept p x hp hx⟩))
    refine hroot hparentless ?_
    obtain ⟨y, ry, hy, hown, htype⟩ := canCreateRoot_iff.1 hdirector
    by_cases hyid : y = id
    · subst hyid
      cases h.row.symm.trans hy
      obtain ⟨r₀, hr₀, htrust, hkind, hocc, hgrant⟩ := ownsManaging_iff.1 hown
      cases h.row.symm.trans hr₀
      rw [← htrust]
      exact (h.seat hkind hocc hgrant).2 htype
    · rcases h.owns hown with hold | ⟨heq, -⟩
      · rw [h.touched.rows y hyid] at hy
        exact .inl (canCreateRoot_iff.2 ⟨y, ry, hy, hold, htype⟩)
      · exact absurd heq hyid
  · rcases h.branch hs x hmem with hold | rfl
    · exact Bool.noConfusion (hno.symm.trans (canManage_iff.2 ⟨hin, .inr hold⟩))
    · exact hx rfl

end Seating

/-! ## Children are hung below one role -/

structure Grafting (s s' : RoleStore) (userId id : String) (r : Role) (children : List String) :
    Prop where
  store : s' = { s with roleEdges := s'.roleEdges }
  edges : ∀ p c, (p, c) ∈ s'.roleEdges ↔
    c ∈ children ∧ p = id ∧ c ≠ id ∨ (p, c) ∈ s.roleEdges ∧ p ≠ id
  can : ∀ c ∈ children, s.userCanManageRole r.trustId userId c = true
  drawn : id ∈ s.branch r.trustId userId → ∀ c ∈ children, s.Settled r.trustId userId c
  dropped : ∀ c, (id, c) ∈ s.roleEdges → c ∉ children → (∀ p, (p, c) ∈ s.roleEdges → p = id) →
    ∀ rc, s.roles.lookup c = some rc → s.userCanCreateRootRole rc.trustId userId = true →
      c ∈ s.branch rc.trustId userId

namespace Grafting

variable {r : Role} {children : List String}

theorem inEntity (h : Grafting s s' userId id r children) (x : String) :
    s'.roleInEntity trustId x = s.roleInEntity trustId x := by
  rw [h.store]
  rfl

theorem branch (h : Grafting s s' userId id r children) :
    ∀ x ∈ s'.branch trustId userId, x ∈ s.branch trustId userId ∨
      x ∈ children ∧ trustId = r.trustId := by
  have hdrawn : ∀ x ∈ s'.branch trustId userId, x ∈ s.branch trustId userId ∨
      x ∈ children ∧ trustId = r.trustId ∧ x ≠ id ∧ s.Settled trustId userId x := by
    refine closure_subset ?_ ?_
    · intro x hx
      have hown := (mem_filter.1 hx).2
      rw [h.store] at hown
      exact .inl (own_mem_branch hown)
    · intro a b hedge ha
      obtain ⟨hedge, hentity⟩ := mem_branchEdges.1 hedge
      rw [h.inEntity] at hentity
      rcases (h.edges a b).1 hedge with ⟨hb, rfl, hne⟩ | ⟨hold, -⟩
      · -- an edge to one of the children, which are all of one entity
        obtain ⟨rb, hrb, htrust⟩ := roleInEntity_iff.1 hentity
        obtain ⟨rb', hrb', htrust'⟩ := inEntity_of_manage (h.can b hb)
        cases hrb.symm.trans hrb'
        obtain rfl : r.trustId = trustId := htrust'.symm.trans htrust
        rcases ha with ha | ⟨-, -, hself, -⟩
        · exact .inr ⟨hb, rfl, hne, h.drawn ha b hb⟩
        · exact absurd rfl hself
      · have hin := mem_branchEdges.2 ⟨hold, hentity⟩
        rcases ha with ha | ⟨-, -, -, hsettled⟩
        · exact .inl (child_mem_branch ha hin)
        · exact .inl (hsettled _ hin rfl)
  intro x hx
  exact (hdrawn x hx).imp_right fun hchild => ⟨hchild.1, hchild.2.1⟩

theorem heldBack (h : Grafting s s' userId id r children) : HeldBack userId s s' := by
  intro x rx hrx hno
  have hin : s.roleInEntity rx.trustId x = true := roleInEntity_iff.2 ⟨rx, hrx, rfl⟩
  refine ⟨?_, by rw [h.store]; exact hrx, fun grant => by rw [h.store]⟩
  refine Bool.eq_false_iff.2 fun hcan => ?_
  refine Bool.eq_false_iff.1 hno ?_
  obtain ⟨-, ⟨hparent, hdirector⟩ | hmem⟩ := canManage_iff.1 hcan
  · have hdirector : s.userCanCreateRootRole rx.trustId userId = true := by
      rw [h.store] at hdirector
      exact hdirector
    by_cases hold : s.hasParent x = true
    · -- the parents it had were dropped
      have honly : ∀ p, (p, x) ∈ s.roleEdges → p = id := by
        intro p hp
        by_contra hne
        refine Bool.eq_false_iff.1 hparent (hasParent_iff.2 ⟨p, ?_⟩)
        exact (h.edges p x).2 (.inr ⟨hp, hne⟩)
      obtain ⟨p, hp⟩ := hasParent_iff.1 hold
      obtain rfl := honly p hp
      by_cases hchild : x ∈ children
      · obtain ⟨rc, hrc, htrust⟩ := inEntity_of_manage (h.can x hchild)
        cases hrx.symm.trans hrc
        rw [htrust]
        exact h.can x hchild
      · exact canManage_iff.2 ⟨hin, .inr (h.dropped x hp hchild honly rx hrx hdirector)⟩
    · exact canManage_iff.2 ⟨hin, .inl ⟨by simpa using hold, hdirector⟩⟩
  · rcases h.branch x hmem with hold | ⟨hchild, htrust⟩
    · exact canManage_iff.2 ⟨hin, .inr hold⟩
    · rw [htrust]
      exact h.can x hchild

end Grafting

/-! ## The foreign keys of the edges -/

namespace EdgesExist

theorem of_rows (hs : s.EdgesExist) (hrows : KeepsEntities s s')
    (hedges : ∀ p c, (p, c) ∈ s'.roleEdges → (p, c) ∈ s.roleEdges ∨
      (s'.roles.lookup p).isSome ∧ (s'.roles.lookup c).isSome) : s'.EdgesExist := by
  have hkept : ∀ x, (s.roles.lookup x).isSome → (s'.roles.lookup x).isSome := by
    intro x hx
    obtain ⟨r, hr⟩ := isSome_iff_exists.1 hx
    obtain ⟨r', hr', -⟩ := hrows x r hr
    rw [hr']
    rfl
  intro p c hedge
  rcases hedges p c hedge with hold | hnew
  · exact (hs p c hold).imp (hkept p) (hkept c)
  · exact hnew

theorem addEdge {p c : String} (hs : s.EdgesExist) (h : s.addEdge p c = .ok s') :
    s'.EdgesExist := by
  unfold RoleStore.addEdge at h
  split at h
  next => cases h
  next =>
    split at h
    next => cases h
    next hrows =>
      cases h
      intro x y hedge
      rcases mem_union_iff.1 hedge with hnew | hold
      · cases mem_singleton.1 hnew
        simpa [isSome_iff_ne_none] using hrows
      · exact hs x y hold

theorem setParentEdges {ids : List String} (hs : s.EdgesExist)
    (h : s.setParentEdges id ids = .ok s') : s'.EdgesExist := by
  obtain ⟨⟨-, ⟨r, hr, hends⟩, -⟩, rfl⟩ := setParentEdges_ok h
  intro p c hedge
  rcases mem_parentEdges.1 hedge with ⟨hp, hc⟩ | ⟨hold, -⟩
  · obtain ⟨rp, hrp, -⟩ := hends p hp
    dsimp only at hc
    rw [hrp, hc, hr]
    exact ⟨rfl, rfl⟩
  · exact hs p c hold

theorem setChildEdges {ids : List String} (hs : s.EdgesExist)
    (h : s.setChildEdges id ids = .ok s') : s'.EdgesExist := by
  obtain ⟨⟨-, ⟨r, hr, hends⟩, -⟩, rfl⟩ := setChildEdges_ok h
  intro p c hedge
  rcases mem_childEdges.1 hedge with ⟨hc, hp⟩ | ⟨hold, -⟩
  · obtain ⟨rc, hrc, -⟩ := hends c hc
    dsimp only at hp
    rw [hp, hr, hrc]
    exact ⟨rfl, rfl⟩
  · exact hs p c hold

end EdgesExist

end RoleStore

/-! ## When a request keeps the reach of its caller -/

section Conditions

open RoleStore

variable (s : RoleStore) (userId : String)

def managedRow (field : Option String) : Option (String × Role) :=
  (requestField field).bind fun id => (s.roles.lookup id).bind fun r =>
    if s.userCanManageRole r.trustId userId id = true then some (id, r) else none

def typeOr (field : Option String) (roleType : RoleType) : RoleType :=
  (((requestField field).mapM RoleType.fromStr).toOption.join).getD roleType

/-- `roles.manage` is among the grants once they have been replaced. -/
def managesAfter (id : String) (grants : Option (List String)) : Bool :=
  grants.elim (decide ((id, GRANT_ROLES_MANAGE) ∈ s.roleGrants))
    fun grants => decide (GRANT_ROLES_MANAGE ∈ grants)

def UpdateKeepsReach (req : UpdateRole) : Prop :=
  match managedRow s userId req.roleId with
  | none => True
  | some (id, r) =>
    s.MaySeat r.trustId userId id r.occupantKind r.occupantId (typeOr req.roleType r.roleType)
      (managesAfter s id req.grants = true)

def OccupantKeepsReach (req : ChangeOccupant) : Prop :=
  match managedRow s userId req.roleId, occupantOf req.occupantKind req.occupantId with
  | some (id, r), .ok (kind, occupantId) =>
    s.MaySeat r.trustId userId id kind occupantId r.roleType
      ((id, GRANT_ROLES_MANAGE) ∈ s.roleGrants)
  | _, _ => True

instance (trustId : String) (parentId : Option String) :
    Decidable (MayCreate s trustId userId parentId) := by
  unfold MayCreate
  split <;> infer_instance

/-- The role that a `create_role` adopts, with the entity and the type it is given, when the
caller may do all of it. -/
def adopted (req : CreateRole) : Option (String × Role × RoleType) :=
  match requestField req.trustId, occupantOf req.occupantKind req.occupantId,
      RoleType.fromStr ((requestField req.roleType).getD "operational") with
  | some trustId, .ok (_, some occId), .ok roleType =>
    (s.getByOccupant trustId occId).bind fun id => (s.roles.lookup id).bind fun r =>
      if s.userCanManageRole trustId userId id = true ∧
          MayCreate s trustId userId (requestField req.parentRoleId) then
        some (id, r, roleType)
      else none
  | _, _, _ => none

def CreateKeepsReach (req : CreateRole) : Prop :=
  match adopted s userId req with
  | none => True
  | some (id, r, roleType) =>
    s.MaySeat r.trustId userId id r.occupantKind r.occupantId roleType
        (GRANT_ROLES_MANAGE ∈ effectiveGrants roleType req.grants) ∧
      ((requestField req.parentRoleId).any (fun p => decide (p ∈ s.branch r.trustId userId)) =
        true → s.Settled r.trustId userId id)

def ParentsKeepReach (id : String) (r : Role) : Option (List String) → Prop
  | none => True
  | some ids => (∃ p ∈ idSet ids, p ∈ s.branch r.trustId userId) → s.Settled r.trustId userId id

instance (id : String) (r : Role) (ids : Option (List String)) :
    Decidable (ParentsKeepReach s userId id r ids) := by
  unfold ParentsKeepReach
  split <;> infer_instance

/-- New children of a role in the branch draw in what is below them; a child that is left
without a parent falls to the directors of its entity. -/
def ChildrenKeepReach (id : String) (r : Role) : Option (List String) → Prop
  | none => True
  | some ids =>
    (id ∈ s.branch r.trustId userId → ∀ c ∈ idSet ids, s.Settled r.trustId userId c) ∧
      ∀ e ∈ s.roleEdges, e.1 = id → e.2 ∉ idSet ids →
        (∀ e' ∈ s.roleEdges, e'.2 = e.2 → e'.1 = id) →
          (s.roles.lookup e.2).all (fun rc => !s.userCanCreateRootRole rc.trustId userId ||
            decide (e.2 ∈ s.branch rc.trustId userId)) = true

instance (id : String) (r : Role) (ids : Option (List String)) :
    Decidable (ChildrenKeepReach s userId id r ids) := by
  unfold ChildrenKeepReach
  split <;> infer_instance

def reparented (id : String) : Option (List String) → Except Refusal RoleStore
  | none => .ok s
  | some ids => s.setParentEdges id ids

def EdgesKeepReach (req : UpdateRoleEdges) : Prop :=
  match managedRow s userId req.roleId with
  | none => True
  | some (id, r) =>
    ParentsKeepReach s userId id r req.parentRoleIds ∧
      match reparented s id req.parentRoleIds with
      | .ok s' => ChildrenKeepReach s' userId id r req.childRoleIds
      | .error _ => True

def RoleRequest.KeepsReach : RoleRequest → Prop
  | .create req .. => CreateKeepsReach s userId req
  | .update req => UpdateKeepsReach s userId req
  | .edges req => EdgesKeepReach s userId req
  | .occupant req => OccupantKeepsReach s userId req

instance RoleRequest.KeepsReach.decidable (req : RoleRequest) :
    Decidable (req.KeepsReach s userId) := by
  cases req with
  | create req =>
    unfold KeepsReach CreateKeepsReach
    dsimp only
    split <;> infer_instance
  | update req =>
    unfold KeepsReach UpdateKeepsReach
    dsimp only
    split <;> infer_instance
  | edges req =>
    unfold KeepsReach EdgesKeepReach
    dsimp only
    split
    · infer_instance
    · refine @instDecidableAnd _ _ _ ?_
      split <;> infer_instance
  | occupant req =>
    unfold KeepsReach OccupantKeepsReach
    dsimp only
    split <;> infer_instance

end Conditions

/-! ## One request -/

section Step

open RoleStore

variable {s s' : RoleStore} {userId : String}

/-- What a request leaves for the next one. -/
structure Contained (userId : String) (s s' : RoleStore) : Prop where
  heldBack : HeldBack userId s s'
  edges : s'.EdgesExist

theorem Contained.refl (hs : s.EdgesExist) : Contained userId s s := ⟨.refl, hs⟩

theorem Contained.trans {t : RoleStore} (h : Contained userId s s') (h' : Contained userId s' t) :
    Contained userId s t := ⟨h.heldBack.trans h'.heldBack, h'.edges⟩

variable {id trustId : String}

theorem managedRow_of_named {field : Option String} (h : Named s userId field trustId id) :
    ∃ r, r.trustId = trustId ∧ s.roles.lookup id = some r ∧
      managedRow s userId field = some (id, r) := by
  obtain ⟨r, hr, htrust⟩ := h.row
  refine ⟨r, htrust, hr, ?_⟩
  unfold managedRow
  rw [h.field, bind_some, hr, bind_some, htrust, if_pos h.can]

theorem setDescriptionIdea_touched (id : String) (idea : Option String) :
    TouchedAt s (s.setDescriptionIdea id idea) id := (setDescriptionIdea_edited idea).touchedAt

variable {r : Role}

theorem lookup_describe {idea : Option String} (h : s.roles.lookup id = some r) :
    (s.setDescriptionIdea id idea).roles.lookup id = some { r with descriptionIdeaId := idea } := by
  rw [(setDescriptionIdea_edited idea).lookup, if_pos rfl, h, map_some]

theorem RoleStore.Seating.describe {r' : Role} (h : Seating s s' userId id r')
    (idea : Option String) :
    Seating s (s'.setDescriptionIdea id idea) userId id { r' with descriptionIdeaId := idea } where
  touched := h.touched.trans (setDescriptionIdea_touched id idea)
  row := lookup_describe h.row
  old := h.old
  seat := by
    rw [setDescriptionIdea, updateRow_roleGrants]
    exact h.seat
  kept := by
    rw [setDescriptionIdea, updateRow_roleEdges]
    exact h.kept
  new := by
    rw [setDescriptionIdea, updateRow_roleEdges]
    exact h.new

theorem edgesExist_describe {idea : Option String} (hs : s.EdgesExist) :
    (s.setDescriptionIdea id idea).EdgesExist := by
  refine hs.of_rows (setDescriptionIdea_edited idea).keepsEntities fun p c hedge => ?_
  rw [(setDescriptionIdea_edited idea).roleEdges] at hedge
  exact .inl hedge

theorem RoleStore.Edited.seating {f : Role → Role} (h : Edited s id f s')
    (hr : s.roles.lookup id = some r) (hcan : s.userCanManageRole r.trustId userId id = true)
    (hseat : s.MaySeat r.trustId userId id (f r).occupantKind (f r).occupantId (f r).roleType
      ((id, GRANT_ROLES_MANAGE) ∈ s'.roleGrants)) : Seating s s' userId id (f r) where
  touched := h.touchedAt
  row := by rw [h.lookup, if_pos rfl, hr, map_some]
  old := by
    rintro r' hr'
    cases hr.symm.trans hr'
    exact ⟨(h.trustId r).symm, hcan⟩
  seat := by
    rw [h.trustId]
    exact hseat
  kept := fun p c hedge _ => by rw [h.roleEdges]; exact hedge
  new := fun p c hedge => .inl (by rw [← h.roleEdges]; exact hedge)

theorem RoleStore.Edited.edgesExist {f : Role → Role} (h : Edited s id f s') (hs : s.EdgesExist) :
    s'.EdgesExist := by
  refine hs.of_rows h.keepsEntities fun p c hedge => ?_
  rw [h.roleEdges] at hedge
  exact .inl hedge

theorem typeOr_eq {field : Option String} {roleType : Option RoleType} (t : RoleType)
    (h : (requestField field).mapM RoleType.fromStr = .ok roleType) :
    typeOr field t = roleType.getD t := by
  unfold typeOr
  rw [h]
  rfl

theorem managesAfter_iff {grants : Option (List String)} (h : ∀ grant, (id, grant) ∈ s'.roleGrants ↔
      grants.elim ((id, grant) ∈ s.roleGrants) (grant ∈ ·)) :
    (id, GRANT_ROLES_MANAGE) ∈ s'.roleGrants ↔ managesAfter s id grants = true := by
  rw [h, managesAfter]
  cases grants <;> simp

theorem handleUpdateRole_contained {req : UpdateRole} (hs : s.EdgesExist)
    (hreq : UpdateKeepsReach s userId req) :
    Contained userId s (handleUpdateRole req userId s).2 := by
  refine Ends.final (p := Contained userId s) (ends_handleUpdateRole (.refl hs) ?_)
  intro trustId id roleType s' hnamed hok htype
  obtain ⟨r, rfl, hr, hmanaged⟩ := managedRow_of_named hnamed
  obtain ⟨hedited, hgrants⟩ := updateRole_ok hok
  unfold UpdateKeepsReach at hreq
  rw [hmanaged] at hreq
  have hseating : Seating s s' userId id (retitled (requestField req.title) roleType r) := by
    refine hedited.seating hr hnamed.can fun hkind hocc hgrant => ?_
    rw [managesAfter_iff hgrants] at hgrant
    rw [retitled, ← typeOr_eq r.roleType htype]
    exact hreq hkind hocc hgrant
  have hs' := hedited.edgesExist hs
  exact ⟨⟨hseating.heldBack hs, hs'⟩,
    fun idea => ⟨(hseating.describe idea).heldBack hs, edgesExist_describe hs'⟩⟩

theorem handleChangeOccupant_contained {req : ChangeOccupant} (hs : s.EdgesExist)
    (hreq : OccupantKeepsReach s userId req) :
    Contained userId s (handleChangeOccupant req userId s).2 := by
  refine Ends.final (p := Contained userId s) (ends_handleChangeOccupant (.refl hs) ?_)
  intro trustId id kind occupantId s' hnamed hocc hok
  obtain ⟨r, rfl, hr, hmanaged⟩ := managedRow_of_named hnamed
  obtain ⟨hedited, hgrants⟩ := updateOccupant_ok hok
  unfold OccupantKeepsReach at hreq
  rw [hmanaged, hocc] at hreq
  have hseating := hedited.seating hr hnamed.can (by rw [hgrants]; exact hreq)
  exact ⟨hseating.heldBack hs, hedited.edgesExist hs⟩

theorem maySeat_old (hr : s.roles.lookup id = some r) :
    s.MaySeat r.trustId userId id r.occupantKind r.occupantId r.roleType
      ((id, GRANT_ROLES_MANAGE) ∈ s.roleGrants) := by
  intro hkind hocc hgrant
  have hown : s.ownsManaging r.trustId userId id = true :=
    ownsManaging_iff.2 ⟨r, hr, rfl, hkind, hocc, hgrant⟩
  refine ⟨?_, fun htype => .inl (canCreateRoot_iff.2 ⟨id, r, hr, hown, htype⟩)⟩
  rintro ⟨_, c⟩ hedge rfl
  exact child_mem_branch (own_mem_branch hown) hedge

theorem setParentEdges_seating {ids : List String} (hr : s.roles.lookup id = some r)
    (hcan : s.userCanManageRole r.trustId userId id = true)
    (hids : ParentsKeepReach s userId id r (some ids)) (h : s.setParentEdges id ids = .ok s') :
    Seating s s' userId id r := by
  obtain ⟨⟨hself, -, -⟩, rfl⟩ := setParentEdges_ok h
  constructor
  · exact ⟨fun _ _ => rfl, fun _ _ => Iff.rfl⟩
  · exact hr
  · rintro r' hr'
    cases hr.symm.trans hr'
    exact ⟨rfl, hcan⟩
  · exact maySeat_old hr
  · exact fun p c hedge hc => mem_parentEdges.2 (.inr ⟨hedge, hc⟩)
  · intro p c hedge
    rcases mem_parentEdges.1 hedge with ⟨hp, rfl⟩ | ⟨hold, -⟩
    · refine .inr ⟨rfl, fun heq => hself (heq ▸ hp), fun hbranch => ?_⟩
      exact hids ⟨p, hp, hbranch⟩
    · exact .inl hold

theorem setChildEdges_grafting {ids : List String}
    (hcan : ∀ c ∈ ids, s.userCanManageRole r.trustId userId c = true)
    (hids : ChildrenKeepReach s userId id r (some ids)) (h : s.setChildEdges id ids = .ok s') :
    Grafting s s' userId id r (idSet ids) := by
  obtain ⟨⟨hself, -, -⟩, rfl⟩ := setChildEdges_ok h
  obtain ⟨hdrawn, hdropped⟩ := hids
  constructor
  · rfl
  · intro p c
    refine mem_childEdges.trans (or_congr_left ?_)
    exact ⟨fun ⟨hc, hp⟩ => ⟨hc, hp, fun heq => hself (heq ▸ hc)⟩, fun ⟨hc, hp, _⟩ => ⟨hc, hp⟩⟩
  · exact fun c hc => hcan c (mem_idSet.1 hc).1
  · exact hdrawn
  · intro c hedge hc honly rc hrc hdirector
    have hparents : ∀ e ∈ s.roleEdges, e.2 = c → e.1 = id := by
      rintro ⟨p, _⟩ he rfl
      exact honly p he
    have hall := hdropped (id, c) hedge rfl hc hparents
    rw [hrc, all_some, hdirector] at hall
    simpa using hall

theorem handleUpdateRoleEdges_contained {req : UpdateRoleEdges} (hs : s.EdgesExist)
    (hreq : EdgesKeepReach s userId req) :
    Contained userId s (handleUpdateRoleEdges req userId s).2 := by
  refine Ends.final (p := Contained userId s) (ends_handleUpdateRoleEdges (.refl hs) ?_)
  intro trustId id s' hnamed hparents
  obtain ⟨r, rfl, hr, hmanaged⟩ := managedRow_of_named hnamed
  unfold EdgesKeepReach at hreq
  rw [hmanaged] at hreq
  obtain ⟨hparentIds, hchildIds⟩ := hreq
  have hfirst : Contained userId s s' ∧ reparented s id req.parentRoleIds = .ok s' := by
    cases hids : req.parentRoleIds with
    | none =>
      rw [hids] at hparents
      cases hparents
      exact ⟨.refl hs, rfl⟩
    | some ids =>
      rw [hids] at hparents hparentIds
      have hseating := setParentEdges_seating hr hnamed.can hparentIds hparents.2
      exact ⟨⟨hseating.heldBack hs, hs.setParentEdges hparents.2⟩, hparents.2⟩
  obtain ⟨hs', hreparented⟩ := hfirst
  rw [hreparented] at hchildIds
  refine ⟨hs', fun s'' hchildren => ?_⟩
  cases hids : req.childRoleIds with
  | none =>
    rw [hids] at hchildren
    cases hchildren
    exact hs'
  | some ids =>
    rw [hids] at hchildren hchildIds
    have hgrafting := setChildEdges_grafting hchildren.1 hchildIds hchildren.2
    exact hs'.trans ⟨hgrafting.heldBack, hs'.edges.setChildEdges hchildren.2⟩

theorem owns_of_mayCreate {parentId : Option String} (h : MayCreate s trustId userId parentId) :
    ∃ id, s.ownsManaging trustId userId id = true := by
  have hdirector : s.userCanCreateRootRole trustId userId = true →
      ∃ id, s.ownsManaging trustId userId id = true := by
    intro hroot
    obtain ⟨id, -, -, hown, -⟩ := canCreateRoot_iff.1 hroot
    exact ⟨id, hown⟩
  cases parentId with
  | none => exact hdirector h
  | some p =>
    obtain ⟨-, ⟨-, hroot⟩ | hmem⟩ := canManage_iff.1 h
    · exact hdirector hroot
    · obtain ⟨id, hid, -⟩ := mem_closure.1 hmem
      exact ⟨id, (mem_filter.1 hid).2⟩

theorem getByOccupant_isSome (h : s.ownsManaging trustId userId id = true) :
    s.getByOccupant trustId userId ≠ none := by
  obtain ⟨r, hr, htrust, -, hocc, -⟩ := ownsManaging_iff.1 h
  unfold getByOccupant
  rw [Ne, argmin_eq_none]
  refine ne_nil_of_mem (a := id) (mem_filter.2 ⟨mem_keys_of_lookup hr, ?_⟩)
  rw [hr]
  simp [htrust, hocc]

theorem RoleStore.Seating.place {p : String} {r' : Role} {t : RoleStore}
    (h : Seating s s' userId id r') (hadd : s'.addEdge p id = .ok t)
    (hp : p ∈ s.branch r'.trustId userId → s.Settled r'.trustId userId id) :
    Seating s t userId id r' := by
  obtain ⟨hne, rfl⟩ := addEdge_ok hadd
  refine ⟨⟨h.touched.rows, h.touched.grants⟩, h.row, h.old, h.seat, fun x y hedge hy => ?_,
    fun x y hedge => ?_⟩
  · exact mem_union_iff.2 (.inr (h.kept x y hedge hy))
  · rcases mem_union_iff.1 hedge with hnew | hold
    · cases mem_singleton.1 hnew
      exact .inr ⟨rfl, hne, hp⟩
    · exact h.new x y hold

/-- The role that a `create_role` works on, before it is placed. -/
theorem WorksOn.seating {req : CreateRole} {newId : String} {now : Nat}
    {kind : OccupantKind} {occupantId : Option String} {roleType : RoleType}
    (h : Placing s req userId newId now trustId kind occupantId roleType id s')
    (hs : s.EdgesExist) (hreq : CreateKeepsReach s userId req) :
    s'.EdgesExist ∧ ∃ r', Seating s s' userId id r' ∧ ∀ p, requestField req.parentRoleId = some p →
        p ∈ s.branch r'.trustId userId → s.Settled r'.trustId userId id := by
  cases h.works with
  | create hnone hok =>
    have hcreated := createWithType_ok hok
    refine ⟨hs.of_rows hcreated.keepsEntities fun p c hedge =>
      .inl (by rwa [hcreated.roleEdges] at hedge), _,
      ⟨hcreated.touchedAt, by rw [hcreated.lookup, if_pos rfl], ?_, ?_, ?_, ?_⟩, ?_⟩
    · intro r hr
      cases hcreated.fresh.symm.trans hr
    · -- a caller without a role in the entity may not create one
      intro _ hocc _
      obtain ⟨own, hown⟩ := owns_of_mayCreate h.may
      exact absurd (hnone userId hocc) (getByOccupant_isSome hown)
    · exact fun p c hedge _ => by rw [hcreated.roleEdges]; exact hedge
    · exact fun p c hedge => .inl (by rwa [hcreated.roleEdges] at hedge)
    · rintro p - - ⟨_, c⟩ hedge rfl
      have hrow := (hs _ c (mem_branchEdges.1 hedge).1).1
      rw [hcreated.fresh] at hrow
      cases hrow
  | adopt hocc hby hcan hok =>
    obtain ⟨hedited, hgrants⟩ := updateRole_ok hok
    obtain ⟨r, hr, htrust⟩ := inEntity_of_manage hcan
    subst htrust
    have hadopted : adopted s userId req = some (id, r, roleType) := by
      have hoccupant := h.occupant
      rw [hocc] at hoccupant
      unfold adopted
      rw [h.entity, hoccupant, h.type]
      dsimp only
      rw [hby, bind_some, hr, bind_some, if_pos ⟨hcan, h.may⟩]
    unfold CreateKeepsReach at hreq
    rw [hadopted] at hreq
    obtain ⟨hseat, hplace⟩ := hreq
    refine ⟨hedited.edgesExist hs, _, hedited.seating hr hcan ?_, ?_⟩
    · rw [hgrants]
      exact hseat
    · intro p hp hbranch
      refine hplace ?_
      rw [hp]
      exact decide_eq_true hbranch

theorem handleCreateRole_contained {req : CreateRole} {allowed : Option (List String)}
    {newId : String} {now : Nat} (hs : s.EdgesExist) (hreq : CreateKeepsReach s userId req) :
    Contained userId s (handleCreateRole req allowed userId newId now s).2 := by
  refine Ends.final (p := Contained userId s) (ends_handleCreateRole (.refl hs) ?_)
  intro trustId kind occupantId roleType id s' hplacing
  obtain ⟨hs', r', hseating, hparent⟩ := WorksOn.seating hplacing hs hreq
  refine ⟨⟨hseating.heldBack hs, hs'⟩, fun s'' hplaced => ?_⟩
  have hend : s''.EdgesExist ∧ Seating s s'' userId id r' := by
    cases hp : requestField req.parentRoleId with
    | none =>
      rw [hp] at hplaced
      cases hplaced
      exact ⟨hs', hseating⟩
    | some p =>
      rw [hp] at hplaced
      exact ⟨hs'.addEdge hplaced, hseating.place hplaced (hparent p hp)⟩
  exact ⟨⟨hend.2.heldBack hs, hend.1⟩,
    fun idea => ⟨(hend.2.describe idea).heldBack hs, edgesExist_describe hend.1⟩⟩

theorem request_contained {req : RoleRequest} (hs : s.EdgesExist)
    (hreq : req.KeepsReach s userId) : Contained userId s (req.exec userId s) := by
  cases req with
  | create req allowed newId now => exact handleCreateRole_contained hs hreq
  | update req => exact handleUpdateRole_contained hs hreq
  | edges req => exact handleUpdateRoleEdges_contained hs hreq
  | occupant req => exact handleChangeOccupant_contained hs hreq

end Step

/-! ## Runs -/

def RoleRequest.step (userId : String) (s : RoleStore) (req : RoleRequest) :
    Except Unit RoleStore := .ok (req.exec userId s)

/-- **Off-chain authority does not escalate** in a run of one user's requests that keep the reach of
their caller. -/
theorem reach_contained {userId : String} {s s' : RoleStore}
    {hist : List (RoleStore × RoleRequest)}
    (run : Run (Guarded (fun s req => req.KeepsReach s userId) (okStep (RoleRequest.step userId)))
      s hist s') (hs : s.EdgesExist) :
    ∀ id r, s.roles.lookup id = some r → s.userCanManageRole r.trustId userId id = false →
      s'.userCanManageRole r.trustId userId id = false ∧ s'.roles.lookup id = some r ∧
        ∀ grant, (id, grant) ∈ s'.roleGrants ↔ (id, grant) ∈ s.roleGrants := by
  have hcontained : Contained userId s s' := by
    refine run.invariant (P := Contained userId s) (.refl hs) ?_
    rintro t req t' ht ⟨hreq, hstep⟩
    cases hstep
    exact ht.trans (request_contained ht.edges hreq)
  exact hcontained.heldBack

/-- Eve directs the board, Ada leads a role beside it. -/
def twoSeats : RoleStore where
  entities := (∅ : Accounts String Int).insert "acme" 0
  roles := ((∅ : Accounts String Role).insert "board"
      { trustId := "acme", occupantKind := .human, occupantId := some "eve", roleType := .director }).insert
    "lead" { trustId := "acme", occupantKind := .human, occupantId := some "ada" }
  roleGrants := [("board", GRANT_ROLES_MANAGE), ("lead", GRANT_ROLES_MANAGE)]

/-- Ada hires a clerk below her, gives the seat to Bob and renames it. -/
def adaRequests : List RoleRequest :=
  [.create { trustId := some "acme", parentRoleId := some "lead", title := some "Clerk" } none
      "clerk" 1,
    .occupant { roleId := some "clerk", occupantKind := some "human", occupantId := some "bob" },
    .update { roleId := some "clerk", title := some "Aide", roleType := some "advisor" },
    .edges { roleId := some "clerk", parentRoleIds := some ["lead"], childRoleIds := some [] }]

theorem twoSeats_contained : ∃ s', execAll (RoleRequest.step "ada") twoSeats adaRequests = .ok s' ∧
    s'.userCanManageRole "acme" "ada" "board" = false ∧
    s'.userCanManageRole "acme" "ada" "clerk" = true := by
  have hgood : AllGood (fun s req => RoleRequest.KeepsReach s "ada" req) (RoleRequest.step "ada")
      twoSeats adaRequests := by
    decide +kernel
  obtain ⟨hist, s', hs', run⟩ := Run.of_allGood .nil hgood
  have hclerk : (execAll (RoleRequest.step "ada") twoSeats adaRequests).toOption.map
      (·.userCanManageRole "acme" "ada" "clerk") = some true := by
    decide +kernel
  simp only [toOption_map_eq_some, hs', Except.ok.injEq] at hclerk
  obtain ⟨_, rfl, hclerk⟩ := hclerk
  have hboard := reach_contained run (nofun) "board"
    { trustId := "acme", occupantKind := .human, occupantId := some "eve", roleType := .director }
    (by decide +kernel) (by decide +kernel)
  exact ⟨_, hs', hboard.1, hclerk⟩

/-- Ada makes her own role a director's. -/
theorem not_reach_contained : ¬ ∀ (userId : String) (s s' : RoleStore)
    (hist : List (RoleStore × RoleRequest)),
    Run (okStep (RoleRequest.step userId)) s hist s' → s.EdgesExist →
      ∀ id r, s.roles.lookup id = some r → s.userCanManageRole r.trustId userId id = false →
        s'.userCanManageRole r.trustId userId id = false := by
  intro hall
  have hrun : Run (okStep (RoleRequest.step "ada")) twoSeats _ _ :=
    .step .nil (i := .update { roleId := some "lead", roleType := some "director" }) rfl
  have hboard := hall "ada" twoSeats _ _ hrun (nofun)
    "board"
    { trustId := "acme", occupantKind := .human, occupantId := some "eve", roleType := .director }
    (by decide +kernel) (by decide +kernel)
  revert hboard
  decide +kernel

end Aeqi.Orchestrator
