import Aeqi.Orchestrator.RoleRegistry

/-!
# The role graph

What each write of the registry does to the rows and to the edges, and what a request asks for
before it writes. `set_parent_edges` and `set_child_edges` keep the graph acyclic and inside
one entity by their own checks; `add_edge` checks neither, so an edge that it adds keeps the
graph so only under `add_edge`'s callers' conditions.
-/

namespace Aeqi.Orchestrator

open Aeqi.Lib List Option

namespace RoleStore

variable {s s' : RoleStore} {id : String}

/-! ## Rows -/

def KeepsEntities (s s' : RoleStore) : Prop :=
  ∀ id r, s.roles.lookup id = some r → ∃ r', s'.roles.lookup id = some r' ∧ r'.trustId = r.trustId

theorem lookup_updateRow (f : Role → Role) (id' : String) :
    (s.updateRow id f).roles.lookup id' =
      if id' = id then (s.roles.lookup id).map f else s.roles.lookup id' := by
  unfold updateRow
  split
  next hnone =>
    split
    next hid => rw [hid, hnone, map_none]
    next => rfl
  next r hr =>
    split
    next hid => rw [hid, AList.lookup_insert, hr, map_some]
    next hid => exact AList.lookup_insert_ne hid

@[simp]
theorem updateRow_roleEdges (f : Role → Role) : (s.updateRow id f).roleEdges = s.roleEdges := by
  unfold updateRow
  split <;> rfl

@[simp]
theorem updateRow_roleGrants (f : Role → Role) :
    (s.updateRow id f).roleGrants = s.roleGrants := by
  unfold updateRow
  split <;> rfl

@[simp]
theorem updateRow_entities (f : Role → Role) : (s.updateRow id f).entities = s.entities := by
  unfold updateRow
  split <;> rfl

/-! ## What a write has done -/

structure Created (s : RoleStore) (id : String) (role : Role) (grants : List String)
    (s' : RoleStore) : Prop where
  fresh : s.roles.lookup id = none
  roles : s'.roles = s.roles.insert id role
  roleGrants : ∀ g, g ∈ s'.roleGrants ↔ g.1 = id ∧ g.2 ∈ grants ∨ g ∈ s.roleGrants
  roleEdges : s'.roleEdges = s.roleEdges

variable {grants : List String}

theorem mem_addGrants {g : String × String} :
    g ∈ (s.addGrants id grants).roleGrants ↔ g.1 = id ∧ g.2 ∈ grants ∨ g ∈ s.roleGrants := by
  rw [addGrants, mem_union_iff, List.mem_map]
  constructor
  · rintro (⟨grant, hgrant, rfl⟩ | hold)
    · exact .inl ⟨rfl, hgrant⟩
    · exact .inr hold
  · rintro (⟨rfl, hgrant⟩ | hold)
    · exact .inl ⟨g.2, hgrant, rfl⟩
    · exact .inr hold

theorem createWithType_ok {role : Role} {grants : Option (List String)}
    (h : s.createWithType id role grants = .ok s') :
    Created s id role (effectiveGrants role.roleType grants) s' := by
  unfold createWithType at h
  split at h
  next => cases h
  next hfresh =>
    split at h
    next => cases h
    next =>
      split at h
      next => cases h
      next =>
        cases h
        exact ⟨by simpa using hfresh, rfl, fun _ => mem_addGrants, rfl⟩

theorem Created.lookup {role : Role} (h : Created s id role grants s') (id' : String) :
    s'.roles.lookup id' = if id' = id then some role else s.roles.lookup id' := by
  rw [h.roles]
  split
  next hid => rw [hid, AList.lookup_insert]
  next hid => exact AList.lookup_insert_ne hid

theorem Created.keepsEntities {role : Role} (h : Created s id role grants s') :
    KeepsEntities s s' := by
  intro id' r hr
  rw [h.lookup]
  split
  next hid =>
    rw [hid, h.fresh] at hr
    cases hr
  next => exact ⟨r, hr, rfl⟩

/-- The row of one role is rewritten inside its entity, and its grants may be replaced. -/
structure Edited (s : RoleStore) (id : String) (f : Role → Role) (s' : RoleStore) : Prop where
  lookup : ∀ id', s'.roles.lookup id' =
    if id' = id then (s.roles.lookup id).map f else s.roles.lookup id'
  trustId : ∀ r, (f r).trustId = r.trustId
  others : ∀ g, g.1 ≠ id → (g ∈ s'.roleGrants ↔ g ∈ s.roleGrants)
  roleEdges : s'.roleEdges = s.roleEdges

theorem Edited.keepsEntities {f : Role → Role} (h : Edited s id f s') : KeepsEntities s s' := by
  intro id' r hr
  rw [h.lookup]
  split
  next hid =>
    rw [← hid, hr]
    exact ⟨f r, rfl, h.trustId r⟩
  next => exact ⟨r, hr, rfl⟩

theorem edited_updateRow {f : Role → Role} (hf : ∀ r, (f r).trustId = r.trustId) :
    Edited s id f (s.updateRow id f) :=
  ⟨lookup_updateRow f, hf, fun g _ => by rw [updateRow_roleGrants], updateRow_roleEdges f⟩

theorem setDescriptionIdea_edited (idea : Option String) :
    Edited s id (fun r => { r with descriptionIdeaId := idea }) (s.setDescriptionIdea id idea) :=
  edited_updateRow fun _ => rfl

theorem updateOccupant_ok {kind : OccupantKind} {occupantId : Option String}
    (h : s.updateOccupant id kind occupantId = .ok s') :
    Edited s id (fun r => { r with occupantKind := kind, occupantId }) s' ∧
      s'.roleGrants = s.roleGrants := by
  unfold updateOccupant at h
  split at h
  next => cases h
  next =>
    cases h
    exact ⟨edited_updateRow fun _ => rfl, updateRow_roleGrants _⟩

/-- The row that `update_role` leaves. -/
def retitled (title : Option String) (roleType : Option RoleType) (r : Role) : Role :=
  { r with title := title.getD r.title, roleType := roleType.getD r.roleType }

theorem updateRole_ok {title : Option String} {roleType : Option RoleType}
    {grants : Option (List String)} (h : s.updateRole id title roleType grants = .ok s') :
    Edited s id (retitled title roleType) s' ∧ ∀ grant, (id, grant) ∈ s'.roleGrants ↔
        grants.elim ((id, grant) ∈ s.roleGrants) (grant ∈ ·) := by
  have hrow : Edited s id (retitled title roleType) (s.updateRow id (retitled title roleType)) :=
    edited_updateRow fun _ => rfl
  cases grants with
  | none =>
    cases h
    exact ⟨hrow, fun grant => by rw [updateRow_roleGrants, elim_none]⟩
  | some grants =>
    simp only [updateRole] at h
    split at h
    next => cases h
    next =>
      cases h
      refine ⟨⟨hrow.lookup, hrow.trustId, fun g hg => ?_, ?_⟩, fun grant => ?_⟩
      · rw [mem_addGrants]
        simp [clearGrants, hg]
      · simp [addGrants, clearGrants]
      · rw [mem_addGrants]
        simp [clearGrants]

/-! ## Edges -/

variable {ids : List String}

theorem mem_idSet {x : String} : x ∈ idSet ids ↔ x ∈ ids ∧ x ≠ "" := by
  simp [idSet]

theorem addEdge_ok {p c : String} (h : s.addEdge p c = .ok s') :
    p ≠ c ∧ s' = { s with roleEdges := [(p, c)] ∪ s.roleEdges } := by
  unfold addEdge at h
  split at h
  next => cases h
  next hne =>
    split at h
    next => cases h
    next => cases h; exact ⟨hne, rfl⟩

theorem checkEnds_ok {trustId what : String} {wouldCycle : String → Bool}
    (h : checkEnds trustId what wouldCycle s ids = .ok ()) :
    ∀ x ∈ ids, (∃ r, s.roles.lookup x = some r ∧ r.trustId = trustId) ∧ wouldCycle x = false := by
  induction ids with
  | nil => exact nofun
  | cons y rest ih =>
    unfold checkEnds at h
    split at h
    next => cases h
    next r hr =>
      split at h
      next => cases h
      next htrust =>
        split at h
        next => cases h
        next hcycle =>
          intro x hx
          rcases mem_cons.1 hx with rfl | hx
          · exact ⟨⟨r, hr, not_not.1 htrust⟩, Bool.eq_false_iff.2 hcycle⟩
          · exact ih h x hx

/-- The checks of a replacement of edges have passed. -/
structure EndsChecked (s : RoleStore) (id : String) (ids : List String)
    (wouldCycle : String → Bool) : Prop where
  notSelf : id ∉ idSet ids
  entity : ∃ r, s.roles.lookup id = some r ∧
    ∀ x ∈ idSet ids, ∃ r', s.roles.lookup x = some r' ∧ r'.trustId = r.trustId
  acyclic : ∀ x ∈ idSet ids, wouldCycle x = false

theorem endsChecked_of_ok {what : String} {wouldCycle : String → Bool} {r : Role}
    {edited : RoleStore} (hself : id ∉ idSet ids) (hr : s.roles.lookup id = some r)
    (h : (do checkEnds r.trustId what wouldCycle s (idSet ids); pure edited) = .ok s') :
    EndsChecked s id ids wouldCycle ∧ s' = edited := by
  obtain ⟨_, hchecked, hs'⟩ := bind_eq_ok.1 h
  have hends := checkEnds_ok hchecked
  exact ⟨⟨hself, ⟨r, hr, fun x hx => (hends x hx).1⟩, fun x hx => (hends x hx).2⟩,
    (pure_eq_ok.1 hs').symm⟩

theorem setParentEdges_ok (h : s.setParentEdges id ids = .ok s') :
    EndsChecked s id ids (fun p => decide (p ∈ descendants s.roleEdges id)) ∧
      s' = { s with roleEdges := (idSet ids).map (fun p => (p, id)) ∪
        s.roleEdges.filter fun e => e.2 ≠ id } := by
  simp only [setParentEdges] at h
  split at h
  next => cases h
  next hself =>
    split at h
    next => cases h
    next r hr => exact endsChecked_of_ok hself hr h

theorem setChildEdges_ok (h : s.setChildEdges id ids = .ok s') :
    EndsChecked s id ids (fun c => decide (id ∈ descendants s.roleEdges c)) ∧
      s' = { s with roleEdges := (idSet ids).map (fun c => (id, c)) ∪
        s.roleEdges.filter fun e => e.1 ≠ id } := by
  simp only [setChildEdges] at h
  split at h
  next => cases h
  next hself =>
    split at h
    next => cases h
    next r hr => exact endsChecked_of_ok hself hr h

theorem mem_parentEdges {e : String × String} :
    e ∈ (idSet ids).map (fun p => (p, id)) ∪ s.roleEdges.filter (fun e => e.2 ≠ id) ↔
      e.1 ∈ idSet ids ∧ e.2 = id ∨ e ∈ s.roleEdges ∧ e.2 ≠ id := by
  rw [mem_union_iff, List.mem_map, mem_filter, decide_eq_true_iff]
  constructor
  · rintro (⟨p, hp, rfl⟩ | hold)
    · exact .inl ⟨hp, rfl⟩
    · exact .inr hold
  · rintro (⟨hp, rfl⟩ | hold)
    · exact .inl ⟨e.1, hp, rfl⟩
    · exact .inr hold

theorem mem_childEdges {e : String × String} :
    e ∈ (idSet ids).map (fun c => (id, c)) ∪ s.roleEdges.filter (fun e => e.1 ≠ id) ↔
      e.2 ∈ idSet ids ∧ e.1 = id ∨ e ∈ s.roleEdges ∧ e.1 ≠ id := by
  rw [mem_union_iff, List.mem_map, mem_filter, decide_eq_true_iff]
  constructor
  · rintro (⟨c, hc, rfl⟩ | hold)
    · exact .inl ⟨hc, rfl⟩
    · exact .inr hold
  · rintro (⟨hc, rfl⟩ | hold)
    · exact .inl ⟨e.2, hc, rfl⟩
    · exact .inr hold

/-! ## A graph inside one entity -/

/-- The edges have no cycle, and each joins two roles of one entity. -/
structure Dag (s : RoleStore) : Prop where
  acyclic : Acyclic (Linked s.roleEdges)
  within : ∀ p c, Linked s.roleEdges p c → ∃ parent child, s.roles.lookup p = some parent ∧
    s.roles.lookup c = some child ∧ parent.trustId = child.trustId

namespace Dag

theorem of_rows (h : s.Dag) (hrows : KeepsEntities s s') (hedges : s'.roleEdges = s.roleEdges) :
    s'.Dag where
  acyclic := by rw [hedges]; exact h.acyclic
  within := by
    intro p c hedge
    rw [hedges] at hedge
    obtain ⟨parent, child, hp, hc, hsame⟩ := h.within p c hedge
    obtain ⟨parent', hp', hpt⟩ := hrows p parent hp
    obtain ⟨child', hc', hct⟩ := hrows c child hc
    exact ⟨parent', child', hp', hc', by rw [hpt, hct, hsame]⟩

theorem addEdge {p c : String} (h : s.Dag) {parent child : Role}
    (hp : s.roles.lookup p = some parent) (hc : s.roles.lookup c = some child)
    (hsame : parent.trustId = child.trustId)
    (hreach : ¬ Relation.TransGen (Linked s.roleEdges) c p) (hadd : s.addEdge p c = .ok s') :
    s'.Dag := by
  obtain ⟨hne, rfl⟩ := addEdge_ok hadd
  constructor
  · refine h.acyclic.into (b := c) (s := (· = p)) ?_ ?_
    · intro x y hxy
      rcases mem_union_iff.1 hxy with hnew | hold
      · cases mem_singleton.1 hnew
        exact .inr ⟨rfl, rfl⟩
      · exact .inl hold
    · rintro x rfl hpath
      rcases Relation.reflTransGen_iff_eq_or_transGen.1 hpath with heq | hpath
      · exact hne heq
      · exact hreach hpath
  · intro x y hxy
    rcases mem_union_iff.1 hxy with hnew | hold
    · cases mem_singleton.1 hnew
      exact ⟨parent, child, hp, hc, hsame⟩
    · exact h.within x y hold

theorem setParentEdges {ids : List String} (h : s.Dag)
    (hset : s.setParentEdges id ids = .ok s') : s'.Dag := by
  obtain ⟨⟨hself, ⟨r, hr, hentity⟩, hcycle⟩, rfl⟩ := setParentEdges_ok hset
  constructor
  · refine h.acyclic.into (b := id) (s := (· ∈ idSet ids)) ?_ ?_
    · intro x y hxy
      rcases mem_parentEdges.1 hxy with hnew | ⟨hold, -⟩
      · exact .inr hnew
      · exact .inl hold
    · intro x hx hpath
      rcases Relation.reflTransGen_iff_eq_or_transGen.1 hpath with rfl | hpath
      · exact hself hx
      · exact of_decide_eq_false (hcycle x hx) (mem_descendants.2 hpath)
  · intro x y hxy
    rcases mem_parentEdges.1 hxy with ⟨hx, hy⟩ | ⟨hold, -⟩
    · obtain ⟨r', hr', hsame⟩ := hentity x hx
      exact ⟨r', r, hr', hy ▸ hr, hsame⟩
    · exact h.within x y hold

theorem setChildEdges {ids : List String} (h : s.Dag)
    (hset : s.setChildEdges id ids = .ok s') : s'.Dag := by
  obtain ⟨⟨hself, ⟨r, hr, hentity⟩, hcycle⟩, rfl⟩ := setChildEdges_ok hset
  constructor
  · refine h.acyclic.out_of (a := id) (s := (· ∈ idSet ids)) ?_ ?_
    · intro x y hxy
      rcases mem_childEdges.1 hxy with ⟨hy, hx⟩ | ⟨hold, -⟩
      · exact .inr ⟨hx, hy⟩
      · exact .inl hold
    · intro y hy hpath
      rcases Relation.reflTransGen_iff_eq_or_transGen.1 hpath with rfl | hpath
      · exact hself hy
      · exact of_decide_eq_false (hcycle y hy) (mem_descendants.2 hpath)
  · intro x y hxy
    rcases mem_childEdges.1 hxy with ⟨hy, hx⟩ | ⟨hold, -⟩
    · obtain ⟨r', hr', hsame⟩ := hentity y hy
      exact ⟨r, r', hx ▸ hr, hr', hsame.symm⟩
    · exact h.within x y hold

theorem no_edge_of_fresh (h : s.Dag) (hfresh : s.roles.lookup id = none) (x : String) :
    ¬ Linked s.roleEdges id x ∧ ¬ Linked s.roleEdges x id := by
  constructor
  · intro hedge
    obtain ⟨_, _, hp, -⟩ := h.within id x hedge
    rw [hfresh] at hp
    cases hp
  · intro hedge
    obtain ⟨_, _, -, hc, -⟩ := h.within x id hedge
    rw [hfresh] at hc
    cases hc

end Dag

end RoleStore

/-! ## What a request asks for before it writes -/

open Handler

section Requests

variable {s : RoleStore} {callerId trustId id : String}

variable {r : RoleStore → Prop} {q : Unit → RoleStore → Prop}

theorem ends_require {c : Prop} [Decidable c] {e : Refusal} (hq : c → q () s) (hr : r s) :
    Ends (Handler.pass (require c e) : RoleHandler Unit) s q r :=
  ends_pass.2 ⟨fun _ hc => hq (require_eq_ok.1 hc), fun _ _ => hr⟩

theorem ends_requireCanManageRole
    (hq : callerId ≠ "" → s.userCanManageRole trustId callerId id = true → q () s) (hr : r s) :
    Ends (requireCanManageRole trustId id callerId) s q r := by
  refine ends_bind.2 (ends_require (fun hne => ?_) hr)
  refine ends_bind.2 (ends_ask.2 ?_)
  exact ends_require (fun hcan => hq hne hcan) hr

theorem ends_requireCanCreateRootRole
    (hq : callerId ≠ "" → s.userCanCreateRootRole trustId callerId = true → q () s) (hr : r s) :
    Ends (requireCanCreateRootRole trustId callerId) s q r := by
  refine ends_bind.2 (ends_require (fun hne => ?_) hr)
  refine ends_bind.2 (ends_ask.2 ?_)
  exact ends_require (fun hcan => hq hne hcan) hr

theorem ends_requireCanManageAll {ids : List String}
    (hq : (∀ id ∈ ids, s.userCanManageRole trustId callerId id = true) → q () s) (hr : r s) :
    Ends (requireCanManageAll trustId callerId ids) s q r := by
  induction ids with
  | nil => exact ends_pure.2 (hq nofun)
  | cons id rest ih =>
    refine ends_bind.2 (ends_requireCanManageRole (fun _ hcan => ?_) hr)
    exact ih fun hrest => hq (forall_mem_cons.2 ⟨hcan, hrest⟩)

theorem ends_required {α : Type} {o : Option α} {e : Refusal} {q : α → RoleStore → Prop}
     (hq : ∀ a, o = some a → q a s) (hr : r s) :
    Ends (Handler.pass (okOr o e) : RoleHandler α) s q r := by
  refine ends_pass.2 ⟨fun a ha => hq a (okOr_eq_ok.1 ha), fun _ _ => hr⟩

structure Named (s : RoleStore) (callerId : String) (field : Option String) (trustId id : String) :
    Prop where
  field : requestField field = some id
  caller : callerId ≠ ""
  row : ∃ role, s.roles.lookup id = some role ∧ role.trustId = trustId
  can : s.userCanManageRole trustId callerId id = true

theorem ends_managedRole {field : Option String} {q : String × String → RoleStore → Prop}
    (hq : ∀ trustId id, Named s callerId field trustId id → q (trustId, id) s) (hr : r s) :
    Ends (managedRole field callerId) s q r := by
  refine ends_bind.2 (ends_required (fun id hid => ?_) hr)
  refine ends_bind.2 (ends_ask.2 ?_)
  refine ends_bind.2 (ends_required (fun role hrole => ?_) hr)
  refine ends_bind.2 (ends_requireCanManageRole (fun hne hcan => ?_) hr)
  exact ends_pure.2 (hq role.trustId id ⟨hid, hne, ⟨role, hrole, rfl⟩, hcan⟩)

theorem ends_describe {field : Option (Option String)} (hnone : q () s)
    (hsome : ∀ idea, q () (s.setDescriptionIdea id idea)) :
    Ends (describe id field) s q r := by
  unfold describe
  split
  · exact ends_pure.2 hnone
  · refine ends_call.2 ⟨fun s' hs' => ?_, nofun⟩
    cases hs'
    exact hsome _

/-- The role that a `create_role` works on: a new one, or the one its occupant has already. -/
inductive WorksOn (s : RoleStore) (req : CreateRole) (trustId callerId newId : String) (now : Nat)
    (kind : OccupantKind) (occupantId : Option String) (roleType : RoleType) :
    String → RoleStore → Prop
  | create {s' : RoleStore}
    (hnone : ∀ occId, occupantId = some occId → s.getByOccupant trustId occId = none)
    (h : s.createWithType newId {
      trustId, title := (requestField req.title).getD "", occupantKind := kind, occupantId,
      roleType, founder := req.founder, createdAt := now } req.grants = .ok s') :
    WorksOn s req trustId callerId newId now kind occupantId roleType newId s'
  | adopt {occId id : String} {s' : RoleStore} (hocc : occupantId = some occId)
    (hid : s.getByOccupant trustId occId = some id)
    (hcan : s.userCanManageRole trustId callerId id = true)
    (h : s.updateRole id (some ((requestField req.title).getD "")) (some roleType)
      (some (effectiveGrants roleType req.grants)) = .ok s') :
    WorksOn s req trustId callerId newId now kind occupantId roleType id s'

theorem ends_adoptOrCreate {req : CreateRole} {newId : String} {now : Nat} {kind : OccupantKind}
    {occupantId : Option String} {roleType : RoleType} {q : String → RoleStore → Prop}
    (hq : ∀ id s', WorksOn s req trustId callerId newId now kind occupantId roleType id s' →
      q id s') (hr : r s) :
    Ends (adoptOrCreate req trustId callerId newId now kind occupantId roleType) s q r := by
  cases occupantId with
  | none =>
    refine ends_bind.2 (ends_call.2 ⟨fun s' hs' => ?_, fun _ _ => hr⟩)
    exact ends_pure.2 (hq _ _ (.create (nofun) hs'))
  | some occId =>
    refine ends_bind.2 (ends_ask.2 ?_)
    cases hby : s.getByOccupant trustId occId with
    | none =>
      refine ends_bind.2 (ends_call.2 ⟨fun s' hs' => ?_, fun _ _ => hr⟩)
      refine ends_pure.2 (hq _ _ (.create ?_ hs'))
      rintro _ ⟨⟩
      exact hby
    | some existing =>
      refine ends_bind.2 (ends_requireCanManageRole (fun _ hcan => ?_) hr)
      refine ends_bind.2 (ends_call.2 ⟨fun s' hs' => ?_, fun _ _ => hr⟩)
      exact ends_pure.2 (hq _ _ (.adopt rfl hby hcan hs'))

/-- What a `create_role` asks of its caller: to manage the parent, or to be a director. -/
def MayCreate (s : RoleStore) (trustId callerId : String) : Option String → Prop
  | some parentId => s.userCanManageRole trustId callerId parentId = true
  | none => s.userCanCreateRootRole trustId callerId = true

theorem ends_authorizeCreate {parentRoleId : Option String}
    (hq : callerId ≠ "" → MayCreate s trustId callerId parentRoleId → q () s) (hr : r s) :
    Ends (authorizeCreate trustId callerId parentRoleId) s q r := by
  cases parentRoleId with
  | none => exact ends_requireCanCreateRootRole hq hr
  | some parentId => exact ends_requireCanManageRole hq hr

/-- What `add_edge` leaves when there is a parent, and the same store when there is none. -/
def Placed (id : String) (s' : RoleStore) : Option String → RoleStore → Prop
  | some parentId, s'' => s'.addEdge parentId id = .ok s''
  | none, s'' => s'' = s'

theorem ends_addParent {parentRoleId : Option String}
    (hq : ∀ s', Placed id s parentRoleId s' → q () s') (hr : r s) :
    Ends (addParent id parentRoleId) s q r := by
  cases parentRoleId with
  | none => exact ends_pure.2 (hq s rfl)
  | some parentId => exact ends_call.2 ⟨fun s' hs' => hq s' hs', fun _ _ => hr⟩

/-- A `create_role` up to the edge it adds. -/
structure Placing (s : RoleStore) (req : CreateRole) (callerId newId : String) (now : Nat)
    (trustId : String) (kind : OccupantKind) (occupantId : Option String) (roleType : RoleType)
    (id : String) (s' : RoleStore) : Prop where
  entity : requestField req.trustId = some trustId
  caller : callerId ≠ ""
  may : MayCreate s trustId callerId (requestField req.parentRoleId)
  occupant : occupantOf req.occupantKind req.occupantId = .ok (kind, occupantId)
  type : RoleType.fromStr ((requestField req.roleType).getD "operational") = .ok roleType
  works : WorksOn s req trustId callerId newId now kind occupantId roleType id s'

theorem ends_handleCreateRole {req : CreateRole} {allowed : Option (List String)} {newId : String}
    {now : Nat} {q : String → RoleStore → Prop} (hr : r s)
    (hplace : ∀ trustId kind occupantId roleType id s',
      Placing s req callerId newId now trustId kind occupantId roleType id s' → r s' ∧
        ∀ s'', Placed id s' (requestField req.parentRoleId) s'' → q id s'' ∧
          ∀ idea, q id (s''.setDescriptionIdea id idea)) :
    Ends (handleCreateRole req allowed callerId newId now) s q r := by
  refine ends_bind.2 (ends_required (fun trustId htrust => ?_) hr)
  refine ends_bind.2 (ends_require (fun _ => ?_) hr)
  refine ends_bind.2 (ends_authorizeCreate (fun hne hmay => ?_) hr)
  refine ends_bind.2 (ends_pass.2 ⟨fun p hp => ?_, fun _ _ => hr⟩)
  refine ends_bind.2 (ends_pass.2 ⟨fun roleType hroleType => ?_, fun _ _ => hr⟩)
  refine ends_bind.2 (ends_adoptOrCreate (fun id s' hworks => ?_) hr)
  obtain ⟨hkept, hq⟩ := hplace trustId p.1 p.2 roleType id s'
    ⟨htrust, hne, hmay, hp, hroleType, hworks⟩
  refine ends_bind.2 (ends_addParent (fun s'' hs'' => ?_) hkept)
  obtain ⟨hplain, hidea⟩ := hq s'' hs''
  exact ends_bind.2 (ends_describe (ends_pure.2 hplain) fun idea => ends_pure.2 (hidea idea))

theorem ends_handleUpdateRole {req : UpdateRole} (hr : r s)
    (hq : ∀ trustId id roleType s', Named s callerId req.roleId trustId id →
      s.updateRole id (requestField req.title) roleType req.grants = .ok s' →
      (requestField req.roleType).mapM RoleType.fromStr = .ok roleType →
        q () s' ∧ ∀ idea, q () (s'.setDescriptionIdea id idea)) :
    Ends (handleUpdateRole req callerId) s q r := by
  refine ends_bind.2 (ends_managedRole (fun trustId id hnamed => ?_) hr)
  refine ends_bind.2 (ends_pass.2 ⟨fun roleType hroleType => ?_, fun _ _ => hr⟩)
  refine ends_bind.2 (ends_call.2 ⟨fun s' hs' => ?_, fun _ _ => hr⟩)
  obtain ⟨hplain, hidea⟩ := hq trustId id roleType s' hnamed hs' hroleType
  exact ends_describe hplain hidea

theorem ends_handleChangeOccupant {req : ChangeOccupant} (hr : r s)
    (hq : ∀ trustId id kind occupantId s', Named s callerId req.roleId trustId id →
      occupantOf req.occupantKind req.occupantId = .ok (kind, occupantId) →
      s.updateOccupant id kind occupantId = .ok s' → q () s') :
    Ends (handleChangeOccupant req callerId) s q r := by
  refine ends_bind.2 (ends_required (fun id hid => ?_) hr)
  refine ends_bind.2 (ends_pass.2 ⟨fun p hp => ?_, fun _ _ => hr⟩)
  refine ends_bind.2 (ends_ask.2 ?_)
  refine ends_bind.2 (ends_required (fun role hrole => ?_) hr)
  refine ends_bind.2 (ends_requireCanManageRole (fun hne hcan => ?_) hr)
  exact ends_call.2 ⟨fun s' hs' =>
    hq role.trustId id p.1 p.2 s' ⟨hid, hne, ⟨role, hrole, rfl⟩, hcan⟩ hp hs', fun _ _ => hr⟩

def Replaced (s : RoleStore) (trustId callerId : String)
    (set : List String → RoleStore → Except Refusal RoleStore) :
    Option (List String) → RoleStore → Prop
  | none, s' => s' = s
  | some ids, s' =>
    (∀ id ∈ ids, s.userCanManageRole trustId callerId id = true) ∧ set ids s = .ok s'

theorem ends_replaceParents {ids : Option (List String)}
    (hq : ∀ s', Replaced s trustId callerId (RoleStore.setParentEdges id) ids s' → q () s')
    (hr : r s) : Ends (replaceParents trustId id callerId ids) s q r := by
  cases ids with
  | none => exact ends_pure.2 (hq s rfl)
  | some ids =>
    refine ends_bind.2 (ends_requireCanManageAll (fun hcan => ?_) hr)
    exact ends_call.2 ⟨fun s' hs' => hq s' ⟨hcan, hs'⟩, fun _ _ => hr⟩

theorem ends_replaceChildren {ids : Option (List String)}
    (hq : ∀ s', Replaced s trustId callerId (RoleStore.setChildEdges id) ids s' → q () s')
    (hr : r s) : Ends (replaceChildren trustId id callerId ids) s q r := by
  cases ids with
  | none => exact ends_pure.2 (hq s rfl)
  | some ids =>
    refine ends_bind.2 (ends_requireCanManageAll (fun hcan => ?_) hr)
    exact ends_call.2 ⟨fun s' hs' => hq s' ⟨hcan, hs'⟩, fun _ _ => hr⟩

theorem ends_handleUpdateRoleEdges {req : UpdateRoleEdges} (hr : r s)
    (hq : ∀ trustId id s', Named s callerId req.roleId trustId id →
      Replaced s trustId callerId (RoleStore.setParentEdges id) req.parentRoleIds s' → r s' ∧
        ∀ s'', Replaced s' trustId callerId (RoleStore.setChildEdges id) req.childRoleIds s'' →
          q () s'') :
    Ends (handleUpdateRoleEdges req callerId) s q r := by
  refine ends_bind.2 (ends_managedRole (fun trustId id hnamed => ?_) hr)
  refine ends_bind.2 (ends_replaceParents (fun s' hs' => ?_) hr)
  obtain ⟨hkept, hnext⟩ := hq trustId id s' hnamed hs'
  exact ends_replaceChildren hnext hkept

end Requests

end Aeqi.Orchestrator
