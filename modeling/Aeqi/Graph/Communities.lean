import Aeqi.Graph.DiffImpact
import Aeqi.Graph.Propagation
import Mathlib.Data.String.Basic

/-!
# Communities (`analysis/community.rs`)

`detect_communities` puts the symbols that end with one label into a group and numbers the groups
that reach the least size, in the order in which a hash map holds them. A community is named by the
exported types of its group, or else by the directory that is counted most often, where a tie goes
to the one that another hash map holds first.

The orders of the hash sets and maps of a run are a parameter.
-/

namespace Aeqi.Graph

open Aeqi.Lib List

/-! ## The graph -/

def symbolIds (nodes : List CodeNode) : List String :=
  ((nodes.filter fun node => !GraphTables.isStructural node.label).map (·.id)).dedup

def clusters (ids : List String) (edge : EdgeRow) : Bool :=
  (edge.edgeType = .calls || edge.edgeType = .implements || edge.edgeType = .extendsType ||
    edge.edgeType = .uses) && !isUnresolved edge.toCodeEdge && ids.contains edge.sourceId &&
    ids.contains edge.targetId && decide (1 / 2 ≤ edge.confidence)

def adjacency (nodes : List CodeNode) (edges : List EdgeRow) (node : String) :
    List (String × Rat) :=
  (edges.filter (clusters (symbolIds nodes))).flatMap fun edge =>
    (if edge.sourceId = node then [(edge.targetId, edge.confidence)] else []) ++
      (if edge.targetId = node then [(edge.sourceId, edge.confidence)] else [])

/-! ## A community -/

structure Community where
  id : String
  label : String
  members : List String
  fileCount : Nat
  symbolCount : Nat
  cohesion : Rat
  keywords : List String

def memberNodes (nodes : List CodeNode) (memberIds : List String) : List CodeNode :=
  memberIds.filterMap (nodeOf nodes)

def files (members : List CodeNode) : List String := (members.map (·.filePath)).dedup

def directory (filePath : String) : Option String :=
  let parts := filePath.toList.splitOn '/'
  if 2 ≤ parts.length then
    let dir := String.ofList (parts.getD (parts.length - 2) [])
    if ["src", "lib", "crates", "components", "pages"].contains dir then none else some dir
  else none

def dirCounts (members : List CodeNode) : List (String × Nat) :=
  let dirs := (files members).filterMap directory
  dirs.dedup.map fun dir => (dir, dirs.count dir)

def isTypeLike (label : NodeLabel) : Bool :=
  label = .struct || label = .trait || label = .enum || label = .classItem ||
    label = .interface || label = .contract

def typeNames (members : List CodeNode) : List String :=
  (((members.filter fun m => m.isExported && isTypeLike m.label).map (·.name)).insertionSort
    (· ≤ ·)).dedup

/-! ## One run -/

/-- The orders in which one run goes through its hash sets and maps. -/
structure HashOrders where
  symbols : List String → List String
  votes : VoteOrders Nat
  labels : List String → List String
  groups : List (Nat × List String) → List (Nat × List String)
  dirs : Nat → List (String × Nat) → List (String × Nat)
  symbols_perm : ∀ l, (symbols l).Perm l
  labels_perm : ∀ l, (labels l).Perm l
  groups_perm : ∀ l, (groups l).Perm l
  dirs_perm : ∀ idx l, (dirs idx l).Perm l

def groupsOf {κ : Type} [DecidableEq κ] (labels : String → κ) (ids : List String) :
    List (κ × List String) :=
  (ids.map labels).dedup.map fun label => (label, ids.filter fun id => labels id = label)

section Detect

variable (h : HashOrders) (nodes : List CodeNode) (edges : List EdgeRow) (minSize : Nat)

def communityLabel (idx : Nat) (members : List CodeNode) : String :=
  if typeNames members ≠ [] then ", ".intercalate ((typeNames members).take 3)
  else
    match firstMax (·.2) (h.dirs idx (dirCounts members)) with
    | some dir => dir.1
    | none => "community_" ++ idx.repr

def cohesion (memberIds : List String) : Rat :=
  let around := memberIds.flatMap (adjacency nodes edges)
  if 0 < around.length then
    ((around.filter fun n => memberIds.contains n.1).length : Rat) / around.length
  else 0

def toCommunity (idx : Nat) (memberIds : List String) : Community :=
  let members := memberNodes nodes memberIds
  { id := "comm_" ++ idx.repr
    label := communityLabel h idx members
    members := memberIds
    fileCount := (files members).length
    symbolCount := members.length
    cohesion := cohesion nodes edges memberIds
    keywords := typeNames members }

def finalLabels : String → Nat :=
  let ids := h.symbols (symbolIds nodes)
  propagate (adjacency nodes edges) h.votes (ids.insertionSort (· ≤ ·)) 0 20 fun id => ids.idxOf id

def largeGroups : List (Nat × List String) :=
  (h.groups (groupsOf (finalLabels h nodes edges) (h.labels (symbolIds nodes)))).filter
    fun group => minSize ≤ group.2.length

def detectCommunities : List Community :=
  ((largeGroups h nodes edges minSize).mapIdx fun idx group =>
    toCommunity h nodes edges idx group.2).insertionSort fun c c' => c'.symbolCount ≤ c.symbolCount

end Detect

def inOrder (κ : Type) : VoteOrders κ := ⟨fun _ _ votes => votes, fun _ _ _ => List.Perm.refl _⟩

def asGiven : HashOrders where
  symbols l := l
  votes := inOrder Nat
  labels l := l
  groups l := l
  dirs _ l := l
  symbols_perm := List.Perm.refl
  labels_perm := List.Perm.refl
  groups_perm := List.Perm.refl
  dirs_perm _ := List.Perm.refl

/-! ## What is claimed of two runs -/

def Community.seen (c : Community) : String × String × Set String :=
  (c.id, c.label, {id | id ∈ c.members})

def SameCommunities (cs cs' : List Community) : Prop :=
  ∀ seen, (∃ c ∈ cs, c.seen = seen) ↔ ∃ c ∈ cs', c.seen = seen

section Claim

variable (nodes : List CodeNode) (edges : List EdgeRow) (minSize : Nat)

/-- Any two runs find the same communities. -/
def OrderIndependent : Prop :=
  ∀ h h' : HashOrders,
    SameCommunities (detectCommunities h nodes edges minSize)
      (detectCommunities h' nodes edges minSize)

def symbolLabels (orders : VoteOrders String) : String → String :=
  propagate (adjacency nodes edges) orders ((symbolIds nodes).insertionSort (· ≤ ·)) 0 20
    fun id => id

/-- No vote is tied in the run in which each symbol begins with itself as its label. -/
def VotesUntied : Prop :=
  UntiedRun (adjacency nodes edges) (inOrder String) ((symbolIds nodes).insertionSort (· ≤ ·)) 0 20
    fun id => id

instance votesUntiedDecidable : Decidable (VotesUntied nodes edges) :=
  untiedRunDecidable _ _ _ _ _ _

section Labels

variable {κ : Type} [DecidableEq κ] (labels : String → κ)

/-- The symbols with the label of one. -/
def groupOf (id : String) : List String :=
  (symbolIds nodes).filter fun other => labels other = labels id

def Large (id : String) : Prop :=
  id ∈ symbolIds nodes ∧ minSize ≤ (groupOf nodes labels id).length

/-- One group at most is large; if it is not named by its types, then one directory at most is
counted most often. -/
def Settled : Prop :=
  ∀ a ∈ symbolIds nodes, Large nodes minSize labels a →
    (∀ b ∈ symbolIds nodes, Large nodes minSize labels b → labels b = labels a) ∧
      (typeNames (memberNodes nodes (groupOf nodes labels a)) = [] →
        Untied (·.2) (dirCounts (memberNodes nodes (groupOf nodes labels a))))

instance largeDecidable (id : String) : Decidable (Large nodes minSize labels id) :=
  inferInstanceAs (Decidable (_ ∧ _))

instance settledDecidable : Decidable (Settled nodes minSize labels) :=
  inferInstanceAs (Decidable (∀ a ∈ symbolIds nodes, _ → _ ∧ (_ → _)))

end Labels

/-- Whichever way the tied votes go, the labels are settled and the same group is large. -/
def Decided : Prop :=
  ∀ orders : VoteOrders String,
    Settled nodes minSize (symbolLabels nodes edges orders) ∧
      ∀ (orders' : VoteOrders String) (a : String),
        Large nodes minSize (symbolLabels nodes edges orders) a →
          groupOf nodes (symbolLabels nodes edges orders') a =
            groupOf nodes (symbolLabels nodes edges orders) a

end Claim

/-! ## The groups -/

section Groups

variable {κ : Type} [DecidableEq κ] {labels : String → κ} {ids : List String}

theorem mem_groupsOf {group : κ × List String} :
    group ∈ groupsOf labels ids ↔
      ∃ a ∈ ids, (labels a, ids.filter fun id => labels id = labels a) = group := by
  simp only [groupsOf, List.mem_map, mem_dedup]
  constructor
  · rintro ⟨_, ⟨a, ha, rfl⟩, hgroup⟩
    exact ⟨a, ha, hgroup⟩
  · rintro ⟨a, ha, hgroup⟩
    exact ⟨labels a, ⟨a, ha, rfl⟩, hgroup⟩

theorem groupsOf_pairwise : (groupsOf labels ids).Pairwise fun g g' => g.1 ≠ g'.1 := by
  rw [groupsOf, pairwise_map]
  exact nodup_dedup (ids.map labels)

end Groups

section Run

variable {h h' : HashOrders} {nodes : List CodeNode} {edges : List EdgeRow} {minSize : Nat}

def memberIds (h : HashOrders) (nodes : List CodeNode) (edges : List EdgeRow) (id : String) :
    List String :=
  (h.labels (symbolIds nodes)).filter fun other =>
    finalLabels h nodes edges other = finalLabels h nodes edges id

theorem memberIds_perm (id : String) :
    (memberIds h nodes edges id).Perm (groupOf nodes (finalLabels h nodes edges) id) :=
  (h.labels_perm _).filter _

variable {id : String}

theorem mem_memberIds {other : String} :
    other ∈ memberIds h nodes edges id ↔
      other ∈ symbolIds nodes ∧ finalLabels h nodes edges other = finalLabels h nodes edges id := by
  rw [(memberIds_perm id).mem_iff, groupOf, mem_filter, decide_eq_true_iff]

theorem mem_largeGroups {group : Nat × List String} :
    group ∈ largeGroups h nodes edges minSize ↔
      ∃ a, Large nodes minSize (finalLabels h nodes edges) a ∧
        (finalLabels h nodes edges a, memberIds h nodes edges a) = group := by
  simp only [largeGroups, mem_filter, (h.groups_perm _).mem_iff, mem_groupsOf, decide_eq_true_iff]
  constructor
  · rintro ⟨⟨a, ha, rfl⟩, hsize⟩
    refine ⟨a, ⟨(h.labels_perm _).mem_iff.1 ha, ?_⟩, rfl⟩
    exact hsize.trans_eq (memberIds_perm a).length_eq
  · rintro ⟨a, ⟨ha, hsize⟩, rfl⟩
    refine ⟨⟨a, (h.labels_perm _).mem_iff.2 ha, rfl⟩, ?_⟩
    exact hsize.trans_eq (memberIds_perm a).length_eq.symm

theorem largeGroups_pairwise :
    (largeGroups h nodes edges minSize).Pairwise fun g g' => g.1 ≠ g'.1 := by
  have hpairwise := (h.groups_perm
    (groupsOf (finalLabels h nodes edges) (h.labels (symbolIds nodes)))).symm.pairwise
      groupsOf_pairwise fun hne => hne.symm
  exact hpairwise.sublist filter_sublist

variable {c : Community}

theorem mem_detectCommunities :
    c ∈ detectCommunities h nodes edges minSize ↔
      ∃ (idx : Nat) (hidx : idx < (largeGroups h nodes edges minSize).length),
        toCommunity h nodes edges idx ((largeGroups h nodes edges minSize)[idx]).2 = c := by
  rw [detectCommunities, mem_insertionSort, mem_mapIdx]

theorem members_of_mem (hc : c ∈ detectCommunities h nodes edges minSize) :
    ∃ a, Large nodes minSize (finalLabels h nodes edges) a ∧ c.members = memberIds h nodes edges a := by
  obtain ⟨-, hidx, rfl⟩ := mem_detectCommunities.1 hc
  obtain ⟨a, ha, hgroup⟩ := mem_largeGroups.1 (getElem_mem hidx)
  exact ⟨a, ha, congrArg Prod.snd hgroup.symm⟩

/-! ## What holds of every run -/

theorem detectCommunities_disjoint :
    (detectCommunities h nodes edges minSize).Pairwise fun c c' =>
      ∀ id ∈ c.members, id ∉ c'.members := by
  have hperm := perm_insertionSort (fun c c' : Community => c'.symbolCount ≤ c.symbolCount)
    ((largeGroups h nodes edges minSize).mapIdx fun idx group =>
      toCommunity h nodes edges idx group.2)
  refine hperm.symm.pairwise ?_ fun hdisjoint id hid hid' => hdisjoint id hid' hid
  rw [pairwise_iff_getElem]
  intro i j hi hj hij id hid hid'
  rw [getElem_mapIdx] at hid hid'
  rw [length_mapIdx] at hi hj
  obtain ⟨a, -, ha⟩ := mem_largeGroups.1 (getElem_mem hi)
  obtain ⟨b, -, hb⟩ := mem_largeGroups.1 (getElem_mem hj)
  have hne := pairwise_iff_getElem.1 largeGroups_pairwise i j hi hj hij
  rw [← ha] at hid hne
  rw [← hb] at hid' hne
  exact hne ((mem_memberIds.1 hid).2.symm.trans (mem_memberIds.1 hid').2)

theorem symbol_of_mem (hc : c ∈ detectCommunities h nodes edges minSize) (hid : id ∈ c.members) :
    ∃ node ∈ nodes, GraphTables.isStructural node.label = false ∧ node.id = id := by
  obtain ⟨a, -, hmembers⟩ := members_of_mem hc
  rw [hmembers, mem_memberIds, symbolIds, mem_dedup, List.mem_map] at hid
  obtain ⟨⟨node, hnode, hid⟩, -⟩ := hid
  rw [mem_filter, Bool.not_eq_true'] at hnode
  exact ⟨node, hnode.1, hnode.2, hid⟩

/-! ## The numbers of the labels -/

theorem adjacency_symbols (node : String) :
    ∀ n ∈ adjacency nodes edges node, n.1 ∈ symbolIds nodes := by
  intro n hn
  simp only [adjacency, mem_flatMap, mem_filter, clusters, Bool.and_eq_true,
    contains_iff_mem, mem_append, mem_ite_nil_right, mem_singleton] at hn
  obtain ⟨edge, ⟨-, ⟨⟨-, hsource⟩, htarget⟩, -⟩, ⟨-, rfl⟩ | ⟨-, rfl⟩⟩ := hn
  · exact htarget
  · exact hsource

/-- The number that a symbol has as a label at first. -/
def place (h : HashOrders) (nodes : List CodeNode) (id : String) : Nat :=
  (h.symbols (symbolIds nodes)).idxOf id

def symbolAt (h : HashOrders) (nodes : List CodeNode) (place : Nat) : String :=
  (h.symbols (symbolIds nodes)).getD place ""

theorem symbolAt_place (hid : id ∈ symbolIds nodes) :
    symbolAt h nodes (place h nodes id) = id := by
  have hmem : id ∈ h.symbols (symbolIds nodes) := (h.symbols_perm _).mem_iff.2 hid
  have hlt := idxOf_lt_length_of_mem hmem
  rw [symbolAt, place, getD_eq_getElem?_getD, getElem?_eq_getElem hlt, Option.getD_some,
    getElem_idxOf]

theorem place_injOn : Set.InjOn (place h nodes) {id | id ∈ symbolIds nodes} := by
  intro a ha b hb heq
  rw [← symbolAt_place (h := h) ha, heq, symbolAt_place hb]

theorem symbolLabels_mem (orders : VoteOrders String) (hid : id ∈ symbolIds nodes) :
    symbolLabels nodes edges orders id ∈ symbolIds nodes := by
  have hnames : ∀ other ∈ symbolIds nodes, other ∈ {id | id ∈ symbolIds nodes} :=
    fun _ hother => hother
  exact propagate_named adjacency_symbols 20 hnames id hid

theorem sort_symbols :
    (h.symbols (symbolIds nodes)).insertionSort (· ≤ ·) = (symbolIds nodes).insertionSort (· ≤ ·) := by
  refine List.Perm.eq_of_pairwise (fun a b _ _ => le_antisymm)
    (pairwise_insertionSort (· ≤ ·) _) (pairwise_insertionSort (· ≤ ·) _) ?_
  exact ((perm_insertionSort (· ≤ ·) _).trans (h.symbols_perm _)).trans
    (perm_insertionSort (· ≤ ·) _).symm

theorem finalLabels_eq {orders : VoteOrders String}
    (horders : orders.Renames (place h nodes) {id | id ∈ symbolIds nodes} h.votes) :
    finalLabels h nodes edges = place h nodes ∘ symbolLabels nodes edges orders := by
  have hnodes : ∀ node ∈ (symbolIds nodes).insertionSort (· ≤ ·), node ∈ symbolIds nodes :=
    fun node => (mem_insertionSort _).1
  have hnames : ∀ id ∈ symbolIds nodes, id ∈ {id | id ∈ symbolIds nodes} := fun _ hid => hid
  rw [finalLabels, sort_symbols]
  exact propagate_map adjacency_symbols place_injOn horders hnodes 20 hnames

/-! ## Labels with the same groups -/

section SameGroups

variable {κ κ' : Type} [DecidableEq κ] [DecidableEq κ'] {labels : String → κ}
  {labels' : String → κ'}

def SameGroups (nodes : List CodeNode) (labels : String → κ) (labels' : String → κ') : Prop :=
  ∀ a ∈ symbolIds nodes, ∀ b ∈ symbolIds nodes, labels a = labels b ↔ labels' a = labels' b

theorem SameGroups.groupOf (hsame : SameGroups nodes labels labels') {a : String}
    (ha : a ∈ symbolIds nodes) : groupOf nodes labels a = groupOf nodes labels' a :=
  filter_congr fun b hb => decide_eq_decide.2 (hsame b hb a ha)

theorem SameGroups.large (hsame : SameGroups nodes labels labels') {a : String} :
    Large nodes minSize labels a ↔ Large nodes minSize labels' a :=
  and_congr_right fun ha => by rw [hsame.groupOf ha]

theorem SameGroups.settled (hsame : SameGroups nodes labels labels') :
    Settled nodes minSize labels ↔ Settled nodes minSize labels' := by
  refine forall₂_congr fun a ha => imp_congr hsame.large (and_congr ?_ ?_)
  · exact forall₂_congr fun b hb => imp_congr hsame.large (hsame b hb a ha)
  · rw [hsame.groupOf ha]

end SameGroups

theorem sameGroups_of_renames {orders : VoteOrders String}
    (horders : orders.Renames (place h nodes) {id | id ∈ symbolIds nodes} h.votes) :
    SameGroups nodes (finalLabels h nodes edges) (symbolLabels nodes edges orders) := by
  intro a ha b hb
  rw [finalLabels_eq horders]
  exact place_injOn.eq_iff (symbolLabels_mem orders ha) (symbolLabels_mem orders hb)

theorem exists_orders (h : HashOrders) (nodes : List CodeNode) (edges : List EdgeRow) :
    ∃ orders, SameGroups nodes (finalLabels h nodes edges) (symbolLabels nodes edges orders) :=
  ⟨_, sameGroups_of_renames (conj_renames (fun _ => symbolAt_place) h.votes)⟩

theorem exists_run (orders : VoteOrders String) (nodes : List CodeNode) (edges : List EdgeRow) :
    ∃ h, SameGroups nodes (finalLabels h nodes edges) (symbolLabels nodes edges orders) :=
  ⟨{ asGiven with votes := orders.conj (symbolAt asGiven nodes) (place asGiven nodes) },
    sameGroups_of_renames (renames_conj (fun _ => symbolAt_place) orders)⟩

/-! ## What one run can be changed into -/

theorem comm_inj {i j : Nat} (heq : "comm_" ++ i.repr = "comm_" ++ j.repr) : i = j := by
  have hdigits := congrArg String.toList heq
  rw [String.toList_append, String.toList_append, append_cancel_left_eq, Nat.toList_repr,
    Nat.toList_repr] at hdigits
  rw [← Nat.ofDigitChars_ten_toDigits (n := i), hdigits, Nat.ofDigitChars_ten_toDigits]

theorem eq_of_id_eq {c' : Community} (hc : c ∈ detectCommunities h nodes edges minSize)
    (hc' : c' ∈ detectCommunities h nodes edges minSize) (hid : c.id = c'.id) : c = c' := by
  obtain ⟨i, hi, rfl⟩ := mem_detectCommunities.1 hc
  obtain ⟨j, hj, rfl⟩ := mem_detectCommunities.1 hc'
  obtain rfl : i = j := comm_inj hid
  rfl

theorem OrderIndependent.seen_eq (hind : OrderIndependent nodes edges minSize) {c' : Community}
    (hc : c ∈ detectCommunities h nodes edges minSize)
    (hc' : c' ∈ detectCommunities h' nodes edges minSize) (hid : c.id = c'.id) :
    c.seen = c'.seen := by
  obtain ⟨other, hother, hseen⟩ := (hind h h' c.seen).1 ⟨c, hc, rfl⟩
  have hid' : other.id = c'.id := (congrArg Prod.fst hseen).trans hid
  rw [← hseen, eq_of_id_eq hother hc' hid']

/-- The run that holds the group of a symbol first, and a directory. -/
def front (h : HashOrders) (nodes : List CodeNode) (edges : List EdgeRow) (id : String)
    (dir : String × Nat) : HashOrders :=
  { h with
    groups := toFront (finalLabels h nodes edges id, memberIds h nodes edges id)
    groups_perm := toFront_perm _
    dirs := fun _ => toFront dir
    dirs_perm := fun _ => toFront_perm dir }

theorem exists_front (hlarge : Large nodes minSize (finalLabels h nodes edges) id)
    (dir : String × Nat) :
    toCommunity (front h nodes edges id dir) nodes edges 0 (memberIds h nodes edges id) ∈
      detectCommunities (front h nodes edges id dir) nodes edges minSize := by
  have hgroup : (finalLabels h nodes edges id, memberIds h nodes edges id) ∈
      groupsOf (finalLabels h nodes edges) (h.labels (symbolIds nodes)) :=
    mem_groupsOf.2 ⟨id, (h.labels_perm _).mem_iff.2 hlarge.1, rfl⟩
  have hsize : minSize ≤ (memberIds h nodes edges id).length :=
    hlarge.2.trans_eq (memberIds_perm id).length_eq.symm
  have hfront : ∃ rest, largeGroups (front h nodes edges id dir) nodes edges minSize =
      (finalLabels h nodes edges id, memberIds h nodes edges id) :: rest :=
    ⟨_, filter_toFront hgroup (decide_eq_true hsize)⟩
  obtain ⟨rest, hrest⟩ := hfront
  refine mem_detectCommunities.2 ⟨0, ?_, ?_⟩
  · rw [hrest]
    exact Nat.succ_pos _
  · simp [hrest]

/-! ## When the orders are of no account -/

theorem memberNodes_perm (h : HashOrders) (nodes : List CodeNode) (edges : List EdgeRow)
    (id : String) :
    (memberNodes nodes (memberIds h nodes edges id)).Perm
      (memberNodes nodes (groupOf nodes (finalLabels h nodes edges) id)) :=
  (memberIds_perm id).filterMap _

variable {members' members : List CodeNode}

theorem dirCounts_perm (hperm : members.Perm members') :
    (dirCounts members).Perm (dirCounts members') := by
  have hdirs : ((files members).filterMap directory).Perm ((files members').filterMap directory) :=
    ((hperm.map _).dedup).filterMap directory
  refine (hdirs.dedup.map _).trans (List.Perm.of_eq (map_congr_left fun dir _ => ?_))
  rw [hdirs.count_eq]

theorem typeNames_perm (hperm : members.Perm members') :
    typeNames members = typeNames members' := by
  refine congrArg List.dedup (List.Perm.eq_of_pairwise (fun a b _ _ => le_antisymm)
    (pairwise_insertionSort (· ≤ ·) _) (pairwise_insertionSort (· ≤ ·) _) ?_)
  exact ((perm_insertionSort (· ≤ ·) _).trans ((hperm.filter _).map _)).trans
    (perm_insertionSort (· ≤ ·) _).symm

theorem communityLabel_eq (hperm : members'.Perm members)
    (huntied : typeNames members = [] → Untied (·.2) (dirCounts members)) (idx : Nat) :
    communityLabel h' idx members' = communityLabel h idx members := by
  rw [communityLabel, communityLabel, typeNames_perm hperm]
  by_cases htypes : typeNames members = []
  · have hdirs := (h'.dirs_perm idx _).trans (dirCounts_perm hperm)
    rw [(huntied htypes).firstMax_perm hdirs, (huntied htypes).firstMax_perm (h.dirs_perm idx _)]
  · simp [htypes]

theorem eq_zero_of_settled (hsettled : Settled nodes minSize (finalLabels h nodes edges))
    {a : String} (ha : Large nodes minSize (finalLabels h nodes edges) a) {idx : Nat}
    (hidx : idx < (largeGroups h nodes edges minSize).length) :
    idx = 0 ∧ (largeGroups h nodes edges minSize)[idx] =
      (finalLabels h nodes edges a, memberIds h nodes edges a) := by
  have hall : ∀ group ∈ largeGroups h nodes edges minSize,
      group = (finalLabels h nodes edges a, memberIds h nodes edges a) := by
    intro group hgroup
    obtain ⟨b, hb, rfl⟩ := mem_largeGroups.1 hgroup
    have heq := (hsettled a ha.1 ha).1 b hb.1 hb
    rw [memberIds, heq, memberIds]
  refine ⟨?_, hall _ (getElem_mem hidx)⟩
  by_contra hne
  have hpos := Nat.pos_of_ne_zero hne
  have hkeys := pairwise_iff_getElem.1 largeGroups_pairwise 0 idx (hpos.trans hidx) hidx hpos
  rw [hall _ (getElem_mem hidx), hall _ (getElem_mem (hpos.trans hidx))] at hkeys
  exact hkeys rfl

theorem mem_iff_of_settled (hsettled : Settled nodes minSize (finalLabels h nodes edges))
    {a : String} (ha : Large nodes minSize (finalLabels h nodes edges) a) :
    c ∈ detectCommunities h nodes edges minSize ↔
      toCommunity h nodes edges 0 (memberIds h nodes edges a) = c := by
  rw [mem_detectCommunities]
  constructor
  · rintro ⟨-, hidx, rfl⟩
    obtain ⟨rfl, hgroup⟩ := eq_zero_of_settled hsettled ha hidx
    rw [hgroup]
  · rintro rfl
    obtain ⟨idx, hidx, hgroup⟩ := getElem_of_mem (mem_largeGroups.2 ⟨a, ha, rfl⟩)
    obtain ⟨rfl, -⟩ := eq_zero_of_settled hsettled ha hidx
    exact ⟨0, hidx, by rw [hgroup]⟩

theorem seen_of_decided (hdecided : Decided nodes edges minSize) (h h' : HashOrders)
     (hc : c ∈ detectCommunities h nodes edges minSize) :
    ∃ c' ∈ detectCommunities h' nodes edges minSize, c'.seen = c.seen := by
  obtain ⟨orders, hsame⟩ := exists_orders h nodes edges
  obtain ⟨orders', hsame'⟩ := exists_orders h' nodes edges
  have hsettled : Settled nodes minSize (finalLabels h nodes edges) :=
    hsame.settled.2 (hdecided orders).1
  have hsettled' : Settled nodes minSize (finalLabels h' nodes edges) :=
    hsame'.settled.2 (hdecided orders').1
  obtain ⟨a, ha, -⟩ := members_of_mem hc
  obtain rfl := (mem_iff_of_settled hsettled ha).1 hc
  have hgroup : groupOf nodes (finalLabels h' nodes edges) a =
      groupOf nodes (finalLabels h nodes edges) a := by
    rw [hsame'.groupOf ha.1, hsame.groupOf ha.1]
    exact (hdecided orders).2 orders' a (hsame.large.1 ha)
  have ha' : Large nodes minSize (finalLabels h' nodes edges) a :=
    ⟨ha.1, hgroup ▸ ha.2⟩
  have hids : (memberIds h' nodes edges a).Perm (memberIds h nodes edges a) :=
    ((memberIds_perm a).trans (List.Perm.of_eq hgroup)).trans (memberIds_perm a).symm
  refine ⟨_, (mem_iff_of_settled hsettled' ha').2 rfl, ?_⟩
  have hmembers : (memberNodes nodes (memberIds h' nodes edges a)).Perm
      (memberNodes nodes (memberIds h nodes edges a)) := hids.filterMap _
  refine Prod.ext rfl (Prod.ext ?_ (Set.ext fun id => hids.mem_iff))
  refine communityLabel_eq hmembers (fun htypes => ?_) 0
  rw [typeNames_perm (memberNodes_perm h nodes edges a)] at htypes
  exact (untied_perm (dirCounts_perm (memberNodes_perm h nodes edges a))).2 ((hsettled a ha.1 ha).2 htypes)

theorem orderIndependent_of_decided (hdecided : Decided nodes edges minSize) :
    OrderIndependent nodes edges minSize := by
  intro h h' seen
  constructor
  · rintro ⟨c, hc, rfl⟩
    exact seen_of_decided hdecided h h' hc
  · rintro ⟨c, hc, rfl⟩
    exact seen_of_decided hdecided h' h hc

theorem communityLabel_front {dir : String × Nat}
    (htypes : typeNames (memberNodes nodes (memberIds h nodes edges id)) = [])
    (hdir : Greatest (·.2) (dirCounts (memberNodes nodes (memberIds h nodes edges id))) dir) :
    communityLabel (front h nodes edges id dir) 0
      (memberNodes nodes (memberIds h nodes edges id)) = dir.1 := by
  have hfirst := firstMax_toFront hdir
  rw [communityLabel, htypes, if_neg fun hne => hne rfl]
  simp [front, hfirst]

theorem settled_of_orderIndependent (hind : OrderIndependent nodes edges minSize)
    (h : HashOrders) : Settled nodes minSize (finalLabels h nodes edges) := by
  intro a _ hlarge
  refine ⟨fun b hb hlarge' => ?_, fun htypes dir _ dir' _ hdir hdir' => ?_⟩
  · have hseen := hind.seen_eq (exists_front hlarge ("", 0)) (exists_front hlarge' ("", 0)) rfl
    have hmembers := Set.ext_iff.1 (congrArg (fun seen => seen.2.2) hseen) b
    exact (mem_memberIds.1 (hmembers.2 (mem_memberIds.2 ⟨hb, rfl⟩))).2
  · rw [← typeNames_perm (memberNodes_perm h nodes edges a)] at htypes
    have hperm := dirCounts_perm (memberNodes_perm h nodes edges a)
    have hseen := hind.seen_eq (exists_front hlarge dir) (exists_front hlarge dir') rfl
    have hlabel : communityLabel (front h nodes edges a dir) 0 _ =
        communityLabel (front h nodes edges a dir') 0 _ := congrArg (fun seen => seen.2.1) hseen
    rw [communityLabel_front htypes ((greatest_perm hperm).2 hdir),
      communityLabel_front htypes ((greatest_perm hperm).2 hdir')] at hlabel
    exact Prod.ext hlabel (le_antisymm (hdir'.2 dir hdir.1) (hdir.2 dir' hdir'.1))

theorem decided_of_orderIndependent (hind : OrderIndependent nodes edges minSize) :
    Decided nodes edges minSize := by
  intro orders
  obtain ⟨h, hsame⟩ := exists_run orders nodes edges
  refine ⟨hsame.settled.1 (settled_of_orderIndependent hind h), fun orders' a hlarge => ?_⟩
  obtain ⟨h', hsame'⟩ := exists_run orders' nodes edges
  have ha := hlarge.1
  obtain ⟨c', hc', hseen⟩ :=
    (hind _ h' _).1 ⟨_, exists_front (hsame.large.2 hlarge) ("", 0), rfl⟩
  obtain ⟨x, -, hmembers⟩ := members_of_mem hc'
  -- the first community of the one run is that of `x` in the other
  have hiff : ∀ id, id ∈ memberIds h' nodes edges x ↔ id ∈ memberIds h nodes edges a := by
    intro id
    rw [← hmembers]
    exact Set.ext_iff.1 (congrArg (fun seen => seen.2.2) hseen) id
  have hx : finalLabels h' nodes edges a = finalLabels h' nodes edges x :=
    (mem_memberIds.1 ((hiff a).2 (mem_memberIds.2 ⟨ha, rfl⟩))).2
  rw [← hsame'.groupOf ha, ← hsame.groupOf ha]
  refine filter_congr fun b hb => decide_eq_decide.2 ?_
  have hb' := hiff b
  rw [mem_memberIds, mem_memberIds] at hb'
  rw [hx]
  exact ⟨fun heq => (hb'.1 ⟨hb, heq⟩).2, fun heq => (hb'.2 ⟨hb, heq⟩).2⟩

theorem decided_iff_of_untied (huntied : VotesUntied nodes edges) :
    Decided nodes edges minSize ↔ Settled nodes minSize (symbolLabels nodes edges (inOrder String)) := by
  have heq : ∀ orders, symbolLabels nodes edges orders =
      symbolLabels nodes edges (inOrder String) := fun orders =>
    propagate_eq_of_untied huntied orders
  constructor
  · exact fun hdecided => (hdecided (inOrder String)).1
  · intro hsettled orders
    refine ⟨heq orders ▸ hsettled, fun orders' a _ => ?_⟩
    rw [heq orders, heq orders']

end Run

/-- Communities are disjoint sets of symbols, and two runs always find the same just where the ties
of the votes leave one group large at most. -/
theorem detectCommunities_independent_iff (nodes : List CodeNode) (edges : List EdgeRow)
    (minSize : Nat) :
    (∀ h : HashOrders, (detectCommunities h nodes edges minSize).Pairwise
          (fun c c' => ∀ id ∈ c.members, id ∉ c'.members) ∧
        ∀ c ∈ detectCommunities h nodes edges minSize, ∀ id ∈ c.members,
          ∃ node ∈ nodes, GraphTables.isStructural node.label = false ∧ node.id = id) ∧
      (OrderIndependent nodes edges minSize ↔ Decided nodes edges minSize) ∧
      (VotesUntied nodes edges → (OrderIndependent nodes edges minSize ↔
          Settled nodes minSize (symbolLabels nodes edges (inOrder String)))) := by
  have hiff : OrderIndependent nodes edges minSize ↔ Decided nodes edges minSize :=
    ⟨decided_of_orderIndependent, orderIndependent_of_decided⟩
  refine ⟨fun h => ⟨detectCommunities_disjoint, ?_⟩, hiff, fun huntied => ?_⟩
  · exact fun c hc id hid => symbol_of_mem hc hid
  · exact hiff.trans (decided_iff_of_untied huntied)

def symbolNode (id filePath : String) (startLine endLine : Nat) : CodeNode :=
  { id, label := .function, name := id, filePath, startLine, endLine, language := "rust" }

def callEdge (sourceId targetId : String) (confidence : Rat) : EdgeRow :=
  { sourceId, targetId, edgeType := .calls, confidence }

def authNodes : List CodeNode :=
  [symbolNode "auth_hash" "src/auth.rs" 1 10, symbolNode "auth_login" "src/auth.rs" 11 20,
    symbolNode "auth_verify" "src/auth.rs" 21 30]

def authEdges : List EdgeRow :=
  [callEdge "auth_login" "auth_hash" (95 / 100), callEdge "auth_verify" "auth_hash" (9 / 10)]

def dbNodes : List CodeNode :=
  [symbolNode "db_connect" "src/db.rs" 1 10, symbolNode "db_migrate" "src/db.rs" 11 20,
    symbolNode "db_query" "src/db.rs" 21 30]

def dbEdges : List EdgeRow :=
  [callEdge "db_migrate" "db_connect" (95 / 100), callEdge "db_query" "db_connect" (9 / 10)]

theorem auth_independent : OrderIndependent authNodes authEdges 3 :=
  ((detectCommunities_independent_iff authNodes authEdges 3).2.2 (by decide +kernel)).2
    (by decide +kernel)

def groupsReversed : HashOrders :=
  { asGiven with groups := List.reverse, groups_perm := List.reverse_perm }

/-- Of two groups of three, either one is the first. -/
theorem not_orderIndependent_two_clusters :
    ¬ OrderIndependent (authNodes ++ dbNodes) (authEdges ++ dbEdges) 3 := by
  intro hind
  have hgiven : ∃ c ∈ detectCommunities asGiven (authNodes ++ dbNodes) (authEdges ++ dbEdges) 3,
      c.id = "comm_0" ∧ "auth_hash" ∈ c.members := by decide +kernel
  have hreversed : ∃ c ∈ detectCommunities groupsReversed (authNodes ++ dbNodes)
      (authEdges ++ dbEdges) 3, c.id = "comm_0" ∧ "auth_hash" ∉ c.members := by decide +kernel
  obtain ⟨c, hc, hid, hmem⟩ := hgiven
  obtain ⟨c', hc', hid', hmem'⟩ := hreversed
  have hseen := hind.seen_eq hc hc' (hid.trans hid'.symm)
  exact hmem' ((Set.ext_iff.1 (congrArg (fun seen => seen.2.2) hseen) "auth_hash").1 hmem)

end Aeqi.Graph
