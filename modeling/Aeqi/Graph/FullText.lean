import Aeqi.Graph.Store
import Aeqi.Lib.Balance
import Aeqi.Lib.Result

/-!
# The full-text index of the nodes (`storage.rs`)

`code_nodes_fts` has no content of its own. Three triggers on `code_nodes` write its entries: one
adds the entry of a new row, one takes away the entry of a deleted row, one does both for a row that
is updated. The rows that `INSERT OR REPLACE` deletes fire no trigger, as recursive triggers are off.

A row has a rowid besides the id of its node. SQLite draws the rowid of a new row before it looks
for conflicts; which unused one it draws is a parameter. The tables of the communities, the
processes and the metadata are left out.
-/

namespace Aeqi.Graph

open Aeqi.Lib List

/-! ## The tables -/

structure NodeRow where
  rowid : Nat
  node : CodeNode

/-- `code_nodes`, with `id` as its primary key. -/
structure NodeTable where
  rows : List NodeRow
  ids : (rows.map (·.node.id)).Nodup
  rowids : (rows.map (·.rowid)).Nodup

structure FtsEntry where
  rowid : Nat
  name : String
  filePath : String
  docComment : Option String
  deriving DecidableEq

def NodeRow.entry (row : NodeRow) : FtsEntry :=
  ⟨row.rowid, row.node.name, row.node.filePath, row.node.docComment⟩

/-- How the rowid of a new row is drawn. -/
structure Rowids where
  next : List Nat → Nat
  fresh : ∀ used, next used ∉ used

theorem le_foldr_max {n : Nat} {used : List Nat} (h : n ∈ used) : n ≤ used.foldr max 0 := by
  induction used with
  | nil => cases h
  | cons m used ih =>
    rcases mem_cons.1 h with rfl | h
    · exact le_max_left _ _
    · exact (ih h).trans (le_max_right _ _)

/-- One more than the largest. -/
def Rowids.successor : Rowids where
  next used := used.foldr max 0 + 1
  fresh := by
    intro used hmem
    have hle := le_foldr_max hmem
    omega

namespace NodeTable

variable (t : NodeTable)

def empty : NodeTable := ⟨[], List.nodup_nil, List.nodup_nil⟩

def find (id : String) : Option NodeRow := t.rows.find? (·.node.id = id)

/-- `DELETE FROM code_nodes WHERE ..` -/
def without (p : NodeRow → Bool) : NodeTable where
  rows := t.rows.filter fun row => !p row
  ids := t.ids.sublist (List.filter_sublist.map _)
  rowids := t.rowids.sublist (List.filter_sublist.map _)

def add (row : NodeRow) (hid : row.node.id ∉ t.rows.map (·.node.id))
    (hrowid : row.rowid ∉ t.rows.map (·.rowid)) : NodeTable where
  rows := t.rows ++ [row]
  ids := by
    rw [List.map_append, List.map_singleton, ← List.concat_eq_append]
    exact t.ids.concat hid
  rowids := by
    rw [List.map_append, List.map_singleton, ← List.concat_eq_append]
    exact t.rowids.concat hrowid

/-- `UPDATE code_nodes SET .. WHERE id = ?` -/
def set (id : String) (f : CodeNode → CodeNode) (hf : ∀ node, (f node).id = node.id) :
    NodeTable where
  rows := t.rows.map fun row => if row.node.id = id then { row with node := f row.node } else row
  ids := by
    have hids : (t.rows.map fun row =>
        if row.node.id = id then { row with node := f row.node } else row).map (·.node.id) =
          t.rows.map (·.node.id) := by
      rw [List.map_map]
      refine List.map_congr_left fun row _ => ?_
      simp only [Function.comp_apply]
      split
      · exact hf row.node
      · rfl
    rw [hids]
    exact t.ids
  rowids := by
    have hrowids : (t.rows.map fun row =>
        if row.node.id = id then { row with node := f row.node } else row).map (·.rowid) =
          t.rows.map (·.rowid) := by
      rw [List.map_map]
      refine List.map_congr_left fun row _ => ?_
      simp only [Function.comp_apply]
      split <;> rfl
    rw [hrowids]
    exact t.rowids

end NodeTable

/-- The nodes, the edges and the entries of the index. -/
structure IndexedStore where
  table : NodeTable
  edges : Accounts EdgeKey CodeEdge
  fts : List FtsEntry

/-! ## The operations -/

namespace NodeTable

variable {t : NodeTable} {id : String}

theorem find_eq_none : t.find id = none ↔ id ∉ t.rows.map (·.node.id) := by
  unfold find
  simp

theorem id_not_mem_without :
    id ∉ (t.without fun old => old.node.id = id).rows.map (·.node.id) := by
  simp [without]

end NodeTable

namespace IndexedStore

def init : IndexedStore := ⟨NodeTable.empty, ∅, []⟩

/-! ### The triggers -/

/-- `code_nodes_ai` -/
def afterInsert (fts : List FtsEntry) (new : NodeRow) : List FtsEntry := new.entry :: fts

/-- `code_nodes_ad` -/
def afterDelete (fts : List FtsEntry) (old : NodeRow) : List FtsEntry := fts.erase old.entry

/-- `code_nodes_au` -/
def afterUpdate (fts : List FtsEntry) (old new : NodeRow) : List FtsEntry :=
  new.entry :: fts.erase old.entry

/-! ### The calls -/

variable (alloc : Rowids) (s : IndexedStore)

/-- The row as `DO UPDATE` sets it; the language is left as it is. -/
def onConflict (old excluded : CodeNode) : CodeNode :=
  { excluded with id := old.id, language := old.language }

def upsertNode (node : CodeNode) : IndexedStore :=
  match h : s.table.find node.id with
  | none =>
    let row : NodeRow := ⟨alloc.next (s.table.rows.map (·.rowid)), node⟩
    { s with
      table := s.table.add row (NodeTable.find_eq_none.1 h) (alloc.fresh _)
      fts := afterInsert s.fts row }
  | some row =>
    { s with
      table := s.table.set node.id (fun old => onConflict old node) fun _ => rfl
      fts := afterUpdate s.fts row { row with node := onConflict row.node node } }

/-- A `DELETE` fires the trigger for each of its rows. -/
def deleteWhere (p : NodeRow → Bool) : IndexedStore :=
  { s with
    table := s.table.without p
    fts := (s.table.rows.filter p).foldl afterDelete s.fts }

def fileOf (id : String) : Option String := (s.table.find id).map (·.node.filePath)

def deleteFileNodes (filePath : String) : IndexedStore :=
  { s.deleteWhere fun row => row.node.filePath = filePath with
    edges := s.edges.restrict fun _ edge =>
      s.fileOf edge.sourceId ≠ some filePath ∧ s.fileOf edge.targetId ≠ some filePath }

def clear : IndexedStore := { s.deleteWhere fun _ => true with edges := ∅ }

/-- `INSERT OR REPLACE INTO code_nodes`. -/
def insertOrReplace (node : CodeNode) : IndexedStore :=
  let row : NodeRow := ⟨alloc.next (s.table.rows.map (·.rowid)), node⟩
  { s with
    table := (s.table.without fun old => old.node.id = node.id).add row
      NodeTable.id_not_mem_without
      (fun h => alloc.fresh (s.table.rows.map (·.rowid))
        ((List.filter_sublist.map NodeRow.rowid).subset h))
    fts := afterInsert s.fts row }

def batchInsert (nodes : List CodeNode) (edges : List CodeEdge) : IndexedStore :=
  { nodes.foldl (insertOrReplace alloc) s with
    edges := edges.foldl (fun rows edge => rows.insert edge.key edge) s.edges }

end IndexedStore

inductive StoreCall
  | upsertNode (node : CodeNode)
  | batchInsert (nodes : List CodeNode) (edges : List CodeEdge)
  | deleteFileNodes (filePath : String)
  | clear

def StoreCall.exec (alloc : Rowids) (s : IndexedStore) : StoreCall → IndexedStore
  | upsertNode node => s.upsertNode alloc node
  | batchInsert nodes edges => s.batchInsert alloc nodes edges
  | deleteFileNodes filePath => s.deleteFileNodes filePath
  | clear => s.clear

def StoreCall.Step (alloc : Rowids) (s : IndexedStore) (call : StoreCall) (s' : IndexedStore) :
    Prop :=
  s' = call.exec alloc s

/-! ## What the operations do to the rows -/

namespace NodeTable

variable {t : NodeTable} {id : String} {row : NodeRow} {f : CodeNode → CodeNode}

theorem rows_set (hf : ∀ node, (f node).id = node.id) (h : t.find id = some row) :
    ∃ others, t.rows.Perm (row :: others) ∧
      (t.set id f hf).rows.Perm ({ row with node := f row.node } :: others) := by
  obtain ⟨hid, before, after, hrows, hbefore⟩ := find?_eq_some_iff_append.1 h
  have hid : row.node.id = id := of_decide_eq_true hid
  have hnodup := t.ids
  rw [hrows, map_append] at hnodup
  have hafter : ∀ other ∈ after, other.node.id ≠ id := by
    intro other hother heq
    have hnot := (nodup_cons.1 hnodup.of_append_right).1
    exact hnot (mem_map.2 ⟨other, hother, heq.trans hid.symm⟩)
  have hkept : ∀ others : List NodeRow, (∀ other ∈ others, other.node.id ≠ id) →
      others.map (fun row => if row.node.id = id then { row with node := f row.node } else row) =
        others := by
    intro others hothers
    rw [map_congr_left fun other hother => if_neg (hothers other hother), map_id']
  refine ⟨before ++ after, ?_, ?_⟩
  · rw [hrows]
    exact perm_middle
  · have hset : (t.set id f hf).rows = before ++ { row with node := f row.node } :: after := by
      change t.rows.map _ = _
      rw [hrows, map_append, map_cons, if_pos hid, hkept after hafter,
        hkept before fun other hother => by simpa using hbefore other hother]
    rw [hset]
    exact perm_middle

theorem rows_without {p : NodeRow → Bool} :
    t.rows.Perm (t.rows.filter p ++ (t.without p).rows) :=
  (filter_append_perm p t.rows).symm

end NodeTable

/-! ## The mirror -/

namespace IndexedStore

def Mirrored (s : IndexedStore) : Prop := s.fts.Perm (s.table.rows.map NodeRow.entry)

def Kept (s : IndexedStore) (stale : List FtsEntry) : Prop :=
  Mirrors NodeRow.entry s.fts s.table.rows stale

def Unstored (s : IndexedStore) (nodes : List CodeNode) : Prop :=
  (nodes.map (·.id)).Nodup ∧ ∀ node ∈ nodes, s.table.find node.id = none

section

variable {alloc : Rowids} {s : IndexedStore} {stale : List FtsEntry} {node : CodeNode}
  {nodes : List CodeNode} {id : String}

theorem mirrored_iff : s.Mirrored ↔ s.Kept [] := by
  unfold Mirrored Kept Mirrors
  rw [append_nil]

theorem kept_upsertNode (h : s.Kept stale) : (s.upsertNode alloc node).Kept stale := by
  unfold upsertNode
  split
  · exact h.insert
  · rename_i row hrow
    obtain ⟨others, hrows, hset⟩ :=
      NodeTable.rows_set (f := fun old => onConflict old node) (fun _ => rfl) hrow
    exact ((h.of_perm hrows).update).of_perm hset.symm

theorem kept_deleteWhere {p : NodeRow → Bool} (h : s.Kept stale) :
    (s.deleteWhere p).Kept stale :=
  (h.of_perm NodeTable.rows_without).deleteAll

theorem kept_insertOrReplace (h : s.Kept stale) :
    (s.insertOrReplace alloc node).Kept
      (stale ++ (s.table.rows.filter fun row => row.node.id = node.id).map NodeRow.entry) := by
  have hgone := (h.of_perm
    (NodeTable.rows_without (p := fun row => row.node.id = node.id))).unnoticed
  exact hgone.insert

theorem find_insertOrReplace :
    (s.insertOrReplace alloc node).table.find id = none ↔ s.table.find id = none ∧ id ≠ node.id := by
  rw [NodeTable.find_eq_none, NodeTable.find_eq_none]
  change id ∉ ((s.table.rows.filter _) ++ [_]).map _ ↔ _
  rw [map_append, mem_append, not_or, map_singleton, mem_singleton]
  refine and_congr_left fun hid => not_congr ?_
  simp only [mem_map, mem_filter]
  constructor
  · intro ⟨row, hrow, heq⟩
    exact ⟨row, hrow.1, heq⟩
  · intro ⟨row, hrow, heq⟩
    subst heq
    exact ⟨row, ⟨hrow, by simpa using hid⟩, rfl⟩

theorem unstored_cons (alloc : Rowids) : s.Unstored (node :: nodes) ↔
    s.table.find node.id = none ∧ (s.insertOrReplace alloc node).Unstored nodes := by
  unfold Unstored
  simp only [map_cons, nodup_cons, forall_mem_cons, find_insertOrReplace]
  constructor
  · intro ⟨⟨hnot, hnodup⟩, hfirst, hrest⟩
    refine ⟨hfirst, hnodup, fun other hother => ⟨hrest other hother, fun heq => ?_⟩⟩
    exact hnot (heq ▸ mem_map_of_mem hother)
  · intro ⟨hfirst, hnodup, hrest⟩
    refine ⟨⟨fun hmem => ?_, hnodup⟩, hfirst, fun other hother => (hrest other hother).1⟩
    obtain ⟨other, hother, heq⟩ := mem_map.1 hmem
    exact (hrest other hother).2 heq

theorem kept_batch (h : s.Kept stale) :
    ∃ stale', (nodes.foldl (insertOrReplace alloc) s).Kept stale' ∧
      (stale' = [] ↔ stale = [] ∧ s.Unstored nodes) := by
  induction nodes generalizing s stale with
  | nil => exact ⟨stale, h, by simp [Unstored]⟩
  | cons node nodes ih =>
    obtain ⟨stale', hkept, hiff⟩ := ih (kept_insertOrReplace h)
    refine ⟨stale', hkept, hiff.trans ?_⟩
    have hnone : ((s.table.rows.filter fun row => row.node.id = node.id).map NodeRow.entry) = [] ↔
        s.table.find node.id = none := by
      rw [map_eq_nil_iff, filter_eq_nil_iff]
      exact find?_eq_none.symm
    rw [append_eq_nil_iff, hnone, unstored_cons alloc, and_assoc]

end

end IndexedStore

/-! ## The store without rowids -/

namespace NodeTable

variable {t : NodeTable} {id : String} {row : NodeRow}

theorem find_eq_some : t.find id = some row ↔ row ∈ t.rows ∧ row.node.id = id := by
  unfold find
  constructor
  · intro h
    exact ⟨mem_of_find?_eq_some h, by simpa using find?_some h⟩
  · intro ⟨hrow, hid⟩
    cases hfind : t.rows.find? (·.node.id = id) with
    | none => exact absurd (decide_eq_true hid) (find?_eq_none.1 hfind row hrow)
    | some other =>
      have hother : other.node.id = id := by simpa using find?_some hfind
      exact congrArg some (inj_on_of_nodup_map t.ids (mem_of_find?_eq_some hfind) hrow
        (hother.trans hid.symm))

end NodeTable

namespace IndexedStore

/-- The nodes and the edges are those of the store. -/
structure Holds {Commit : Type} (s : IndexedStore) (g : GraphStore Commit) : Prop where
  nodes : ∀ id, (s.table.find id).map (·.node) = g.nodes.lookup id
  edges : s.edges = g.edges

section

variable {Commit : Type}

end

end IndexedStore

/-! ## Runs of calls -/

/-- The nodes of a batch are new. -/
def StoreCall.Adds (s : IndexedStore) : StoreCall → Prop
  | batchInsert nodes _ => s.Unstored nodes
  | _ => True

section

variable {alloc : Rowids} {s : IndexedStore} {stale : List FtsEntry} {call : StoreCall}
  {hist : List (IndexedStore × StoreCall)}

open IndexedStore

theorem StoreCall.kept (h : s.Kept stale) :
    ∃ stale', (call.exec alloc s).Kept stale' ∧ (stale' = [] ↔ stale = [] ∧ call.Adds s) := by
  cases call with
  | upsertNode node => exact ⟨stale, kept_upsertNode h, by simp [Adds]⟩
  | batchInsert nodes edges => exact kept_batch h
  | deleteFileNodes filePath | clear => exact ⟨stale, kept_deleteWhere h, by simp [Adds]⟩

theorem StoreCall.kept_of_run (run : Run (Step alloc) init hist s) :
    ∃ stale, s.Kept stale ∧ (stale = [] ↔ ∀ e ∈ hist, e.2.Adds e.1) := by
  induction run with
  | nil => exact ⟨[], Mirrors.nil, by simp⟩
  | step run hstep ih =>
    obtain ⟨stale, hkept, hiff⟩ := ih
    obtain ⟨stale', hkept', hiff'⟩ := StoreCall.kept hkept
    refine ⟨stale', hstep ▸ hkept', ?_⟩
    rw [hiff', hiff, forall_mem_cons, and_comm]

theorem StoreCall.mirrored_iff_adds (run : Run (Step alloc) init hist s) :
    s.Mirrored ↔ ∀ e ∈ hist, e.2.Adds e.1 := by
  obtain ⟨stale, hkept, hiff⟩ := StoreCall.kept_of_run run
  rw [mirrored_iff, ← hiff]
  exact hkept.stale_eq_nil.symm

/-- The index is a mirror in every state of a run if and only if every batch of the run brings new
nodes only. -/
theorem fts_mirrors_nodes (run : Run (StoreCall.Step alloc) init hist s) :
    ((∀ e ∈ hist, e.1.Mirrored) ∧ s.Mirrored) ↔ ∀ e ∈ hist, e.2.Adds e.1 := by
  constructor
  · intro ⟨_, hlast⟩
    exact (StoreCall.mirrored_iff_adds run).1 hlast
  · intro hadds
    refine ⟨fun e he => ?_, (StoreCall.mirrored_iff_adds run).2 hadds⟩
    obtain ⟨_, _, hpart, _⟩ :=
      Run.of_mem (Run.guarded_iff.2 ⟨run, hadds⟩ : Run (Guarded (fun s call => call.Adds s) _) ..) he
    obtain ⟨hrun, hall⟩ := Run.guarded_iff.1 hpart
    exact (StoreCall.mirrored_iff_adds hrun).2 hall

end

section

open IndexedStore

def mainRs : CodeNode :=
  { id := "main", label := .function, name := "main", filePath := "src/main.rs", startLine := 1,
    endLine := 3, language := "rust" }

theorem fts_mirrors_main :
    (init.batchInsert .successor [mainRs] []).Mirrored ∧
      ((init.batchInsert .successor [mainRs] []).upsertNode .successor mainRs).Mirrored := by
  have run : Run (StoreCall.Step .successor) init
      [(init.batchInsert .successor [mainRs] [], .upsertNode mainRs),
        (init, .batchInsert [mainRs] [])]
      ((init.batchInsert .successor [mainRs] []).upsertNode .successor mainRs) :=
    (Run.nil.step rfl).step rfl
  have hadds : ∀ e ∈ [(init.batchInsert .successor [mainRs] [], StoreCall.upsertNode mainRs),
      (init, .batchInsert [mainRs] [])], e.2.Adds e.1 := by
    simp [StoreCall.Adds, Unstored, NodeTable.find, init, NodeTable.empty]
  obtain ⟨hall, hlast⟩ := (fts_mirrors_nodes run).2 hadds
  exact ⟨hall _ mem_cons_self, hlast⟩

/-- A node that is stored a second time leaves its first entry behind. -/
theorem fts_keeps_stale_entry : ¬ ∀ hist s, Run (StoreCall.Step .successor) init hist s →
    s.Mirrored := by
  intro h
  have run : Run (StoreCall.Step .successor) init
      [(init.batchInsert .successor [mainRs] [], .batchInsert [mainRs] []),
        (init, .batchInsert [mainRs] [])]
      ((init.batchInsert .successor [mainRs] []).batchInsert .successor [mainRs] []) :=
    (Run.nil.step rfl).step rfl
  have hlen := (h _ _ run).length_eq
  exact nomatch hlen

end

end Aeqi.Graph
