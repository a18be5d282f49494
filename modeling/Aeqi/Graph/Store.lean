import Aeqi.Graph.Resolve
import Aeqi.Lib.Log

/-!
# The store of a code graph (`storage.rs`)

Nodes under their ids and edges under their two ends and their type, as the tables have them; the
latest row comes first. What the queries do not order comes as rows were inserted. A write is
done as a whole or not at all.
-/

namespace Aeqi.Graph

open Aeqi.Lib List

abbrev EdgeKey := String × String × EdgeType

def CodeEdge.key (edge : CodeEdge) : EdgeKey := (edge.sourceId, edge.targetId, edge.edgeType)

/-- The tables, and what is noted of the last call. -/
structure GraphStore (Commit : Type) where
  nodes : Accounts String CodeNode
  edges : Accounts EdgeKey CodeEdge
  repoPath : Option String
  lastCommit : Option Commit
  dirtyFiles : List String

def isSourceExtension (ext : List Char) : Bool :=
  ext ∈ ["rs", "ts", "tsx", "js", "jsx", "sol"].map String.toList

/-- `Path::extension`. -/
def extension (path : String) : Option (List Char) :=
  (splitExtension ((path.toList.splitOn '/').getLast?.getD [])).2

def isSupportedSourcePath (file : String) : Bool := (extension file).any isSourceExtension

namespace GraphStore

variable {Commit : Type} (s : GraphStore Commit)

def empty : GraphStore Commit := ⟨∅, ∅, none, none, []⟩

def rows : List CodeNode := s.nodes.entries.reverse.map (·.2)

def fileOf (id : String) : Option String := (s.nodes.lookup id).map (·.filePath)

def deleteFileNodes (filePath : String) : GraphStore Commit :=
  { s with
    edges := s.edges.restrict fun _ edge =>
      s.fileOf edge.sourceId ≠ some filePath ∧ s.fileOf edge.targetId ≠ some filePath
    nodes := s.nodes.restrict fun _ node => node.filePath ≠ filePath }

/-- The files of the two ends of all edges between nodes, the target's first. -/
def dependencies : List (String × String) :=
  s.edges.entries.filterMap fun entry =>
    (s.fileOf entry.2.targetId).bind fun target =>
      (s.fileOf entry.2.sourceId).map fun source => (target, source)

def sourceFilesPointingToFiles (filePaths : List String) : List String :=
  ((s.dependencies.filter fun files => files.1 ∈ filePaths ∧ files.2 ∉ filePaths).map (·.2)).dedup

def isSourceNode (node : CodeNode) : Bool := node.label ≠ .community ∧ node.label ≠ .process

def sourceFilePaths : List String :=
  ((s.rows.filter isSourceNode).map (·.filePath)).dedup.filter fun path =>
    path ≠ "" ∧ isSupportedSourcePath path

def batchInsert (nodes : List CodeNode) (edges : List CodeEdge) : GraphStore Commit :=
  { s with
    nodes := nodes.foldl (fun rows node => rows.insert node.id node) s.nodes
    edges := edges.foldl (fun rows edge => rows.insert edge.key edge) s.edges }

def nodesInFile (filePath : String) : List CodeNode :=
  (s.rows.filter (·.filePath = filePath)).insertionSort (·.startLine ≤ ·.startLine)

end GraphStore

/-! ## What the operations leave -/

namespace GraphStore

variable {Commit : Type} {s : GraphStore Commit} {files : List String} {file id : String}
variable {node : CodeNode} {edge : CodeEdge} {key : EdgeKey}

theorem mem_rows : node ∈ s.rows ↔ ∃ id, s.nodes.lookup id = some node := by
  unfold rows
  simp only [List.mem_map, mem_reverse]
  constructor
  · rintro ⟨entry, hentry, rfl⟩
    exact ⟨entry.1, Accounts.mem_entries.mp hentry⟩
  · rintro ⟨id, hlookup⟩
    exact ⟨⟨id, node⟩, Accounts.mem_entries.mpr hlookup, rfl⟩

theorem fileOf_eq_some : s.fileOf id = some file ↔
    ∃ node, s.nodes.lookup id = some node ∧ node.filePath = file :=
  Option.map_eq_some_iff

theorem lookup_deleteFiles : (files.foldl deleteFileNodes s).nodes.lookup id = some node ↔
    s.nodes.lookup id = some node ∧ node.filePath ∉ files := by
  induction files generalizing s with
  | nil => simp
  | cons file files ih =>
    rw [foldl_cons, ih, deleteFileNodes, Accounts.lookup_restrict_some, decide_eq_true_eq,
      mem_cons, not_or, and_assoc]

theorem lookup_edges_deleteFiles : (files.foldl deleteFileNodes s).edges.lookup key = some edge ↔
    s.edges.lookup key = some edge ∧
      ∀ file ∈ files, s.fileOf edge.sourceId ≠ some file ∧ s.fileOf edge.targetId ≠ some file := by
  induction files generalizing s with
  | nil => simp
  | cons file files ih =>
    have hfile : ∀ id other, other ≠ file →
        ((s.deleteFileNodes file).fileOf id = some other ↔ s.fileOf id = some other) := by
      intro id other hother
      rw [fileOf_eq_some, fileOf_eq_some]
      refine exists_congr fun node => ?_
      rw [deleteFileNodes, Accounts.lookup_restrict_some, decide_eq_true_eq, and_assoc]
      refine and_congr_right fun _ => ⟨fun h => h.2, fun h => ⟨h ▸ hother, h⟩⟩
    have hgone : ∀ id, (s.deleteFileNodes file).fileOf id ≠ some file := by
      intro id h
      obtain ⟨node, hnode, hpath⟩ := fileOf_eq_some.mp h
      rw [deleteFileNodes, Accounts.lookup_restrict_some, decide_eq_true_eq] at hnode
      exact hnode.2 hpath
    have hends : ∀ id, s.fileOf id ≠ some file →
        ∀ other, ((s.deleteFileNodes file).fileOf id ≠ some other ↔ s.fileOf id ≠ some other) := by
      intro id hid other
      by_cases hother : other = file
      · rw [hother]
        exact ⟨fun _ => hid, fun _ => hgone id⟩
      · rw [ne_eq, hfile id other hother]
    rw [foldl_cons, ih, forall_mem_cons]
    have hfirst : (s.deleteFileNodes file).edges.lookup key = some edge ↔
        s.edges.lookup key = some edge ∧
          s.fileOf edge.sourceId ≠ some file ∧ s.fileOf edge.targetId ≠ some file := by
      rw [deleteFileNodes, Accounts.lookup_restrict_some, decide_eq_true_eq]
    rw [hfirst, and_assoc]
    refine and_congr_right fun _ => and_congr_right fun hfree => ?_
    refine forall₂_congr fun other _ => ?_
    rw [hends _ hfree.1, hends _ hfree.2]

theorem mem_dependencies {target source : String} : (target, source) ∈ s.dependencies ↔
    ∃ key edge, s.edges.lookup key = some edge ∧ s.fileOf edge.targetId = some target ∧
      s.fileOf edge.sourceId = some source := by
  unfold dependencies
  simp only [mem_filterMap, Option.bind_eq_some_iff, Option.map_eq_some_iff, Prod.mk.injEq]
  constructor
  · rintro ⟨entry, hentry, file, hfile, other, hother, rfl, rfl⟩
    exact ⟨entry.1, entry.2, Accounts.mem_entries.mp hentry, hfile, hother⟩
  · rintro ⟨key, edge, hlookup, htarget, hsource⟩
    exact ⟨⟨key, edge⟩, Accounts.mem_entries.mpr hlookup, target, htarget, source, hsource, rfl,
      rfl⟩

theorem mem_sourceFilesPointingToFiles : file ∈ s.sourceFilesPointingToFiles files ↔
    file ∉ files ∧ ∃ target ∈ files, (target, file) ∈ s.dependencies := by
  unfold sourceFilesPointingToFiles
  rw [mem_dedup, List.mem_map]
  constructor
  · rintro ⟨⟨target, source⟩, hmem, rfl⟩
    obtain ⟨hdep, htarget, hsource⟩ := mem_filter.mp hmem |>.imp_right of_decide_eq_true
    exact ⟨hsource, target, htarget, hdep⟩
  · rintro ⟨hsource, target, htarget, hdep⟩
    exact ⟨(target, file), mem_filter.mpr ⟨hdep, decide_eq_true ⟨htarget, hsource⟩⟩, rfl⟩

theorem mem_nodesInFile : node ∈ s.nodesInFile file ↔ node ∈ s.rows ∧ node.filePath = file := by
  rw [nodesInFile, mem_insertionSort, mem_filter, decide_eq_true_eq]

end GraphStore

end Aeqi.Graph
