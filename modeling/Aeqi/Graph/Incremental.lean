import Aeqi.Graph.Files

/-!
# Incremental indexing

What `index_incremental` leaves is what a full index would, as long as no name that a file refers
to finds another symbol: in a file that is not parsed again, because of what has changed elsewhere;
in one that is, because the new nodes come last. `incremental_eq_full` says so of every run.
-/

namespace Aeqi.Graph

open Aeqi.Lib List Option
open GraphStore (deleteFileNodes lookup_deleteFiles mem_rows)

variable {Text Commit : Type} {ctx : IndexerCtx Text Commit}

/-! ## The condition -/

section Condition

variable (ctx : IndexerCtx Text Commit) (tree : Tree Text) (p : Project Text Commit)
variable (s : GraphStore Commit) (changedFiles : List String)

/-- With these files parsed again, every name finds what it finds in the new tree: before, in the
last tree, for the other files, and for these among the other files' symbols and then their own.
A file that is not walked has nothing in it. -/
structure Undisturbed : Prop where
  kept : ∀ file ∈ parsed ctx p.worktree, file.1 ∉ changedFiles → ∀ edge ∈ file.2.edges,
    Agree (SymbolTable.index (treeNodes ctx tree)) (SymbolTable.index (treeNodes ctx p.worktree))
      file.1 edge
  reparsed : ∀ file ∈ ctx.reparsed p changedFiles, ∀ edge ∈ file.2.edges,
    Agree (SymbolTable.index (ctx.symbolNodes p s changedFiles))
      (SymbolTable.index (treeNodes ctx p.worktree)) file.1 edge
  walked : ∀ file ∈ ctx.reparsed p changedFiles,
    IndexerCtx.isWalked file.1 = true ∨ file.2.nodes = []

end Condition

/-! ## One call -/

section Reindex

variable {tree : Tree Text} {p : Project Text Commit} {s : GraphStore Commit} {head : Commit}
variable {changedFiles : List String} {file : String × FileExtraction} {node : CodeNode}
variable {edge : CodeEdge} {key : EdgeKey} {id path : String}

theorem mem_reparsed {x : FileExtraction} : (path, x) ∈ ctx.reparsed p changedFiles ↔
    path ∈ changedFiles ∧ ∃ text provider, p.worktree.lookup path = some text ∧
      ctx.providerOf path = some provider ∧ ctx.parse path text provider = some x := by
  unfold IndexerCtx.reparsed
  simp only [mem_filterMap, bind_eq_some_iff, map_eq_some_iff, Prod.mk.injEq]
  constructor
  · rintro ⟨_, hpath, text, htext, provider, hprovider, _, hparse, rfl, rfl⟩
    exact ⟨hpath, text, provider, htext, hprovider, hparse⟩
  · rintro ⟨hpath, text, provider, htext, hprovider, hparse⟩
    exact ⟨path, hpath, text, htext, provider, hprovider, x, hparse, rfl, rfl⟩

theorem mem_reparsed_of_parsed (hfile : file ∈ parsed ctx p.worktree)
    (hchanged : file.1 ∈ changedFiles) : file ∈ ctx.reparsed p changedFiles := by
  obtain ⟨text, provider, htext, -, hprovider, hparse⟩ := mem_parsed.mp hfile
  exact mem_reparsed.mpr ⟨hchanged, text, provider, htext, hprovider, hparse⟩

theorem source_reparsed (laws : Laws ctx) (hfile : file ∈ ctx.reparsed p changedFiles)
    (hedge : edge ∈ file.2.edges) : ∃ node ∈ file.2.nodes, node.id = edge.sourceId := by
  obtain ⟨-, text, provider, -, hprovider, hparse⟩ := mem_reparsed.mp hfile
  exact laws.source _ _ _ _ hprovider hparse edge hedge

theorem Undisturbed.mem_parsed (h : Undisturbed ctx tree p s changedFiles)
    (hfile : file ∈ ctx.reparsed p changedFiles) (hnode : node ∈ file.2.nodes) :
    file ∈ parsed ctx p.worktree ∧ file.1 ∈ changedFiles := by
  obtain ⟨hchanged, text, provider, htext, hprovider, hparse⟩ := mem_reparsed.mp hfile
  have hwalked := (h.walked file hfile).resolve_right (ne_nil_of_mem hnode)
  exact ⟨Graph.mem_parsed.mpr ⟨text, provider, htext, hwalked, hprovider, hparse⟩, hchanged⟩

variable (laws : Laws ctx) (hold : Unique ctx tree) (hnew : Unique ctx p.worktree)
variable (hs : Current ctx tree s) (h : Undisturbed ctx tree p s changedFiles)
variable (hsame : ∀ path, isSupportedSourcePath path = true → path ∉ changedFiles →
  tree.lookup path = p.worktree.lookup path)
variable (hclosed : ∀ target source, (target, source) ∈ s.dependencies → target ∈ changedFiles →
  source ∈ changedFiles)

include hsame in
theorem parsed_of_unchanged (hpath : file.1 ∉ changedFiles) :
    file ∈ parsed ctx tree ↔ file ∈ parsed ctx p.worktree := by
  rw [Graph.mem_parsed (x := file.2), Graph.mem_parsed]
  refine exists₂_congr fun text provider => ?_
  constructor
  · rintro ⟨htext, hwalked, hprovider, hparse⟩
    rw [hsame file.1 (isSupported_of_providerOf hprovider) hpath] at htext
    exact ⟨htext, hwalked, hprovider, hparse⟩
  · rintro ⟨htext, hwalked, hprovider, hparse⟩
    rw [← hsame file.1 (isSupported_of_providerOf hprovider) hpath] at htext
    exact ⟨htext, hwalked, hprovider, hparse⟩

include laws hold hs hsame in
theorem node_of_deleted
    (hnode : (changedFiles.foldl deleteFileNodes s).nodes.lookup id = some node) :
    node.id = id ∧ ∃ file ∈ parsed ctx p.worktree, file.1 ∉ changedFiles ∧ node ∈ file.2.nodes := by
  obtain ⟨hnode, hchanged⟩ := lookup_deleteFiles.mp hnode
  obtain ⟨hmem, hid⟩ := (hs.lookup_node hold).mp hnode
  obtain ⟨file, hfile, hmem⟩ := mem_flatMap.mp hmem
  rw [laws.filePath_parsed hfile hmem] at hchanged
  exact ⟨hid, file, (parsed_of_unchanged hsame hchanged).mp hfile, hchanged, hmem⟩

include laws hold hs hsame in
theorem owner_of_deleted
    (hedge : (changedFiles.foldl deleteFileNodes s).edges.lookup key = some edge) :
    ∃ file ∈ parsed ctx p.worktree, file.1 ∉ changedFiles ∧ ∃ node ∈ file.2.nodes, node.id = key.1 := by
  obtain ⟨hedge, hends⟩ := GraphStore.lookup_edges_deleteFiles.mp hedge
  obtain ⟨hkey, file, hfile, node, hnode, hid⟩ := owner_of_edge laws hs hedge
  have hsource : s.fileOf edge.sourceId = some file.1 := by
    rw [show edge.sourceId = key.1 from congrArg Prod.fst hkey, ← hid]
    exact hs.fileOf hold laws hfile hnode
  have hchanged : file.1 ∉ changedFiles := fun hmem => (hends file.1 hmem).1 hsource
  exact ⟨file, (parsed_of_unchanged hsame hchanged).mp hfile, hchanged, node, hnode, hid⟩

variable [DecidableEq Text]

include laws hold hnew hs h hsame in
theorem lookup_node_reindex : (ctx.reindex p s head changedFiles).nodes.lookup id =
    latest (·.id) id (treeNodes ctx p.worktree) := by
  have hreindex : (ctx.reindex p s head changedFiles).nodes.lookup id =
      (latest (·.id) id ((ctx.reparsed p changedFiles).flatMap fun file => file.2.nodes)).or
        ((changedFiles.foldl deleteFileNodes s).nodes.lookup id) := lookup_foldl_insert
  have hnewNode : ∀ node ∈ (ctx.reparsed p changedFiles).flatMap fun file => file.2.nodes,
      node ∈ treeNodes ctx p.worktree ∧ node.filePath ∈ changedFiles := by
    intro node hmem
    obtain ⟨file, hfile, hnode⟩ := mem_flatMap.mp hmem
    obtain ⟨hparsed, hchanged⟩ := h.mem_parsed hfile hnode
    rw [laws.filePath_parsed hparsed hnode]
    exact ⟨mem_flatMap.mpr ⟨file, hparsed, hnode⟩, hchanged⟩
  rw [hreindex]
  refine Option.ext fun node => ?_
  rw [latest_of_unique hnew, or_eq_some_iff]
  constructor
  · rintro (hlatest | ⟨-, hdeleted⟩)
    · obtain ⟨hmem, hid⟩ := latest_some hlatest
      exact ⟨(hnewNode node hmem).1, hid⟩
    · obtain ⟨hid, file, hfile, -, hnode⟩ := node_of_deleted laws hold hs hsame hdeleted
      exact ⟨mem_flatMap.mpr ⟨file, hfile, hnode⟩, hid⟩
  · rintro ⟨hmem, hid⟩
    obtain ⟨file, hfile, hnode⟩ := mem_flatMap.mp hmem
    by_cases hchanged : file.1 ∈ changedFiles
    · left
      have hin : node ∈ (ctx.reparsed p changedFiles).flatMap fun file => file.2.nodes :=
        mem_flatMap.mpr ⟨file, mem_reparsed_of_parsed hfile hchanged, hnode⟩
      cases hlatest : latest (·.id) id
          ((ctx.reparsed p changedFiles).flatMap fun file => file.2.nodes) with
      | none => exact absurd hid (latest_eq_none.mp hlatest node hin)
      | some found =>
        obtain ⟨hfound, hid'⟩ := latest_some hlatest
        rw [inj_on_of_nodup_map hnew hmem (hnewNode found hfound).1 (hid.trans hid'.symm)]
    · right
      constructor
      · refine latest_eq_none.mpr fun found hfound hid' => hchanged ?_
        rw [← laws.filePath_parsed hfile hnode,
          inj_on_of_nodup_map hnew hmem (hnewNode found hfound).1 (hid.trans hid'.symm)]
        exact (hnewNode found hfound).2
      · refine lookup_deleteFiles.mpr ⟨?_, laws.filePath_parsed hfile hnode ▸ hchanged⟩
        have hfile := (parsed_of_unchanged hsame hchanged).mpr hfile
        exact (hs.lookup_node hold).mpr ⟨mem_flatMap.mpr ⟨file, hfile, hnode⟩, hid⟩

omit [DecidableEq Text] in
include laws hold hnew hs h hsame in
theorem filePath_symbolNodes (hfile : file ∈ ctx.reparsed p changedFiles)
    (hnode : node ∈ file.2.nodes) (hid : node.id = id) :
    (nodeOf (ctx.symbolNodes p s changedFiles) id).map (·.filePath) = some file.1 := by
  obtain ⟨hparsed, hchanged⟩ := h.mem_parsed hfile hnode
  refine filePath_nodeOf ⟨node, mem_append_right _ ?_, hid⟩ fun node' hmem hid' => ?_
  · exact mem_flatMap.mpr ⟨file, hfile, hnode⟩
  have howner : ∃ file' ∈ parsed ctx p.worktree, node' ∈ file'.2.nodes := by
    rcases mem_append.mp hmem with hmem | hmem
    · obtain ⟨path, -, hmem⟩ := mem_flatMap.mp hmem
      obtain ⟨id', hrow⟩ := mem_rows.mp (GraphStore.mem_nodesInFile.mp hmem).1
      obtain ⟨-, file', hfile', -, hnode'⟩ := node_of_deleted laws hold hs hsame hrow
      exact ⟨file', hfile', hnode'⟩
    · obtain ⟨file', hfile', hnode'⟩ := mem_flatMap.mp hmem
      exact ⟨file', (h.mem_parsed hfile' hnode').1, hnode'⟩
  obtain ⟨file', hfile', hnode'⟩ := howner
  obtain ⟨rfl, -⟩ := hnew.owner laws hparsed hfile' hnode hnode' (hid.trans hid'.symm)
  exact laws.filePath_parsed hparsed hnode'

omit [DecidableEq Text] in
include laws hold hnew hs h hsame in
theorem fileEdges_reparsed (hfile : file ∈ ctx.reparsed p changedFiles) :
    fileEdges (ctx.symbolNodes p s changedFiles) file.2 =
      fileEdges (treeNodes ctx p.worktree) file.2 := by
  refine flatMap_congr fun edge hedge => congrArg (Option.getD · []) ?_
  obtain ⟨node, hnode, hid⟩ := source_reparsed laws hfile hedge
  obtain ⟨hparsed, -⟩ := h.mem_parsed hfile hnode
  exact (h.reparsed file hfile edge hedge).resolveEdge
    (filePath_symbolNodes laws hold hnew hs h hsame hfile hnode hid)
    (hnew.filePath_nodeOf laws hparsed hnode hid)

omit [DecidableEq Text] in
include laws hold hnew h hsame in
theorem fileEdges_kept (hfile : file ∈ parsed ctx p.worktree) (hchanged : file.1 ∉ changedFiles) :
    fileEdges (treeNodes ctx tree) file.2 = fileEdges (treeNodes ctx p.worktree) file.2 := by
  refine flatMap_congr fun edge hedge => congrArg (Option.getD · []) ?_
  obtain ⟨node, hnode, hid⟩ := laws.source_parsed hfile hedge
  have hbefore := (parsed_of_unchanged hsame hchanged).mpr hfile
  exact (h.kept file hfile hchanged edge hedge).resolveEdge
    (hold.filePath_nodeOf laws hbefore hnode hid) (hnew.filePath_nodeOf laws hfile hnode hid)

omit [DecidableEq Text] in
include laws hold hs hsame hclosed in
theorem lookup_edge_kept (hfile : file ∈ parsed ctx p.worktree) (hchanged : file.1 ∉ changedFiles)
    (hnode : node ∈ file.2.nodes) (hid : node.id = key.1) :
    (changedFiles.foldl deleteFileNodes s).edges.lookup key = s.edges.lookup key := by
  refine Option.ext fun edge => GraphStore.lookup_edges_deleteFiles.trans ?_
  refine and_iff_left_of_imp fun hedge other hother => ?_
  obtain ⟨hkey, -⟩ := owner_of_edge laws hs hedge
  have hbefore := (parsed_of_unchanged hsame hchanged).mpr hfile
  have hsource : s.fileOf edge.sourceId = some file.1 := by
    rw [show edge.sourceId = key.1 from congrArg Prod.fst hkey, ← hid]
    exact hs.fileOf hold laws hbefore hnode
  constructor
  · rw [hsource]
    exact fun heq => hchanged (some.inj heq ▸ hother)
  · intro htarget
    have hdep := GraphStore.mem_dependencies.mpr ⟨key, edge, hedge, htarget, hsource⟩
    exact hchanged (hclosed other file.1 hdep hother)

include laws hold hnew hs h hsame hclosed in
theorem lookup_edge_reindex : (ctx.reindex p s head changedFiles).edges.lookup key =
    latest CodeEdge.key key (treeEdges ctx p.worktree) := by
  have hreindex : (ctx.reindex p s head changedFiles).edges.lookup key =
      (latest CodeEdge.key key ((ctx.reparsed p changedFiles).flatMap fun file =>
        fileEdges (ctx.symbolNodes p s changedFiles) file.2)).or
        ((changedFiles.foldl deleteFileNodes s).edges.lookup key) := by
    refine lookup_foldl_insert.trans ?_
    unfold resolveGraph fileEdges
    rw [flatMap_assoc]
  -- a file that is parsed again and has the source is the one of the tree
  have hother : ∀ file ∈ parsed ctx p.worktree, ∀ node ∈ file.2.nodes, node.id = key.1 →
      ∀ file' ∈ ctx.reparsed p changedFiles, file' ≠ file →
        latest CodeEdge.key key (fileEdges (ctx.symbolNodes p s changedFiles) file'.2) = none := by
    intro file hfile node hnode hid file' hfile' hne
    refine latest_fileEdges_none (fun edge hedge => source_reparsed laws hfile' hedge) ?_
    intro node' hnode' hid'
    have hparsed := (h.mem_parsed hfile' hnode').1
    exact hne (hnew.owner laws hparsed hfile hnode' hnode (hid'.trans hid.symm)).1
  rw [hreindex]
  by_cases hex : ∃ file ∈ parsed ctx p.worktree, ∃ node ∈ file.2.nodes, node.id = key.1
  · obtain ⟨file, hfile, node, hnode, hid⟩ := hex
    rw [latest_treeEdges hnew laws hfile hnode hid]
    by_cases hchanged : file.1 ∈ changedFiles
    · have hagain := mem_reparsed_of_parsed hfile hchanged
      have hdeleted :
          (changedFiles.foldl deleteFileNodes s).edges.lookup key = none := by
        refine eq_none_iff_forall_ne_some.mpr fun edge hedge => ?_
        obtain ⟨file', hfile', hunchanged, node', hnode', hid'⟩ :=
          owner_of_deleted laws hold hs hsame hedge
        obtain ⟨rfl, -⟩ := hnew.owner laws hfile hfile' hnode hnode' (hid.trans hid'.symm)
        exact hunchanged hchanged
      rw [hdeleted, or_none,
        latest_flatMap (fun file' hfile' => hother file hfile node hnode hid file' hfile') hagain,
        fileEdges_reparsed laws hold hnew hs h hsame hagain]
    · have hnone : latest CodeEdge.key key ((ctx.reparsed p changedFiles).flatMap fun file =>
          fileEdges (ctx.symbolNodes p s changedFiles) file.2) = none := by
        refine latest_flatMap_none fun file' hfile' =>
          hother file hfile node hnode hid file' hfile' ?_
        rintro rfl
        exact hchanged (mem_reparsed.mp hfile').1
      have hbefore := (parsed_of_unchanged hsame hchanged).mpr hfile
      rw [hnone, none_or,
        lookup_edge_kept laws hold hs hsame hclosed hfile hchanged hnode hid, hs.edges,
        latest_treeEdges hold laws hbefore hnode hid,
        fileEdges_kept laws hold hnew h hsame hfile hchanged]
  · have hfull : latest CodeEdge.key key (treeEdges ctx p.worktree) = none := by
      refine latest_flatMap_none fun file hfile => ?_
      refine latest_fileEdges_none (fun edge hedge => laws.source_parsed hfile hedge) ?_
      exact fun node hnode hid => hex ⟨file, hfile, node, hnode, hid⟩
    have hagain : latest CodeEdge.key key ((ctx.reparsed p changedFiles).flatMap fun file =>
        fileEdges (ctx.symbolNodes p s changedFiles) file.2) = none := by
      refine latest_flatMap_none fun file hfile => ?_
      refine latest_fileEdges_none (fun edge hedge => source_reparsed laws hfile hedge) ?_
      exact fun node hnode hid => hex ⟨file, (h.mem_parsed hfile hnode).1, node, hnode, hid⟩
    have hdeleted : (changedFiles.foldl deleteFileNodes s).edges.lookup key = none := by
      refine eq_none_iff_forall_ne_some.mpr fun edge hedge => hex ?_
      obtain ⟨file, hfile, -, node, hnode, hid⟩ := owner_of_deleted laws hold hs hsame hedge
      exact ⟨file, hfile, node, hnode, hid⟩
    rw [hfull, hagain, hdeleted, or_none]

end Reindex

/-! ## What git reports -/

section Git

variable [DecidableEq Text] {tree a b : Tree Text} {p : Project Text Commit} {s : GraphStore Commit}
variable {files committed : List String} {path : String} {last head : Commit}

theorem mem_differing : path ∈ IndexerCtx.differing a b ↔ a.lookup path ≠ b.lookup path := by
  unfold IndexerCtx.differing
  rw [mem_filter, mem_dedup, mem_append, decide_eq_true_eq]
  refine and_iff_right_of_imp fun hne => ?_
  by_contra hkeys
  obtain ⟨ha, hb⟩ := not_or.mp hkeys
  exact hne ((AList.lookup_eq_none.mpr ha).trans (AList.lookup_eq_none.mpr hb).symm)

theorem mem_normalizeFileSet :
    path ∈ IndexerCtx.normalizeFileSet files ↔ path ∈ files ∧ isSupportedSourcePath path = true := by
  rw [IndexerCtx.normalizeFileSet, mem_insertionSort, mem_dedup, mem_filter]

def Recorded (ctx : IndexerCtx Text Commit) (tree : Tree Text) (s : GraphStore Commit) : Prop :=
  ∀ last, s.lastCommit = some last → ∀ path, isSupportedSourcePath path = true →
    path ∉ s.dirtyFiles → (ctx.contents last).lookup path = tree.lookup path

/-- What is not dirty is as in `HEAD`. -/
theorem lookup_of_not_dirty (hhead : p.head = some head) (hpath : isSupportedSourcePath path = true)
    (hclean : path ∉ ctx.dirtyWorktreeFiles p) :
    (ctx.contents head).lookup path = p.worktree.lookup path := by
  by_contra hne
  refine hclean (mem_normalizeFileSet.mpr ⟨mem_differing.mpr ?_, hpath⟩)
  rwa [hhead]

theorem recorded_head (hlast : s.lastCommit = p.head) (hdirty : s.dirtyFiles =
    ctx.dirtyWorktreeFiles p) : Recorded ctx p.worktree s := by
  intro last hlast' path hpath hclean
  exact lookup_of_not_dirty (hlast.symm.trans hlast') hpath (hdirty ▸ hclean)

theorem mem_filesToReparse (h : path ∈ IndexerCtx.changedFileSet committed
    (ctx.dirtyWorktreeFiles p) s.dirtyFiles) : path ∈ ctx.filesToReparse p s committed := by
  rw [IndexerCtx.filesToReparse, IndexerCtx.expandWithReverseDependencies, mem_insertionSort]
  exact subset_waves _ h

theorem not_mem_of_unchanged (hpath : isSupportedSourcePath path = true)
    (hunchanged : path ∉ ctx.filesToReparse p s committed) :
    path ∉ committed ∧ path ∉ ctx.dirtyWorktreeFiles p ∧ path ∉ s.dirtyFiles := by
  have hnot : path ∉ committed ++ ctx.dirtyWorktreeFiles p ++ s.dirtyFiles := fun hmem =>
    hunchanged (mem_filesToReparse (mem_normalizeFileSet.mpr ⟨hmem, hpath⟩))
  rwa [mem_append, mem_append, not_or, not_or, and_assoc] at hnot

theorem closed_filesToReparse {target source : String} (hdep : (target, source) ∈ s.dependencies)
    (htarget : target ∈ ctx.filesToReparse p s committed) :
    source ∈ ctx.filesToReparse p s committed := by
  unfold IndexerCtx.filesToReparse IndexerCtx.expandWithReverseDependencies at htarget ⊢
  rw [mem_insertionSort] at htarget ⊢
  refine @waves_closed _ _ s.dependencies _ _ _ _ _ _ ?_ ?_ ?_ (List.Subset.refl _) hdep htarget
  · exact fun level file => GraphStore.mem_sourceFilesPointingToFiles
  · exact fun _ _ _ hmem hnot => absurd hmem hnot
  · have hlength : s.dependencies.length ≤ s.edges.entries.length := length_filterMap_le _ _
    have hcount := countP_le_length (l := s.dependencies) (p := fun e => decide (e.2 ∉
      IndexerCtx.changedFileSet committed (ctx.dirtyWorktreeFiles p) s.dirtyFiles))
    split <;> omega

variable [DecidableEq Commit] (hrecorded : Recorded ctx tree s) (hlast : s.lastCommit = some last)
variable (hhead : p.head = some head)
variable (hcommitted : ctx.committedChanges p last head = some committed)

include hcommitted in
theorem lookup_of_not_committed (hpath : path ∉ committed) :
    (ctx.contents last).lookup path = (ctx.contents head).lookup path := by
  unfold IndexerCtx.committedChanges at hcommitted
  split at hcommitted
  · rename_i heq
    rw [heq]
  · split at hcommitted
    · by_contra hne
      exact hpath (some.inj hcommitted ▸ mem_differing.mpr hne)
    · cases hcommitted

include hhead hcommitted in
theorem lookup_last_of_unchanged (hpath : isSupportedSourcePath path = true)
    (hunchanged : path ∉ ctx.filesToReparse p s committed) :
    (ctx.contents last).lookup path = p.worktree.lookup path := by
  obtain ⟨hcommit, hclean, -⟩ := not_mem_of_unchanged hpath hunchanged
  rw [lookup_of_not_committed hcommitted hcommit, lookup_of_not_dirty hhead hpath hclean]

include hrecorded hlast hhead hcommitted in
theorem lookup_of_unchanged (hpath : isSupportedSourcePath path = true)
    (hunchanged : path ∉ ctx.filesToReparse p s committed) :
    tree.lookup path = p.worktree.lookup path := by
  obtain ⟨-, -, hbefore⟩ := not_mem_of_unchanged hpath hunchanged
  rw [← hrecorded last hlast path hpath hbefore]
  exact lookup_last_of_unchanged hhead hcommitted hpath hunchanged

end Git

/-! ## Runs -/

section Runs

variable [DecidableEq Text] [DecidableEq Commit]

/-- The condition on one call that does not fall back to the full index. -/
def Quiet (ctx : IndexerCtx Text Commit) (tree : Tree Text) (p : Project Text Commit)
    (s : GraphStore Commit) : Prop :=
  ∀ last head committed, ctx.isUnsafe p s = false → s.lastCommit = some last →
    p.head = some head → ctx.committedChanges p last head = some committed →
      Undisturbed ctx tree p s (ctx.filesToReparse p s committed)

variable {tree : Tree Text} {p : Project Text Commit} {s : GraphStore Commit}

omit [DecidableEq Commit] in
theorem recorded_index (ctx : IndexerCtx Text Commit) (p : Project Text Commit) :
    Recorded ctx p.worktree (ctx.index p) := recorded_head rfl rfl

theorem current_indexIncremental (laws : Laws ctx) (hold : Unique ctx tree)
    (hnew : Unique ctx p.worktree) (hs : Current ctx tree s) (hrecorded : Recorded ctx tree s)
    (hquiet : Quiet ctx tree p s) : Current ctx p.worktree (ctx.indexIncremental p s) ∧
      Recorded ctx p.worktree (ctx.indexIncremental p s) := by
  have hfull := And.intro (current_index ctx p) (recorded_index ctx p)
  unfold IndexerCtx.indexIncremental
  split
  · exact hfull
  · rename_i hsafe
    split
    · rename_i last head hlast hhead
      split
      · exact hfull
      · rename_i committed hcommitted
        have h := hquiet last head committed (Bool.eq_false_iff.mpr hsafe) hlast hhead hcommitted
        have hsame := fun path (hpath : isSupportedSourcePath path = true) =>
          lookup_of_unchanged hrecorded hlast hhead hcommitted hpath
        have hclosed := fun target source (hdep : (target, source) ∈ s.dependencies) =>
          @closed_filesToReparse _ _ ctx _ p s committed _ _ hdep
        have hreindex : Current ctx p.worktree
            (ctx.reindex p s head (ctx.filesToReparse p s committed)) :=
          ⟨fun _ => lookup_node_reindex laws hold hnew hs h hsame,
            fun _ => lookup_edge_reindex laws hold hnew hs h hsame hclosed⟩
        simp only
        split
        · rename_i hnone
          rw [hnone] at hreindex
          refine ⟨⟨hreindex.nodes, hreindex.edges⟩, fun last' hlast' path hpath _ => ?_⟩
          obtain rfl : last = last' := some.inj (hlast.symm.trans hlast')
          exact lookup_last_of_unchanged hhead hcommitted hpath (hnone ▸ not_mem_nil)
        · exact ⟨hreindex, recorded_head hhead.symm rfl⟩
    · exact hfull

/-- Between the calls anything may happen to the project. -/
inductive Call (Text Commit : Type)
  | edit (p : Project Text Commit)
  | index
  | indexIncremental

/-- The project and the store, and the directory as it was at the last call. -/
structure World (Text Commit : Type) where
  project : Project Text Commit
  store : GraphStore Commit
  indexed : Tree Text

def World.start (p : Project Text Commit) : World Text Commit := ⟨p, .empty, ∅⟩

def World.step (ctx : IndexerCtx Text Commit) (w : World Text Commit) :
    Call Text Commit → World Text Commit
  | .edit p => { w with project := p }
  | .index => { w with store := ctx.index w.project, indexed := w.project.worktree }
  | .indexIncremental =>
    { w with store := ctx.indexIncremental w.project w.store, indexed := w.project.worktree }

def World.run (ctx : IndexerCtx Text Commit) (w : World Text Commit)
    (calls : List (Call Text Commit)) : World Text Commit :=
  calls.foldl (World.step ctx) w

def QuietRun (ctx : IndexerCtx Text Commit) : World Text Commit → List (Call Text Commit) → Prop
  | _, [] => True
  | w, .indexIncremental :: calls =>
    Quiet ctx w.indexed w.project w.store ∧ QuietRun ctx (w.step ctx .indexIncremental) calls
  | w, call :: calls => QuietRun ctx (w.step ctx call) calls

structure Same (s s' : GraphStore Commit) : Prop where
  nodes : ∀ id, s.nodes.lookup id = s'.nodes.lookup id
  edges : ∀ key, s.edges.lookup key = s'.edges.lookup key

structure UpToDate (ctx : IndexerCtx Text Commit) (w : World Text Commit) : Prop where
  unique : Unique ctx w.indexed
  current : Current ctx w.indexed w.store
  recorded : Recorded ctx w.indexed w.store

variable {w : World Text Commit} {calls : List (Call Text Commit)}

omit [DecidableEq Text] [DecidableEq Commit] in
theorem upToDate_start : UpToDate ctx (World.start p) where
  unique := nodup_nil
  current := current_empty
  recorded := fun _ hlast => by cases hlast

omit [DecidableEq Commit] in
theorem UpToDate.index (hunique : Unique ctx w.project.worktree) :
    UpToDate ctx { w with store := ctx.index w.project, indexed := w.project.worktree } where
  unique := hunique
  current := current_index ctx w.project
  recorded := recorded_index ctx w.project

theorem UpToDate.indexIncremental (laws : Laws ctx) (h : UpToDate ctx w)
    (hunique : Unique ctx w.project.worktree)
    (hquiet : Quiet ctx w.indexed w.project w.store) :
    UpToDate ctx (w.step ctx .indexIncremental) := by
  obtain ⟨hcurrent, hrecorded⟩ :=
    current_indexIncremental laws h.unique hunique h.current h.recorded hquiet
  exact ⟨hunique, hcurrent, hrecorded⟩

theorem UpToDate.run (laws : Laws ctx) (h : UpToDate ctx w) (hw : Unique ctx w.project.worktree)
    (hunique : ∀ p, .edit p ∈ calls → Unique ctx p.worktree) (hquiet : QuietRun ctx w calls) :
    UpToDate ctx (w.run ctx calls) ∧ Unique ctx (w.run ctx calls).project.worktree := by
  induction calls generalizing w with
  | nil => exact ⟨h, hw⟩
  | cons call calls ih =>
    have hrest : ∀ p, .edit p ∈ calls → Unique ctx p.worktree := fun p hp =>
      hunique p (mem_cons_of_mem _ hp)
    cases call with
    | edit p =>
      have hedited : UpToDate ctx (w.step ctx (.edit p)) := ⟨h.unique, h.current, h.recorded⟩
      exact ih hedited (hunique p mem_cons_self) hrest hquiet
    | index => exact ih (.index hw) hw hrest hquiet
    | indexIncremental => exact ih (h.indexIncremental laws hw hquiet.1) hw hrest hquiet.2

/-- After an incremental call the store is that of a full index. -/
theorem incremental_eq_full (laws : Laws ctx) (hp : Unique ctx p.worktree)
    (hunique : ∀ p, .edit p ∈ calls → Unique ctx p.worktree)
    (hquiet : QuietRun ctx (World.start p) (calls ++ [.indexIncremental])) :
    Same ((World.start p).run ctx (calls ++ [.indexIncremental])).store
      (ctx.index ((World.start p).run ctx (calls ++ [.indexIncremental])).project) := by
  have hedits : ∀ p, .edit p ∈ calls ++ [.indexIncremental] → Unique ctx p.worktree := by
    intro p hmem
    refine hunique p ((mem_append.mp hmem).resolve_right fun hlast => ?_)
    cases mem_singleton.mp hlast
  obtain ⟨h, -⟩ := upToDate_start.run laws hp hedits hquiet
  have hindexed : ((World.start p).run ctx (calls ++ [.indexIncremental])).indexed =
      ((World.start p).run ctx (calls ++ [.indexIncremental])).project.worktree := by
    unfold World.run
    rw [foldl_append]
    rfl
  have hcurrent := h.current
  rw [hindexed] at hcurrent
  have hfull := current_index ctx ((World.start p).run ctx (calls ++ [.indexIncremental])).project
  exact ⟨fun id => (hcurrent.nodes id).trans (hfull.nodes id).symm,
    fun key => (hcurrent.edges key).trans (hfull.edges key).symm⟩

end Runs

/-! ### Two small projects -/

section Small

def rustFile (path : String) (name : String) (lines : Nat) : CodeNode :=
  ⟨"rust:file:" ++ path ++ ":1", .file, name, path, 1, lines, "rust", false, none, none⟩

def rustFunction (path name : String) (first last : Nat) : CodeNode :=
  ⟨"rust:function:" ++ path ++ ":" ++ String.singleton (Nat.digitChar first), .function, name, path,
    first, last, "rust", true, some ("fn " ++ name ++ "()"), none⟩

def oneFunction (path file name : String) (first last : Nat) (uses calls : List String) :
    FileExtraction :=
  let root := rustFile path file last
  let function := rustFunction path name first last
  { nodes := [root, function]
    edges := (uses.map fun target => ⟨root.id, "unresolved:import:" ++ target, .imports, none⟩) ++
      ⟨root.id, function.id, .contains, none⟩ ::
      calls.map fun target => ⟨function.id, "unresolved:call:" ++ target, .calls, none⟩ }

def helperText : String := "pub fn helper() {}\n"

def shiftedText : String := "// shifted\npub fn helper() {}\n"

def otherText : String := "pub fn other() {}\n"

def callerText : String := "use crate::callee::helper;\npub fn caller() \x7b\n    helper()\n\x7d\n"

/-- What the parser makes of these texts. -/
def smallRust (source path : String) : Option FileExtraction :=
  let file := String.ofList ((path.toList.splitOn '/').getLast?.getD [])
  if source = helperText then some (oneFunction path file "helper" 1 1 [] [])
  else if source = shiftedText then some (oneFunction path file "helper" 2 2 [] [])
  else if source = otherText then some (oneFunction path file "other" 1 1 [] [])
  else if source = callerText then
    some (oneFunction path file "caller" 2 4 ["use crate::callee::helper;"] ["helper"])
  else none

/-- Commits are known by the directory they were made of. -/
def smallCtx (commit : List (String × String)) : IndexerCtx String Unit where
  projectDir := "/project"
  readToString := some
  extractRust := smallRust
  extractTypeScript _ _ := none
  extractSolidity _ _ := none
  buildTypeEnvRust _ _ := ⟨∅⟩
  distinct := List.dedup
  contents _ := (commit.map fun file => (⟨file.1, file.2⟩ : Sigma fun _ => String)).toAList

def smallProject (files : List (String × String)) : Project String Unit where
  worktree := (files.map fun file => (⟨file.1, file.2⟩ : Sigma fun _ => String)).toAList
  head := some ()
  objects := [()]

/-- `callee.rs` is edited; it is called from `caller.rs`, and not from `other.rs`. -/
def calleeBefore : List (String × String) :=
  [("src/callee.rs", helperText), ("src/caller.rs", callerText), ("src/other.rs", otherText)]

def calleeAfter : List (String × String) :=
  [("src/callee.rs", shiftedText), ("src/caller.rs", callerText), ("src/other.rs", otherText)]

/-- `caller.rs` is not parsed again when the function it calls is written. -/
def missingBefore : List (String × String) :=
  [("src/callee.rs", otherText), ("src/caller.rs", callerText)]

def missingAfter : List (String × String) :=
  [("src/callee.rs", helperText), ("src/caller.rs", callerText)]

variable {path file name source : String} {first last : Nat} {uses calls : List String}

theorem filePath_oneFunction : ∀ node ∈ (oneFunction path file name first last uses calls).nodes,
    node.filePath = path := by
  intro node hnode
  rcases mem_pair.mp hnode with rfl | rfl <;> rfl

theorem source_oneFunction : ∀ edge ∈ (oneFunction path file name first last uses calls).edges,
    ∃ node ∈ (oneFunction path file name first last uses calls).nodes, node.id = edge.sourceId := by
  intro edge hedge
  rcases mem_append.mp hedge with hedge | hedge
  · obtain ⟨-, -, rfl⟩ := List.mem_map.mp hedge
    exact ⟨_, mem_cons_self, rfl⟩
  · rcases mem_cons.mp hedge with rfl | hedge
    · exact ⟨_, mem_cons_self, rfl⟩
    · obtain ⟨-, -, rfl⟩ := List.mem_map.mp hedge
      exact ⟨_, mem_cons_of_mem _ mem_cons_self, rfl⟩

theorem smallRust_eq_some {x : FileExtraction} (h : smallRust source path = some x) :
    ∃ file name first last uses calls, x = oneFunction path file name first last uses calls := by
  unfold smallRust at h
  split_ifs at h
  all_goals exact ⟨_, _, _, _, _, _, (some.inj h).symm⟩

theorem laws_smallCtx (commit : List (String × String)) : Laws (smallCtx commit) := by
  have hparse : ∀ path text provider x, (smallCtx commit).providerOf path = some provider →
      (smallCtx commit).parse path text provider = some x → ∃ file name first last uses calls,
          x = oneFunction path file name first last uses calls := by
    intro path text provider x hprovider hparse
    obtain ⟨ext, -, hfind⟩ := bind_eq_some_iff.mp hprovider
    have hmem := mem_of_find?_eq_some hfind
    simp only [IndexerCtx.providers, mem_cons, not_mem_nil, or_false] at hmem
    rcases hmem with rfl | rfl | rfl
    · exact smallRust_eq_some hparse
    · cases hparse
    · cases hparse
  refine ⟨fun path text provider x hprovider hx => ?_, fun path text provider x hprovider hx => ?_,
    fun _ _ => mem_dedup⟩
  · obtain ⟨-, -, -, -, -, -, rfl⟩ := hparse path text provider x hprovider hx
    exact filePath_oneFunction
  · obtain ⟨-, -, -, -, -, -, rfl⟩ := hparse path text provider x hprovider hx
    exact source_oneFunction

theorem quiet_callee : QuietRun (smallCtx calleeBefore) (.start (smallProject calleeBefore))
    [.index, .edit (smallProject calleeAfter), .indexIncremental] := by
  refine ⟨fun last head committed _ _ _ hcommitted => ?_, trivial⟩
  cases last
  cases head
  cases hcommitted
  refine ⟨?_, ?_, ?_⟩
  all_goals decide +kernel

/-- The call of a function that has moved is found again. -/
theorem callee_incremental_eq_full :
    Same ((World.start (smallProject calleeBefore)).run (smallCtx calleeBefore)
        [.index, .edit (smallProject calleeAfter), .indexIncremental]).store
      ((smallCtx calleeBefore).index (smallProject calleeAfter)) := by
  refine @incremental_eq_full _ _ _ _ _ (smallProject calleeBefore)
    [.index, .edit (smallProject calleeAfter)] (laws_smallCtx calleeBefore) ?_ ?_ quiet_callee
  · unfold Unique
    decide +kernel
  · intro p hp
    obtain rfl : p = smallProject calleeAfter := by simpa using hp
    unfold Unique
    decide +kernel

theorem missing_incremental_ne_full :
    Laws (smallCtx missingBefore) ∧
    Unique (smallCtx missingBefore) (smallProject missingBefore).worktree ∧
    Unique (smallCtx missingBefore) (smallProject missingAfter).worktree ∧
    ¬ Same ((World.start (smallProject missingBefore)).run (smallCtx missingBefore)
        [.index, .edit (smallProject missingAfter), .indexIncremental]).store
      ((smallCtx missingBefore).index (smallProject missingAfter)) := by
  refine ⟨laws_smallCtx missingBefore, ?_, ?_, fun h => ?_⟩
  · unfold Unique
    decide +kernel
  · unfold Unique
    decide +kernel
  · have hcall := h.edges ("rust:function:src/caller.rs:2", "rust:function:src/callee.rs:1", .calls)
    revert hcall
    decide +kernel

end Small

end Aeqi.Graph
