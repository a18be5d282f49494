import Aeqi.Graph.Store
import Aeqi.Lib.Closure

/-!
# What a store holds of a project

After a full index the store has the nodes of all files, and for each file its resolved edges.
Every node and every edge belongs to one file, so a store can be compared file by file.
-/

/-!
## Indexing a project (`index/mod.rs`)

A project is what lies in its directory and what git knows of it. Git reports exactly the files
that differ; the lines it writes are read back from the store as they were written. Communities,
processes, counts and times are left out.
-/

namespace Aeqi.Graph

open Aeqi.Lib

/-- The files of a directory, in the order in which they are found. -/
abbrev Tree (Text : Type) := Accounts String Text

structure LanguageProvider where
  languageId : String
  extensions : List String
  extract : String → String → Option FileExtraction

/-- The parsers, the texts of files and commits, and the order of `SELECT DISTINCT`. -/
structure IndexerCtx (Text Commit : Type) where
  projectDir : String
  readToString : Text → Option String
  extractRust : String → String → Option FileExtraction
  extractTypeScript : String → String → Option FileExtraction
  extractSolidity : String → String → Option FileExtraction
  buildTypeEnvRust : String → String → TypeEnv
  distinct : List String → List String
  contents : Commit → Tree Text

/-- The directory, `HEAD`, and the commits that git still has. -/
structure Project (Text Commit : Type) where
  worktree : Tree Text
  head : Option Commit
  objects : List Commit

namespace IndexerCtx

variable {Text Commit : Type} [DecidableEq Text] [DecidableEq Commit]
variable (ctx : IndexerCtx Text Commit)

/-! ## Files -/

def providers : List LanguageProvider :=
  [⟨"rust", ["rs"], ctx.extractRust⟩,
    ⟨"typescript", ["ts", "tsx", "js", "jsx"], ctx.extractTypeScript⟩,
    ⟨"solidity", ["sol"], ctx.extractSolidity⟩]

def providerOf (path : String) : Option LanguageProvider :=
  (extension path).bind fun ext =>
    ctx.providers.find? fun provider => (provider.extensions.map String.toList).contains ext

/-- Hidden names, and those of directories with nothing of the project. -/
def isSkipped (name : List Char) : Bool :=
  name.head? = some '.' ∨ (["target", "node_modules", "vendor"].map String.toList).contains name

def isWalked (path : String) : Bool := (path.toList.splitOn '/').all fun name => !isSkipped name

def collectFiles (tree : Tree Text) : List (String × Text × LanguageProvider) :=
  tree.entries.filterMap fun file =>
    if isWalked file.1 then (ctx.providerOf file.1).map fun provider => (file.1, file.2, provider)
    else none

def parse (path : String) (text : Text) (provider : LanguageProvider) : Option FileExtraction :=
  (ctx.readToString text).bind fun source => provider.extract source path

/-- Every file that can be parsed, with what is in it. -/
def extractions (files : List (String × Text × LanguageProvider)) :
    List (String × FileExtraction) :=
  files.filterMap fun file => (ctx.parse file.1 file.2.1 file.2.2).map fun x => (file.1, x)

def typeEnvs (files : List (String × Text × LanguageProvider)) : Accounts String TypeEnv :=
  files.foldl (fun envs file =>
    match ctx.readToString file.2.1 with
    | none => envs
    | some source =>
      let env := ctx.buildTypeEnvRust source file.1
      if file.2.2.languageId = "rust" ∧ 0 < env.bindingCount then envs.insert file.1 env
      else envs) ∅

/-! ## Git -/

def differing (a b : Tree Text) : List String :=
  (a.keys ++ b.keys).dedup.filter fun path => a.lookup path ≠ b.lookup path

def normalizeFileSet (files : List String) : List String :=
  (files.filter isSupportedSourcePath).dedup.insertionSort (· ≤ ·)

/-- `git diff HEAD` and the untracked files. -/
def dirtyWorktreeFiles (p : Project Text Commit) : List String :=
  normalizeFileSet (differing (p.head.elim ∅ ctx.contents) p.worktree)

/-- `git diff` between two commits, unless one of them is gone. -/
def committedChanges (p : Project Text Commit) (last head : Commit) : Option (List String) :=
  if last = head then some []
  else if last ∈ p.objects ∧ head ∈ p.objects then
    some (differing (ctx.contents last) (ctx.contents head))
  else none

def changedFileSet (committed currentDirty previousDirty : List String) : List String :=
  normalizeFileSet (committed ++ currentDirty ++ previousDirty)

/-! ## The full index -/

def index (p : Project Text Commit) : GraphStore Commit :=
  let files := ctx.collectFiles p.worktree
  let parsed := ctx.extractions files
  let allNodes := parsed.flatMap fun file => file.2.nodes
  let allEdges := parsed.flatMap fun file => file.2.edges
  let resolved := (resolveGraph allNodes (ctx.typeEnvs files) allEdges).1
  { (GraphStore.empty : GraphStore Commit).batchInsert allNodes resolved with
    repoPath := some ctx.projectDir
    lastCommit := p.head
    dirtyFiles := ctx.dirtyWorktreeFiles p }

/-! ## The incremental index -/

/-- The two counts of `health`: the files of the project, and those of them with nodes. -/
def coverage (p : Project Text Commit) (s : GraphStore Commit) : Nat × Nat :=
  let files := ctx.collectFiles p.worktree
  (files.length, files.countP fun file => file.1 ∈ s.sourceFilePaths)

/-- `index_incremental` gives up: another project, no commit, or files without nodes. -/
def isUnsafe (p : Project Text Commit) (s : GraphStore Commit) : Bool :=
  let (expected, indexed) := ctx.coverage p s
  s.repoPath ≠ some ctx.projectDir ∨ s.lastCommit = none ∨ expected = 0 ∨ indexed < expected

def expandWithReverseDependencies (s : GraphStore Commit) (changedFiles : List String) :
    List String :=
  (waves s.sourceFilesPointingToFiles (s.edges.entries.length + 1) changedFiles
    changedFiles).insertionSort (· ≤ ·)

def filesToReparse (p : Project Text Commit) (s : GraphStore Commit) (committed : List String) :
    List String :=
  expandWithReverseDependencies s
    (changedFileSet committed (ctx.dirtyWorktreeFiles p) s.dirtyFiles)

def reparsed (p : Project Text Commit) (changedFiles : List String) :
    List (String × FileExtraction) :=
  changedFiles.filterMap fun path =>
    (p.worktree.lookup path).bind fun text =>
      (ctx.providerOf path).bind fun provider =>
        (ctx.parse path text provider).map fun x => (path, x)

def existingNodes (s : GraphStore Commit) : List CodeNode :=
  (ctx.distinct ((s.rows.filter GraphStore.isSourceNode).map (·.filePath))).flatMap s.nodesInFile

/-- The nodes that the new edges are resolved against: the new ones come last. -/
def symbolNodes (p : Project Text Commit) (s : GraphStore Commit) (changedFiles : List String) :
    List CodeNode :=
  ctx.existingNodes (changedFiles.foldl GraphStore.deleteFileNodes s) ++
    (ctx.reparsed p changedFiles).flatMap fun file => file.2.nodes

def reindex (p : Project Text Commit) (s : GraphStore Commit) (head : Commit)
    (changedFiles : List String) : GraphStore Commit :=
  let deleted := changedFiles.foldl GraphStore.deleteFileNodes s
  let parsed := ctx.reparsed p changedFiles
  let newNodes := parsed.flatMap fun file => file.2.nodes
  let newEdges := parsed.flatMap fun file => file.2.edges
  let resolved := (resolveGraph (ctx.symbolNodes p s changedFiles) ∅ newEdges).1
  { deleted.batchInsert newNodes resolved with
    repoPath := some ctx.projectDir
    lastCommit := some head
    dirtyFiles := ctx.dirtyWorktreeFiles p }

def indexIncremental (p : Project Text Commit) (s : GraphStore Commit) : GraphStore Commit :=
  if ctx.isUnsafe p s then ctx.index p
  else
    match s.lastCommit, p.head with
    | some last, some head =>
      match ctx.committedChanges p last head with
      | none => ctx.index p
      | some committed =>
        let changedFiles := ctx.filesToReparse p s committed
        if changedFiles = [] then { s with dirtyFiles := [] }
        else ctx.reindex p s head changedFiles
    | _, _ => ctx.index p

end IndexerCtx

open List Option

variable {Text Commit : Type} {ctx : IndexerCtx Text Commit}

/-! ## The files of a tree -/

section Trees

variable (ctx : IndexerCtx Text Commit) (tree : Tree Text)

def parsed : List (String × FileExtraction) := ctx.extractions (ctx.collectFiles tree)

def treeNodes : List CodeNode := (parsed ctx tree).flatMap fun file => file.2.nodes

def fileEdges (nodes : List CodeNode) (x : FileExtraction) : List CodeEdge :=
  x.edges.flatMap fun edge => (resolveEdge nodes ∅ edge).getD []

def treeEdges : List CodeEdge :=
  (parsed ctx tree).flatMap fun file => fileEdges (treeNodes ctx tree) file.2

def Unique : Prop := ((treeNodes ctx tree).map (·.id)).Nodup

/-- Providers make nodes of the file they parse, and edges out of these; `DISTINCT` drops nothing
but what is there twice. -/
structure Laws : Prop where
  filePath : ∀ path text provider x, ctx.providerOf path = some provider →
    ctx.parse path text provider = some x → ∀ node ∈ x.nodes, node.filePath = path
  source : ∀ path text provider x, ctx.providerOf path = some provider →
    ctx.parse path text provider = some x →
      ∀ edge ∈ x.edges, ∃ node ∈ x.nodes, node.id = edge.sourceId
  distinct : ∀ files file, file ∈ ctx.distinct files ↔ file ∈ files

/-- The tables are those of the tree. -/
structure Current (s : GraphStore Commit) : Prop where
  nodes : ∀ id, s.nodes.lookup id = latest (·.id) id (treeNodes ctx tree)
  edges : ∀ key, s.edges.lookup key = latest CodeEdge.key key (treeEdges ctx tree)

end Trees

section Owners

variable {tree : Tree Text} {path : String} {x : FileExtraction}
variable {file file' : String × FileExtraction}
variable {node : CodeNode} {edge : CodeEdge} {key : EdgeKey} {id : String} {nodes : List CodeNode}
variable {s : GraphStore Commit}

theorem mem_parsed : (path, x) ∈ parsed ctx tree ↔ ∃ text provider, tree.lookup path = some text ∧
    IndexerCtx.isWalked path = true ∧ ctx.providerOf path = some provider ∧
      ctx.parse path text provider = some x := by
  unfold parsed IndexerCtx.extractions IndexerCtx.collectFiles
  simp only [mem_filterMap, map_eq_some_iff, Prod.mk.injEq, ite_none_right_eq_some]
  constructor
  · rintro ⟨_, ⟨entry, hentry, hwalked, provider, hprovider, rfl⟩, _, hparse, rfl, rfl⟩
    exact ⟨entry.2, provider, Accounts.mem_entries.mp hentry, hwalked, hprovider, hparse⟩
  · rintro ⟨text, provider, hlookup, hwalked, hprovider, hparse⟩
    exact ⟨(path, text, provider), ⟨⟨path, text⟩, Accounts.mem_entries.mpr hlookup, hwalked,
      provider, hprovider, rfl⟩, x, hparse, rfl, rfl⟩

theorem isSupported_of_providerOf {provider : LanguageProvider}
    (h : ctx.providerOf path = some provider) : isSupportedSourcePath path = true := by
  obtain ⟨ext, hext, hfind⟩ := bind_eq_some_iff.mp h
  have hmem := mem_of_find?_eq_some hfind
  have hin := find?_some hfind
  simp only [contains_iff_mem] at hin
  rw [isSupportedSourcePath, hext]
  refine decide_eq_true ?_
  simp only [IndexerCtx.providers, mem_cons, not_mem_nil, or_false] at hmem
  rcases hmem with rfl | rfl | rfl
  all_goals
    simp only [map_cons, map_nil, mem_cons, not_mem_nil, or_false] at hin ⊢
    tauto

theorem Laws.filePath_parsed (laws : Laws ctx) (hfile : file ∈ parsed ctx tree)
    (hnode : node ∈ file.2.nodes) : node.filePath = file.1 := by
  obtain ⟨text, provider, -, -, hprovider, hparse⟩ := mem_parsed.mp hfile
  exact laws.filePath _ _ _ _ hprovider hparse node hnode

theorem Laws.source_parsed (laws : Laws ctx) (hfile : file ∈ parsed ctx tree)
    (hedge : edge ∈ file.2.edges) : ∃ node ∈ file.2.nodes, node.id = edge.sourceId := by
  obtain ⟨text, provider, -, -, hprovider, hparse⟩ := mem_parsed.mp hfile
  exact laws.source _ _ _ _ hprovider hparse edge hedge

theorem eq_of_parsed (hfile : file ∈ parsed ctx tree) (hfile' : file' ∈ parsed ctx tree)
    (hpath : file.1 = file'.1) : file = file' := by
  obtain ⟨text, provider, htext, -, hprovider, hparse⟩ := mem_parsed.mp hfile
  obtain ⟨text', provider', htext', -, hprovider', hparse'⟩ := mem_parsed.mp hfile'
  rw [← hpath, htext] at htext'
  rw [← hpath, hprovider] at hprovider'
  rw [← hpath, ← some.inj htext', ← some.inj hprovider', hparse] at hparse'
  exact Prod.ext hpath (some.inj hparse')

theorem Unique.owner (hunique : Unique ctx tree) (laws : Laws ctx) {node' : CodeNode}
    (hfile : file ∈ parsed ctx tree) (hfile' : file' ∈ parsed ctx tree)
    (hnode : node ∈ file.2.nodes) (hnode' : node' ∈ file'.2.nodes) (hid : node.id = node'.id) :
    file = file' ∧ node = node' := by
  have hmem : node ∈ treeNodes ctx tree := mem_flatMap.mpr ⟨file, hfile, hnode⟩
  have hmem' : node' ∈ treeNodes ctx tree := mem_flatMap.mpr ⟨file', hfile', hnode'⟩
  have hsame : node = node' := inj_on_of_nodup_map hunique hmem hmem' hid
  refine ⟨eq_of_parsed hfile hfile' ?_, hsame⟩
  rw [← laws.filePath_parsed hfile hnode, ← laws.filePath_parsed hfile' hnode', hsame]

theorem latest_of_unique {l : List CodeNode} (hnodup : (l.map (·.id)).Nodup) :
    latest (·.id) id l = some node ↔ node ∈ l ∧ node.id = id := by
  refine ⟨latest_some, ?_⟩
  rintro ⟨hmem, rfl⟩
  exact latest_of_nodup hnodup hmem

theorem source_fileEdges (hsource : ∀ edge ∈ x.edges, ∃ node ∈ x.nodes, node.id = edge.sourceId)
    (hedge : edge ∈ fileEdges nodes x) : ∃ node ∈ x.nodes, node.id = edge.sourceId := by
  obtain ⟨raw, hraw, hmem⟩ := mem_flatMap.mp hedge
  rw [sourceId_resolveEdge hmem]
  exact hsource raw hraw

theorem latest_fileEdges_none
    (hsource : ∀ edge ∈ x.edges, ∃ node ∈ x.nodes, node.id = edge.sourceId)
    (hnone : ∀ node ∈ x.nodes, node.id ≠ key.1) :
    latest CodeEdge.key key (fileEdges nodes x) = none := by
  refine latest_eq_none.mpr fun edge hedge hkey => ?_
  obtain ⟨node, hnode, hid⟩ := source_fileEdges hsource hedge
  exact hnone node hnode (hid.trans (congrArg Prod.fst hkey))

theorem latest_treeEdges (hunique : Unique ctx tree) (laws : Laws ctx)
    (hfile : file ∈ parsed ctx tree) (hnode : node ∈ file.2.nodes) (hid : node.id = key.1) :
    latest CodeEdge.key key (treeEdges ctx tree) =
      latest CodeEdge.key key (fileEdges (treeNodes ctx tree) file.2) := by
  refine latest_flatMap (fun file' hfile' hne => ?_) hfile
  refine latest_fileEdges_none (fun edge hedge => laws.source_parsed hfile' hedge) ?_
  intro node' hnode' hid'
  exact hne (hunique.owner laws hfile' hfile hnode' hnode (hid'.trans hid.symm)).1

theorem owner_of_edge (laws : Laws ctx) (hs : Current ctx tree s)
    (hedge : s.edges.lookup key = some edge) : edge.key = key ∧
      ∃ file ∈ parsed ctx tree, ∃ node ∈ file.2.nodes, node.id = key.1 := by
  rw [hs.edges] at hedge
  obtain ⟨hmem, hkey⟩ := latest_some hedge
  obtain ⟨file, hfile, hmem⟩ := mem_flatMap.mp hmem
  obtain ⟨node, hnode, hid⟩ :=
    source_fileEdges (fun edge hedge => laws.source_parsed hfile hedge) hmem
  exact ⟨hkey, file, hfile, node, hnode, hid.trans (congrArg Prod.fst hkey)⟩

theorem Current.lookup_node (hs : Current ctx tree s) (hunique : Unique ctx tree) :
    s.nodes.lookup id = some node ↔ node ∈ treeNodes ctx tree ∧ node.id = id := by
  rw [hs.nodes, latest_of_unique hunique]

theorem Current.fileOf (hs : Current ctx tree s) (hunique : Unique ctx tree) (laws : Laws ctx)
    (hfile : file ∈ parsed ctx tree) (hnode : node ∈ file.2.nodes) :
    s.fileOf node.id = some file.1 := by
  refine GraphStore.fileOf_eq_some.mpr ⟨node, ?_, laws.filePath_parsed hfile hnode⟩
  exact (hs.lookup_node hunique).mpr ⟨mem_flatMap.mpr ⟨file, hfile, hnode⟩, rfl⟩

theorem Unique.filePath_nodeOf (hunique : Unique ctx tree) (laws : Laws ctx)
    (hfile : file ∈ parsed ctx tree) (hnode : node ∈ file.2.nodes) (hid : node.id = id) :
    (nodeOf (treeNodes ctx tree) id).map (·.filePath) = some file.1 := by
  refine Graph.filePath_nodeOf ⟨node, mem_flatMap.mpr ⟨file, hfile, hnode⟩, hid⟩ ?_
  intro node' hmem hid'
  obtain ⟨file', hfile', hnode'⟩ := mem_flatMap.mp hmem
  obtain ⟨rfl, -⟩ := hunique.owner laws hfile hfile' hnode hnode' (hid.trans hid'.symm)
  exact laws.filePath_parsed hfile' hnode'

theorem current_index [DecidableEq Text] (ctx : IndexerCtx Text Commit) (p : Project Text Commit) :
    Current ctx p.worktree (ctx.index p) := by
  have hedges : (resolveGraph (treeNodes ctx p.worktree)
      (ctx.typeEnvs (ctx.collectFiles p.worktree))
      ((parsed ctx p.worktree).flatMap fun file => file.2.edges)).1 = treeEdges ctx p.worktree := by
    unfold resolveGraph treeEdges fileEdges
    simp [resolveEdge_typeEnvs, flatMap_assoc]
  constructor
  · intro id
    refine lookup_foldl_insert.trans ?_
    simp [GraphStore.empty, treeNodes, parsed]
  · intro key
    refine lookup_foldl_insert.trans ?_
    rw [GraphStore.empty, AList.lookup_empty, or_none]
    exact congrArg _ hedges

theorem current_empty : Current ctx ∅ (GraphStore.empty : GraphStore Commit) :=
  ⟨fun _ => by rfl, fun _ => by rfl⟩

end Owners

end Aeqi.Graph
