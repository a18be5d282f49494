import Aeqi.Graph.FullText
import Aeqi.Lib.BreadthFirst

/-!
# The impact of a diff (`index/mod.rs`, `storage.rs`)

`diff_impact` reads what `git diff --unified=0 HEAD` writes line by line, looks for the symbols at
the lines of the old side, and for what depends on them. The line of the new name is the only one
that it takes a file from. So the lines of a deleted file are counted against the file before it,
those of a renamed file against its new name, and an added line can read like the line of a name.

A diff is modelled by its files and hunks, and by the text that git writes for it.
-/

namespace Aeqi.Graph

open Aeqi.Lib List

/-! ## The tables -/

structure EdgeRow extends CodeEdge where
  confidence : Rat

structure GraphTables where
  nodes : NodeTable
  edges : List EdgeRow

namespace GraphTables

variable (g : GraphTables)

def nodeById (id : String) : Option CodeNode := (g.nodes.find id).map (·.node)

/-- `ORDER BY start_line` -/
def nodesInFile (filePath : String) : List CodeNode :=
  ((g.nodes.rows.map (·.node)).filter (·.filePath = filePath)).insertionSort
    fun a b => a.startLine ≤ b.startLine

def incomingEdges (id : String) : List EdgeRow := g.edges.filter (·.targetId = id)

/-! ## What depends on a node -/

def carriesImpact (edge : EdgeRow) : Bool :=
  (edge.edgeType = .calls || edge.edgeType = .imports || edge.edgeType = .uses ||
    edge.edgeType = .implements) && decide (1 / 2 ≤ edge.confidence)

def dependents (id : String) : List String :=
  ((g.incomingEdges id).filter carriesImpact).map (·.sourceId)

structure ImpactEntry where
  node : CodeNode
  depth : Nat

/-- The entry of a node that is taken from the queue; a start is none, nor is an id without a
row. -/
def impactEntry (e : String × Nat) : Option ImpactEntry :=
  if 0 < e.2 then (g.nodeById e.1).map fun node => ⟨node, e.2⟩ else none

def impact (startIds : List String) (maxDepth : Nat) : List ImpactEntry :=
  ((search g.dependents maxDepth (startIds.length + g.edges.length) startIds
    (startIds.map fun id => (id, 0))).filterMap g.impactEntry).insertionSort
      fun a b => a.depth ≤ b.depth

/-! ## The symbols at some lines -/

def isStructural (label : NodeLabel) : Bool :=
  label = .file || label = .module || label = .community || label = .process

def overlaps (range : Nat × Nat) (node : CodeNode) : Bool :=
  !isStructural node.label && decide (node.startLine ≤ range.2) && decide (range.1 ≤ node.endLine)

def nests (node other : CodeNode) : Bool :=
  decide (node.id ≠ other.id) && decide (node.startLine ≤ other.startLine) &&
    decide (other.endLine ≤ node.endLine) &&
    (decide (node.startLine < other.startLine) || decide (other.endLine < node.endLine))

def symbolsAtLines (filePath : String) (lineRanges : List (Nat × Nat)) : List CodeNode :=
  let nodes := g.nodesInFile filePath
  lineRanges.foldl (fun matched range =>
    let overlapping := nodes.filter (overlaps range)
    overlapping.foldl (fun matched node =>
      if overlapping.any (nests node) then matched
      else if matched.any (·.id = node.id) then matched
      else matched ++ [node]) matched) []

end GraphTables

/-! ## Reading a diff -/

def consLine (c : Char) : List (List Char) → List (List Char)
  | [] => [[c]]
  | line :: rest => (c :: line) :: rest

/-- `str::lines` -/
def textLines : List Char → List (List Char)
  | [] => []
  | '\n' :: text => [] :: textLines text
  | '\r' :: '\n' :: text => [] :: textLines text
  | c :: text => consLine c (textLines text)

def stripPrefix (start line : List Char) : Option (List Char) :=
  if start <+: line then some (line.drop start.length) else none

def newNamePrefix : List Char := ['+', '+', '+', ' ', 'b', '/']

def hunkPrefix : List Char := ['@', '@', ' ']

def parseHunkRange (range : List Char) : Option (Nat × Nat) :=
  let parts := range.splitOn ','
  (parseUnsigned 32 (parts.headD [])).map fun start =>
    (start, ((parts[1]?).bind (parseUnsigned 32)).getD 1)

/-- A sum that does not fit in 32 bits wraps around. -/
def oldHunkRange (line : List Char) : Option (Nat × Nat) :=
  if ¬ hunkPrefix <+: line then none
  else if '-' ∉ line then none
  else
    let rest := (line.dropWhile (· ≠ '-')).drop 1
    if ' ' ∉ rest then none
    else
      (parseHunkRange (rest.takeWhile (· ≠ ' '))).bind fun parsed =>
        if parsed.1 = 0 then none
        else some (parsed.1, (parsed.1 + max parsed.2 1 + 4294967295) % 4294967296)

structure DiffParse where
  fileChanges : List (List Char × List (Nat × Nat))
  currentFile : List Char
  currentRanges : List (Nat × Nat)

namespace DiffParse

def start : DiffParse := ⟨[], [], []⟩

/-- The changes with those of the current file, if there is one. -/
def finished (s : DiffParse) : List (List Char × List (Nat × Nat)) :=
  if s.currentFile = [] then s.fileChanges
  else s.fileChanges ++ [(s.currentFile, s.currentRanges)]

/-- Ranges that were read before the first name are kept for it. -/
def line (s : DiffParse) (line : List Char) : DiffParse :=
  match stripPrefix newNamePrefix line with
  | some file =>
    { fileChanges := s.finished
      currentFile := file
      currentRanges := if s.currentFile = [] then s.currentRanges else [] }
  | none =>
    match oldHunkRange line with
    | some range => { s with currentRanges := s.currentRanges ++ [range] }
    | none => s

end DiffParse

def fileChanges (diffOutput : List Char) : List (List Char × List (Nat × Nat)) :=
  ((textLines diffOutput).foldl DiffParse.line .start).finished

structure DiffImpact where
  changedFiles : List String
  changedSymbols : List CodeNode
  affected : List GraphTables.ImpactEntry

namespace GraphTables

variable (g : GraphTables)

def changedSymbols (changes : List (List Char × List (Nat × Nat))) : List CodeNode :=
  changes.flatMap fun change =>
    if change.2 = [] then [] else g.symbolsAtLines (String.ofList change.1) change.2

def diffImpact (diffOutput : List Char) (maxDepth : Nat) : DiffImpact :=
  let changes := fileChanges diffOutput
  let symbols := g.changedSymbols changes
  { changedFiles := changes.map fun change => String.ofList change.1
    changedSymbols := symbols
    affected := if symbols = [] then [] else g.impact (symbols.map (·.id)) maxDepth }

end GraphTables

/-! ## The blast radius -/

theorem shortest_zero {α : Type} {next : α → List α} {start : List α} {b : α} :
    Shortest next start 0 b ↔ b ∈ start :=
  ⟨fun h => h.1, fun h => ⟨h, fun _ hj => absurd hj (by omega)⟩⟩

namespace GraphTables

variable {g : GraphTables} {startIds : List String} {maxDepth k : Nat} {id : String}
  {node : CodeNode}

/-- What an impact from some nodes is: the rows at the distances up to the limit, each once, the
near ones first. -/
structure ImpactExact (g : GraphTables) (startIds : List String) (maxDepth : Nat)
    (affected : List ImpactEntry) : Prop where
  mem : ∀ entry, entry ∈ affected ↔ g.nodeById entry.node.id = some entry.node ∧
    1 ≤ entry.depth ∧ entry.depth ≤ maxDepth ∧
      Shortest g.dependents startIds entry.depth entry.node.id
  once : (affected.map (·.node.id)).Nodup
  sorted : affected.Pairwise fun entry entry' => entry.depth ≤ entry'.depth

theorem id_of_nodeById (h : g.nodeById id = some node) : node.id = id := by
  obtain ⟨row, hrow, rfl⟩ := Option.map_eq_some_iff.1 h
  exact (NodeTable.find_eq_some.1 hrow).2

theorem impactEntry_eq_some {e : String × Nat} {entry : ImpactEntry} :
    g.impactEntry e = some entry ↔ e = (entry.node.id, entry.depth) ∧ 1 ≤ entry.depth ∧
        g.nodeById entry.node.id = some entry.node := by
  unfold impactEntry
  split
  next hdepth =>
    rw [Option.map_eq_some_iff]
    constructor
    · rintro ⟨node, hnode, rfl⟩
      have hid := id_of_nodeById hnode
      refine ⟨Prod.ext hid.symm rfl, hdepth, ?_⟩
      rw [hid]
      exact hnode
    · rintro ⟨rfl, -, hnode⟩
      exact ⟨entry.node, hnode, rfl⟩
  next hdepth =>
    constructor
    · exact nofun
    · rintro ⟨rfl, hpos, -⟩
      exact absurd hpos hdepth

theorem dependents_subset {b : String} (h : b ∈ g.dependents id) :
    b ∈ (g.edges.map (·.sourceId)).toFinset := by
  obtain ⟨edge, hedge, rfl⟩ := List.mem_map.1 h
  have hmem := (List.mem_filter.1 (List.mem_filter.1 hedge).1).1
  exact List.mem_toFinset.2 (List.mem_map_of_mem hmem)

theorem search_eq : search g.dependents maxDepth (startIds.length + g.edges.length) startIds
    (startIds.map fun id => (id, 0)) = layers g.dependents maxDepth 0 startIds startIds := by
  have hcard : ((g.edges.map (·.sourceId)).toFinset \ startIds.toFinset).card ≤ g.edges.length := by
    refine (Finset.card_le_card Finset.sdiff_subset).trans ?_
    exact (toFinset_card_le _).trans_eq (length_map _)
  have hnext : ∀ id, ∀ b ∈ g.dependents id, b ∈ (g.edges.map (·.sourceId)).toFinset :=
    fun id b hb => dependents_subset hb
  have hlayers := search_eq_layers 0 maxDepth hnext (Nat.add_le_add_left hcard startIds.length)
  rwa [Nat.zero_add] at hlayers

theorem mem_search : (id, k) ∈ layers g.dependents maxDepth 0 startIds startIds ↔
    k ≤ maxDepth ∧ Shortest g.dependents startIds k id := by
  have hvisited : ∀ b, b ∈ startIds ↔ ∃ j ≤ 0, Shortest g.dependents startIds j b := by
    intro b
    constructor
    · exact fun hb => ⟨0, le_rfl, shortest_zero.2 hb⟩
    · rintro ⟨j, hj, h⟩
      obtain rfl := Nat.le_zero.1 hj
      exact shortest_zero.1 h
  rw [mem_layers hvisited fun b => shortest_zero.symm]
  simp

theorem map_filterMap_impactEntry (l : List (String × Nat)) :
    (l.filterMap g.impactEntry).map (·.node.id) =
      (l.filter fun e => (g.impactEntry e).isSome).map Prod.fst := by
  induction l with
  | nil => rfl
  | cons e l ih =>
    cases h : g.impactEntry e with
    | none =>
      rw [filterMap_cons_none h, List.filter_cons_of_neg (by rw [h]; decide), ih]
    | some entry =>
      rw [filterMap_cons_some h, List.filter_cons_of_pos (by rw [h]; rfl), List.map_cons,
        List.map_cons, ih, (impactEntry_eq_some.1 h).1]

theorem impact_exact (g : GraphTables) (startIds : List String) (maxDepth : Nat) :
    ImpactExact g startIds maxDepth (g.impact startIds maxDepth) := by
  unfold impact
  rw [search_eq]
  refine ⟨fun entry => ?_, ?_, pairwise_insertionSort _ _⟩
  · rw [mem_insertionSort, List.mem_filterMap]
    constructor
    · rintro ⟨e, he, hentry⟩
      obtain ⟨rfl, hdepth, hnode⟩ := impactEntry_eq_some.1 hentry
      exact ⟨hnode, hdepth, mem_search.1 he⟩
    · rintro ⟨hnode, hdepth, hreach⟩
      exact ⟨_, mem_search.2 hreach, impactEntry_eq_some.2 ⟨rfl, hdepth, hnode⟩⟩
  · rw [((perm_insertionSort _ _).map _).nodup_iff, map_filterMap_impactEntry]
    have hbehind := nodup_layers_behind g.dependents maxDepth 0 startIds startIds
    have hsub : ((layers g.dependents maxDepth 0 startIds startIds).filter fun e =>
        (g.impactEntry e).isSome).Sublist ((layers g.dependents maxDepth 0 startIds
          startIds).filter fun e => decide (0 < e.2)) := by
      refine List.monotone_filter_right _ fun e he => ?_
      obtain ⟨entry, hentry⟩ := Option.isSome_iff_exists.1 he
      obtain ⟨rfl, hdepth, -⟩ := impactEntry_eq_some.1 hentry
      exact decide_eq_true hdepth
    refine (hbehind.sublist hsub).map_on fun e he e' he' heq => ?_
    -- one id lies at one distance only
    obtain ⟨id, k⟩ := e
    obtain ⟨id', k'⟩ := e'
    obtain rfl : id = id' := heq
    have h := (mem_search.1 (List.mem_filter.1 he).1).2
    have h' := (mem_search.1 (List.mem_filter.1 he').1).2
    rw [h.unique h']

/-! ## The innermost symbols -/

/-- A symbol that overlaps the range, and no symbol nested in it does. -/
def Innermost (nodes : List CodeNode) (range : Nat × Nat) (node : CodeNode) : Prop :=
  node ∈ nodes ∧ overlaps range node = true ∧
    ∀ other ∈ nodes, overlaps range other = true → nests node other = false

variable {filePath : String} {ranges : List (Nat × Nat)} {range : Nat × Nat}
  {nodes matched rows : List CodeNode}

theorem mem_nodesInFile : node ∈ g.nodesInFile filePath ↔
    node ∈ g.nodes.rows.map (·.node) ∧ node.filePath = filePath := by
  unfold nodesInFile
  rw [mem_insertionSort, List.mem_filter, decide_eq_true_iff]

theorem mem_collected {dropped : CodeNode → Bool}
    (hids : ∀ a ∈ rows, ∀ b ∈ rows, a.id = b.id → a = b) (hmatched : matched ⊆ rows)
    (hnodes : nodes ⊆ rows) :
    node ∈ nodes.foldl (fun matched node =>
      if dropped node then matched
      else if matched.any (·.id = node.id) then matched
      else matched ++ [node]) matched ↔ node ∈ matched ∨ node ∈ nodes ∧ dropped node = false := by
  induction nodes generalizing matched with
  | nil => simp
  | cons first nodes ih =>
    obtain ⟨hfirst, hrest⟩ := List.cons_subset.1 hnodes
    rw [foldl_cons, List.mem_cons]
    split_ifs with hdropped hseen
    · rw [ih hmatched hrest]
      refine or_congr_right (and_congr_left fun hkept => ⟨.inr, fun h => h.resolve_left ?_⟩)
      rintro rfl
      rw [hdropped] at hkept
      cases hkept
    · rw [ih hmatched hrest]
      obtain ⟨old, hold, hid⟩ := List.any_eq_true.1 hseen
      have hsame : old = first := hids old (hmatched hold) first hfirst (of_decide_eq_true hid)
      constructor
      · exact Or.imp_right fun h => ⟨.inr h.1, h.2⟩
      · rintro (h | ⟨rfl | h, hkept⟩)
        · exact .inl h
        · exact .inl (hsame ▸ hold)
        · exact .inr ⟨h, hkept⟩
    · have hmore : matched ++ [first] ⊆ rows :=
        append_subset.2 ⟨hmatched, List.cons_subset.2 ⟨hfirst, nil_subset _⟩⟩
      rw [ih hmore hrest, mem_append, List.mem_singleton, or_assoc]
      refine or_congr_right ?_
      constructor
      · rintro (rfl | ⟨h, hkept⟩)
        · exact ⟨.inl rfl, Bool.not_eq_true _ ▸ hdropped⟩
        · exact ⟨.inr h, hkept⟩
      · rintro ⟨rfl | h, hkept⟩
        · exact .inl rfl
        · exact .inr ⟨h, hkept⟩

theorem innermost_iff : node ∈ nodes.filter (overlaps range) ∧
    (nodes.filter (overlaps range)).any (nests node) = false ↔ Innermost nodes range node := by
  rw [List.mem_filter, List.any_eq_false, and_assoc]
  refine and_congr_right fun _ => and_congr_right fun _ => ?_
  constructor
  · intro h other hother hoverlaps
    exact Bool.not_eq_true _ ▸ h other (List.mem_filter.2 ⟨hother, hoverlaps⟩)
  · intro h other hother
    rw [h other (List.mem_filter.1 hother).1 (List.mem_filter.1 hother).2]
    decide

theorem mem_symbolsAtLines : node ∈ g.symbolsAtLines filePath ranges ↔
    ∃ range ∈ ranges, Innermost (g.nodesInFile filePath) range node := by
  have hids : ∀ a ∈ g.nodesInFile filePath, ∀ b ∈ g.nodesInFile filePath, a.id = b.id → a = b := by
    have hnodup : ((g.nodes.rows.map (·.node)).map (·.id)).Nodup := by
      rw [List.map_map]
      exact g.nodes.ids
    intro a ha b hb hid
    exact inj_on_of_nodup_map hnodup (mem_nodesInFile.1 ha).1 (mem_nodesInFile.1 hb).1 hid
  -- the fold over the ranges, from any symbols of the file
  have hfold : ∀ matched ⊆ g.nodesInFile filePath, (node ∈ ranges.foldl (fun matched range =>
      ((g.nodesInFile filePath).filter (overlaps range)).foldl (fun matched node =>
        if ((g.nodesInFile filePath).filter (overlaps range)).any (nests node) then matched
        else if matched.any (·.id = node.id) then matched
        else matched ++ [node]) matched) matched ↔
      node ∈ matched ∨ ∃ range ∈ ranges, Innermost (g.nodesInFile filePath) range node) := by
    induction ranges generalizing node with
    | nil => simp
    | cons range ranges ih =>
      intro matched hmatched
      have hstep : ∀ node, node ∈ ((g.nodesInFile filePath).filter (overlaps range)).foldl
          (fun matched node =>
            if ((g.nodesInFile filePath).filter (overlaps range)).any (nests node) then matched
            else if matched.any (·.id = node.id) then matched
            else matched ++ [node]) matched ↔
          node ∈ matched ∨ Innermost (g.nodesInFile filePath) range node := by
        intro node
        rw [mem_collected hids hmatched filter_sublist.subset, innermost_iff]
      rw [foldl_cons, ih, hstep, or_assoc, exists_mem_cons_iff]
      intro node hnode
      rcases (hstep node).1 hnode with hold | hinner
      · exact hmatched hold
      · exact hinner.1
  refine (hfold [] (nil_subset _)).trans ?_
  simp

theorem mem_changedSymbols {changes : List (List Char × List (Nat × Nat))} :
    node ∈ g.changedSymbols changes ↔ ∃ change ∈ changes, ∃ range ∈ change.2,
      Innermost (g.nodesInFile (String.ofList change.1)) range node := by
  unfold changedSymbols
  rw [mem_flatMap]
  refine exists_congr fun change => and_congr_right fun _ => ?_
  split_ifs with hnil
  · rw [hnil]
    simp
  · exact mem_symbolsAtLines

end GraphTables

end Aeqi.Graph
