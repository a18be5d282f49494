import Aeqi.Lib.Accounts
import Aeqi.Lib.Lines

/-!
# Symbols and what refers to them (`schema.rs`, `extract/resolve.rs`)

A language provider makes nodes and edges of a file; an edge whose target starts with `unresolved:`
names a symbol, and is resolved in the table of all symbols. The two maps of a table hold its nodes
in one order, so a table is the list of them. Confidences and steps of edges, and the communities
of nodes, are left out.
-/

namespace Aeqi.Graph

open Aeqi.Lib List Option
open String (ofList)

inductive NodeLabel
  | project | module | file
  | struct | trait | impl | enum | function | method | const | static | typeAlias | macroItem
  | classItem | interface | variableItem | decorator | constructor | property
  | contract | event | modifier
  | community | process
deriving DecidableEq

inductive EdgeType
  | contains | defines | memberOf
  | calls | imports | uses | accesses
  | extendsType | implements | overrides | hasMethod | hasProperty
  | stepInProcess | entryPointOf
  | dependsOn
deriving DecidableEq

inductive ResolutionTier
  | sameFile | importScoped | global
deriving DecidableEq

structure CodeNode where
  id : String
  label : NodeLabel
  name : String
  filePath : String
  startLine : Nat
  endLine : Nat
  language : String
  isExported : Bool := false
  signature : Option String := none
  docComment : Option String := none
deriving DecidableEq

structure CodeEdge where
  sourceId : String
  targetId : String
  edgeType : EdgeType
  tier : Option ResolutionTier := none
deriving DecidableEq

structure FileExtraction where
  nodes : List CodeNode
  edges : List CodeEdge

/-! ## The table of symbols -/

abbrev SymbolTable := List CodeNode

namespace SymbolTable

def index (nodes : List CodeNode) : SymbolTable :=
  nodes.filter fun node =>
    node.label ≠ .file ∧ node.label ≠ .module ∧ node.label ≠ .community ∧ node.label ≠ .process

variable (table : SymbolTable)

def global (name : String) : List CodeNode := table.filter (·.name = name)

def resolveSameFile (name filePath : String) : Option String :=
  (table.find? fun node => node.filePath = filePath ∧ node.name = name).map (·.id)

def resolveExported (name : String) : Option CodeNode :=
  let entries := table.global name
  (entries.find? (·.isExported)).or entries.head?

def resolveAny (name : String) : Option CodeNode := (table.global name).head?

def resolve (name fromFile : String) : Option (String × ResolutionTier) :=
  match table.resolveSameFile name fromFile with
  | some id => some (id, .sameFile)
  | none =>
    match (table.resolveExported name).filter (·.isExported) with
    | some entry => some (entry.id, .importScoped)
    | none => (table.resolveAny name).map fun entry => (entry.id, .global)

def resolveTrait (name : String) : Option String :=
  ((table.global name).find? (·.label = .trait)).map (·.id)

def resolveMethodOnType (methodName typeName : String) : Option (String × ResolutionTier) :=
  ((table.global methodName).find? fun entry =>
    entry.label = .method ∧ (table.global typeName).any (·.filePath = entry.filePath)).map
      fun entry => (entry.id, .importScoped)

end SymbolTable

/-- The types of variables, in the scope of a function or in that of the file. -/
structure TypeEnv where
  bindings : Accounts (String × String) String

def TypeEnv.resolveType (env : TypeEnv) (scope varName : String) : Option String :=
  let inScope := if scope = "" then none else env.bindings.lookup (scope, varName)
  inScope.or (env.bindings.lookup ("", varName))

def TypeEnv.bindingCount (env : TypeEnv) : Nat := env.bindings.keys.length

/-! ## References -/

/-- `trim_start_matches`. -/
def trimStartMatches (pattern : List Char) : Nat → List Char → List Char
  | 0, text => text
  | n + 1, text =>
    if pattern <+: text then trimStartMatches pattern n (text.drop pattern.length) else text

/-- The names of a `use` declaration; one to everything has none. The braces come in order. -/
def extractImportNames (useText : List Char) : List String :=
  let text := trimStartMatches "use ".toList useText.length (trim useText)
  let text := text.rdropWhile (· = ';')
  let renamed (item : List Char) : Option (List Char) :=
    (breakOn " as ".toList item).map fun found => trim (found.2.drop 4)
  if "::*".toList <:+ text then []
  else if '{' ∈ text ∧ '}' ∈ text then
    let inner := ((text.dropWhile (· ≠ '{')).drop 1).rdropWhile (· ≠ '}')
    ((inner.dropLast.splitOn ',').map trim).filterMap fun item =>
      if item = [] then none else some (ofList ((renamed item).getD item))
  else
    match renamed text with
    | some name => [ofList name]
    | none =>
      let last := ((breakOn "::".toList text.reverse).elim text.reverse Prod.fst).reverse
      if last = [] then [] else [ofList last]

def isUnresolved (edge : CodeEdge) : Bool := "unresolved:".toList <+: edge.targetId.toList

/-- The kind and the name behind the mark, if there are both. -/
def reference (edge : CodeEdge) : Option (String × List Char) :=
  (breakOn [':'] (edge.targetId.toList.drop 11)).map fun parts =>
    (ofList parts.1, parts.2.drop 1)

def nodeOf (nodes : List CodeNode) (id : String) : Option CodeNode :=
  nodes.reverse.find? (·.id = id)

section Resolve

variable (nodes : List CodeNode) (typeEnvs : Accounts String TypeEnv)

/-- What an edge becomes; `none` counts as unresolved. -/
def resolveEdge (edge : CodeEdge) : Option (List CodeEdge) :=
  let table := SymbolTable.index nodes
  if ¬ isUnresolved edge then some [edge]
  else
    let source := nodeOf nodes edge.sourceId
    let sourceFile := source.elim "" (·.filePath)
    let sourceName := source.elim "" (·.name)
    (reference edge).bind fun (kind, name) =>
      if kind = "trait" then
        (table.resolveTrait (ofList name)).map fun traitId =>
          [{ edge with targetId := traitId, tier := some .importScoped }]
      else if kind = "call" then
        match table.resolve (ofList name) sourceFile with
        | some (targetId, tier) => some [{ edge with targetId, tier := some tier }]
        | none =>
          (typeEnvs.lookup sourceFile).bind fun env =>
            (env.resolveType sourceName "self").bind fun typeName =>
              (table.resolveMethodOnType (ofList name) typeName).map fun (targetId, tier) =>
                [{ edge with targetId, tier := some tier }]
      else if kind = "import" then
        some ((extractImportNames name).filterMap fun importName =>
          (table.resolve importName sourceFile).map fun (targetId, tier) =>
            { sourceId := edge.sourceId, targetId, edgeType := .imports, tier := some tier })
      else none

def resolveGraph (edges : List CodeEdge) : List CodeEdge × Nat :=
  (edges.flatMap fun edge => (resolveEdge nodes typeEnvs edge).getD [],
    edges.countP fun edge => (resolveEdge nodes typeEnvs edge).isNone)

end Resolve

/-! ## What resolving depends on -/

section Resolving

variable {nodes nodes' : List CodeNode} {typeEnvs : Accounts String TypeEnv} {edge edge' : CodeEdge}
variable {table table' : SymbolTable} {name file id : String}

theorem SymbolTable.resolve_eq_none (h : table.resolve name file = none) :
    table.global name = [] := by
  unfold resolve at h
  split at h
  · cases h
  · split at h
    · cases h
    · exact head?_eq_none_iff.mp (map_eq_none_iff.mp h)

theorem resolveEdge_typeEnvs : resolveEdge nodes typeEnvs edge = resolveEdge nodes ∅ edge := by
  unfold resolveEdge
  simp only
  split
  · rfl
  · congr 1
    funext ref
    split
    · rfl
    · split
      · cases hcall : SymbolTable.resolve (SymbolTable.index nodes) (ofList ref.2)
          ((nodeOf nodes edge.sourceId).elim "" (·.filePath)) with
        | some found => rfl
        | none =>
          have hnone : ∀ typeName, SymbolTable.resolveMethodOnType (SymbolTable.index nodes)
              (ofList ref.2) typeName = none := fun typeName => by
            rw [SymbolTable.resolveMethodOnType, SymbolTable.resolve_eq_none hcall]
            rfl
          simp [hnone]
      · rfl

theorem sourceId_resolveEdge (h : edge' ∈ (resolveEdge nodes typeEnvs edge).getD []) :
    edge'.sourceId = edge.sourceId := by
  obtain ⟨edges, hedges, hmem⟩ : ∃ edges, resolveEdge nodes typeEnvs edge = some edges ∧
      edge' ∈ edges := by
    cases hres : resolveEdge nodes typeEnvs edge with
    | none => rw [hres] at h; cases h
    | some edges => exact ⟨edges, rfl, by rwa [hres] at h⟩
  rw [resolveEdge_typeEnvs] at hedges
  unfold resolveEdge at hedges
  simp only at hedges
  split at hedges
  · cases hedges
    rw [mem_singleton.mp hmem]
  · obtain ⟨ref, -, href⟩ := bind_eq_some_iff.mp hedges
    split at href
    · obtain ⟨traitId, -, rfl⟩ := map_eq_some_iff.mp href
      rw [mem_singleton.mp hmem]
    · split at href
      · split at href
        · cases href
          rw [mem_singleton.mp hmem]
        · cases href
      · split at href
        · cases href
          obtain ⟨importName, -, himport⟩ := mem_filterMap.mp hmem
          obtain ⟨-, -, rfl⟩ := map_eq_some_iff.mp himport
          rfl
        · cases href

/-- The names of a reference find the same in both tables. -/
def Agree (table table' : SymbolTable) (file : String) (edge : CodeEdge) : Prop :=
  isUnresolved edge → ∀ ref ∈ reference edge,
    (ref.1 = "trait" → table.resolveTrait (ofList ref.2) =
      table'.resolveTrait (ofList ref.2)) ∧
    (ref.1 = "call" → table.resolve (ofList ref.2) file =
      table'.resolve (ofList ref.2) file) ∧
    (ref.1 = "import" → ∀ name ∈ extractImportNames ref.2,
      table.resolve name file = table'.resolve name file)

instance decidableAgree : Decidable (Agree table table' file edge) := by
  unfold Agree
  infer_instance

theorem Agree.resolveEdge
    (h : Agree (SymbolTable.index nodes) (SymbolTable.index nodes') file edge)
    (hfile : (nodeOf nodes edge.sourceId).map (·.filePath) = some file)
    (hfile' : (nodeOf nodes' edge.sourceId).map (·.filePath) = some file) :
    resolveEdge nodes ∅ edge = resolveEdge nodes' ∅ edge := by
  have helim : ∀ found : Option CodeNode, found.map (·.filePath) = some file →
      found.elim "" (·.filePath) = file := by
    intro found hfound
    obtain ⟨-, rfl, rfl⟩ := map_eq_some_iff.mp hfound
    rfl
  unfold Graph.resolveEdge
  simp only [helim _ hfile, helim _ hfile']
  split
  · rfl
  · rename_i hunresolved
    refine Option.bind_congr fun ref href => ?_
    obtain ⟨htrait, hcall, himport⟩ := h (not_not.mp hunresolved) ref href
    split
    · rw [htrait ‹_›]
    · split
      · rw [hcall ‹_›]
        rfl
      · split
        · congr 1
          refine filterMap_congr fun name hname => ?_
          rw [himport ‹_› name hname]
        · rfl

theorem filePath_nodeOf (hex : ∃ node ∈ nodes, node.id = id)
    (hall : ∀ node ∈ nodes, node.id = id → node.filePath = file) :
    (nodeOf nodes id).map (·.filePath) = some file := by
  obtain ⟨node, hnode, hid⟩ := hex
  unfold nodeOf
  cases hfind : nodes.reverse.find? (·.id = id) with
  | none =>
    have hnot := find?_eq_none.mp hfind node (mem_reverse.mpr hnode)
    exact absurd (decide_eq_true hid) hnot
  | some found =>
    have hmem := mem_reverse.mp (mem_of_find?_eq_some hfind)
    have hfound : found.id = id := by simpa using find?_some hfind
    rw [map_some, hall found hmem hfound]

end Resolving

end Aeqi.Graph
