import Aeqi.Graph.FullText
import Aeqi.Lib.Sortings
import Mathlib.Data.Prod.Lex
import Mathlib.Data.String.Basic

/-!
# Searching the nodes (`storage.rs`)

`search_nodes` asks five queries in turn and keeps of each what matches the filters and has not been
kept. A query returns no more rows than are wanted still, whether or not the filters match them. So
rows of the name that is searched for are missed where others of that name come first.

What SQLite does with equal keys of an order and what the full-text index finds are parameters, and
so is which characters are alphanumeric.
-/

namespace Aeqi.Graph

open Aeqi.Lib List

/-! ## Queries -/

def NodeLabel.asStr : NodeLabel → String
  | .project => "project"
  | .module => "module"
  | .file => "file"
  | .struct => "struct"
  | .trait => "trait"
  | .impl => "impl"
  | .enum => "enum"
  | .function => "function"
  | .method => "method"
  | .const => "const"
  | .static => "static"
  | .typeAlias => "type_alias"
  | .macroItem => "macro"
  | .classItem => "class"
  | .interface => "interface"
  | .variableItem => "variable"
  | .decorator => "decorator"
  | .constructor => "constructor"
  | .property => "property"
  | .contract => "contract"
  | .event => "event"
  | .modifier => "modifier"
  | .community => "community"
  | .process => "process"

def KNOWN_LABELS : List String :=
  ["project", "module", "file", "struct", "trait", "impl", "enum", "function", "method", "const",
    "static", "type_alias", "macro", "class", "interface", "variable", "decorator", "constructor",
    "property", "contract", "event", "modifier", "community", "process"]

/-- `to_ascii_lowercase` -/
def asciiLower (text : String) : String := String.ofList (text.toList.map Char.toLower)

def isKnownLabel (value : String) : Bool := KNOWN_LABELS.contains (asciiLower value)

structure ParsedNodeSearch where
  text : String := ""
  labels : List String := []
  languages : List String := []
  pathFilters : List String := []
  nameFilters : List String := []

/-- `split_once(':')` -/
def splitColon (token : List Char) : Option (List Char × List Char) :=
  if ':' ∈ token then
    some (token.takeWhile (· ≠ ':'), (token.dropWhile (· ≠ ':')).drop 1)
  else none

def trimQuotes (value : List Char) : List Char :=
  (value.dropWhile (· = '"')).rdropWhile (· = '"')

namespace ParsedNodeSearch

/-- One word of a query: a filter, or a part of the text. -/
def addToken (parsed : ParsedNodeSearch × List (List Char)) (token : List Char) :
    ParsedNodeSearch × List (List Char) :=
  match splitColon token with
  | none => (parsed.1, parsed.2 ++ [token])
  | some (key, value) =>
    if value = [] then (parsed.1, parsed.2 ++ [token])
    else
      let value := String.ofList (trimQuotes value)
      let key := asciiLower (String.ofList key)
      if (key = "kind" ∨ key = "label") ∧ isKnownLabel value then
        ({ parsed.1 with labels := parsed.1.labels ++ [asciiLower value] }, parsed.2)
      else if key = "lang" ∨ key = "language" then
        ({ parsed.1 with languages := parsed.1.languages ++ [asciiLower value] }, parsed.2)
      else if key = "path" then
        ({ parsed.1 with pathFilters := parsed.1.pathFilters ++ [asciiLower value] }, parsed.2)
      else if key = "name" then
        ({ parsed.1 with nameFilters := parsed.1.nameFilters ++ [asciiLower value] }, parsed.2)
      else (parsed.1, parsed.2 ++ [token])

def parse (raw : String) : ParsedNodeSearch :=
  let words := (raw.toList.splitOnP isWhitespace).filter (· ≠ [])
  let parsed := words.foldl addToken ({}, [])
  { parsed.1 with text := String.ofList (trim ([' '].intercalate parsed.2)) }

variable (p : ParsedNodeSearch)

def hasFilters : Bool :=
  !(p.labels.isEmpty && p.languages.isEmpty && p.pathFilters.isEmpty && p.nameFilters.isEmpty)

def matchesNode (node : CodeNode) : Bool :=
  (p.labels.isEmpty || p.labels.contains node.label.asStr) &&
    (p.languages.isEmpty || p.languages.contains (asciiLower node.language)) &&
    (p.pathFilters.isEmpty ||
      p.pathFilters.any fun path => path.toList <:+: (asciiLower node.filePath).toList) &&
    (p.nameFilters.isEmpty ||
      p.nameFilters.any fun name => name.toList <:+: (asciiLower node.name).toList)

end ParsedNodeSearch

open ParsedNodeSearch (parse)

/-! ## Orders -/

/-- `ORDER BY is_exported DESC, file_path, start_line` -/
abbrev ExportedFirst : CodeNode → CodeNode → Prop :=
  ByKeys (fun node => !node.isExported) fun node => toLex (node.filePath, node.startLine)

abbrev PathFirst (query : String) : CodeNode → CodeNode → Prop :=
  ByKeys (fun node => decide (node.filePath ≠ query)) fun node =>
    toLex (decide (node.label ≠ .file), toLex (node.filePath, node.startLine))

/-- What SQLite and the language's tables of characters decide. -/
structure SearchEnv where
  isAlphanumeric : Char → Bool
  byExported : List CodeNode → List CodeNode
  byPath : String → List CodeNode → List CodeNode
  /-- The rows that a full-text query matches, by their rank. -/
  fullText : List CodeNode → String → List CodeNode
  exportedSorted : ∀ rows, Sorting ExportedFirst rows (byExported rows)
  pathSorted : ∀ query rows, Sorting (PathFirst query) rows (byPath query rows)
  fullText_mem : ∀ rows query node, node ∈ fullText rows query → node ∈ rows

/-! ## The stages -/

namespace NodeTable

variable (env : SearchEnv) (t : NodeTable)

def nodes : List CodeNode := t.rows.map (·.node)

/-- `LIMIT ?` with `limit as u32`. -/
def limitU32 (limit : Nat) (rows : List CodeNode) : List CodeNode := rows.take (limit % 4294967296)

/-- `name = ?1 COLLATE NOCASE` -/
def Named (query : String) (node : CodeNode) : Prop := asciiLower node.name = asciiLower query

instance namedDecidable (query : String) (node : CodeNode) : Decidable (Named query node) :=
  inferInstanceAs (Decidable (_ = _))

def namesakes (query : String) : List CodeNode :=
  env.byExported (t.nodes.filter fun node => Named query node)

def searchNodesByExactName (query : String) (limit : Nat) : List CodeNode :=
  limitU32 limit (t.namesakes env query)

def looksLikePathQuery (query : String) : Bool :=
  query.toList.any fun c => c = '/' ∨ c = '\\' ∨ c = '.'

def searchNodesByPath (query : String) (limit : Nat) : List CodeNode :=
  if looksLikePathQuery query then
    limitU32 limit (env.byPath query (t.nodes.filter fun node =>
      node.filePath = query ∨ like node.filePath ("%" ++ query ++ "%")))
  else []

def searchableTerms (query : String) : List String :=
  (((query.toList.splitOnP fun c => !(env.isAlphanumeric c || c = '_')).map trim).filter
    (· ≠ [])).map String.ofList

def doubleQuotes (text : String) : String :=
  String.ofList (text.toList.flatMap fun c => if c = '"' then ['"', '"'] else [c])

def escapeFtsQuery (query : String) : String :=
  let terms := searchableTerms env query
  if terms = [] then "\"" ++ doubleQuotes query ++ "\""
  else " OR ".intercalate (terms.map fun term => "\"" ++ doubleQuotes term ++ "\"")

def searchNodesByFts (query : String) (limit : Nat) : List CodeNode :=
  limitU32 limit (env.fullText t.nodes (escapeFtsQuery env query))

def withTerm (limit : Nat) (term : String) : List CodeNode :=
  limitU32 limit (env.byExported (t.nodes.filter fun node =>
    node.signature.any (like · ("%" ++ term ++ "%")) ∨
      node.docComment.any (like · ("%" ++ term ++ "%"))))

def searchNodesBySignature (query : String) (limit : Nat) : List CodeNode :=
  ((searchableTerms env query).flatMap (t.withTerm env limit)).foldl
    (fun candidates node =>
      if limit ≤ candidates.length then candidates
      else if candidates.any (·.id = node.id) then candidates
      else candidates ++ [node]) []

end NodeTable

/-- What is kept of the rows of a query. -/
def appendUniqueNodes (p : ParsedNodeSearch) (limit : Nat) (results nodes : List CodeNode) :
    List CodeNode :=
  nodes.foldl (fun results node =>
    if limit ≤ results.length then results
    else if !p.matchesNode node then results
    else if results.any (·.id = node.id) then results
    else results ++ [node]) results

/-- A query is asked for as many rows as are wanted still. -/
def stage (p : ParsedNodeSearch) (limit : Nat) (fetch : Nat → List CodeNode)
    (results : List CodeNode) : List CodeNode :=
  if results.length < limit then
    appendUniqueNodes p limit results (fetch (limit - results.length))
  else results

namespace NodeTable

variable (env : SearchEnv) (t : NodeTable)

def nodesMatchingFilters (p : ParsedNodeSearch) (limit : Nat) : List CodeNode :=
  if !p.hasFilters || limit = 0 then []
  else ((env.byExported t.nodes).filter p.matchesNode).take limit

/-- The terms of a text but those that are the text, the last one first. -/
def otherTerms (query : String) : List String :=
  (searchableTerms env query).reverse.filter fun token => asciiLower token ≠ asciiLower query

def laterStages (query : String) : List (Nat → List CodeNode) :=
  (otherTerms env query).map (t.searchNodesByExactName env) ++
    [t.searchNodesByPath env query, t.searchNodesByFts env query,
      t.searchNodesBySignature env query]

def searchNodes (query : String) (limit : Nat) : List CodeNode :=
  let p := parse query
  if limit = 0 then []
  else if p.text = "" then t.nodesMatchingFilters env p limit
  else
    (t.laterStages env p.text).foldl (fun results fetch => stage p limit fetch results)
      (appendUniqueNodes p limit [] (t.searchNodesByExactName env p.text limit))

end NodeTable

/-! ## What is kept -/

variable {p : ParsedNodeSearch} {limit : Nat} {results found rows : List CodeNode}
  {node : CodeNode}

structure Found (p : ParsedNodeSearch) (limit : Nat) (rows results : List CodeNode) : Prop where
  length_le : results.length ≤ limit
  ids : (results.map (·.id)).Nodup
  mem : ∀ node ∈ results, node ∈ rows
  isMatch : ∀ node ∈ results, p.matchesNode node = true

theorem found_nil : Found p limit rows [] :=
  ⟨Nat.zero_le _, nodup_nil, by simp, by simp⟩

theorem Found.concat (h : Found p limit rows results) (hroom : results.length < limit)
    (hnode : node ∈ rows) (hmatch : p.matchesNode node = true)
    (hnew : node.id ∉ results.map (·.id)) : Found p limit rows (results ++ [node]) where
  length_le := by
    rw [length_append]
    exact hroom
  ids := by
    rw [map_append, map_singleton, ← concat_eq_append]
    exact h.ids.concat hnew
  mem := by
    intro other hother
    rcases mem_append.1 hother with hold | hone
    · exact h.mem other hold
    · rwa [mem_singleton.1 hone]
  isMatch := by
    intro other hother
    rcases mem_append.1 hother with hold | hone
    · exact h.isMatch other hold
    · rwa [mem_singleton.1 hone]

theorem appendUniqueNodes_cons (p : ParsedNodeSearch) (limit : Nat) (results : List CodeNode)
    (node : CodeNode) (nodes : List CodeNode) :
    (limit ≤ results.length ∨ p.matchesNode node = false ∨ node.id ∈ results.map (·.id)) ∧
        appendUniqueNodes p limit results (node :: nodes) =
          appendUniqueNodes p limit results nodes ∨
      results.length < limit ∧ p.matchesNode node = true ∧ node.id ∉ results.map (·.id) ∧
        appendUniqueNodes p limit results (node :: nodes) =
          appendUniqueNodes p limit (results ++ [node]) nodes := by
  unfold appendUniqueNodes
  rw [foldl_cons]
  by_cases hfull : limit ≤ results.length
  · rw [if_pos hfull]
    exact .inl ⟨.inl hfull, rfl⟩
  · rw [if_neg hfull]
    by_cases hmatch : p.matchesNode node = true
    · rw [hmatch]
      by_cases hseen : results.any (·.id = node.id) = true
      · have hid : node.id ∈ results.map (·.id) := by
          simpa using hseen
        rw [if_pos hseen]
        exact .inl ⟨.inr (.inr hid), rfl⟩
      · have hid : node.id ∉ results.map (·.id) := by
          simpa using hseen
        rw [if_neg hseen]
        exact .inr ⟨not_le.1 hfull, rfl, hid, rfl⟩
    · rw [Bool.not_eq_true] at hmatch
      rw [hmatch]
      exact .inl ⟨.inr (.inl rfl), rfl⟩

theorem prefix_appendUniqueNodes (nodes : List CodeNode) :
    results <+: appendUniqueNodes p limit results nodes := by
  induction nodes generalizing results with
  | nil => exact prefix_refl results
  | cons node nodes ih =>
    rcases appendUniqueNodes_cons p limit results node nodes with ⟨-, heq⟩ | ⟨-, -, -, heq⟩
    · rw [heq]
      exact ih
    · rw [heq]
      exact (prefix_append results [node]).trans ih

variable {nodes : List CodeNode}

theorem Found.appendUniqueNodes (h : Found p limit rows results)
    (hnodes : ∀ node ∈ nodes, node ∈ rows) :
    Found p limit rows (appendUniqueNodes p limit results nodes) := by
  induction nodes generalizing results with
  | nil => exact h
  | cons node nodes ih =>
    have hrest : ∀ node ∈ nodes, node ∈ rows := fun other hother =>
      hnodes other (mem_cons_of_mem _ hother)
    rcases appendUniqueNodes_cons p limit results node nodes with
      ⟨-, heq⟩ | ⟨hroom, hmatch, hnew, heq⟩
    · rw [heq]
      exact ih h hrest
    · rw [heq]
      exact ih (h.concat hroom (hnodes node mem_cons_self) hmatch hnew) hrest

theorem mem_of_mem_appendUniqueNodes (h : node ∈ appendUniqueNodes p limit results nodes) :
    node ∈ results ∨ node ∈ nodes ∧ p.matchesNode node = true := by
  induction nodes generalizing results with
  | nil => exact .inl h
  | cons first nodes ih =>
    rcases appendUniqueNodes_cons p limit results first nodes with ⟨-, heq⟩ | ⟨-, hmatch, -, heq⟩
    · rw [heq] at h
      rcases ih h with hold | ⟨hmem, hmatch⟩
      · exact .inl hold
      · exact .inr ⟨mem_cons_of_mem _ hmem, hmatch⟩
    · rw [heq] at h
      rcases ih h with hold | ⟨hmem, hmatch⟩
      · rcases mem_append.1 hold with hold | hone
        · exact .inl hold
        · rw [mem_singleton.1 hone]
          exact .inr ⟨mem_cons_self, hmatch⟩
      · exact .inr ⟨mem_cons_of_mem _ hmem, hmatch⟩

theorem appendUniqueNodes_of_nodup (hids : ((results ++ nodes).map (·.id)).Nodup)
    (hroom : results.length + nodes.length ≤ limit) :
    appendUniqueNodes p limit results nodes = results ++ nodes.filter p.matchesNode := by
  induction nodes generalizing results with
  | nil => exact (append_nil results).symm
  | cons node nodes ih =>
    rw [length_cons] at hroom
    have hnew : node.id ∉ results.map (·.id) := by
      rw [map_append] at hids
      intro hseen
      exact disjoint_of_nodup_append hids hseen mem_cons_self
    rcases appendUniqueNodes_cons p limit results node nodes with ⟨hskip, heq⟩ | ⟨-, hmatch, -, heq⟩
    · have hfiltered : p.matchesNode node = false := by
        rcases hskip with hfull | hfiltered | hseen
        · omega
        · exact hfiltered
        · exact absurd hseen hnew
      have hrest : ((results ++ nodes).map (·.id)).Nodup :=
        hids.sublist (((sublist_cons_self node nodes).append_left results).map _)
      have hfits : results.length + nodes.length ≤ limit := by omega
      rw [heq, ih hrest hfits, filter_cons_of_neg (by rw [hfiltered]; decide)]
    · have hkept : ((results ++ [node] ++ nodes).map (·.id)).Nodup := by
        rwa [← append_cons]
      have hfits : (results ++ [node]).length + nodes.length ≤ limit := by
        rw [length_append, length_singleton]
        omega
      rw [heq, ih hkept hfits, filter_cons_of_pos hmatch, ← append_cons]

/-! ## The stages one by one -/

theorem prefix_stage (fetch : Nat → List CodeNode) : results <+: stage p limit fetch results := by
  unfold stage
  split
  · exact prefix_appendUniqueNodes _
  · exact prefix_refl results

theorem Found.stage (h : Found p limit rows results) {fetch : Nat → List CodeNode}
    (hfetch : ∀ k, ∀ node ∈ fetch k, node ∈ rows) :
    Found p limit rows (stage p limit fetch results) := by
  unfold Graph.stage
  split
  · exact h.appendUniqueNodes (hfetch _)
  · exact h

theorem prefix_stages (p : ParsedNodeSearch) (limit : Nat) (results : List CodeNode)
    (stages : List (Nat → List CodeNode)) :
    results <+: stages.foldl (fun results fetch => stage p limit fetch results) results := by
  induction stages generalizing results with
  | nil => exact prefix_refl results
  | cons fetch stages ih => exact (prefix_stage fetch).trans (ih _)

theorem Found.stages (h : Found p limit rows results) {stages : List (Nat → List CodeNode)}
    (hstages : ∀ fetch ∈ stages, ∀ k, ∀ node ∈ fetch k, node ∈ rows) :
    Found p limit rows
      (stages.foldl (fun results fetch => Graph.stage p limit fetch results) results) := by
  induction stages generalizing results with
  | nil => exact h
  | cons fetch stages ih =>
    exact ih (h.stage (hstages fetch mem_cons_self)) fun other hother =>
      hstages other (mem_cons_of_mem _ hother)

theorem stages_of_full (h : limit ≤ results.length) (stages : List (Nat → List CodeNode)) :
    stages.foldl (fun results fetch => stage p limit fetch results) results = results := by
  induction stages with
  | nil => rfl
  | cons fetch stages ih =>
    rw [foldl_cons, stage, if_neg (not_lt.2 h)]
    exact ih

theorem mem_of_mem_stage {fetch : Nat → List CodeNode} (h : node ∈ stage p limit fetch results) :
    node ∈ results ∨ p.matchesNode node = true ∧ ∃ k ≤ limit, node ∈ fetch k := by
  unfold stage at h
  split at h
  · rcases mem_of_mem_appendUniqueNodes h with hold | ⟨hmem, hmatch⟩
    · exact .inl hold
    · exact .inr ⟨hmatch, _, Nat.sub_le _ _, hmem⟩
  · exact .inl h

theorem mem_of_mem_stages {stages : List (Nat → List CodeNode)}
    (h : node ∈ stages.foldl (fun results fetch => stage p limit fetch results) results) :
    node ∈ results ∨ p.matchesNode node = true ∧ ∃ fetch ∈ stages, ∃ k ≤ limit, node ∈ fetch k := by
  induction stages generalizing results with
  | nil => exact .inl h
  | cons fetch stages ih =>
    rcases ih h with hstage | ⟨hmatch, other, hother, k, hk, hmem⟩
    · rcases mem_of_mem_stage hstage with hold | ⟨hmatch, k, hk, hmem⟩
      · exact .inl hold
      · exact .inr ⟨hmatch, fetch, mem_cons_self, k, hk, hmem⟩
    · exact .inr ⟨hmatch, other, mem_cons_of_mem _ hother, k, hk, hmem⟩

namespace NodeTable

variable {env : SearchEnv} {t : NodeTable} {query : String}

/-! ## Rows of the table -/

theorem mem_limitU32 (h : node ∈ limitU32 limit rows) : node ∈ rows := mem_of_mem_take h

theorem mem_byExported {q : CodeNode → Bool}
    (h : node ∈ env.byExported (t.nodes.filter q)) : node ∈ t.nodes ∧ q node = true :=
  mem_filter.1 ((env.exportedSorted _).perm.mem_iff.1 h)

theorem mem_namesakes : node ∈ t.namesakes env query ↔ node ∈ t.nodes ∧ Named query node := by
  unfold namesakes
  rw [(env.exportedSorted _).perm.mem_iff, mem_filter, decide_eq_true_iff]

theorem mem_exactName (h : node ∈ t.searchNodesByExactName env query limit) :
    node ∈ t.nodes ∧ Named query node := mem_namesakes.1 (mem_limitU32 h)

theorem mem_path (h : node ∈ t.searchNodesByPath env query limit) : node ∈ t.nodes := by
  unfold searchNodesByPath at h
  split at h
  · exact (mem_filter.1 ((env.pathSorted _ _).perm.mem_iff.1 (mem_limitU32 h))).1
  · cases h

theorem mem_fts (h : node ∈ t.searchNodesByFts env query limit) : node ∈ t.nodes :=
  env.fullText_mem _ _ _ (mem_limitU32 h)

theorem mem_candidates {nodes : List CodeNode}
    (h : node ∈ nodes.foldl (fun candidates node =>
      if limit ≤ candidates.length then candidates
      else if candidates.any (·.id = node.id) then candidates
      else candidates ++ [node]) found) : node ∈ found ∨ node ∈ nodes := by
  induction nodes generalizing found with
  | nil => exact .inl h
  | cons first nodes ih =>
    rw [foldl_cons] at h
    rcases ih h with hold | hrest
    · split at hold
      · exact .inl hold
      · split at hold
        · exact .inl hold
        · rcases mem_append.1 hold with hold | hone
          · exact .inl hold
          · rw [mem_singleton.1 hone]
            exact .inr mem_cons_self
    · exact .inr (mem_cons_of_mem _ hrest)

theorem mem_signature (h : node ∈ t.searchNodesBySignature env query limit) : node ∈ t.nodes := by
  rcases mem_candidates h with hnil | hmem
  · cases hnil
  · obtain ⟨term, -, hterm⟩ := mem_flatMap.1 hmem
    exact (mem_byExported (mem_limitU32 hterm)).1

theorem mem_laterStages {fetch : Nat → List CodeNode} (h : fetch ∈ t.laterStages env query)
    {k : Nat} (hmem : node ∈ fetch k) : node ∈ t.nodes := by
  rcases mem_append.1 h with htoken | hstage
  · obtain ⟨token, -, rfl⟩ := mem_map.1 htoken
    exact (mem_exactName hmem).1
  · rcases mem_cons.1 hstage with rfl | hstage
    · exact mem_path hmem
    · rcases mem_cons.1 hstage with rfl | hstage
      · exact mem_fts hmem
      · rw [mem_singleton.1 hstage] at hmem
        exact mem_signature hmem

theorem nodup_ids (t : NodeTable) : (t.nodes.map (·.id)).Nodup := by
  unfold nodes
  rw [map_map]
  exact t.ids

/-! ## The promises -/

variable (env t)

structure Promises (query : String) (limit : Nat) (results : List CodeNode) : Prop where
  /-- At most so many distinct rows, and all of them match. -/
  found : Found (parse query) limit t.nodes results
  /-- Namesakes come before what neither the text nor a term of it names. -/
  namesakesFirst : (parse query).text ≠ "" → results.Pairwise fun a b =>
    Named (parse query).text b → Named (parse query).text a ∨
      ∃ term ∈ searchableTerms env (parse query).text, Named term a
  /-- No namesake that matches is missed where there is room. -/
  complete : results.length < limit → ∀ node ∈ t.nodes,
    (parse query).matchesNode node = true →
      Named (parse query).text node → node ∈ results

def named (query : String) (limit : Nat) : List CodeNode :=
  t.searchNodesByExactName env (parse query).text limit

/-- The limit cuts off no namesake that matches, or so many match of those before the cut. Without
a text, there is a filter, or no row that matches has no name. -/
def Lossless (query : String) (limit : Nat) : Prop :=
  limit = 0 ∨
    ((parse query).text = "" →
      (parse query).hasFilters = true ∨ ∀ node ∈ t.nodes,
        (parse query).matchesNode node = true → ¬ Named "" node) ∧
    ((parse query).text ≠ "" →
      limit ≤ ((t.named env query limit).filter (parse query).matchesNode).length ∨
      ∀ node ∈ t.nodes, (parse query).matchesNode node = true →
        Named (parse query).text node → node ∈ t.named env query limit)

/-- No other query returns a row that matches and that the one for the name does not return. -/
def NothingElse (query : String) (limit : Nat) : Prop :=
  (parse query).text ≠ "" →
    ∀ fetch ∈ t.laterStages env (parse query).text, ∀ k ≤ limit,
      ∀ node ∈ fetch k, (parse query).matchesNode node = true →
        node ∈ t.named env query limit

variable {env t}

theorem nodup_named : ((t.named env query limit).map (·.id)).Nodup := by
  have hsakes : ((t.namesakes env (parse query).text).map (·.id)).Nodup := by
    unfold namesakes
    rw [((env.exportedSorted _).perm.map _).nodup_iff]
    exact t.nodup_ids.sublist (filter_sublist.map _)
  exact hsakes.sublist ((take_sublist _ _).map _)

theorem length_named_le : (t.named env query limit).length ≤ limit :=
  (length_take_le _ _).trans (by omega)

theorem firstStage_eq : appendUniqueNodes p limit [] (t.named env query limit) =
    (t.named env query limit).filter p.matchesNode := by
  rw [appendUniqueNodes_of_nodup, nil_append]
  · exact nodup_named
  · rw [length_nil, Nat.zero_add]
    exact length_named_le

theorem searchNodes_eq (hlimit : limit ≠ 0) (htext : (parse query).text ≠ "") :
    t.searchNodes env query limit = (t.laterStages env (parse query).text).foldl
        (fun results fetch => stage (parse query) limit fetch results)
        ((t.named env query limit).filter (parse query).matchesNode) := by
  unfold searchNodes
  rw [if_neg hlimit, if_neg htext, ← firstStage_eq]
  rfl

theorem found_first : Found (parse query) limit t.nodes
    ((t.named env query limit).filter (parse query).matchesNode) := by
  rw [← firstStage_eq]
  exact found_nil.appendUniqueNodes fun node hnode => (mem_exactName hnode).1

theorem found_filters : Found p limit t.nodes (t.nodesMatchingFilters env p limit) := by
  unfold nodesMatchingFilters
  split
  · exact found_nil
  · have hperm := (env.exportedSorted t.nodes).perm
    have hsub := take_sublist limit ((env.byExported t.nodes).filter p.matchesNode)
    refine ⟨length_take_le _ _, ?_, fun node hnode => ?_, fun node hnode => ?_⟩
    · have hids : ((env.byExported t.nodes).map (·.id)).Nodup := by
        rw [(hperm.map _).nodup_iff]
        exact t.nodup_ids
      exact hids.sublist ((hsub.trans filter_sublist).map _)
    · exact hperm.mem_iff.1 (mem_filter.1 (hsub.subset hnode)).1
    · exact (mem_filter.1 (hsub.subset hnode)).2

theorem mem_filters_of_room (hlimit : limit ≠ 0) (hfilters : p.hasFilters = true)
    (hroom : (t.nodesMatchingFilters env p limit).length < limit) (hnode : node ∈ t.nodes)
    (hmatch : p.matchesNode node = true) : node ∈ t.nodesMatchingFilters env p limit := by
  have hall : node ∈ (env.byExported t.nodes).filter p.matchesNode :=
    mem_filter.2 ⟨(env.exportedSorted t.nodes).perm.mem_iff.2 hnode, hmatch⟩
  unfold nodesMatchingFilters at hroom ⊢
  rw [if_neg (by simp [hfilters, hlimit])] at hroom ⊢
  rw [length_take] at hroom
  rwa [take_of_length_le (by omega)]

theorem found_searchNodes (env : SearchEnv) (t : NodeTable) (query : String) (limit : Nat) :
    Found (parse query) limit t.nodes (t.searchNodes env query limit) := by
  by_cases hlimit : limit = 0
  · unfold searchNodes
    rw [if_pos hlimit]
    exact found_nil
  · by_cases htext : (parse query).text = ""
    · unfold searchNodes
      rw [if_neg hlimit, if_pos htext]
      exact found_filters
    · rw [searchNodes_eq hlimit htext]
      exact found_first.stages fun fetch hfetch k node hnode => mem_laterStages hfetch hnode

theorem searchNodes_filters (htext : (parse query).text = "") :
    t.searchNodes env query limit = t.nodesMatchingFilters env (parse query) limit := by
  unfold searchNodes nodesMatchingFilters
  by_cases hlimit : limit = 0
  · rw [if_pos hlimit, if_pos (by simp [hlimit])]
  · rw [if_neg hlimit, if_pos htext]

theorem mem_searchNodes_of_named (hlimit : limit ≠ 0)
    (htext : (parse query).text ≠ "") (hnamed : node ∈ t.named env query limit)
    (hmatch : (parse query).matchesNode node = true) :
    node ∈ t.searchNodes env query limit := by
  rw [searchNodes_eq hlimit htext]
  exact (prefix_stages _ _ _ _).subset (mem_filter.2 ⟨hnamed, hmatch⟩)

theorem namesakesFirst_of_named (htext : (parse query).text ≠ "")
    (hnamed : ∀ node ∈ t.nodes, (parse query).matchesNode node = true →
      Named (parse query).text node → node ∈ t.named env query limit) :
    (t.searchNodes env query limit).Pairwise fun a b =>
      Named (parse query).text b → Named (parse query).text a := by
  have hfound := found_searchNodes env t query limit
  by_cases hlimit : limit = 0
  · unfold searchNodes
    rw [if_pos hlimit]
    exact List.Pairwise.nil
  · obtain ⟨rest, hrest⟩ := prefix_stages (parse query) limit
      ((t.named env query limit).filter (parse query).matchesNode)
      (t.laterStages env (parse query).text)
    rw [← searchNodes_eq hlimit htext] at hrest
    rw [← hrest] at hfound ⊢
    have hfirst : ∀ node ∈ (t.named env query limit).filter
        (parse query).matchesNode, Named (parse query).text node := fun node hnode =>
      (mem_exactName (mem_filter.1 hnode).1).2
    -- a namesake among the later results would be one of the first, and there twice
    have hlater : ∀ node ∈ rest, ¬ Named (parse query).text node := by
      intro node hnode hsame
      have hmem := mem_append_right ((t.named env query limit).filter
        (parse query).matchesNode) hnode
      have hmatch := hfound.isMatch node hmem
      have hearly := mem_filter.2 ⟨hnamed node (hfound.mem node hmem) hmatch hsame, hmatch⟩
      have hids := hfound.ids
      rw [map_append] at hids
      exact disjoint_of_nodup_append hids (mem_map_of_mem hearly)
        (mem_map_of_mem hnode)
    refine pairwise_append.2 ⟨?_, ?_, ?_⟩
    · exact pairwise_of_forall_mem_list fun a ha b _ _ => hfirst a ha
    · exact pairwise_of_forall_mem_list fun a _ b hb hsame => absurd hsame (hlater b hb)
    · exact fun a ha b _ _ => hfirst a ha

theorem promises_of_lossless (h : t.Lossless env query limit) :
    t.Promises env query limit (t.searchNodes env query limit) := by
  have hfound := found_searchNodes env t query limit
  by_cases hlimit : limit = 0
  · have hnil : t.searchNodes env query limit = [] := by
      unfold searchNodes
      rw [if_pos hlimit]
    rw [hnil] at hfound ⊢
    refine ⟨hfound, fun _ => List.Pairwise.nil, fun hroom => ?_⟩
    rw [hlimit] at hroom
    exact absurd hroom (by omega)
  obtain ⟨hno, hyes⟩ := h.resolve_left hlimit
  by_cases htext : (parse query).text = ""
  · refine ⟨hfound, fun hsome => absurd htext hsome, fun hroom node hnode hmatch hsame => ?_⟩
    rcases hno htext with hfilters | hnone
    · rw [searchNodes_filters htext] at hroom ⊢
      exact mem_filters_of_room hlimit hfilters hroom hnode hmatch
    · rw [htext] at hsame
      exact absurd hsame (hnone node hnode hmatch)
  · rcases hyes htext with hfull | hnamed
    · have heq : t.searchNodes env query limit =
          (t.named env query limit).filter (parse query).matchesNode := by
        rw [searchNodes_eq hlimit htext, stages_of_full hfull]
      rw [heq] at hfound ⊢
      refine ⟨hfound, fun _ => ?_, fun hroom => absurd hfull (not_le.2 hroom)⟩
      exact pairwise_of_forall_mem_list fun a ha b _ _ =>
        .inl (mem_exactName (mem_filter.1 ha).1).2
    · refine ⟨hfound, fun _ => ?_, fun _ node hnode hmatch hsame => ?_⟩
      · exact (namesakesFirst_of_named htext hnamed).imp fun hfirst hsame => .inl (hfirst hsame)
      · exact mem_searchNodes_of_named hlimit htext (hnamed node hnode hmatch hsame) hmatch

theorem mem_first_of_nothingElse (hlimit : limit ≠ 0)
    (htext : (parse query).text ≠ "") (h : t.NothingElse env query limit)
    (hnode : node ∈ t.searchNodes env query limit) :
    node ∈ (t.named env query limit).filter (parse query).matchesNode := by
  rw [searchNodes_eq hlimit htext] at hnode
  rcases mem_of_mem_stages hnode with hfirst | ⟨hmatch, fetch, hfetch, k, hk, hmem⟩
  · exact hfirst
  · exact mem_filter.2 ⟨h htext fetch hfetch k hk node hmem hmatch, hmatch⟩

theorem lossless_of_promises (h : t.NothingElse env query limit)
    (hkept : t.Promises env query limit (t.searchNodes env query limit)) :
    t.Lossless env query limit := by
  rcases Decidable.em (limit = 0) with hlimit | hlimit
  · exact .inl hlimit
  refine .inr ⟨fun htext => ?_, fun htext => ?_⟩
  · rw [or_iff_not_imp_left]
    intro hfilters node hnode hmatch hsame
    have hnil : t.searchNodes env query limit = [] := by
      rw [searchNodes_filters htext, nodesMatchingFilters, if_pos (by simp [hfilters])]
    have hmem := hkept.complete (by rw [hnil]; exact Nat.pos_of_ne_zero hlimit) node hnode hmatch
      (by rwa [htext])
    rw [hnil] at hmem
    cases hmem
  · rw [or_iff_not_imp_left]
    intro hroom node hnode hmatch hsame
    have hsub : t.searchNodes env query limit ⊆
        (t.named env query limit).filter (parse query).matchesNode := fun _ =>
      mem_first_of_nothingElse hlimit htext h
    have hlength : (t.searchNodes env query limit).length < limit := by
      have hle := (hkept.found.ids.of_map.subperm hsub).length_le
      omega
    exact (mem_filter.1 (hsub (hkept.complete hlength node hnode hmatch hsame))).1

/-- A search keeps what it promises where the limit cuts off no namesake that matches; and where no
later query makes up for what is cut off, it does so only there. -/
theorem searchNodes_keeps_promises (env : SearchEnv) (t : NodeTable) (query : String)
    (limit : Nat) :
    (t.Lossless env query limit → t.Promises env query limit (t.searchNodes env query limit)) ∧
      (t.NothingElse env query limit → (t.Promises env query limit (t.searchNodes env query limit) ↔
          t.Lossless env query limit)) :=
  ⟨promises_of_lossless, fun h => ⟨lossless_of_promises h, promises_of_lossless⟩⟩

end NodeTable

/-! ## A namesake of another language -/

/-- Ties stand in the order of the table, and the index finds the rows of one name. -/
def plainSearch : SearchEnv where
  isAlphanumeric := Char.isAlphanum
  byExported rows := rows.insertionSort ExportedFirst
  byPath query rows := rows.insertionSort (PathFirst query)
  fullText rows query := rows.filter fun node => query = "\"" ++ node.name ++ "\""
  exportedSorted rows := ⟨List.perm_insertionSort _ rows, List.pairwise_insertionSort _ rows⟩
  pathSorted _ rows := ⟨List.perm_insertionSort _ rows, List.pairwise_insertionSort _ rows⟩
  fullText_mem _ _ _ h := (List.mem_filter.1 h).1

def rustMain : CodeNode := ⟨"a", .function, "main", "main.rs", 1, 3, "rust", true, none, none⟩

def pythonMain : CodeNode := ⟨"b", .function, "main", "main.py", 1, 3, "python", false, none, none⟩

def twoMains : NodeTable where
  rows := [⟨1, rustMain⟩, ⟨2, pythonMain⟩]
  ids := by decide
  rowids := by decide

/-- The one row that is asked for is the Rust function, which the filter drops. -/
theorem search_misses_namesake : ¬ ∀ (env : SearchEnv) (t : NodeTable) (query : String)
    (limit : Nat), t.Promises env query limit (t.searchNodes env query limit) := by
  intro h
  have hnil : twoMains.searchNodes plainSearch "main lang:python" 1 = [] := by decide +kernel
  have hmem := (h plainSearch twoMains "main lang:python" 1).complete
    (by rw [hnil]; exact Nat.zero_lt_one) pythonMain (by decide +kernel) (by decide +kernel)
    (by decide +kernel)
  rw [hnil] at hmem
  cases hmem

end Aeqi.Graph
