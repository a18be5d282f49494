import Aeqi.Ideas.Table
import Aeqi.Lib.Lines

/-!
# The Obsidian vault (`obsidian.rs`)

Ideas are written into one file each, below a directory for their first tag, and read back from
all files of a vault. Files are texts under the names that lead to them from the vault; writing a
file succeeds. Strengths of edges are of any type with what the standard library makes of an
`f32`: its text with two decimals, and a text's value. The log and the counts are left out, and so
is what the export does not write (scopes, properties, sessions, kinds).
-/

namespace Aeqi.Ideas.Obsidian

open Aeqi.Lib

structure Idea where
  id : String
  name : String
  content : String
  tags : List String
  agentId : Option String
  createdAt : Instant
deriving DecidableEq

structure IdeaGraphEdge (F : Type) where
  sourceId : String
  targetId : String
  relation : String
  strength : F

/-- What the two directions get from the standard library, besides what writers get. -/
structure VaultCtx (F : Type) extends IdeasCtx where
  isAlphanumeric : Char → Bool
  twoDecimals : F → String
  parse : String → Option F
  half : F
  max : F → F → F

variable {F : Type} (ctx : VaultCtx F)

/-! ## Files -/

/-- The names that lead to a file. -/
abbrev Path := List (List Char)

abbrev Vault := Accounts Path (List Char)

/-- Where a directory of this name is, if it is in the vault. -/
def tagDir (tag : String) : Option Path :=
  let components := (tag.toList.splitOn '/').filter fun c => c ≠ [] ∧ c ≠ ['.']
  if tag.toList.head? = some '/' ∨ components.contains "..".toList then none else some components

def sanitizeFilename (name : String) : List Char :=
  name.toList.map fun c => if ctx.isAlphanumeric c ∨ c = '-' ∨ c = '_' then c else '-'

def filename (entry : Idea) : List Char := sanitizeFilename ctx entry.name ++ ".md".toList

def Idea.path (entry : Idea) : Option Path :=
  (tagDir (entry.tags.head?.getD "untagged")).map (· ++ [filename ctx entry])

/-! ## Export -/

def quoted (text : String) : List Char := '"' :: text.toList ++ ['"']

def frontmatter (entry : Idea) : List (List Char) :=
  let tags := if entry.tags = [] then ["untagged"] else entry.tags
  ["id: ".toList ++ quoted entry.id,
    "key: ".toList ++ quoted entry.name,
    "primary_tag: ".toList ++ (tags.head?.getD "untagged").toList,
    "agent_id: ".toList ++ entry.agentId.elim "null".toList quoted,
    "created_at: ".toList ++ '"' :: entry.createdAt.toRfc3339 ++ ['"'],
    "tags:".toList] ++
    ("aeqi" :: tags).map fun tag => "         - ".toList ++ tag.toList

def edgesOf (edges : List (IdeaGraphEdge F)) (id : String) : List (IdeaGraphEdge F) :=
  edges.flatMap fun edge =>
    (if edge.sourceId = id then [edge] else []) ++ (if edge.targetId = id then [edge] else [])

def relationLine (nameOf : String → Option String) (id : String) (edge : IdeaGraphEdge F) :
    List Char :=
  let (otherId, direction) :=
    if edge.sourceId = id then (edge.targetId, '→') else (edge.sourceId, '←')
  let otherKey := (nameOf otherId).getD otherId
  "- ".toList ++ direction :: " [[".toList ++ otherKey.toList ++ "]] — ".toList ++
    edge.relation.toList ++ " (".toList ++ (ctx.twoDecimals edge.strength).toList ++ ")\n".toList

def relationsHeading : List Char := "## Relations".toList

def relationsSection (nameOf : String → Option String) (id : String) :
    List (IdeaGraphEdge F) → List Char
  | [] => []
  | edges => "\n---\n\n".toList ++ relationsHeading ++ "\n\n".toList ++
    edges.flatMap (relationLine ctx nameOf id)

def renderMarkdown (entry : Idea) (edges : List (IdeaGraphEdge F))
    (nameOf : String → Option String) : List Char :=
  "---".toList ++ (frontmatter entry).flatMap ('\n' :: ·) ++ "\n---".toList ++
    ("\n\n".toList ++ entry.content.toList ++ "\n".toList ++
      relationsSection ctx nameOf entry.id edges)

/-- `edges_between`: one end is enough. -/
def edgesBetween (ids : List String) (edges : List (IdeaGraphEdge F)) : List (IdeaGraphEdge F) :=
  edges.filter fun edge => edge.sourceId ∈ ids ∨ edge.targetId ∈ ids

def nameIn (entries : List Idea) (id : String) : Option String :=
  (entries.find? (·.id = id)).map (·.name)

def markdown (entries : List Idea) (edges : List (IdeaGraphEdge F)) (entry : Idea) : List Char :=
  let edges := edgesBetween (entries.map (·.id)) edges
  renderMarkdown ctx entry (edgesOf edges entry.id) (nameIn entries)

def exportTo (entries : List Idea) (edges : List (IdeaGraphEdge F)) : Vault :=
  entries.foldl (fun vault entry =>
    match entry.path ctx with
    | none => vault
    | some path => vault.insert path (markdown ctx entries edges entry)) ∅

/-! ## Import -/

section Import

structure ParsedRelation (F : Type) where
  targetKey : String
  relation : String
  strength : F
  outgoing : Bool

structure ParsedIdea (F : Type) where
  id : Option String
  name : String
  content : String
  tags : List String
  agentId : Option String
  relations : List (ParsedRelation F)
  sourcePath : Option String

def splitFrontmatter (raw : List Char) : List Char × List Char :=
  let trimmed := trimStart raw
  if ¬ "---".toList <+: trimmed then ([], raw)
  else
    match breakOn "\n---".toList (trimmed.drop 3) with
    | some (fm, rest) => (trim fm, rest.drop 4)
    | none => ([], raw)

/-- `trim_matches('"')`. -/
def trimQuotes (text : List Char) : List Char :=
  (text.dropWhile (· = '"')).rdropWhile (· = '"')

def trimmedLines (text : List Char) : List (List Char) := (text.splitOn '\n').map trim

def extractField (frontmatter : List Char) (field : String) : Option String :=
  ((trimmedLines frontmatter).find? ((field.toList ++ [':']) <+: ·)).bind fun line =>
    let val := trimQuotes (trim (line.drop (field.toList.length + 1)))
    if val = [] ∨ val = "null".toList then none else some (String.ofList val)

/-- The tags behind the line `tags:`, up to a line that is none. -/
def tagsFrom : List (List Char) → List String
  | [] => []
  | line :: lines =>
    if "- ".toList <+: line then
      let tag := trimQuotes (trim (line.drop 2))
      if tag ≠ [] ∧ tag ≠ "aeqi".toList then String.ofList tag :: tagsFrom lines
      else tagsFrom lines
    else if line = [] then tagsFrom lines
    else []

def extractTags (frontmatter : List Char) : List String :=
  tagsFrom (((trimmedLines frontmatter).dropWhile (· ≠ "tags:".toList)).drop 1)

def normalizeRelation (raw : List Char) : String :=
  let raw := String.ofList (trim raw)
  if raw = "mention" ∨ raw = "mentions" then "mention"
  else if raw = "embed" ∨ raw = "embeds" then "embed"
  else if raw = "link" then "link"
  else if raw = "co_retrieved" then "co_retrieved"
  else if raw = "contradiction" then "contradiction"
  else "mention"

def parseSuffix (afterLink : List Char) : String × F :=
  match breakOn " — ".toList afterLink with
  | none => ("mention", ctx.half)
  | some (_, rest) =>
    let rest := rest.drop 3
    match breakOn " (".toList rest with
    | none => (normalizeRelation rest, ctx.half)
    | some (relation, strength) =>
      let strength := trim ((strength.drop 2).rdropWhile (· = ')'))
      (normalizeRelation relation, (ctx.parse (String.ofList strength)).getD ctx.half)

def parseRelation (line : List Char) : Option (ParsedRelation F) :=
  if ¬ "- ".toList <+: line then none
  else
    let outgoing := ¬ ['←'] <+: trimStart (line.drop 2)
    (breakOn "[[".toList line).bind fun opened =>
      (breakOn "]]".toList opened.2).map fun closed =>
        let (relation, strength) := parseSuffix ctx (closed.2.drop 2)
        ⟨String.ofList (closed.1.drop 2), relation, strength, outgoing⟩

def parseRelations (text : List Char) : List (ParsedRelation F) :=
  (trimmedLines text).filterMap (parseRelation ctx)

def splitRelations (body : List Char) : List Char × List (ParsedRelation F) :=
  match breakOn relationsHeading body with
  | some (content, relations) => (content.rdropWhile isWhitespace, parseRelations ctx relations)
  | none => (body, [])

def parseIdeaFile (path : Path) (raw : List Char) : ParsedIdea F :=
  let (frontmatter, body) := splitFrontmatter raw
  let tags := extractTags frontmatter
  let (content, relations) := splitRelations ctx body
  { id := extractField frontmatter "id"
    name := (extractField frontmatter "key").getD
      (String.ofList (splitExtension (path.getLast?.getD [])).1)
    content := String.ofList (trim content)
    tags := if tags = [] then [(extractField frontmatter "primary_tag").getD "fact"] else tags
    agentId := (extractField frontmatter "agent_id").filter fun s => s ≠ "null" ∧ s ≠ ""
    relations
    sourcePath := some (String.ofList (List.intercalate ['/'] path)) }

def isMarkdown (file : List Char) : Bool := (splitExtension file).2 = some "md".toList

def inDirectory (file : Path × List Char) : Option (ParsedIdea F) :=
  match file.1 with
  | [_, name] => if isMarkdown name then some (parseIdeaFile ctx file.1 file.2) else none
  | _ => none

def atRoot (results : List (ParsedIdea F)) (file : Path × List Char) : List (ParsedIdea F) :=
  match file.1 with
  | [name] =>
    if isMarkdown name ∧ ¬ results.any (·.name.toList = (splitExtension name).1) then
      results ++ [parseIdeaFile ctx file.1 file.2]
    else results
  | _ => results

def scanVault (listing : List (Path × List Char)) : List (ParsedIdea F) :=
  listing.foldl (atRoot ctx) (listing.filterMap (inDirectory ctx))

/-- Tags that are equal up to case are kept once. -/
def mergeTags (lower : String → String) : List String → List String → List String
  | _, [] => []
  | seen, tag :: tags =>
    let key := lower tag
    if key ≠ "" ∧ key ∉ seen then tag :: mergeTags lower (key :: seen) tags
    else mergeTags lower seen tags

def provenanceTags (sourcePath : Option String) : List String :=
  "source:obsidian" :: (sourcePath.map ("source:markdown:" ++ ·)).toList

def mergeProvenanceTags (tags : List String) (sourcePath : Option String) : List String :=
  mergeTags ctx.toLowercase [] (tags ++ provenanceTags sourcePath)

/-- The table, the edges with their strengths, and the ids of the names. -/
structure ImportState (F : Type) where
  table : IdeaTable
  edges : List (IdeaGraphEdge F)
  keyToId : Accounts String String

variable (s : ImportState F)

/-- `store`, which redacts the body once more than `store_full`; an error is skipped. -/
def ImportState.storeIdea (now : Nat) (mem : ParsedIdea F) : ImportState F :=
  let stored := s.table.storeFull ctx.toIdeasCtx {
    name := mem.name
    content := redactSecrets mem.content
    tags := mergeProvenanceTags ctx mem.tags mem.sourcePath
    agentId := mem.agentId } now
  match stored.1 with
  | .ok id => { s with table := stored.2, keyToId := s.keyToId.insert mem.name id }
  | .error _ => { s with table := stored.2 }

/-- `list_all`, the newest first. -/
def listAll (t : IdeaTable) (now : Nat) : List (String × IdeaRow) :=
  let rows := t.rows.entries.map fun entry => (entry.1, entry.2)
  (rows.filter fun row => row.2.expiresAt.all (now < ·)).mergeSort
    (fun a b => b.2.createdAt ≤ a.2.createdAt)

/-- Names that are not known yet. -/
def ImportState.addExisting (row : String × IdeaRow) : ImportState F :=
  if row.2.name ∈ s.keyToId then s
  else { s with keyToId := s.keyToId.insert row.2.name row.1 }

def storeIdeaEdge (edges : List (IdeaGraphEdge F)) (edge : IdeaGraphEdge F) :
    List (IdeaGraphEdge F) :=
  let same (e : IdeaGraphEdge F) := e.sourceId = edge.sourceId ∧ e.targetId = edge.targetId ∧
    e.relation = edge.relation
  if ∃ e ∈ edges, same e then
    edges.map fun e => if same e then { e with strength := ctx.max edge.strength e.strength } else e
  else edges ++ [edge]

def ImportState.storeRelation (sourceId : String) (rel : ParsedRelation F) : ImportState F :=
  if ¬ rel.outgoing then s
  else
    match s.keyToId.lookup rel.targetKey with
    | none => s
    | some targetId =>
      { s with edges := storeIdeaEdge ctx s.edges ⟨sourceId, targetId, rel.relation, rel.strength⟩ }

def ImportState.storeRelations (mem : ParsedIdea F) : ImportState F :=
  match s.keyToId.lookup mem.name with
  | none => s
  | some sourceId => mem.relations.foldl (·.storeRelation ctx sourceId ·) s

/-- All ideas, and then all edges. -/
def importFrom (now : Nat) (listing : List (Path × List Char)) : ImportState F :=
  let parsed := scanVault ctx listing
  let stored := parsed.foldl (·.storeIdea ctx now ·) ⟨⟨∅, [], 0⟩, [], ∅⟩
  let known := (listAll stored.table now).foldl (·.addExisting ·) stored
  parsed.foldl (·.storeRelations ctx ·) known

end Import

end Aeqi.Ideas.Obsidian
