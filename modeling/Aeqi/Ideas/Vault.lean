import Aeqi.Ideas.Frontmatter
import Aeqi.Ideas.Kept

/-!
# Ideas that are exported and imported

The ideas of a vault are imported into an empty store. Every file of the vault is that of an idea,
every row of the store is that of a file, and two files with one name of one agent share a row.
-/

namespace Aeqi.Ideas.Obsidian

open Aeqi.Lib List Option List

variable {F : Type} {ctx : VaultCtx F}

/-! ## Letters -/

def marks : List Char := ['\n', '"', '/']

def Piece (c : Char) (piece : List Char) : Prop :=
  piece ≠ [] ∧ if c ∈ marks then piece = [c] else ∀ m ∈ marks, m ∉ piece

/-- The standard library's letters: the lower case of a text is made of its characters' and has
nothing more to change in any part, and the marks are no letters. -/
structure LetterLaws (ctx : VaultCtx F) : Prop where
  pieces : ∀ s, ∃ ps, List.Forall₂ Piece s.toList ps ∧ (ctx.toLowercase s).toList = ps.flatten
  parts : ∀ s t, ctx.toLowercase s = s → t.toList <:+: s.toList → ctx.toLowercase t = t
  alphanumeric : ∀ c, ctx.isAlphanumeric c → c ∉ marks
  ascii : ∀ c, c.isAlphanum → ctx.isAlphanumeric c
  fact : ctx.toLowercase "fact" = "fact"

section Letters

variable {text a b : List Char} {ps : List (List Char)} {s : String} {m : Char}

theorem length_le_flatten (h : List.Forall₂ Piece text ps) : text.length ≤ ps.flatten.length := by
  induction h with
  | nil => exact le_rfl
  | @cons c p text ps hcp _ ih =>
    have hpos := length_pos_iff.mpr hcp.1
    rw [flatten_cons, length_append, length_cons]
    omega

theorem mark_mem_flatten (hm : m ∈ marks) (h : List.Forall₂ Piece text ps) :
    m ∈ ps.flatten ↔ m ∈ text := by
  induction h with
  | nil => exact Iff.rfl
  | @cons c p text ps hcp _ ih =>
    have hpiece : m ∈ p ↔ m = c := by
      obtain ⟨-, hpiece⟩ := hcp
      split at hpiece
      · rw [hpiece, mem_singleton]
      · rename_i hc
        exact ⟨fun hmem => absurd hmem (hpiece m hm), fun e => absurd (e ▸ hm) hc⟩
    rw [flatten_cons, mem_append, mem_cons, hpiece, ih]

theorem head_flatten (hm : m ∈ marks) (h : List.Forall₂ Piece text ps) :
    ps.flatten.head? = some m → text.head? = some m := by
  cases h with
  | nil => exact id
  | @cons c p text ps hcp _ =>
    intro hhead
    obtain ⟨hne, hpiece⟩ := hcp
    obtain ⟨b, p, rfl⟩ := exists_cons_of_ne_nil hne
    have hb : b = m := some.inj hhead
    split at hpiece
    · exact congrArg some ((List.cons.inj hpiece).1.symm.trans hb)
    · exact absurd (hb ▸ mem_cons_self) (hpiece m hm)

theorem last_flatten (hm : m ∈ marks) (h : List.Forall₂ Piece text ps) :
    ps.flatten.getLast? = some m → text.getLast? = some m := by
  induction h with
  | nil => exact id
  | @cons c p text ps hcp hrest ih =>
    rw [flatten_cons]
    intro hlast
    cases hrest with
    | nil =>
      have hmem : m ∈ p := by
        rw [flatten_nil, append_nil] at hlast
        exact mem_of_getLast? hlast
      have hc := (mark_mem_flatten hm (.cons hcp .nil)).mp (mem_append_left _ hmem)
      rw [mem_singleton.mp hc]
      rfl
    | @cons c' p' text ps hcp' hrest =>
      have hne : (p' :: ps).flatten ≠ [] := fun e => by
        have hlength := length_le_flatten (.cons hcp' hrest)
        rw [e] at hlength
        exact absurd hlength (by simp)
      rw [getLast?_append_of_ne_nil _ hne] at hlast
      exact ih hlast

theorem slash_flatten (h : List.Forall₂ Piece (a ++ '/' :: b) ps) :
    ∃ a' b', ps.flatten = a' ++ '/' :: b' ∧ ('/' ∉ a → '/' ∉ a') ∧ ('/' ∉ b → '/' ∉ b') ∧
      a.length ≤ a'.length ∧ b.length ≤ b'.length := by
  have hslash : '/' ∈ marks := by decide
  induction a generalizing ps with
  | nil =>
    obtain ⟨p, ps, ⟨-, hpiece⟩, hrest, rfl⟩ := forall₂_cons_left_iff.mp h
    refine ⟨[], ps.flatten, by rw [hpiece]; rfl, id, fun hb hmem => hb ?_,
      le_rfl, length_le_flatten hrest⟩
    exact (mark_mem_flatten hslash hrest).mp hmem
  | cons c a ih =>
    obtain ⟨p, ps, hcp, hrest, rfl⟩ := forall₂_cons_left_iff.mp h
    obtain ⟨a', b', hflatten, ha', hb', halength, hblength⟩ := ih hrest
    refine ⟨p ++ a', b', by rw [flatten_cons, hflatten, append_assoc], fun ha hmem => ?_,
      hb', ?_, hblength⟩
    · rcases mem_append.mp hmem with hmem | hmem
      · have hc := (mark_mem_flatten hslash (.cons hcp .nil)).mp (mem_append_left _ hmem)
        exact ha (mem_singleton.mp hc ▸ mem_cons_self)
      · exact ha' (fun hmem' => ha (mem_cons_of_mem _ hmem')) hmem
    · have hpos := length_pos_iff.mpr hcp.1
      rw [length_append, length_cons]
      omega

theorem LetterLaws.mark_mem (laws : LetterLaws ctx) (hm : m ∈ marks) :
    m ∈ (ctx.toLowercase s).toList ↔ m ∈ s.toList := by
  obtain ⟨ps, hps, hlower⟩ := laws.pieces s
  rw [hlower]
  exact mark_mem_flatten hm hps

theorem LetterLaws.head (laws : LetterLaws ctx) (hm : m ∈ marks)
    (h : (ctx.toLowercase s).toList.head? = some m) :
    s.toList.head? = some m := by
  obtain ⟨ps, hps, hlower⟩ := laws.pieces s
  rw [hlower] at h
  exact head_flatten hm hps h

theorem LetterLaws.last (laws : LetterLaws ctx) (hm : m ∈ marks)
    (h : (ctx.toLowercase s).toList.getLast? = some m) :
    s.toList.getLast? = some m := by
  obtain ⟨ps, hps, hlower⟩ := laws.pieces s
  rw [hlower] at h
  exact last_flatten hm hps h

theorem LetterLaws.length_le (laws : LetterLaws ctx) :
    s.toList.length ≤ (ctx.toLowercase s).toList.length := by
  obtain ⟨ps, hps, hlower⟩ := laws.pieces s
  rw [hlower]
  exact length_le_flatten hps

theorem LetterLaws.slash (laws : LetterLaws ctx) (h : s.toList = a ++ '/' :: b) : ∃ a' b',
    (ctx.toLowercase s).toList = a' ++ '/' :: b' ∧ ('/' ∉ a → '/' ∉ a') ∧ ('/' ∉ b → '/' ∉ b') ∧
      a.length ≤ a'.length ∧ b.length ≤ b'.length := by
  obtain ⟨ps, hps, hlower⟩ := laws.pieces s
  rw [h] at hps
  rw [hlower]
  exact slash_flatten hps

theorem LetterLaws.nonempty (laws : LetterLaws ctx) (h : s ≠ "") : ctx.toLowercase s ≠ "" := by
  intro e
  have hle := laws.length_le (s := s)
  rw [e] at hle
  have hnil : s.toList = [] := eq_nil_of_length_eq_zero (Nat.le_zero.mp hle)
  exact h (String.toList_eq_nil_iff.mp hnil)

end Letters

/-! ## Exported ideas and what has come back -/

section Statement

variable (ctx) (entries : List Idea) (edges : List (IdeaGraphEdge F))

/-- Ideas as a store has them: their ids are no texts of users, no two active ones of an owner have
one name, tags are normalized, bodies hold no secret. -/
structure Exportable : Prop where
  ids : (entries.map (·.id)).Nodup
  bareIds : ∀ e ∈ entries, Bare e.id ∧ '"' ∉ e.id.toList
  names : (entries.map fun e => (e.agentId.getD "", e.name)).Nodup
  tagged : ∀ e ∈ entries, e.tags ≠ [] ∧ e.tags.Nodup
  tags : ∀ e ∈ entries, ∀ tag ∈ e.tags,
    tag ≠ "" ∧ trim tag.toList = tag.toList ∧ ctx.toLowercase tag = tag
  clean : ∀ e ∈ entries, Clean e.content

/-- The first tag leads to a directory below the vault, whichever. -/
def Below (e : Idea) : Prop :=
  ∃ tag name names, e.tags.head? = some tag ∧ tagDir tag = some (name :: names)

def provenance (path : Path) : List String :=
  (provenanceTags (some (String.ofList (List.intercalate ['/'] path)))).map
    (normalTag ctx.toLowercase)

def Copies (t : IdeaTable) (e : Idea) (id : String) : Prop :=
  ∃ r, t.row id = some r ∧ r.name = e.name ∧ r.agentId = e.agentId

def rounded (strength : F) : F := (ctx.parse (ctx.twoDecimals strength)).getD ctx.half

/-- Every file is there, every idea has a row, and the rows are linked as the ideas are. -/
structure Restored (vault : Vault) (s : ImportState F) : Prop where
  kept : ∀ e ∈ entries, ∃ path, e.path ctx = some path ∧
    vault.lookup path = some (markdown ctx entries edges e)
  ideas : ∀ e ∈ entries, ∃ id r path, s.table.row id = some r ∧ r.name = e.name ∧
    r.agentId = e.agentId ∧ e.path ctx = some path ∧
    (∀ tag, tag ∈ r.tags ↔ tag ∈ e.tags ∨ tag ∈ provenance ctx path) ∧
    trimmed r.content = trimmed e.content
  linked : ∀ e ∈ entries, ∀ e' ∈ entries, ∀ relation strength,
    (∃ edge ∈ edges, edge.sourceId = e.id ∧ edge.targetId = e'.id ∧ edge.relation = relation ∧
      rounded ctx edge.strength = strength) ↔
    ∃ edge ∈ s.edges, Copies s.table e edge.sourceId ∧ Copies s.table e' edge.targetId ∧
      edge.relation = relation ∧ edge.strength = strength

/-- A list of all files of the vault, in whatever order they are found. -/
structure Lists (vault : Vault) (listing : List (Path × List Char)) : Prop where
  nodup : (listing.map Prod.fst).Nodup
  files : ∀ path raw, (path, raw) ∈ listing ↔ vault.lookup path = some raw

/-- An idea that its own file brings back. -/
structure Portable (e : Idea) : Prop where
  content : ¬ relationsHeading <:+: e.content.toList
  name : Bare e.name
  agent : ∀ agent, e.agentId = some agent → Bare agent ∧ agent ≠ "null"
  tags : ∀ tag ∈ e.tags, Bare tag
  aeqi : "aeqi" ∈ e.tags → e.tags = ["aeqi"]
  directory : ∃ tag name, e.tags.head? = some tag ∧ tagDir tag = some [name]

structure PortableVault : Prop where
  each : ∀ e ∈ entries, Portable e
  apart : ∀ e ∈ entries, ∀ e' ∈ entries, e.path ctx = e'.path ctx → e = e'
  unlinked : edgesBetween (entries.map (·.id)) edges = []

end Statement

/-! ## Files -/

section Files

variable {entries : List Idea} {edges : List (IdeaGraphEdge F)} {e : Idea} {path : Path}
variable {listing : List (Path × List Char)} {raw stem : List Char} {vault : Vault}

theorem splitExtension_md (h : stem ≠ []) :
    splitExtension (stem ++ ".md".toList) = (stem, some "md".toList) := by
  have hext : ((stem ++ ".md".toList).reverse.takeWhile (· ≠ '.')).reverse = "md".toList := by
    rw [reverse_append]
    rfl
  have htake : (stem ++ ".md".toList).take
      ((stem ++ ".md".toList).length - "md".toList.length - 1) = stem := by
    have hlength : (stem ++ ".md".toList).length - "md".toList.length - 1 = stem.length := by
      rw [length_append]
      have h3 : ".md".toList.length = 3 := by decide
      have h2 : "md".toList.length = 2 := by decide
      omega
    rw [hlength, take_left]
  have hdots : stem ++ ".md".toList ≠ "..".toList := fun e => by
    have hlength := congrArg List.length e
    have h3 : ".md".toList.length = 3 := by decide
    have h2 : "..".toList.length = 2 := by decide
    rw [length_append] at hlength
    omega
  unfold splitExtension
  simp only [hext, htake]
  rw [if_neg (not_or.mpr ⟨hdots, h⟩)]

theorem isMarkdown_filename :
    isMarkdown (filename ctx e) = true ↔ sanitizeFilename ctx e.name ≠ [] := by
  constructor
  · intro h hnil
    rw [filename, hnil] at h
    cases h
  · intro h
    rw [isMarkdown, filename, splitExtension_md h]
    exact decide_eq_true rfl

theorem sanitize_ne_nil : sanitizeFilename ctx e.name ≠ [] ↔ e.name ≠ "" := by
  rw [sanitizeFilename, ne_eq, map_eq_nil_iff, String.toList_eq_nil_iff]

theorem marks_filename (laws : LetterLaws ctx) {m : Char} (hm : m ∈ marks) :
    m ∉ filename ctx e := by
  intro hmem
  rcases mem_append.mp hmem with hmem | hmem
  · obtain ⟨c, -, hc⟩ := List.mem_map.mp hmem
    split at hc
    · rename_i halpha
      rcases halpha with halpha | rfl | rfl
      · exact laws.alphanumeric c halpha (hc ▸ hm)
      · exact nomatch (hc ▸ hm)
      · exact nomatch (hc ▸ hm)
    · exact nomatch (hc ▸ hm)
  · have hall : marks.all (fun m => decide (m ∉ ".md".toList)) := by decide
    exact of_decide_eq_true (List.all_eq_true.mp hall m hm) hmem

theorem mem_of_foldl_insert {l : List Idea} (h : (l.foldl (fun vault entry =>
      match entry.path ctx with
      | none => vault
      | some path => vault.insert path (markdown ctx entries edges entry)) vault).lookup path =
        some raw) :
    vault.lookup path = some raw ∨
      ∃ e ∈ l, e.path ctx = some path ∧ raw = markdown ctx entries edges e := by
  induction l generalizing vault with
  | nil => exact .inl h
  | cons e l ih =>
    rw [foldl_cons] at h
    rcases ih h with hold | ⟨e', he', hpath⟩
    · cases hp : e.path ctx with
      | none =>
        rw [hp] at hold
        exact .inl hold
      | some path' =>
        rw [hp] at hold
        rcases Accounts.lookup_insert_some hold with ⟨rfl, rfl⟩ | ⟨-, hold⟩
        · exact .inr ⟨e, mem_cons_self, hp, rfl⟩
        · exact .inl hold
    · exact .inr ⟨e', mem_cons_of_mem _ he', hpath⟩

theorem file_exportTo (h : (exportTo ctx entries edges).lookup path = some raw) :
    ∃ e ∈ entries, e.path ctx = some path ∧ raw = markdown ctx entries edges e :=
  (mem_of_foldl_insert h).resolve_left fun hempty => by simp at hempty

theorem isSome_foldl_insert {l : List Idea}
    (h : (vault.lookup path).isSome ∨ ∃ e ∈ l, e.path ctx = some path) :
    ((l.foldl (fun vault entry =>
      match entry.path ctx with
      | none => vault
      | some path => vault.insert path (markdown ctx entries edges entry)) vault).lookup
        path).isSome := by
  induction l generalizing vault with
  | nil => exact h.resolve_right nofun
  | cons e l ih =>
    rw [foldl_cons]
    refine ih ?_
    rcases h with hold | ⟨e', he', hpath⟩
    · left
      cases hp : e.path ctx with
      | none => exact hold
      | some path' =>
        by_cases heq : path = path'
        · subst heq
          simp
        · simpa [AList.lookup_insert_ne heq] using hold
    · rcases mem_cons.mp he' with rfl | he'
      · left
        simp [hpath]
      · exact .inr ⟨e', he', hpath⟩

theorem lookup_exportTo (hapart : ∀ e ∈ entries, ∀ e' ∈ entries, e.path ctx = e'.path ctx → e = e')
    (he : e ∈ entries) (hpath : e.path ctx = some path) :
    (exportTo ctx entries edges).lookup path = some (markdown ctx entries edges e) := by
  have hsome : ((exportTo ctx entries edges).lookup path).isSome :=
    isSome_foldl_insert (.inr ⟨e, he, hpath⟩)
  obtain ⟨raw, hraw⟩ := isSome_iff_exists.mp hsome
  obtain ⟨e', he', hpath', rfl⟩ := file_exportTo hraw
  rw [hraw, hapart e he e' he' (hpath.trans hpath'.symm)]

def fileOf (ctx : VaultCtx F) (entries : List Idea) (edges : List (IdeaGraphEdge F)) (e : Idea)
    (path : Path) : ParsedIdea F :=
  parseIdeaFile ctx path (markdown ctx entries edges e)

theorem Lists.file (h : Lists (exportTo ctx entries edges) listing) {file : Path × List Char}
    (hfile : file ∈ listing) :
    ∃ e ∈ entries, e.path ctx = some file.1 ∧ file.2 = markdown ctx entries edges e :=
  file_exportTo ((h.files file.1 file.2).mp hfile)

theorem path_below (hbelow : Below e) (hpath : e.path ctx = some path) :
    ∃ name names, path = name :: names ++ [filename ctx e] := by
  obtain ⟨tag, name, names, htag, hdir⟩ := hbelow
  rw [Idea.path, htag, getD_some, hdir] at hpath
  exact ⟨name, names, (some.inj hpath).symm⟩

theorem scanVault_eq (hbelow : ∀ e ∈ entries, Below e)
    (h : Lists (exportTo ctx entries edges) listing) :
    scanVault ctx listing = listing.filterMap (inDirectory ctx) := by
  have hroot : ∀ (l : List (Path × List Char)) (results : List (ParsedIdea F)), l ⊆ listing →
      l.foldl (atRoot ctx) results = results := by
    intro l
    induction l with
    | nil => exact fun _ _ => rfl
    | cons file l ih =>
      intro results hsub
      obtain ⟨hfile, hsub⟩ := cons_subset.mp hsub
      obtain ⟨e, he, hpath, -⟩ := h.file hfile
      obtain ⟨name, names, hnames⟩ := path_below (hbelow e he) hpath
      have hsame : atRoot ctx results file = results := by
        unfold atRoot
        rw [hnames]
        cases names <;> rfl
      rw [foldl_cons, hsame]
      exact ih results hsub
  exact hroot listing _ (List.Subset.refl _)

theorem mem_scanVault (hbelow : ∀ e ∈ entries, Below e)
    (h : Lists (exportTo ctx entries edges) listing) {p : ParsedIdea F}
    (hp : p ∈ scanVault ctx listing) : ∃ e ∈ entries, ∃ dir,
      e.path ctx = some [dir, filename ctx e] ∧ isMarkdown (filename ctx e) = true ∧
        p = fileOf ctx entries edges e [dir, filename ctx e] := by
  rw [scanVault_eq hbelow h] at hp
  obtain ⟨⟨path, raw⟩, hfile, hparse⟩ := mem_filterMap.mp hp
  obtain ⟨e, he, hpath, hraw⟩ := h.file hfile
  obtain ⟨name, names, rfl⟩ := path_below (hbelow e he) hpath
  cases names with
  | nil =>
    have hparse : (if isMarkdown (filename ctx e) then
        some (parseIdeaFile ctx [name, filename ctx e] raw) else none) = some p := hparse
    rw [ite_none_right_eq_some] at hparse
    refine ⟨e, he, name, hpath, hparse.1, ?_⟩
    rw [fileOf, ← hraw]
    exact (some.inj hparse.2).symm
  | cons name' names =>
    cases names with
    | nil | cons => cases hparse

end Files

/-! ## The import -/

section Import

variable {s : ImportState F} {now : Nat} {mem : ParsedIdea F} {mems : List (ParsedIdea F)}
variable {listing : List (Path × List Char)} {id : String} {r : IdeaRow}

structure RowOf (ctx : VaultCtx F) (mem : ParsedIdea F) (r : IdeaRow) : Prop where
  name : r.name = mem.name
  agentId : r.agentId = mem.agentId
  active : r.status = "active"
  content : r.content = redactSecrets (redactSecrets mem.content)
  tags : r.tags = normalizeTags ctx.toLowercase (mergeProvenanceTags ctx mem.tags mem.sourcePath)

theorem drawn_insertFullRow {t : IdeaTable} {input : StoreFull} {content : String}
    {tags : List String} :
    (t.insertFullRow ctx.toIdeasCtx input content tags now).2.drawn = t.drawn + 1 := by
  unfold IdeaTable.insertFullRow
  simp only
  split
  · rfl
  · split <;> rfl

theorem storeIdea_cases :
    (s.storeIdea ctx now mem).table.drawn = s.table.drawn + 1 ∧
    ((((s.table.row (ctx.uuid s.table.drawn)).isSome ∨
        s.table.nameTaken (ctx.uuid s.table.drawn) mem.name mem.agentId) ∧
      ∀ id, (s.storeIdea ctx now mem).table.row id = s.table.row id) ∨
    s.table.row (ctx.uuid s.table.drawn) = none ∧
      (∃ r, (s.storeIdea ctx now mem).table.row (ctx.uuid s.table.drawn) = some r ∧
        RowOf ctx mem r) ∧
      ∀ id, id ≠ ctx.uuid s.table.drawn → (s.storeIdea ctx now mem).table.row id = s.table.row id) := by
  have hstored : (s.storeIdea ctx now mem).table = (s.table.insertFullRow ctx.toIdeasCtx {
      name := mem.name
      content := redactSecrets mem.content
      tags := mergeProvenanceTags ctx mem.tags mem.sourcePath
      agentId := mem.agentId } (redactSecrets (redactSecrets mem.content))
      (normalizeTags ctx.toLowercase (mergeProvenanceTags ctx mem.tags mem.sourcePath)) now).2 := by
    unfold ImportState.storeIdea
    simp only
    split <;> rfl
  rw [hstored]
  refine ⟨drawn_insertFullRow, ?_⟩
  rcases @insertFullRow_cases ctx.toIdeasCtx s.table {
      name := mem.name
      content := redactSecrets mem.content
      tags := mergeProvenanceTags ctx mem.tags mem.sourcePath
      agentId := mem.agentId } (redactSecrets (redactSecrets mem.content))
    (normalizeTags ctx.toLowercase (mergeProvenanceTags ctx mem.tags mem.sourcePath)) now with
    ⟨hrefused, e, he⟩ | ⟨t', hadds, hok⟩
  · rw [he]
    exact .inl ⟨hrefused.imp_right fun h => h.2, fun _ => rfl⟩
  · rw [hok]
    obtain ⟨r, hr, ⟨hname, hagent, hstatus⟩, hcontent, htags⟩ := hadds.row
    exact .inr ⟨hadds.unused, ⟨r, hr, ⟨hname, hagent, hstatus, hcontent, htags⟩⟩, hadds.others⟩

theorem rows_storeIdeas (hrows : ∀ id r, s.table.row id = some r → ∃ mem ∈ mems, RowOf ctx mem r)
    {more : List (ParsedIdea F)} (hsub : more ⊆ mems) :
    ∀ id r, (more.foldl (·.storeIdea ctx now ·) s).table.row id = some r →
      ∃ mem ∈ mems, RowOf ctx mem r := by
  induction more generalizing s with
  | nil => exact hrows
  | cons mem more ih =>
    obtain ⟨hmem, hsub⟩ := cons_subset.mp hsub
    refine ih (fun id r hr => ?_) hsub
    rcases (@storeIdea_cases F ctx s now mem).2 with ⟨-, hsame⟩ | ⟨-, ⟨r', hr', hrow⟩, hothers⟩
    · exact hrows id r (hsame id ▸ hr)
    · by_cases hid : id = ctx.uuid s.table.drawn
      · rw [hid, hr'] at hr
        exact ⟨mem, hmem, some.inj hr ▸ hrow⟩
      · exact hrows id r (hothers id hid ▸ hr)

/-- The rows so far: under uuids that have been drawn, one for each file. -/
structure Stored (ctx : VaultCtx F) (mems : List (ParsedIdea F)) (s : ImportState F) : Prop where
  drawn : ∀ id r, s.table.row id = some r → ∃ k < s.table.drawn, id = ctx.uuid k
  rows : ∀ id r, s.table.row id = some r → ∃ mem ∈ mems, RowOf ctx mem r
  all : ∀ mem ∈ mems, ∃ id r, s.table.row id = some r ∧ RowOf ctx mem r

/-- Two files for one row of the index of names. -/
def Clash (mem mem' : ParsedIdea F) : Prop :=
  mem.name = mem'.name ∧ mem.agentId.getD "" = mem'.agentId.getD ""

theorem Stored.storeIdea (huuid : Function.Injective ctx.uuid) (h : Stored ctx mems s)
    (hfree : ∀ mem' ∈ mems, ¬ Clash mem' mem) :
    Stored ctx (mems ++ [mem]) (s.storeIdea ctx now mem) := by
  obtain ⟨hdrawn, hcases⟩ := @storeIdea_cases F ctx s now mem
  rcases hcases with ⟨hused | ⟨other, -, -, hnamed⟩, -⟩ | ⟨hunused, ⟨r', hr', hrow⟩, hothers⟩
  · obtain ⟨r, hr⟩ := isSome_iff_exists.mp hused
    obtain ⟨k, hk, hid⟩ := h.drawn _ r hr
    exact absurd (huuid hid) (by omega)
  · obtain ⟨r, hr, hnamed⟩ := (Option.any_eq_true _ _).mp hnamed
    obtain ⟨hname, hagent, -⟩ := of_decide_eq_true hnamed
    obtain ⟨mem', hmem', hrow⟩ := h.rows other r hr
    exact absurd ⟨hrow.name.symm.trans hname, hrow.agentId ▸ hagent⟩ (hfree mem' hmem')
  · have hkeep : ∀ id r, s.table.row id = some r →
        (s.storeIdea ctx now mem).table.row id = some r := by
      intro id r hr
      have hne : id ≠ ctx.uuid s.table.drawn := fun e => by
        rw [e, hunused] at hr
        cases hr
      rw [hothers id hne, hr]
    refine ⟨fun id r hr => ?_, fun id r hr => ?_, fun mem' hmem' => ?_⟩
    · rw [hdrawn]
      by_cases hid : id = ctx.uuid s.table.drawn
      · exact ⟨_, Nat.lt_succ_self _, hid⟩
      · rw [hothers id hid] at hr
        obtain ⟨k, hk, hid⟩ := h.drawn id r hr
        exact ⟨k, Nat.lt_succ_of_lt hk, hid⟩
    · by_cases hid : id = ctx.uuid s.table.drawn
      · rw [hid, hr'] at hr
        exact ⟨mem, mem_append_right _ (mem_singleton_self _), some.inj hr ▸ hrow⟩
      · rw [hothers id hid] at hr
        obtain ⟨mem', hmem', hrow'⟩ := h.rows id r hr
        exact ⟨mem', mem_append_left _ hmem', hrow'⟩
    · rcases mem_append.mp hmem' with hold | hnew
      · obtain ⟨id, r, hr, hrow'⟩ := h.all mem' hold
        exact ⟨id, r, hkeep id r hr, hrow'⟩
      · rw [mem_singleton.mp hnew]
        exact ⟨_, r', hr', hrow⟩

theorem Stored.storeIdeas (huuid : Function.Injective ctx.uuid) (h : Stored ctx mems s)
    {more : List (ParsedIdea F)}
    (hapart : (mems ++ more).Pairwise fun mem mem' => ¬ Clash mem mem') :
    Stored ctx (mems ++ more) (more.foldl (·.storeIdea ctx now ·) s) := by
  induction more generalizing s mems with
  | nil => rwa [append_nil]
  | cons mem more ih =>
    have hsplit : mems ++ mem :: more = (mems ++ [mem]) ++ more := by simp
    rw [hsplit] at hapart ⊢
    refine ih (h.storeIdea huuid fun mem' hmem' => ?_) hapart
    have hfirst := (pairwise_append.mp hapart).1
    exact (pairwise_append.mp hfirst).2.2 mem' hmem' mem (mem_singleton_self mem)

theorem table_addExisting {l : List (String × IdeaRow)} :
    (l.foldl (·.addExisting ·) s).table = s.table ∧ (l.foldl (·.addExisting ·) s).edges = s.edges := by
  induction l generalizing s with
  | nil => exact ⟨rfl, rfl⟩
  | cons row l ih =>
    have hstep : (s.addExisting row).table = s.table ∧ (s.addExisting row).edges = s.edges := by
      unfold ImportState.addExisting
      split <;> exact ⟨rfl, rfl⟩
    rw [foldl_cons, ih.1, ih.2]
    exact hstep

theorem table_storeRelation {sourceId : String} {rels : List (ParsedRelation F)} :
    (rels.foldl (·.storeRelation ctx sourceId ·) s).table = s.table := by
  induction rels generalizing s with
  | nil => rfl
  | cons rel rels ih =>
    rw [foldl_cons, ih]
    unfold ImportState.storeRelation
    split
    · rfl
    · split <;> rfl

theorem table_storeRelations : (mems.foldl (·.storeRelations ctx ·) s).table = s.table := by
  induction mems generalizing s with
  | nil => rfl
  | cons mem mems ih =>
    rw [foldl_cons, ih]
    unfold ImportState.storeRelations
    split
    · rfl
    · exact table_storeRelation

theorem edges_storeRelations (h : ∀ mem ∈ mems, mem.relations = []) :
    (mems.foldl (·.storeRelations ctx ·) s).edges = s.edges := by
  induction mems generalizing s with
  | nil => rfl
  | cons mem mems ih =>
    obtain ⟨hmem, hmems⟩ := forall_mem_cons.mp h
    rw [foldl_cons, ih hmems]
    unfold ImportState.storeRelations
    rw [hmem]
    split <;> rfl

theorem edges_storeIdeas : (mems.foldl (·.storeIdea ctx now ·) s).edges = s.edges := by
  induction mems generalizing s with
  | nil => rfl
  | cons mem mems ih =>
    rw [foldl_cons, ih]
    unfold ImportState.storeIdea
    simp only
    split <;> rfl

/-- The import into an empty store, before its edges. -/
def storedIdeas (ctx : VaultCtx F) (now : Nat) (listing : List (Path × List Char)) :
    ImportState F :=
  (scanVault ctx listing).foldl (·.storeIdea ctx now ·) ⟨⟨∅, [], 0⟩, [], ∅⟩

theorem table_importFrom :
    (importFrom ctx now listing).table = (storedIdeas ctx now listing).table := by
  unfold importFrom
  rw [table_storeRelations, table_addExisting.1]
  rfl

theorem rows_importFrom (hr : (importFrom ctx now listing).table.row id = some r) :
    ∃ mem ∈ scanVault ctx listing, RowOf ctx mem r := by
  rw [table_importFrom] at hr
  refine rows_storeIdeas (fun id r h => ?_) (List.Subset.refl _) id r hr
  cases h

end Import

/-! ## Files of readable ideas -/

section Reading

variable {entries : List Idea} {edges : List (IdeaGraphEdge F)} {e : Idea} {dir : List Char}
variable {tag : String}

def shownEdges (entries : List Idea) (edges : List (IdeaGraphEdge F)) (e : Idea) :
    List (IdeaGraphEdge F) :=
  edgesOf (edgesBetween (entries.map (·.id)) edges) e.id

theorem splitFrontmatter_markdown (h : Readable e) :
    splitFrontmatter (markdown ctx entries edges e) =
      (e.fm, bodyOf ctx (nameIn entries) e (shownEdges entries edges e)) := by
  have hbody : markdown ctx entries edges e = "---".toList ++
      (frontmatter e).flatMap ('\n' :: ·) ++ "\n---".toList ++
        bodyOf ctx (nameIn entries) e (shownEdges entries edges e) := by
    unfold markdown renderMarkdown bodyOf shownEdges
    simp only
  rw [hbody, splitFrontmatter_render h]
  rfl

theorem name_fileOf (laws : LetterLaws ctx) (h : Readable e) :
    (fileOf ctx entries edges e [dir, filename ctx e]).name = e.name := by
  have hname : (fileOf ctx entries edges e [dir, filename ctx e]).name =
      (extractField e.fm "key").getD (String.ofList (splitExtension (filename ctx e)).1) := by
    unfold fileOf parseIdeaFile
    rw [splitFrontmatter_markdown h]
    rfl
  rw [hname, extractField_key h]
  by_cases hnull : e.name = "null"
  · have hsanitize : sanitizeFilename ctx e.name = e.name.toList := by
      have hall : "null".toList.all Char.isAlphanum := by decide
      rw [hnull]
      refine (map_congr_left fun c hc => ?_).trans (List.map_id _)
      exact if_pos (.inl (laws.ascii c (List.all_eq_true.mp hall c hc)))
    rw [if_pos hnull, getD_none, filename,
      splitExtension_md (sanitize_ne_nil.mpr h.name.nonempty), hsanitize, String.ofList_toList]
  · rw [if_neg hnull, getD_some]

theorem agentId_fileOf (h : Readable e) :
    (fileOf ctx entries edges e [dir, filename ctx e]).agentId = e.agentId := by
  have hagent : (fileOf ctx entries edges e [dir, filename ctx e]).agentId =
      (extractField e.fm "agent_id").filter fun s => s ≠ "null" ∧ s ≠ "" := by
    unfold fileOf parseIdeaFile
    rw [splitFrontmatter_markdown h]
  rw [hagent, extractField_agent h]
  cases hid : e.agentId with
  | none => rfl
  | some agent =>
    obtain ⟨hbare, hnull⟩ := h.agent agent hid
    exact filter_eq_some_iff.mpr ⟨rfl, decide_eq_true ⟨hnull, hbare.nonempty⟩⟩

theorem tags_fileOf (h : Readable e) : (fileOf ctx entries edges e [dir, filename ctx e]).tags =
    if e.tags.filterMap readTag = [] then [(extractField e.fm "primary_tag").getD "fact"]
    else e.tags.filterMap readTag := by
  unfold fileOf parseIdeaFile
  rw [splitFrontmatter_markdown h]
  simp [extractTags_frontmatter h]

theorem content_fileOf (h : Readable e) :
    (fileOf ctx entries edges e [dir, filename ctx e]).content = String.ofList (trim
      (splitRelations ctx (bodyOf ctx (nameIn entries) e (shownEdges entries edges e))).1) ∧
    (fileOf ctx entries edges e [dir, filename ctx e]).relations =
      (splitRelations ctx (bodyOf ctx (nameIn entries) e (shownEdges entries edges e))).2 := by
  unfold fileOf parseIdeaFile
  rw [splitFrontmatter_markdown h]
  exact ⟨rfl, rfl⟩

theorem intercalate_path {file : List Char} :
    List.intercalate ['/'] [dir, file] = dir ++ '/' :: file := by
  simp

theorem sourcePath_fileOf : (fileOf ctx entries edges e [dir, filename ctx e]).sourcePath =
    some (String.ofList (dir ++ '/' :: filename ctx e)) := by
  rw [← intercalate_path]
  rfl

theorem mem_of_mem_normalizeTags {lower : String → String} {tags : List String}
    (h : tag ∈ normalizeTags lower tags) : tag = "fact" ∨ ∃ t ∈ tags, tag = normalTag lower t := by
  unfold normalizeTags at h
  simp only at h
  split at h
  · exact .inl (mem_singleton.mp h)
  · rw [mem_reverse, mem_dedup, mem_reverse, mem_filter] at h
    obtain ⟨t, ht, heq⟩ := List.mem_map.mp h.1
    exact .inr ⟨t, ht, heq.symm⟩

theorem of_mem_normalizeTags {lower : String → String} {tags : List String}
    (hne : ∃ t ∈ tags, normalTag lower t ≠ "") (h : tag ∈ normalizeTags lower tags) :
    ∃ t ∈ tags, tag = normalTag lower t := by
  obtain ⟨t, ht, hblank⟩ := hne
  unfold normalizeTags at h
  rw [if_neg] at h
  · rw [mem_reverse, mem_dedup, mem_reverse, mem_filter] at h
    obtain ⟨t, ht, heq⟩ := List.mem_map.mp h.1
    exact ⟨t, ht, heq.symm⟩
  · refine ne_nil_of_mem (a := normalTag lower t) ?_
    rw [mem_reverse, mem_dedup, mem_reverse, mem_filter]
    exact ⟨List.mem_map_of_mem ht, decide_eq_true hblank⟩

theorem mem_of_mem_mergeTags {lower : String → String} {seen tags : List String}
    (h : tag ∈ mergeTags lower seen tags) : tag ∈ tags := by
  induction tags generalizing seen with
  | nil => cases h
  | cons t tags ih =>
    simp only [mergeTags] at h
    split at h
    · rcases mem_cons.mp h with rfl | h
      · exact mem_cons_self
      · exact mem_cons_of_mem _ (ih h)
    · exact mem_cons_of_mem _ (ih h)

theorem exists_mem_mergeTags {lower : String → String} {seen tags : List String}
    (h : tag ∈ tags) (hne : lower tag ≠ "") :
    lower tag ∈ seen ∨ ∃ t ∈ mergeTags lower seen tags, lower t = lower tag := by
  induction tags generalizing seen with
  | nil => cases h
  | cons first tags ih =>
    simp only [mergeTags]
    by_cases hnew : lower first ≠ "" ∧ lower first ∉ seen
    · rw [if_pos hnew]
      rcases mem_cons.mp h with rfl | h
      · exact .inr ⟨tag, mem_cons_self, rfl⟩
      · rcases @ih (lower first :: seen) h with hseen | ⟨t, ht, heq⟩
        · rcases mem_cons.mp hseen with heq | hseen
          · exact .inr ⟨first, mem_cons_self, heq.symm⟩
          · exact .inl hseen
        · exact .inr ⟨t, mem_cons_of_mem _ ht, heq⟩
    · rw [if_neg hnew]
      rcases mem_cons.mp h with rfl | h
      · exact .inl (by_contra fun hseen => hnew ⟨hne, hseen⟩)
      · exact ih h

theorem mem_provenanceTags {path : String} (h : tag ∈ provenanceTags (some path)) :
    tag = "source:obsidian" ∨ tag = "source:markdown:" ++ path := by
  simpa [provenanceTags] using h

theorem trimmed_eq_self {text : String} (h : trim text.toList = text.toList) :
    trimmed text = text := by
  rw [trimmed, h, String.ofList_toList]

/-- The path of a file ends in `md`. -/
theorem toList_markdownTag :
    ("source:markdown:" ++ String.ofList (dir ++ '/' :: filename ctx e)).toList =
      's' :: ("ource:markdown:".toList ++ dir ++ '/' :: sanitizeFilename ctx e.name) ++
        ['.', 'm', 'd'] := by
  simp [filename]

theorem trimmed_provenanceTags (h : tag ∈ provenanceTags (some
    (String.ofList (dir ++ '/' :: filename ctx e)))) : trim tag.toList = tag.toList := by
  rcases mem_provenanceTags h with rfl | rfl
  · decide
  · rw [toList_markdownTag]
    refine trim_line (by decide) (by decide) fun c hc => ?_
    cases hc
    decide

theorem mem_storedTags (laws : LetterLaws ctx) {tags : List String} (hne : tags ≠ [])
    (htrim : ∀ t ∈ tags, trim t.toList = t.toList ∧ t ≠ "") :
    tag ∈ normalizeTags ctx.toLowercase (mergeTags ctx.toLowercase [] tags) ↔
      ∃ t ∈ tags, tag = ctx.toLowercase t := by
  have hnormal : ∀ t ∈ tags, normalTag ctx.toLowercase t = ctx.toLowercase t := fun t ht => by
    rw [normalTag, trimmed_eq_self (htrim t ht).1]
  have hkept : ∀ t ∈ tags, ∃ t' ∈ mergeTags ctx.toLowercase [] tags,
      normalTag ctx.toLowercase t' = ctx.toLowercase t ∧ ctx.toLowercase t ≠ "" := by
    intro t ht
    have hlower := laws.nonempty (htrim t ht).2
    rcases @exists_mem_mergeTags t ctx.toLowercase [] tags ht hlower with hseen | ⟨t', ht', heq⟩
    · cases hseen
    · exact ⟨t', ht', (hnormal t' (mem_of_mem_mergeTags ht')).trans heq, hlower⟩
  constructor
  · intro h
    obtain ⟨first, hfirst⟩ := exists_mem_of_ne_nil tags hne
    obtain ⟨t', ht', heq, hlower⟩ := hkept first hfirst
    obtain ⟨t, ht, htag⟩ := of_mem_normalizeTags ⟨t', ht', heq ▸ hlower⟩ h
    exact ⟨t, mem_of_mem_mergeTags ht, htag.trans (hnormal t (mem_of_mem_mergeTags ht))⟩
  · rintro ⟨t, ht, rfl⟩
    obtain ⟨t', ht', heq, hlower⟩ := hkept t ht
    rw [← heq]
    exact mem_normalizeTags ht' (heq ▸ hlower)

end Reading

end Aeqi.Ideas.Obsidian
