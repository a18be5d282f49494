import Aeqi.Ideas.Vault

/-!
# What a vault brings back

`restored_iff` says for which ideas all of them come back: none is linked with another, no body has
the heading of the relations, the texts of the frontmatter are bare, no two ideas have one file, and
each file is directly below a directory of the vault.
-/

namespace Aeqi.Ideas.Obsidian

open Aeqi.Lib List Option
open String (toList_inj toList_ofList)

variable {F : Type} {ctx : VaultCtx F}

/-! ## What has come back was portable -/

section Necessary

variable {entries : List Idea} {edges : List (IdeaGraphEdge F)} {e k : Idea} {dir : List Char}
variable {r : IdeaRow} {listing : List (Path × List Char)} {now : Nat} {tag : String}

/-- The row that is the idea's comes from the file of `k`. -/
structure CameFrom (ctx : VaultCtx F) (entries : List Idea) (edges : List (IdeaGraphEdge F))
    (e k : Idea) (dir : List Char) (r : IdeaRow) : Prop where
  found : k.path ctx = some [dir, filename ctx k]
  markdown : isMarkdown (filename ctx k) = true
  row : RowOf ctx (fileOf ctx entries edges k [dir, filename ctx k]) r
  name : r.name = e.name
  agentId : r.agentId = e.agentId
  tags : ∃ path, e.path ctx = some path ∧
    ∀ tag, tag ∈ r.tags ↔ tag ∈ e.tags ∨ tag ∈ provenance ctx path
  content : trimmed r.content = trimmed e.content

theorem Restored.cameFrom (hbelow : ∀ e ∈ entries, Below e)
    (hlist : Lists (exportTo ctx entries edges) listing)
    (h : Restored ctx entries edges (exportTo ctx entries edges) (importFrom ctx now listing))
    (he : e ∈ entries) : ∃ k ∈ entries, ∃ dir r, CameFrom ctx entries edges e k dir r := by
  obtain ⟨id, r, path, hr, hname, hagent, hpath, htags, hcontent⟩ := h.ideas e he
  obtain ⟨mem, hmem, hrow⟩ := rows_importFrom hr
  obtain ⟨k, hk, dir, hfound, hmarkdown, rfl⟩ := mem_scanVault hbelow hlist hmem
  exact ⟨k, hk, dir, r, ⟨hfound, hmarkdown, hrow, hname, hagent, ⟨path, hpath, htags⟩, hcontent⟩⟩

theorem bare_stem (laws : LetterLaws ctx) (h : isMarkdown (filename ctx k) = true) :
    Bare (String.ofList (splitExtension (filename ctx k)).1) := by
  have hne := isMarkdown_filename.mp h
  have hmark : ∀ m ∈ marks, m ∉ sanitizeFilename ctx k.name := fun m hm hmem =>
    marks_filename laws hm (mem_append_left _ hmem)
  have hquote : '"' ∉ sanitizeFilename ctx k.name := hmark _ (by decide)
  rw [filename, splitExtension_md hne]
  refine ⟨fun e => hne ?_, ?_, ?_, ?_⟩
  · rw [← toList_ofList (l := sanitizeFilename ctx k.name), e]
    rfl
  · rw [toList_ofList]
    exact hmark _ (by decide)
  · rw [toList_ofList]
    exact fun hhead => hquote (mem_of_head? hhead)
  · rw [toList_ofList]
    exact fun hlast => hquote (mem_of_getLast? hlast)

theorem CameFrom.bareName (laws : LetterLaws ctx) (h : CameFrom ctx entries edges e k dir r) :
    Bare e.name := by
  rw [← h.name, h.row.name]
  rcases @name_parseIdeaFile F ctx [dir, filename ctx k]
    (Obsidian.markdown ctx entries edges k) with hbare | hstem
  · exact hbare
  · rw [fileOf, hstem]
    exact bare_stem laws h.markdown

theorem CameFrom.bareAgent (h : CameFrom ctx entries edges e k dir r) :
    ∀ agent, e.agentId = some agent → Bare agent ∧ agent ≠ "null" := fun agent hagent => by
  rw [← h.agentId, h.row.agentId] at hagent
  exact agentId_parseIdeaFile hagent

theorem noBreak_lower (laws : LetterLaws ctx) (h : '\n' ∉ tag.toList) :
    '\n' ∉ (normalTag ctx.toLowercase tag).toList := by
  rw [normalTag, laws.mark_mem (by decide), trimmed, toList_ofList]
  exact fun hmem => h (mem_of_mem_trim hmem)

theorem tagDir_of_path {name : List Char} {primary : String} (hbelow : Below k)
    (hprimary : k.tags.head? = some primary) (h : k.path ctx = some [dir, name]) :
    tagDir primary = some [dir] := by
  obtain ⟨tag, first, names, htag, hdir⟩ := hbelow
  cases htag.symm.trans hprimary
  rw [Idea.path, hprimary, getD_some, hdir] at h
  rw [hdir]
  cases names with
  | nil =>
    have hfirst := (List.cons.inj (some.inj h)).1
    rw [hfirst]
  | cons second names =>
    have htail := (List.cons.inj (List.cons.inj (some.inj h)).2).2
    exact absurd htail (by simp)

theorem component_of_tagDir {name : List Char} {names : Path} {primary : String}
    (h : tagDir primary = some names) (hname : name ∈ names) :
    '/' ∉ name ∧ name ⊆ primary.toList := by
  unfold tagDir at h
  simp only at h
  split at h
  · cases h
  · rw [← some.inj h] at hname
    exact splitOn_piece name (mem_filter.mp hname).1

theorem CameFrom.nested (laws : LetterLaws ctx) (hbelow : Below k) (htagged : k.tags ≠ [])
    (h : CameFrom ctx entries edges e k dir r) (hmem : tag ∈ e.tags) (hbreak : '\n' ∈ tag.toList) :
    (∃ a b, tagDir tag = some [a, b]) ∧
      ∃ primary, k.tags.head? = some primary ∧ '\n' ∈ primary.toList := by
  obtain ⟨path, -, htags⟩ := h.tags
  have hr := (htags tag).mpr (.inl hmem)
  rw [h.row.tags] at hr
  rcases mem_of_mem_normalizeTags hr with rfl | ⟨t, ht, rfl⟩
  · exact absurd hbreak (by decide)
  rcases mem_append.mp (mem_of_mem_mergeTags ht) with ht | ht
  · exact absurd hbreak (noBreak_lower laws (tags_parseIdeaFile ht).noBreak)
  rw [sourcePath_fileOf] at ht
  have htrim := trimmed_eq_self (trimmed_provenanceTags ht)
  rcases mem_provenanceTags ht with rfl | rfl
  · exact absurd hbreak (noBreak_lower laws (by decide))
  obtain ⟨primary, tags, hprimary⟩ := exists_cons_of_ne_nil htagged
  have hhead : k.tags.head? = some primary := by rw [hprimary]; rfl
  have hdir := tagDir_of_path hbelow hhead h.found
  obtain ⟨hslash, hsub⟩ := component_of_tagDir hdir (mem_singleton_self dir)
  have htext : ("source:markdown:" ++ String.ofList (dir ++ '/' :: filename ctx k)).toList =
      ("source:markdown:".toList ++ dir) ++ '/' :: filename ctx k := by
    simp
  constructor
  · obtain ⟨a, b, hlower, ha, hb, halength, hblength⟩ := laws.slash htext
    have ha : '/' ∉ a := ha (by
      rw [mem_append]
      exact not_or.mpr ⟨by decide, hslash⟩)
    have hb : '/' ∉ b := hb (marks_filename laws (by decide))
    have halong : 16 ≤ a.length := Nat.le_trans (by simp) halength
    have hblong : 3 ≤ b.length := Nat.le_trans (by simp [filename]) hblength
    refine ⟨a, b, ?_⟩
    have hlong : ∀ l : List Char, 3 ≤ l.length → l ≠ [] ∧ l ≠ ['.'] ∧ l ≠ "..".toList := by
      intro l hl
      refine ⟨?_, ?_, ?_⟩
      all_goals
        rintro rfl
        exact absurd hl (by decide)
    obtain ⟨hanil, hadot, hadots⟩ := hlong a (by omega)
    obtain ⟨hbnil, hbdot, hbdots⟩ := hlong b hblong
    have hsplit : (a ++ '/' :: b).splitOn '/' = [a, b] := by
      rw [splitOn_append_cons_self_of_not_mem ha, splitOn_eq_singleton hb]
    have hfilter : [a, b].filter (fun c => c ≠ [] ∧ c ≠ ['.']) = [a, b] := by
      simp [hanil, hadot, hbnil, hbdot]
    have hfirst : (a ++ '/' :: b).head? ≠ some '/' := by
      obtain ⟨c, a, rfl⟩ := exists_cons_of_ne_nil hanil
      intro e
      exact ha (some.inj e ▸ mem_cons_self)
    have hnot : ¬ ((a ++ '/' :: b).head? = some '/' ∨ [a, b].contains "..".toList) := by
      simp only [contains_iff_mem, mem_cons, not_mem_nil, or_false, not_or]
      exact ⟨hfirst, fun e => hadots e.symm, fun e => hbdots e.symm⟩
    unfold tagDir
    simp only [normalTag, htrim, hlower, hsplit, hfilter]
    rw [if_neg hnot]
  · refine ⟨primary, hhead, hsub ?_⟩
    rw [normalTag, htrim, laws.mark_mem (by decide), htext] at hbreak
    rcases mem_append.mp hbreak with hbreak | hbreak
    · exact (mem_append.mp hbreak).resolve_left (by decide)
    · rcases mem_cons.mp hbreak with hbreak | hbreak
      · exact absurd hbreak (by decide)
      · exact absurd hbreak (marks_filename laws (by decide))

theorem Restored.apart (hE : Exportable ctx entries) {s : ImportState F}
    (h : Restored ctx entries edges (exportTo ctx entries edges) s) {e' : Idea}
    (he : e ∈ entries) (he' : e' ∈ entries)
    (hpath : e.path ctx = e'.path ctx) : e = e' := by
  obtain ⟨path, hepath, hfile⟩ := h.kept e he
  obtain ⟨path', hepath', hfile'⟩ := h.kept e' he'
  rw [← hpath, hepath] at hepath'
  rw [← some.inj hepath', hfile] at hfile'
  have hraw := some.inj hfile'
  have hid : ∀ e : Idea, '"' ∉ e.id.toList →
      ((markdown ctx entries edges e).drop 9).takeWhile (· ≠ '"') = e.id.toList := by
    intro e hquote
    obtain ⟨tail, htail⟩ : ∃ tail, (markdown ctx entries edges e).drop 9 =
        e.id.toList ++ '"' :: tail := by
      unfold markdown renderMarkdown frontmatter
      simp [quoted]
    rw [htail, takeWhile_append_of_pos, takeWhile_cons_of_neg, append_nil]
    · simp
    · exact fun c hc => decide_eq_true fun e => hquote (e ▸ hc)
  have hids : e.id = e'.id := by
    apply String.toList_injective
    rw [← hid e (hE.bareIds e he).2, ← hid e' (hE.bareIds e' he').2, hraw]
  exact inj_on_of_nodup_map hE.ids he he' hids

def Quoted (tag : String) : Prop := tag.toList.head? = some '"' ∨ tag.toList.getLast? = some '"'

theorem not_quoted_lower (laws : LetterLaws ctx) {t : String} (htrim : trim t.toList = t.toList)
    (hfirst : t.toList.head? ≠ some '"') (hlast : t.toList.getLast? ≠ some '"') :
    ¬ Quoted (normalTag ctx.toLowercase t) := by
  rw [normalTag, trimmed_eq_self htrim]
  rintro (hhead | hend)
  · exact hfirst (laws.head (by decide) hhead)
  · exact hlast (laws.last (by decide) hend)

theorem read_tag (laws : LetterLaws ctx) {t : String} (htrim : trim t.toList = t.toList)
    (hlower : ctx.toLowercase t = t) :
    let read := normalTag ctx.toLowercase (String.ofList (trimQuotes t.toList))
    Quoted t ∧ read.toList.length < t.toList.length ∨ ¬ Quoted t ∧ read = t := by
  by_cases hquoted : Quoted t
  · left
    have hparts := laws.parts t (trimmed (String.ofList (trimQuotes t.toList))) hlower (by
      rw [trimmed, toList_ofList, toList_ofList]
      exact (infix_trim _).trans (infix_trimQuotes _))
    refine ⟨hquoted, ?_⟩
    rw [normalTag, hparts, trimmed, toList_ofList, toList_ofList]
    refine Nat.lt_of_le_of_lt (infix_trim _).length_le ?_
    refine Nat.lt_of_le_of_ne (infix_trimQuotes _).length_le fun hlength => ?_
    have hsame : trimQuotes t.toList = t.toList := (infix_trimQuotes _).eq_of_length hlength
    rcases hquoted with hhead | hlast
    · exact trimQuotes_first t.toList (hsame.symm ▸ hhead)
    · exact trimQuotes_last t.toList (hsame.symm ▸ hlast)
  · right
    obtain ⟨hfirst, hlast⟩ := not_or.mp hquoted
    refine ⟨hquoted, ?_⟩
    rw [trimQuotes_eq_self hfirst hlast, String.ofList_toList, normalTag, trimmed_eq_self htrim,
      hlower]

variable (laws : LetterLaws ctx) (hE : Exportable ctx entries) (hbelow : ∀ e ∈ entries, Below e)
variable (hlist : Lists (exportTo ctx entries edges) listing)
variable (h : Restored ctx entries edges (exportTo ctx entries edges) (importFrom ctx now listing))

include laws hE hbelow hlist h

theorem Restored.noBreak (he : e ∈ entries) (htag : tag ∈ e.tags) : '\n' ∉ tag.toList := by
  intro hbreak
  obtain ⟨k, hk, dir, r, hfrom⟩ := h.cameFrom hbelow hlist he
  obtain ⟨-, primary, hprimary, hbreak'⟩ :=
    hfrom.nested laws (hbelow k hk) (hE.tagged k hk).1 htag hbreak
  obtain ⟨k', hk', dir', r', hfrom'⟩ := h.cameFrom hbelow hlist hk
  obtain ⟨⟨a, b, hnested⟩, -⟩ := hfrom'.nested laws (hbelow k' hk') (hE.tagged k' hk').1
    (mem_of_head? hprimary) hbreak'
  rw [tagDir_of_path (hbelow k hk) hprimary hfrom.found] at hnested
  cases hnested

theorem Restored.readable (he : e ∈ entries) : Readable e := by
  obtain ⟨k, -, dir, r, hfrom⟩ := h.cameFrom hbelow hlist he
  refine ⟨(hE.bareIds e he).1, hfrom.bareName laws, hfrom.bareAgent, (hE.tagged e he).1,
    fun tag htag => ?_⟩
  obtain ⟨hne, htrim, -⟩ := hE.tags e he tag htag
  exact ⟨h.noBreak laws hE hbelow hlist he htag, hne, htrim⟩

theorem Restored.own (he : e ∈ entries) : ∃ dir r, CameFrom ctx entries edges e e dir r := by
  obtain ⟨k, hk, dir, r, hfrom⟩ := h.cameFrom hbelow hlist he
  have hreadable := h.readable laws hE hbelow hlist hk
  have hname : k.name = e.name := by
    rw [← hfrom.name, hfrom.row.name, name_fileOf laws hreadable]
  have hagent : k.agentId = e.agentId := by
    rw [← hfrom.agentId, hfrom.row.agentId, agentId_fileOf hreadable]
  have hkey : k = e := inj_on_of_nodup_map hE.names hk he
    (Prod.ext (congrArg (Option.getD · "") hagent) hname)
  exact ⟨dir, r, hkey ▸ hfrom⟩

theorem Restored.tag_cases (he : e ∈ entries) (htag : tag ∈ e.tags) :
    (∃ t ∈ e.tags, tag = normalTag ctx.toLowercase (String.ofList (trimQuotes t.toList)) ∧
      (trimQuotes t.toList ≠ "aeqi".toList ∨ e.tags.filterMap readTag = [])) ∨
    ¬ Quoted tag ∧ tag ≠ "aeqi" := by
  obtain ⟨dir, r, hfrom⟩ := h.own laws hE hbelow hlist he
  have hreadable := h.readable laws hE hbelow hlist he
  obtain ⟨path, -, htags⟩ := hfrom.tags
  have hr := (htags tag).mpr (.inl htag)
  rw [hfrom.row.tags] at hr
  have hfact : ¬ Quoted "fact" ∧ "fact" ≠ "aeqi" := ⟨by unfold Quoted; decide, by decide⟩
  rcases mem_of_mem_normalizeTags hr with rfl | ⟨t, ht, rfl⟩
  · exact .inr hfact
  rcases mem_append.mp (mem_of_mem_mergeTags ht) with ht | ht
  · rw [tags_fileOf hreadable] at ht
    split at ht
    · rename_i hnone
      obtain ⟨primary, tags, hprimary⟩ := exists_cons_of_ne_nil hreadable.tagged
      have hhead : e.tags.head? = some primary := by rw [hprimary]; rfl
      rw [mem_singleton.mp ht, extractField_primary hreadable hhead]
      split
      · have hdefault : normalTag ctx.toLowercase "fact" = "fact" := by
          rw [normalTag, trimmed_eq_self (by decide), laws.fact]
        exact .inr (hdefault.symm ▸ hfact)
      · exact .inl ⟨primary, mem_of_head? hhead, rfl, .inr hnone⟩
    · obtain ⟨t', ht', hread⟩ := mem_filterMap.mp ht
      unfold readTag at hread
      simp only at hread
      split at hread
      · rename_i hne
        cases hread
        exact .inl ⟨t', ht', rfl, .inl hne.2⟩
      · cases hread
  · rw [sourcePath_fileOf] at ht
    have htrim := trimmed_provenanceTags ht
    have hlong : 5 ≤ t.toList.length := by
      rcases mem_provenanceTags ht with rfl | rfl <;> simp
    have hends : t.toList.head? ≠ some '"' ∧ t.toList.getLast? ≠ some '"' := by
      rcases mem_provenanceTags ht with rfl | rfl
      · decide
      · rw [toList_markdownTag, getLast?_append_of_ne_nil _ (cons_ne_nil _ _)]
        exact ⟨by simp, by decide⟩
    refine .inr ⟨not_quoted_lower laws htrim hends.1 hends.2, fun heq => ?_⟩
    have hlength := laws.length_le (s := t)
    rw [normalTag, trimmed_eq_self htrim] at heq
    rw [heq] at hlength
    have hshort : "aeqi".toList.length = 4 := by decide
    omega

theorem Restored.not_quoted (he : e ∈ entries) (htag : tag ∈ e.tags) : ¬ Quoted tag := by
  have hlonger : ∀ t ∈ e.tags, Quoted t →
      ∃ t' ∈ e.tags, Quoted t' ∧ t.toList.length < t'.toList.length := by
    intro t ht hquoted
    rcases h.tag_cases laws hE hbelow hlist he ht with ⟨t', ht', hread, -⟩ | ⟨hnot, -⟩
    · obtain ⟨-, htrim, hlower⟩ := hE.tags e he t' ht'
      rcases read_tag laws htrim hlower with ⟨hquoted', hlt⟩ | ⟨hnot, hsame⟩
      · exact ⟨t', ht', hquoted', hread ▸ hlt⟩
      · exact absurd (hread.trans hsame ▸ hquoted) hnot
    · exact absurd hquoted hnot
  obtain ⟨bound, hbound⟩ : ∃ bound, ∀ t ∈ e.tags, t.toList.length ≤ bound := by
    refine ⟨(e.tags.map (·.toList.length)).foldr max 0, fun t ht => ?_⟩
    exact le_max_of_le (List.mem_map_of_mem ht) (by omega)
  have hnone : ∀ n, ∀ t ∈ e.tags, Quoted t → ¬ bound < t.toList.length + n := by
    intro n
    induction n with
    | zero =>
      intro t ht _ hlt
      exact absurd (hbound t ht) (by omega)
    | succ n ih =>
      intro t ht hquoted hlt
      obtain ⟨t', ht', hquoted', hlonger⟩ := hlonger t ht hquoted
      exact ih t' ht' hquoted' (by omega)
  exact fun hquoted => hnone (bound + 1) tag htag hquoted (by omega)

theorem Restored.bareTags (he : e ∈ entries) : ∀ tag ∈ e.tags, Bare tag := fun tag htag => by
  obtain ⟨hfirst, hlast⟩ := not_or.mp (h.not_quoted laws hE hbelow hlist he htag)
  exact ⟨(hE.tags e he tag htag).1, h.noBreak laws hE hbelow hlist he htag, hfirst, hlast⟩

theorem Restored.aeqi (he : e ∈ entries) (haeqi : "aeqi" ∈ e.tags) : e.tags = ["aeqi"] := by
  have hbare := h.bareTags laws hE hbelow hlist he
  have hnone : e.tags.filterMap readTag = [] := by
    rcases h.tag_cases laws hE hbelow hlist he haeqi with ⟨t, ht, hread, hor⟩ | ⟨-, hne⟩
    · obtain ⟨-, htrim, hlower⟩ := hE.tags e he t ht
      have ht' : "aeqi" = t := by
        rcases read_tag laws htrim hlower with ⟨hquoted, -⟩ | ⟨-, hsame⟩
        · exact absurd hquoted (h.not_quoted laws hE hbelow hlist he ht)
        · exact hread.trans hsame
      rw [← ht'] at hor
      exact hor.resolve_left (not_not.mpr (by decide))
    · exact absurd rfl hne
  have hall : ∀ t ∈ e.tags, t = "aeqi" := by
    intro t ht
    have hread := filterMap_eq_nil_iff.mp hnone t ht
    by_contra hne
    rw [readTag, (hbare t ht).trimQuotes, if_pos] at hread
    · cases hread
    · exact ⟨fun e => (hbare t ht).nonempty (String.toList_eq_nil_iff.mp e),
        fun e => hne (String.toList_injective e)⟩
  obtain ⟨first, rest, htags⟩ := exists_cons_of_ne_nil (hE.tagged e he).1
  have hnodup := (hE.tagged e he).2
  rw [htags] at hall hnodup ⊢
  cases rest with
  | nil => rw [hall first mem_cons_self]
  | cons second rest =>
    have hsame : first = second :=
      (hall first mem_cons_self).trans (hall second (by simp)).symm
    exact absurd (hsame ▸ mem_cons_self) (nodup_cons.mp hnodup).1

theorem Restored.body (he : e ∈ entries) :
    ¬ relationsHeading <:+: e.content.toList ∧ shownEdges entries edges e = [] := by
  obtain ⟨dir, r, hfrom⟩ := h.own laws hE hbelow hlist he
  have hreadable := h.readable laws hE hbelow hlist he
  have hclean : secrets.Clean e.content.toList := clean_iff.mp (hE.clean e he)
  have hstop : secrets.Stop '\n' := secrets_stop (by decide)
  have hpart : ∀ whole, secrets.Clean whole →
      (splitRelations ctx (bodyOf ctx (nameIn entries) e (shownEdges entries edges e))).1 <:+:
        whole →
      ink (splitRelations ctx (bodyOf ctx (nameIn entries) e (shownEdges entries edges e))).1 =
        ink e.content.toList := by
    intro whole hwhole hinside
    have hcontent : Clean (fileOf ctx entries edges e [dir, filename ctx e]).content := by
      rw [clean_iff, (content_fileOf hreadable).1, toList_ofList]
      exact hwhole.of_part ((infix_trim _).trans hinside)
    have htrimmed := hfrom.content
    have hkept : redactSecrets (fileOf ctx entries edges e [dir, filename ctx e]).content =
        (fileOf ctx entries edges e [dir, filename ctx e]).content := hcontent
    rw [hfrom.row.content, hkept, hkept, (content_fileOf hreadable).1] at htrimmed
    have hink := congrArg (fun text : String => ink text.toList) htrimmed
    simpa only [trimmed, toList_ofList, ink_trim] using hink
  have hheading : ¬ relationsHeading <:+: e.content.toList := by
    intro hheading
    obtain ⟨hinside, hlt⟩ := @splitRelations_heading F ctx e (nameIn entries)
      (shownEdges entries edges e) hheading
    have hwhole := (Scanner.clean_stop hstop).mpr ((Scanner.clean_stop hstop).mpr hclean)
    exact Nat.ne_of_lt hlt (hpart _ hwhole hinside)
  refine ⟨hheading, ?_⟩
  by_contra hedges
  obtain ⟨hinside, hink⟩ := @splitRelations_edges F ctx e (nameIn entries)
    (shownEdges entries edges e) hheading hedges
  have hrule : secrets.Clean "\n---\n\n".toList := by
    refine Scanner.replaceAll_eq_self_iff.mp ?_
    decide +kernel
  have hwhole := (Scanner.clean_stop hstop).mpr ((Scanner.clean_stop hstop).mpr
    (Scanner.clean_append hclean hstop hrule))
  have heq := hpart _ hwhole hinside
  omega

theorem Restored.portable : PortableVault ctx entries edges := by
  refine ⟨fun e he => ?_, fun e he e' he' => h.apart hE he he', ?_⟩
  · obtain ⟨dir, r, hfrom⟩ := h.own laws hE hbelow hlist he
    obtain ⟨primary, tags, hprimary⟩ := exists_cons_of_ne_nil (hE.tagged e he).1
    have hhead : e.tags.head? = some primary := by rw [hprimary]; rfl
    exact ⟨(h.body laws hE hbelow hlist he).1, hfrom.bareName laws, hfrom.bareAgent,
      h.bareTags laws hE hbelow hlist he, h.aeqi laws hE hbelow hlist he,
      primary, dir, hhead, tagDir_of_path (hbelow e he) hhead hfrom.found⟩
  · refine eq_nil_iff_forall_not_mem.mpr fun edge hedge => ?_
    have hends : ∃ e ∈ entries, edge.sourceId = e.id ∨ edge.targetId = e.id := by
      rcases of_decide_eq_true (mem_filter.mp hedge).2 with hsource | htarget
      · obtain ⟨e, he, heq⟩ := List.mem_map.mp hsource
        exact ⟨e, he, .inl heq.symm⟩
      · obtain ⟨e, he, heq⟩ := List.mem_map.mp htarget
        exact ⟨e, he, .inr heq.symm⟩
    obtain ⟨e, he, hend⟩ := hends
    have hshown := (h.body laws hE hbelow hlist he).2
    have hmem : edge ∈ shownEdges entries edges e := by
      refine mem_flatMap.mpr ⟨edge, hedge, ?_⟩
      rcases hend with hend | hend
      · exact mem_append_left _ (by rw [if_pos hend]; exact mem_singleton_self _)
      · exact mem_append_right _ (by rw [if_pos hend]; exact mem_singleton_self _)
    rw [hshown] at hmem
    cases hmem

end Necessary

/-! ## A portable vault comes back -/

section Sufficient

variable {entries : List Idea} {edges : List (IdeaGraphEdge F)} {e : Idea} {dir : List Char}
variable {r : IdeaRow} {listing : List (Path × List Char)} {now : Nat} {tag : String}

theorem Portable.below (h : Portable e) : Below e := by
  obtain ⟨tag, name, htag, hdir⟩ := h.directory
  exact ⟨tag, name, [], htag, hdir⟩

theorem Portable.path (ctx : VaultCtx F) (h : Portable e) : ∃ dir, e.path ctx = some [dir, filename ctx e] := by
  obtain ⟨tag, name, htag, hdir⟩ := h.directory
  refine ⟨name, ?_⟩
  rw [Idea.path, htag, getD_some, hdir]
  rfl

theorem Portable.readable (h : Portable e) (hE : Exportable ctx entries) (he : e ∈ entries) :
    Readable e := by
  refine ⟨(hE.bareIds e he).1, h.name, h.agent, (hE.tagged e he).1, fun tag htag => ?_⟩
  obtain ⟨hne, htrim, -⟩ := hE.tags e he tag htag
  exact ⟨(h.tags tag htag).noBreak, hne, htrim⟩

theorem readTag_bare (h : Bare tag) (hne : tag ≠ "aeqi") : readTag tag = some tag := by
  have hpos : tag.toList ≠ [] ∧ tag.toList ≠ "aeqi".toList := by
    rw [ne_eq, String.toList_eq_nil_iff, ne_eq, toList_inj]
    exact ⟨h.nonempty, hne⟩
  rw [readTag, h.trimQuotes, if_pos hpos, String.ofList_toList]

theorem Portable.readTags (h : Portable e) (hE : Exportable ctx entries) (he : e ∈ entries) :
    (fileOf ctx entries edges e [dir, filename ctx e]).tags = e.tags := by
  have hreadable := h.readable hE he
  rw [tags_fileOf hreadable]
  by_cases haeqi : "aeqi" ∈ e.tags
  · have htags := h.aeqi haeqi
    have hprimary : e.tags.head? = some "aeqi" := by
      rw [htags]
      rfl
    rw [extractField_primary hreadable hprimary, htags]
    decide
  · have hread : e.tags.filterMap readTag = e.tags := by
      refine (filterMap_congr fun tag htag => ?_).trans filterMap_some
      exact readTag_bare (h.tags tag htag) fun heq => haeqi (heq ▸ htag)
    rw [hread, if_neg (hE.tagged e he).1]

theorem Portable.tags_row (laws : LetterLaws ctx) (h : Portable e) (hE : Exportable ctx entries)
    (he : e ∈ entries) (hrow : RowOf ctx (fileOf ctx entries edges e [dir, filename ctx e]) r) :
    tag ∈ r.tags ↔ tag ∈ e.tags ∨ tag ∈ provenance ctx [dir, filename ctx e] := by
  have hsource : ∀ t ∈ provenanceTags (some (String.ofList (dir ++ '/' :: filename ctx e))),
      trim t.toList = t.toList := fun t ht => trimmed_provenanceTags ht
  have htrim : ∀ t ∈ e.tags ++ provenanceTags (some (String.ofList (dir ++ '/' :: filename ctx e))),
      trim t.toList = t.toList ∧ t ≠ "" := by
    intro t ht
    rcases mem_append.mp ht with ht | ht
    · obtain ⟨hne, htrim, -⟩ := hE.tags e he t ht
      exact ⟨htrim, hne⟩
    · refine ⟨hsource t ht, ?_⟩
      rcases mem_provenanceTags ht with rfl | rfl
      · decide
      · simp
  have hne : e.tags ++ provenanceTags (some (String.ofList (dir ++ '/' :: filename ctx e))) ≠ [] :=
    append_ne_nil_of_left_ne_nil (hE.tagged e he).1 _
  have hown : ∀ t ∈ e.tags, ctx.toLowercase t = t := fun t ht => (hE.tags e he t ht).2.2
  rw [hrow.tags, h.readTags hE he, sourcePath_fileOf, mergeProvenanceTags,
    mem_storedTags laws hne htrim, provenance, intercalate_path]
  simp only [mem_append, or_and_right, exists_or, List.mem_map]
  refine or_congr ⟨?_, fun ht => ⟨tag, ht, (hown tag ht).symm⟩⟩ (exists_congr fun t => ?_)
  · rintro ⟨t, ht, rfl⟩
    rwa [hown t ht]
  · refine and_congr_right fun ht => ?_
    rw [normalTag, trimmed_eq_self (hsource t ht)]
    exact eq_comm

theorem PortableVault.shown (hP : PortableVault ctx entries edges) (e : Idea) :
    shownEdges entries edges e = [] := by
  rw [shownEdges, hP.unlinked]
  rfl

theorem PortableVault.mem_scanVault_iff (hP : PortableVault ctx entries edges)
    (hlist : Lists (exportTo ctx entries edges) listing) {mem : ParsedIdea F} :
    mem ∈ scanVault ctx listing ↔ ∃ e ∈ entries, ∃ dir, e.path ctx = some [dir, filename ctx e] ∧
      mem = fileOf ctx entries edges e [dir, filename ctx e] := by
  have hbelow : ∀ e ∈ entries, Below e := fun e he => (hP.each e he).below
  constructor
  · intro hmem
    obtain ⟨e, he, dir, hpath, -, hfile⟩ := mem_scanVault hbelow hlist hmem
    exact ⟨e, he, dir, hpath, hfile⟩
  · rintro ⟨e, he, dir, hpath, rfl⟩
    have hfile := (hlist.files _ _).mpr (lookup_exportTo hP.apart he hpath)
    rw [scanVault_eq hbelow hlist]
    refine mem_filterMap.mpr ⟨_, hfile, ?_⟩
    have hmarkdown : isMarkdown (filename ctx e) = true :=
      isMarkdown_filename.mpr (sanitize_ne_nil.mpr (hP.each e he).name.nonempty)
    exact if_pos hmarkdown

variable (hE : Exportable ctx entries) (hP : PortableVault ctx entries edges)
variable (hlist : Lists (exportTo ctx entries edges) listing)

include hE hP

theorem PortableVault.content_file (he : e ∈ entries) :
    (fileOf ctx entries edges e [dir, filename ctx e]).content =
        String.ofList (trim e.content.toList) ∧
      (fileOf ctx entries edges e [dir, filename ctx e]).relations = [] := by
  have hportable := hP.each e he
  obtain ⟨hcontent, hrelations⟩ :=
    @content_fileOf F ctx entries edges e dir (hportable.readable hE he)
  obtain ⟨hsplit, hbody⟩ := @splitRelations_plain F ctx e (nameIn entries) hportable.content
  rw [hcontent, hrelations, hP.shown e, hsplit, hbody]
  exact ⟨rfl, rfl⟩

theorem PortableVault.content_row (he : e ∈ entries)
    (hrow : RowOf ctx (fileOf ctx entries edges e [dir, filename ctx e]) r) :
    trimmed r.content = trimmed e.content := by
  have hclean : Clean (String.ofList (trim e.content.toList)) := by
    rw [clean_iff, toList_ofList]
    exact (clean_iff.mp (hE.clean e he)).of_part (infix_trim _)
  have hkept : redactSecrets (String.ofList (trim e.content.toList)) =
      String.ofList (trim e.content.toList) := hclean
  rw [hrow.content, (hP.content_file hE he).1, hkept, hkept, trimmed, toList_ofList, trim_trim]
  rfl

include hlist

theorem PortableVault.apart_files (laws : LetterLaws ctx) :
    (scanVault ctx listing).Pairwise fun mem mem' => ¬ Clash mem mem' := by
  have hbelow : ∀ e ∈ entries, Below e := fun e he => (hP.each e he).below
  have hpaths : listing.Pairwise fun file file' => file.1 ≠ file'.1 :=
    pairwise_map.mp hlist.nodup
  have hfile : ∀ file ∈ listing, ∀ mem, inDirectory ctx file = some mem →
      ∃ e ∈ entries, e.path ctx = some file.1 ∧ mem.name = e.name ∧ mem.agentId = e.agentId := by
    intro file hmem mem hparse
    obtain ⟨e, he, hpath, hraw⟩ := hlist.file hmem
    obtain ⟨dir, hdir⟩ := (hP.each e he).path ctx
    have hreadable := (hP.each e he).readable hE he
    have hfirst : file.1 = [dir, filename ctx e] := some.inj (hpath.symm.trans hdir)
    rw [inDirectory, hfirst, hraw] at hparse
    have hmem := some.inj (ite_none_right_eq_some.mp hparse).2
    have hfileOf : mem = fileOf ctx entries edges e [dir, filename ctx e] := hmem.symm
    exact ⟨e, he, hpath, hfileOf ▸ name_fileOf laws hreadable, hfileOf ▸ agentId_fileOf hreadable⟩
  rw [scanVault_eq hbelow hlist, pairwise_filterMap]
  refine hpaths.imp_of_mem fun hmem hmem' hne mem hparse mem' hparse' hclash => hne ?_
  obtain ⟨e, he, hpath, hname, hagent⟩ := hfile _ hmem mem hparse
  obtain ⟨e', he', hpath', hname', hagent'⟩ := hfile _ hmem' mem' hparse'
  have hsame : e = e' := by
    refine inj_on_of_nodup_map hE.names he he' (Prod.ext ?_ ?_)
    · exact hagent ▸ hagent' ▸ hclash.2
    · exact hname ▸ hname' ▸ hclash.1
  exact some.inj (hpath.symm.trans (hsame ▸ hpath'))

theorem PortableVault.stored (now : Nat) (laws : LetterLaws ctx) (huuid : Function.Injective ctx.uuid) :
    Stored ctx (scanVault ctx listing) (storedIdeas ctx now listing) := by
  have hempty : Stored ctx [] (⟨⟨∅, [], 0⟩, [], ∅⟩ : ImportState F) :=
    ⟨fun _ _ h => absurd h (by simp [IdeaTable.row]),
      fun _ _ h => absurd h (by simp [IdeaTable.row]),
      nofun⟩
  exact hempty.storeIdeas huuid (hP.apart_files hE hlist laws)

theorem PortableVault.edges_importFrom : (importFrom ctx now listing).edges = [] := by
  have hrelations : ∀ mem ∈ scanVault ctx listing, mem.relations = [] := by
    intro mem hmem
    obtain ⟨e, he, -, -, rfl⟩ := (hP.mem_scanVault_iff hlist).mp hmem
    exact (hP.content_file hE he).2
  unfold importFrom
  rw [edges_storeRelations hrelations, table_addExisting.2, edges_storeIdeas]

theorem PortableVault.restored (laws : LetterLaws ctx) (huuid : Function.Injective ctx.uuid) :
    Restored ctx entries edges (exportTo ctx entries edges) (importFrom ctx now listing) := by
  refine ⟨fun e he => ?_, fun e he => ?_, fun e he e' he' relation strength => ?_⟩
  · obtain ⟨dir, hpath⟩ := (hP.each e he).path ctx
    exact ⟨_, hpath, lookup_exportTo hP.apart he hpath⟩
  · obtain ⟨dir, hpath⟩ := (hP.each e he).path ctx
    have hreadable := (hP.each e he).readable hE he
    have hmem := (hP.mem_scanVault_iff hlist).mpr ⟨e, he, dir, hpath, rfl⟩
    obtain ⟨id, r, hr, hrow⟩ := (hP.stored hE hlist now laws huuid).all _ hmem
    refine ⟨id, r, _, table_importFrom ▸ hr, ?_, ?_, hpath, fun tag => ?_, ?_⟩
    · rw [hrow.name, name_fileOf laws hreadable]
    · rw [hrow.agentId, agentId_fileOf hreadable]
    · exact (hP.each e he).tags_row laws hE he hrow
    · exact hP.content_row hE he hrow
  · rw [hP.edges_importFrom hE hlist]
    constructor
    · rintro ⟨edge, hedge, hsource, -⟩
      have hbetween : edge ∈ edgesBetween (entries.map (·.id)) edges :=
        mem_filter.mpr ⟨hedge, decide_eq_true (.inl (hsource ▸ List.mem_map_of_mem he))⟩
      rw [hP.unlinked] at hbetween
      cases hbetween
    · rintro ⟨edge, hedge, -⟩
      cases hedge

end Sufficient

/-! ## The vault -/

section Claim

variable {entries : List Idea} {edges : List (IdeaGraphEdge F)}
variable {listing : List (Path × List Char)} {now : Nat}

/-- A portable vault comes back, and below the vault no other does. -/
theorem restored_iff (laws : LetterLaws ctx) (huuid : Function.Injective ctx.uuid)
    (hE : Exportable ctx entries) (hlist : Lists (exportTo ctx entries edges) listing) :
    (PortableVault ctx entries edges →
      Restored ctx entries edges (exportTo ctx entries edges) (importFrom ctx now listing)) ∧
    ((∀ e ∈ entries, Below e) →
      Restored ctx entries edges (exportTo ctx entries edges) (importFrom ctx now listing) →
      PortableVault ctx entries edges) :=
  ⟨fun hP => hP.restored hE hlist laws huuid, fun hbelow h => h.portable laws hE hbelow hlist⟩

end Claim

/-! ### Two small vaults -/

def filesOf (vault : Vault) : List (Path × List Char) :=
  vault.entries.map fun file => (file.1, file.2)

theorem lists_filesOf (vault : Vault) : Lists vault (filesOf vault) where
  nodup := by
    have hkeys : (filesOf vault).map Prod.fst = vault.entries.keys := by
      unfold filesOf List.keys
      rw [List.map_map]
      rfl
    exact hkeys ▸ vault.nodupKeys
  files path raw := by
    have hentry : (path, raw) ∈ filesOf vault ↔
        (⟨path, raw⟩ : Sigma fun _ => List Char) ∈ vault.entries := by
      refine List.mem_map.trans ⟨?_, fun h => ⟨_, h, rfl⟩⟩
      rintro ⟨file, hfile, heq⟩
      cases heq
      exact hfile
    rw [hentry, ← mem_def, AList.mem_lookup_iff]

def asciiVault : VaultCtx Nat where
  toLowercase := String.toLower
  contentHash := id
  uuid n := String.ofList (List.replicate n '0')
  isAlphanumeric := Char.isAlphanum
  twoDecimals n := String.ofList
    (Nat.toDigits 10 (n / 100) ++ ['.', Nat.digitChar (n / 10 % 10), Nat.digitChar (n % 10)])
  parse text :=
    some ((text.toList.filter Char.isDigit).foldl (fun n c => 10 * n + (c.toNat - 48)) 0)
  half := 50
  max := max

theorem uuid_asciiVault : Function.Injective asciiVault.uuid := by
  intro a b h
  have hlists : List.replicate a '0' = List.replicate b '0' := String.ofList_injective h
  simpa using congrArg List.length hlists

theorem toLower_mark {c m : Char} (hm : m ∈ marks) : c.toLower = m ↔ c = m := by
  rcases toLower_cases c with hsame | ⟨hA, -, hnat⟩
  · rw [hsame]
  · have hsmall : m.toNat < 65 := by
      have hall : marks.all (fun m => decide (m.toNat < 65)) := by decide
      exact of_decide_eq_true (List.all_eq_true.mp hall m hm)
    constructor
    · intro heq
      have hcode := congrArg Char.toNat heq
      omega
    · rintro rfl
      omega

theorem lower_asciiVault {s : String} :
    asciiVault.toLowercase s = s ↔ s.toList.all fun c => c.toLower = c := by
  have hmap : asciiVault.toLowercase s = s.map Char.toLower := rfl
  rw [hmap, ← toList_inj, String.toList_map, List.all_eq_true]
  simp only [decide_eq_true_eq]
  constructor
  · exact fun h => map_inj_left.mp (h.trans (List.map_id _).symm)
  · exact fun h => (map_inj_left.mpr h).trans (List.map_id _)

theorem letterLaws_asciiVault : LetterLaws asciiVault where
  pieces s := by
    refine ⟨s.toList.map fun c => [c.toLower], ?_, ?_⟩
    · rw [forall₂_map_right_iff, forall₂_same]
      intro c _
      refine ⟨cons_ne_nil _ _, ?_⟩
      split
      · next hc => rw [(toLower_mark hc).mpr rfl]
      · next hc =>
        intro m hm hmem
        exact hc ((toLower_mark hm).mp (mem_singleton.mp hmem).symm ▸ hm)
    · have hlower : asciiVault.toLowercase s = s.map Char.toLower := rfl
      rw [hlower, String.toList_map]
      exact map_eq_flatMap
  parts s t h hinside := by
    rw [lower_asciiVault, List.all_eq_true] at h ⊢
    exact fun c hc => h c (hinside.subset hc)
  alphanumeric c h hc := by
    have hall : marks.all (fun c => !c.isAlphanum) := by decide
    have hnot := List.all_eq_true.mp hall c hc
    rw [show c.isAlphanum = true from h] at hnot
    cases hnot
  ascii c h := h
  fact := lower_asciiVault.mpr (by decide)

def march : Instant where
  year := ⟨2026, by decide⟩
  month := ⟨3, by decide⟩
  day := ⟨14, by decide⟩
  hour := ⟨9, by decide⟩
  minute := ⟨0, by decide⟩
  second := ⟨0, by decide⟩
  nano := ⟨0, by decide⟩

def handbook : List Idea :=
  [⟨"a1", "deploy", "see [[runbook]]\n---\nthen wait", ["ops", "release"], some "ada", march⟩,
    ⟨"b1", "deploy", "ask ada", ["aeqi"], none, march⟩]

theorem tags_asciiVault {entries : List Idea} (h : ∀ e ∈ entries, ∀ tag ∈ e.tags,
      tag ≠ "" ∧ trim tag.toList = tag.toList ∧ tag.toList.all fun c => c.toLower = c)
    (e : Idea) (he : e ∈ entries) (tag : String) (htag : tag ∈ e.tags) :
    tag ≠ "" ∧ trim tag.toList = tag.toList ∧ asciiVault.toLowercase tag = tag := by
  obtain ⟨hne, htrim, hcases⟩ := h e he tag htag
  exact ⟨hne, htrim, lower_asciiVault.mpr hcases⟩

theorem exportable_handbook : Exportable asciiVault handbook where
  ids := by decide
  bareIds := by decide
  names := by decide
  tagged := by decide
  tags := tags_asciiVault (by decide)
  clean := by
    decide +kernel

theorem portable_handbook : PortableVault asciiVault handbook [] where
  each e he := by
    have hfields : ∀ e ∈ handbook, ¬ relationsHeading <:+: e.content.toList ∧ Bare e.name ∧
        (∀ tag ∈ e.tags, Bare tag) ∧ ("aeqi" ∈ e.tags → e.tags = ["aeqi"]) := by decide +kernel
    obtain ⟨hcontent, hname, htags, haeqi⟩ := hfields e he
    refine ⟨hcontent, hname, ?_, htags, haeqi, ?_⟩
    · rcases mem_pair.mp he with rfl | rfl
      · intro agent hagent
        cases hagent
        decide
      · intro agent hagent
        cases hagent
    · rcases mem_pair.mp he with rfl | rfl
      · exact ⟨"ops", "ops".toList, rfl, by decide +kernel⟩
      · exact ⟨"aeqi", "aeqi".toList, rfl, by decide +kernel⟩
  apart := by decide +kernel
  unlinked := rfl

/-- Both come back, with the rule and the link of the first. -/
theorem handbook_restored : Restored asciiVault handbook [] (exportTo asciiVault handbook [])
    (importFrom asciiVault 0 (filesOf (exportTo asciiVault handbook []))) :=
  (restored_iff letterLaws_asciiVault uuid_asciiVault exportable_handbook (lists_filesOf _)).1
    portable_handbook

def linkedPair : List Idea :=
  [⟨"a1", "deploy", "body", ["ops"], none, march⟩, ⟨"b1", "runbook", "steps", ["ops"], none, march⟩]

def link : IdeaGraphEdge Nat := ⟨"a1", "b1", "link", 100⟩

/-- Two linked ideas, each in a file of its own, do not both come back: of the first's body the rule
above the relations has become a part. -/
theorem linked_not_restored : Exportable asciiVault linkedPair ∧ (∀ e ∈ linkedPair, Below e) ∧
    ¬ Restored asciiVault linkedPair [link] (exportTo asciiVault linkedPair [link])
      (importFrom asciiVault 0 (filesOf (exportTo asciiVault linkedPair [link]))) := by
  have hE : Exportable asciiVault linkedPair := {
    ids := by decide
    bareIds := by decide
    names := by decide
    tagged := by decide
    tags := tags_asciiVault (by decide)
    clean := by
      decide +kernel }
  have hbelow : ∀ e ∈ linkedPair, Below e := by
    intro e he
    refine ⟨"ops", "ops".toList, [], ?_, by decide +kernel⟩
    rcases mem_pair.mp he with rfl | rfl <;> rfl
  refine ⟨hE, hbelow, fun h => ?_⟩
  have hportable := h.portable letterLaws_asciiVault hE hbelow (lists_filesOf _)
  exact nomatch hportable.unlinked

end Aeqi.Ideas.Obsidian
