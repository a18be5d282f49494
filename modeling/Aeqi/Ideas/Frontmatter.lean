import Aeqi.Ideas.Obsidian

/-!
# What a file says of its idea

Fields that are read from the frontmatter of any file have no line break and no quote at an end.
From the file of an idea whose fields have none either, they are read as they were written.
-/

namespace Aeqi.Ideas.Obsidian

open Aeqi.Lib List Option

variable {F : Type} {ctx : VaultCtx F}

/-! ## Bare texts -/

/-- A text that quotes can be put around and taken off. -/
structure Bare (text : String) : Prop where
  nonempty : text ≠ ""
  noBreak : '\n' ∉ text.toList
  first : text.toList.head? ≠ some '"'
  last : text.toList.getLast? ≠ some '"'

instance (text : String) : Decidable (Bare text) :=
  decidable_of_iff (text ≠ "" ∧ '\n' ∉ text.toList ∧ text.toList.head? ≠ some '"' ∧
    text.toList.getLast? ≠ some '"')
    ⟨fun h => ⟨h.1, h.2.1, h.2.2.1, h.2.2.2⟩, fun h => ⟨h.nonempty, h.noBreak, h.first, h.last⟩⟩

section Quotes

variable {text : List Char} {c : Char} {s : String}

theorem infix_trimQuotes (text : List Char) : trimQuotes text <:+: text :=
  (List.rdropWhile_prefix _ _).isInfix.trans (dropWhile_suffix _).isInfix

theorem trimQuotes_first (text : List Char) : (trimQuotes text).head? ≠ some '"' := by
  intro hc
  have hbegins : trimQuotes text <+: text.dropWhile (· = '"') := rdropWhile_prefix _ _
  cases hq : trimQuotes text with
  | nil => rw [hq] at hc; cases hc
  | cons b rest =>
    rw [hq] at hc hbegins
    cases hc
    obtain ⟨tail, htail⟩ := hbegins
    have hne : text.dropWhile (· = '"') ≠ [] := by
      rw [← htail]
      exact cons_ne_nil _ _
    have hnot := head_dropWhile_not (fun c => decide (c = '"')) hne
    simp [← htail] at hnot

theorem trimQuotes_last (text : List Char) : (trimQuotes text).getLast? ≠ some '"' := by
  intro hc
  have hne : trimQuotes text ≠ [] := by
    intro hnil
    rw [hnil] at hc
    cases hc
  rw [getLast?_eq_some_getLast hne] at hc
  have hnot := rdropWhile_last_not (fun c => decide (c = '"')) (text.dropWhile (· = '"')) hne
  exact hnot (decide_eq_true (some.inj hc))

theorem trimQuotes_eq_self (hfirst : text.head? ≠ some '"') (hlast : text.getLast? ≠ some '"') :
    trimQuotes text = text := by
  have hstart : text.dropWhile (· = '"') = text := by
    cases text with
    | nil => rfl
    | cons c text =>
      exact dropWhile_cons_of_neg fun h => hfirst (congrArg some (of_decide_eq_true h))
  rw [trimQuotes, hstart, rdropWhile_eq_self_iff]
  intro hne hquote
  exact hlast ((getLast?_eq_some_getLast hne).trans
    (congrArg some (of_decide_eq_true hquote)))

theorem Bare.trimQuotes (h : Bare s) : trimQuotes s.toList = s.toList :=
  trimQuotes_eq_self h.first h.last

theorem Bare.trimQuotes_quoted (h : Bare s) : Obsidian.trimQuotes (quoted s) = s.toList := by
  have hnil : s.toList ≠ [] := fun e => h.nonempty (String.toList_eq_nil_iff.mp e)
  have hstart : (quoted s).dropWhile (· = '"') = s.toList ++ ['"'] := by
    rw [quoted, cons_append, dropWhile_cons_of_pos (by decide)]
    cases hs : s.toList with
    | nil => exact absurd hs hnil
    | cons c rest =>
      refine dropWhile_cons_of_neg fun hc => h.first ?_
      rw [hs]
      exact congrArg some (of_decide_eq_true hc)
  rw [Obsidian.trimQuotes, hstart, rdropWhile_concat_pos _ _ _ (by decide), rdropWhile_eq_self_iff]
  intro hne hquote
  exact h.last ((getLast?_eq_some_getLast hne).trans
    (congrArg some (of_decide_eq_true hquote)))

theorem bare_trimQuotes (hline : '\n' ∉ text) (h : trimQuotes text ≠ []) :
    Bare (String.ofList (trimQuotes text)) where
  nonempty e := h (by rw [← String.toList_ofList (l := trimQuotes text), e]; rfl)
  noBreak hmem := hline ((infix_trimQuotes text).subset (by rwa [String.toList_ofList] at hmem))
  first := String.toList_ofList.symm ▸ trimQuotes_first text
  last := String.toList_ofList.symm ▸ trimQuotes_last text

end Quotes

/-! ## Fields of any file -/

section Fields

variable {fm line : List Char} {lines : List (List Char)} {field value tag : String}

theorem noBreak_trimmedLines (h : line ∈ trimmedLines fm) : '\n' ∉ line := by
  obtain ⟨l, hl, rfl⟩ := List.mem_map.mp h
  exact fun hmem => (splitOn_piece l hl).1 (mem_of_mem_trim hmem)

theorem noBreak_trim_drop {n : Nat} (h : '\n' ∉ line) : '\n' ∉ trim (line.drop n) :=
  fun hmem => h (mem_of_mem_drop (mem_of_mem_trim hmem))

theorem bare_of_extractField (h : extractField fm field = some value) :
    Bare value ∧ value ≠ "null" := by
  obtain ⟨line, hline, hvalue⟩ := bind_eq_some_iff.mp h
  simp only at hvalue
  split at hvalue
  · cases hvalue
  · rename_i hne
    obtain ⟨hnil, hnull⟩ := not_or.mp hne
    cases hvalue
    have hbreak := noBreak_trimmedLines (mem_of_find?_eq_some hline)
    refine ⟨bare_trimQuotes (noBreak_trim_drop hbreak) hnil, fun e => hnull ?_⟩
    rw [← e, String.toList_ofList]

theorem bare_of_tagsFrom (hlines : ∀ l ∈ lines, '\n' ∉ l) (h : tag ∈ tagsFrom lines) :
    Bare tag := by
  induction lines with
  | nil => cases h
  | cons line lines ih =>
    obtain ⟨hline, hlines⟩ := forall_mem_cons.mp hlines
    simp only [tagsFrom] at h
    split at h
    · split at h
      · rename_i hne
        rcases mem_cons.mp h with rfl | h
        · exact bare_trimQuotes (noBreak_trim_drop hline) hne.1
        · exact ih hlines h
      · exact ih hlines h
    · split at h
      · exact ih hlines h
      · cases h

theorem bare_of_extractTags (h : tag ∈ extractTags fm) : Bare tag := by
  refine bare_of_tagsFrom (fun l hl => ?_) h
  exact noBreak_trimmedLines ((dropWhile_suffix _).subset (mem_of_mem_drop hl))

variable {path : Path} {raw : List Char}

theorem name_parseIdeaFile : Bare (parseIdeaFile ctx path raw).name ∨
    (parseIdeaFile ctx path raw).name = String.ofList (splitExtension (path.getLast?.getD [])).1 := by
  cases hname : extractField (splitFrontmatter raw).1 "key" with
  | none => exact .inr (congrArg (Option.getD · _) hname)
  | some name =>
    have heq : (parseIdeaFile ctx path raw).name = name := congrArg (Option.getD · _) hname
    rw [heq]
    exact .inl (bare_of_extractField hname).1

theorem agentId_parseIdeaFile {agent : String}
    (h : (parseIdeaFile ctx path raw).agentId = some agent) : Bare agent ∧ agent ≠ "null" := by
  have hfield : (extractField (splitFrontmatter raw).1 "agent_id").filter
      (fun s => s ≠ "null" ∧ s ≠ "") = some agent := h
  exact bare_of_extractField (filter_eq_some_iff.mp hfield).1

theorem tags_parseIdeaFile (h : tag ∈ (parseIdeaFile ctx path raw).tags) : Bare tag := by
  have htags : tag ∈ if extractTags (splitFrontmatter raw).1 = [] then
      [(extractField (splitFrontmatter raw).1 "primary_tag").getD "fact"]
      else extractTags (splitFrontmatter raw).1 := h
  split at htags
  · rw [mem_singleton.mp htags]
    cases hfield : extractField (splitFrontmatter raw).1 "primary_tag" with
    | none => decide
    | some primary => exact (bare_of_extractField hfield).1
  · exact bare_of_extractTags htags

end Fields

/-! ## The file of an idea -/

section Rendered

variable {front : List (List Char)} {last : List Char} {entry : Idea}

theorem splitOn_lines (hfront : ∀ l ∈ front, '\n' ∉ l) (hlast : '\n' ∉ last) :
    (front.flatMap (· ++ ['\n']) ++ last).splitOn '\n' = front ++ [last] := by
  induction front with
  | nil => exact splitOn_eq_singleton hlast
  | cons l front ih =>
    obtain ⟨hl, hfront⟩ := forall_mem_cons.mp hfront
    rw [flatMap_cons, List.append_assoc, List.append_assoc, singleton_append,
      splitOn_append_cons_self_of_not_mem hl, ih hfront]
    rfl

theorem flatMap_break : (front ++ [last]).flatMap ('\n' :: ·) =
    '\n' :: (front.flatMap (· ++ ['\n']) ++ last) := by
  induction front with
  | nil => simp
  | cons l front ih =>
    rw [cons_append, flatMap_cons, ih]
    simp

theorem trimmedLines_front (hfront : ∀ l ∈ front, '\n' ∉ l) (hlast : '\n' ∉ last)
    (hfirst : ∀ c, (front.flatMap (· ++ ['\n']) ++ last).head? = some c → isWhitespace c = false)
    (hne : last ≠ []) (hend : ∀ c, last.getLast? = some c → isWhitespace c = false) :
    trimmedLines (trim ((front ++ [last]).flatMap ('\n' :: ·))) = (front ++ [last]).map trim := by
  have htext : trim ((front ++ [last]).flatMap ('\n' :: ·)) =
      front.flatMap (· ++ ['\n']) ++ last := by
    rw [flatMap_break]
    refine trim_eq_self hfirst fun c hc => hend c ?_
    rwa [getLast?_append_of_ne_nil _ hne] at hc
  rw [htext, trimmedLines, splitOn_lines hfront hlast]

/-- The fields that are read as they were written. -/
structure Readable (entry : Idea) : Prop where
  id : Bare entry.id
  name : Bare entry.name
  agent : ∀ agent, entry.agentId = some agent → Bare agent ∧ agent ≠ "null"
  tagged : entry.tags ≠ []
  tags : ∀ tag ∈ entry.tags, '\n' ∉ tag.toList ∧ tag ≠ "" ∧ trim tag.toList = tag.toList

def trimmedFront (entry : Idea) : List (List Char) :=
  ["id: ".toList ++ quoted entry.id,
    "key: ".toList ++ quoted entry.name,
    "primary_tag: ".toList ++ (entry.tags.head?.getD "untagged").toList,
    "agent_id: ".toList ++ entry.agentId.elim "null".toList quoted,
    "created_at: ".toList ++ '"' :: entry.createdAt.toRfc3339 ++ ['"'],
    "tags:".toList] ++ ("aeqi" :: entry.tags).map fun tag => "- ".toList ++ tag.toList

theorem noBreak_digits (width n : Nat) : '\n' ∉ digits width n := by
  intro hmem
  obtain ⟨k, -, hk⟩ := List.mem_map.mp hmem
  have hall : ∀ d < 10, Char.ofNat (48 + d) ≠ '\n' := by decide
  exact hall _ (by omega) hk

theorem noBreak_toRfc3339 (t : Instant) : '\n' ∉ t.toRfc3339 := by
  have hfraction : '\n' ∉ fraction t.nano := by
    unfold fraction
    split_ifs
    · exact not_mem_nil
    all_goals
      rw [mem_cons, not_or]
      exact ⟨by decide, noBreak_digits _ _⟩
  have hzone : '\n' ∉ "+00:00".toList := by decide
  simp only [Instant.toRfc3339, Instant.date, mem_append, mem_cons, not_or]
  refine ⟨⟨noBreak_digits _ _, by decide, noBreak_digits _ _, by decide, noBreak_digits _ _,
    by decide, noBreak_digits _ _⟩, by decide, noBreak_digits _ _, by decide,
    ⟨noBreak_digits _ _, hfraction⟩, hzone⟩

theorem noBreak_quoted {text : String} (h : '\n' ∉ text.toList) : '\n' ∉ quoted text := by
  simp only [quoted, cons_append, mem_cons, mem_append, not_or]
  exact ⟨by decide, h, by decide, not_mem_nil⟩

theorem noBreak_append {a b : List Char} (ha : '\n' ∉ a) (hb : '\n' ∉ b) : '\n' ∉ a ++ b := by
  rw [mem_append]
  exact not_or.mpr ⟨ha, hb⟩

theorem noBreak_frontmatter (h : Readable entry) : ∀ l ∈ frontmatter entry, '\n' ∉ l := by
  have hprimary : '\n' ∉ (entry.tags.head?.getD "untagged").toList := by
    cases htags : entry.tags with
    | nil => exact absurd htags h.tagged
    | cons tag tags => exact (h.tags tag (htags ▸ mem_cons_self)).1
  have hagent : '\n' ∉ entry.agentId.elim "null".toList quoted := by
    cases hagent : entry.agentId with
    | none => decide
    | some agent => exact noBreak_quoted (h.agent agent hagent).1.noBreak
  simp only [frontmatter, if_neg h.tagged, forall_mem_append, forall_mem_cons, map_cons]
  refine ⟨⟨noBreak_append (by decide) (noBreak_quoted h.id.noBreak),
    noBreak_append (by decide) (noBreak_quoted h.name.noBreak),
    noBreak_append (by decide) hprimary, noBreak_append (by decide) hagent, ?_, by decide,
    nofun⟩, by decide, fun l hl => ?_⟩
  · exact noBreak_append (noBreak_append (by decide) (by
      rw [mem_cons]
      exact not_or.mpr ⟨by decide, noBreak_toRfc3339 _⟩)) (by decide)
  · obtain ⟨tag, htag, rfl⟩ := List.mem_map.mp hl
    exact noBreak_append (by decide) (h.tags tag htag).1

theorem trim_line {first : Char} {rest line : List Char} (hfirst : isWhitespace first = false)
    (hne : line ≠ []) (hlast : ∀ c, line.getLast? = some c → isWhitespace c = false) :
    trim (first :: rest ++ line) = first :: rest ++ line := by
  refine trim_eq_self (fun c hc => ?_) fun c hc => hlast c ?_
  · cases hc
    exact hfirst
  · rwa [getLast?_append_of_ne_nil _ hne] at hc

theorem last_quoted {text : List Char} {c : Char} (h : ('"' :: text ++ ['"']).getLast? = some c) :
    isWhitespace c = false := by
  rw [getLast?_concat] at h
  cases h
  decide

theorem trim_quoted {first : Char} {rest : List Char} {text : String}
    (hfirst : isWhitespace first = false) :
    trim (first :: rest ++ quoted text) = first :: rest ++ quoted text :=
  trim_line hfirst (cons_ne_nil _ _) fun _ => last_quoted

theorem Readable.last_tag (h : Readable entry) {tag : String} (htag : tag ∈ entry.tags) :
    tag.toList ≠ [] ∧ ∀ c, tag.toList.getLast? = some c → isWhitespace c = false :=
  ⟨fun e => (h.tags tag htag).2.1 (String.toList_eq_nil_iff.mp e),
    fun _ => last_of_trim (h.tags tag htag).2.2⟩

theorem trim_tagLine {tag : String} (hne : tag.toList ≠ [])
    (hlast : ∀ c, tag.toList.getLast? = some c → isWhitespace c = false) :
    trim ("         - ".toList ++ tag.toList) = "- ".toList ++ tag.toList := by
  have hblank : isWhitespace ' ' = true := by decide
  have hline : "         - ".toList ++ tag.toList = ' ' :: ' ' :: ' ' :: ' ' :: ' ' :: ' ' :: ' ' ::
      ' ' :: ' ' :: ("- ".toList ++ tag.toList) := rfl
  have hbullet : isWhitespace '-' = false := by decide
  rw [hline]
  simp only [trim_cons hblank]
  exact trim_line hbullet hne hlast

theorem map_trim_frontmatter (h : Readable entry) :
    (frontmatter entry).map trim = trimmedFront entry := by
  obtain ⟨primary, tags, htags⟩ := exists_cons_of_ne_nil h.tagged
  have hprimary : trim ("primary_tag: ".toList ++ primary.toList) =
      "primary_tag: ".toList ++ primary.toList := by
    obtain ⟨hne, hlast⟩ := h.last_tag (htags ▸ mem_cons_self : primary ∈ entry.tags)
    exact trim_line (by decide) hne hlast
  have hagent : trim ("agent_id: ".toList ++ entry.agentId.elim "null".toList quoted) =
      "agent_id: ".toList ++ entry.agentId.elim "null".toList quoted := by
    cases entry.agentId with
    | none => decide
    | some agent => exact trim_quoted (by decide)
  have hcreated : trim ("created_at: ".toList ++ '"' :: entry.createdAt.toRfc3339 ++ ['"']) =
      "created_at: ".toList ++ '"' :: entry.createdAt.toRfc3339 ++ ['"'] := by
    rw [List.append_assoc]
    exact trim_line (by decide) (cons_ne_nil _ _) fun _ => last_quoted
  have hlines :
      (("aeqi" :: entry.tags).map fun tag => "         - ".toList ++ tag.toList).map trim =
      ("aeqi" :: entry.tags).map fun tag => "- ".toList ++ tag.toList := by
    rw [List.map_map]
    refine map_congr_left fun tag htag => ?_
    rcases mem_cons.mp htag with rfl | htag
    · decide
    · obtain ⟨hne, hlast⟩ := h.last_tag htag
      exact trim_tagLine hne hlast
  have hid : trim ("id: ".toList ++ quoted entry.id) = "id: ".toList ++ quoted entry.id :=
    trim_quoted (by decide)
  have hkey : trim ("key: ".toList ++ quoted entry.name) = "key: ".toList ++ quoted entry.name :=
    trim_quoted (by decide)
  have htagsLine : trim "tags:".toList = "tags:".toList := by decide
  unfold frontmatter trimmedFront
  rw [if_neg h.tagged, map_append, hlines, htags]
  simp only [map_cons, map_nil, head?_cons, getD_some, hid, hkey, hprimary,
    hagent, hcreated, htagsLine]

theorem trimmedLines_frontmatter (h : Readable entry) :
    trimmedLines (trim ((frontmatter entry).flatMap ('\n' :: ·))) = trimmedFront entry := by
  have hbreaks := noBreak_frontmatter h
  rw [← map_trim_frontmatter h]
  obtain ⟨front, tag, htag, hfront⟩ : ∃ front tag, tag ∈ entry.tags ∧
      frontmatter entry = ("id: ".toList ++ quoted entry.id) :: front ++
        ["         - ".toList ++ tag.toList] := by
    obtain ⟨tags, tag, htags⟩ := eq_nil_or_concat entry.tags |>.resolve_left h.tagged
    rw [concat_eq_append] at htags
    have hmem : tag ∈ entry.tags := by
      rw [htags]
      exact mem_append_right _ (mem_singleton_self _)
    refine ⟨["key: ".toList ++ quoted entry.name,
      "primary_tag: ".toList ++ (entry.tags.head?.getD "untagged").toList,
      "agent_id: ".toList ++ entry.agentId.elim "null".toList quoted,
      "created_at: ".toList ++ '"' :: entry.createdAt.toRfc3339 ++ ['"'],
      "tags:".toList] ++ ("aeqi" :: tags).map fun tag => "         - ".toList ++ tag.toList,
      tag, hmem, ?_⟩
    unfold frontmatter
    simp only [if_neg h.tagged]
    have hmap : ("aeqi" :: entry.tags).map (fun tag => "         - ".toList ++ tag.toList) =
        ("aeqi" :: tags).map (fun tag => "         - ".toList ++ tag.toList) ++
          ["         - ".toList ++ tag.toList] := by
      rw [htags, ← cons_append, map_append]
      rfl
    rw [hmap]
    rfl
  rw [hfront] at hbreaks ⊢
  obtain ⟨hfrontBreaks, hlastBreak⟩ := forall_mem_append.mp hbreaks
  obtain ⟨hne, hlast⟩ := h.last_tag htag
  refine trimmedLines_front hfrontBreaks (hlastBreak _ mem_cons_self) (fun c hc => ?_)
    (cons_ne_nil _ _) fun c hc => hlast c ?_
  · cases hc
    decide
  · rwa [getLast?_append_of_ne_nil _ hne] at hc

theorem splitFrontmatter_render (h : Readable entry) {body : List Char} :
    splitFrontmatter ("---".toList ++ (frontmatter entry).flatMap ('\n' :: ·) ++ "\n---".toList ++
      body) = (trim ((frontmatter entry).flatMap ('\n' :: ·)), body) := by
  have hnot : ∀ l ∈ frontmatter entry, '\n' ∉ l ∧ ¬ "---".toList <+: l := by
    refine fun l hl => ⟨noBreak_frontmatter h l hl, ?_⟩
    revert l
    unfold frontmatter
    simp only [forall_mem_append, forall_mem_cons, map_cons]
    refine ⟨⟨?_, ?_, ?_, ?_, ?_, ?_, nofun⟩, ?_, fun l hl => ?_⟩
    all_goals
      try obtain ⟨-, -, rfl⟩ := List.mem_map.mp hl
      exact nofun
  have hbreak := @breakOn_lines "---".toList body '\n' (frontmatter entry) (by decide) hnot
  have hdashes : "---".toList = ['-', '-', '-'] := by decide
  have hpattern : "\n---".toList = '\n' :: "---".toList := by decide
  rw [List.append_assoc, List.append_assoc, splitFrontmatter]
  have htext : ∀ text, trimStart ("---".toList ++ text) = "---".toList ++ text := fun text => by
    exact dropWhile_cons_of_neg (by exact Bool.false_ne_true)
  have hdrop : ∀ text, ("---".toList ++ text).drop 3 = text := fun text => by
    rfl
  simp only [htext, hdrop, hpattern, hbreak]
  rfl

/-! ### Its fields -/

theorem trim_quoted_self (text : String) : trim (quoted text) = quoted text := by
  refine trim_eq_self (fun c hc => ?_) fun _ => last_quoted
  cases hc
  decide

def Idea.fm (entry : Idea) : List Char := trim ((frontmatter entry).flatMap ('\n' :: ·))

theorem not_prefix_of_ne {a b : Char} {p q : List Char} (h : a ≠ b) : ¬ a :: p <+: b :: q :=
  fun hbegins => h (cons_prefix_cons.mp hbegins).1

theorem extractField_of_find (h : Readable entry) {field : String} {value : List Char}
    (hfind : (trimmedFront entry).find? (field.toList ++ [':'] <+: ·) =
      some (field.toList ++ ':' :: ' ' :: value)) :
    extractField entry.fm field =
      if trimQuotes (trim value) = [] ∨ trimQuotes (trim value) = "null".toList then none
      else some (String.ofList (trimQuotes (trim value))) := by
  have hdrop : (field.toList ++ ':' :: ' ' :: value).drop (field.toList.length + 1) =
      ' ' :: value := by
    rw [drop_append, drop_eq_nil_of_le (by omega), Nat.add_sub_cancel_left]
    rfl
  have hblank : isWhitespace ' ' = true := by decide
  unfold extractField
  rw [Idea.fm, trimmedLines_frontmatter h, hfind, bind_some, hdrop, trim_cons hblank]

theorem extractField_key (h : Readable entry) : extractField entry.fm "key" =
    if entry.name = "null" then none else some entry.name := by
  have hfind : (trimmedFront entry).find? ("key".toList ++ [':'] <+: ·) =
      some ("key: ".toList ++ quoted entry.name) := by
    unfold trimmedFront
    rw [cons_append, find?_cons_of_neg, cons_append, find?_cons_of_pos]
    · exact decide_eq_true ⟨' ' :: quoted entry.name, rfl⟩
    · exact fun hbegins => not_prefix_of_ne (by decide) (of_decide_eq_true hbegins)
  rw [@extractField_of_find _ h _ (quoted entry.name) hfind, trim_quoted_self,
    h.name.trimQuotes_quoted]
  have hnull : entry.name.toList = [] ∨ entry.name.toList = "null".toList ↔
      entry.name = "null" := by
    rw [String.toList_inj, String.toList_eq_nil_iff]
    exact or_iff_right h.name.nonempty
  simp only [hnull, String.ofList_toList]

theorem extractField_agent (h : Readable entry) :
    extractField entry.fm "agent_id" = entry.agentId := by
  have hfind : (trimmedFront entry).find? ("agent_id".toList ++ [':'] <+: ·) =
      some ("agent_id: ".toList ++ entry.agentId.elim "null".toList quoted) := by
    unfold trimmedFront
    rw [cons_append, find?_cons_of_neg, cons_append, find?_cons_of_neg,
      cons_append, find?_cons_of_neg, cons_append, find?_cons_of_pos]
    · exact decide_eq_true ⟨' ' :: entry.agentId.elim "null".toList quoted, rfl⟩
    all_goals exact fun hbegins => not_prefix_of_ne (by decide) (of_decide_eq_true hbegins)
  rw [@extractField_of_find _ h _ (entry.agentId.elim "null".toList quoted) hfind]
  cases hagent : entry.agentId with
  | none => decide
  | some agent =>
    obtain ⟨hbare, hnull⟩ := h.agent agent hagent
    have hnot : ¬ (agent.toList = [] ∨ agent.toList = "null".toList) := by
      rw [String.toList_inj, String.toList_eq_nil_iff]
      exact not_or.mpr ⟨hbare.nonempty, hnull⟩
    rw [elim_some, trim_quoted_self, hbare.trimQuotes_quoted, if_neg hnot, String.ofList_toList]

def readTag (tag : String) : Option String :=
  let tag := trimQuotes tag.toList
  if tag ≠ [] ∧ tag ≠ "aeqi".toList then some (String.ofList tag) else none

theorem tagsFrom_map {tags : List String} (h : ∀ tag ∈ tags, trim tag.toList = tag.toList) :
    tagsFrom (tags.map fun tag => "- ".toList ++ tag.toList) = tags.filterMap readTag := by
  induction tags with
  | nil => rfl
  | cons tag tags ih =>
    obtain ⟨htag, htags⟩ := forall_mem_cons.mp h
    have hdrop : ("- ".toList ++ tag.toList).drop 2 = tag.toList := rfl
    rw [map_cons, tagsFrom, if_pos (prefix_append _ _)]
    simp only [hdrop, htag, ih htags, filterMap_cons, readTag]
    split <;> rfl

theorem extractTags_frontmatter (h : Readable entry) :
    extractTags entry.fm = entry.tags.filterMap readTag := by
  have htags : ∀ tag ∈ "aeqi" :: entry.tags, trim tag.toList = tag.toList :=
    forall_mem_cons.mpr ⟨by decide, fun tag htag => (h.tags tag htag).2.2⟩
  have hlines : (trimmedFront entry).dropWhile (· ≠ "tags:".toList) =
      "tags:".toList :: ("aeqi" :: entry.tags).map fun tag => "- ".toList ++ tag.toList := by
    unfold trimmedFront
    rw [cons_append, dropWhile_cons_of_pos, cons_append, dropWhile_cons_of_pos,
      cons_append, dropWhile_cons_of_pos, cons_append, dropWhile_cons_of_pos,
      cons_append, dropWhile_cons_of_pos, cons_append, dropWhile_cons_of_neg,
      nil_append]
    · simp
    all_goals exact decide_eq_true nofun
  have haeqi : readTag "aeqi" = none := by decide
  rw [extractTags, Idea.fm, trimmedLines_frontmatter h, hlines, drop_one, tail_cons,
    tagsFrom_map htags, filterMap_cons, haeqi]

theorem extractField_primary (h : Readable entry) {primary : String}
    (hprimary : entry.tags.head? = some primary) :
    extractField entry.fm "primary_tag" =
      if trimQuotes primary.toList = [] ∨ trimQuotes primary.toList = "null".toList then none
      else some (String.ofList (trimQuotes primary.toList)) := by
  have hfind : (trimmedFront entry).find? ("primary_tag".toList ++ [':'] <+: ·) =
      some ("primary_tag: ".toList ++ primary.toList) := by
    unfold trimmedFront
    rw [cons_append, find?_cons_of_neg, cons_append, find?_cons_of_neg,
      cons_append, find?_cons_of_pos, hprimary]
    · rfl
    · exact decide_eq_true ⟨' ' :: (entry.tags.head?.getD "untagged").toList, rfl⟩
    all_goals exact fun hbegins => not_prefix_of_ne (by decide) (of_decide_eq_true hbegins)
  have htrim : trim primary.toList = primary.toList :=
    (h.tags primary (mem_of_head? hprimary)).2.2
  rw [@extractField_of_find _ h _ primary.toList hfind, htrim]

end Rendered

/-! ### Its content -/

section Content

variable {entry : Idea} {nameOf : String → Option String} {edges : List (IdeaGraphEdge F)}
def bodyOf (ctx : VaultCtx F) (nameOf : String → Option String) (entry : Idea)
    (edges : List (IdeaGraphEdge F)) : List Char :=
  "\n\n".toList ++ entry.content.toList ++ "\n".toList ++ relationsSection ctx nameOf entry.id edges

theorem noBreak_heading : '\n' ∉ relationsHeading := by decide

theorem splitRelations_plain (h : ¬ relationsHeading <:+: entry.content.toList) :
    splitRelations ctx (bodyOf ctx nameOf entry []) = (bodyOf ctx nameOf entry [], []) ∧
      trim (bodyOf ctx nameOf entry []) = trim entry.content.toList := by
  have hbody : bodyOf ctx nameOf entry [] = '\n' :: '\n' :: (entry.content.toList ++ ['\n']) := by
    simp [bodyOf, relationsSection]
  have hnone : ¬ relationsHeading <:+: bodyOf ctx nameOf entry [] := by
    have hnil : ¬ relationsHeading <:+: [] := by decide
    have hcons : ∀ text, relationsHeading <:+: '\n' :: text ↔ relationsHeading <:+: text := by
      intro text
      have hiff := @infix_append_cons relationsHeading [] text '\n' noBreak_heading
      rwa [or_iff_right hnil] at hiff
    rw [hbody, hcons, hcons, infix_append_cons noBreak_heading]
    exact not_or.mpr ⟨h, hnil⟩
  refine ⟨?_, ?_⟩
  · rw [splitRelations, breakOn_eq_none.mpr hnone]
  · rw [hbody, trim_cons (by decide), trim_cons (by decide), trim_concat (by decide)]

theorem splitRelations_heading (h : relationsHeading <:+: entry.content.toList) :
    (splitRelations ctx (bodyOf ctx nameOf entry edges)).1 <:+:
        '\n' :: '\n' :: entry.content.toList ∧
      ink (splitRelations ctx (bodyOf ctx nameOf entry edges)).1 < ink entry.content.toList := by
  have hbody : bodyOf ctx nameOf entry edges = ('\n' :: '\n' :: entry.content.toList) ++
      ('\n' :: relationsSection ctx nameOf entry.id edges) := by
    simp [bodyOf]
  have hinside : relationsHeading <:+: '\n' :: '\n' :: entry.content.toList :=
    infix_cons (infix_cons h)
  obtain ⟨⟨before, after⟩, hbreak⟩ : ∃ found,
      breakOn relationsHeading ('\n' :: '\n' :: entry.content.toList) = some found :=
    ne_none_iff_exists'.mp fun hnone => breakOn_eq_none.mp hnone hinside
  obtain ⟨htext, hafter⟩ := breakOn_eq_some hbreak
  obtain ⟨before', after', hbreak', hbefore⟩ :=
    breakOn_append ('\n' :: relationsSection ctx nameOf entry.id edges) hbreak
  rw [← hbody] at hbreak'
  have hsplit : (splitRelations ctx (bodyOf ctx nameOf entry edges)).1 =
      before'.rdropWhile isWhitespace := by
    rw [splitRelations, hbreak']
  have hpart : before'.rdropWhile isWhitespace <+: '\n' :: '\n' :: entry.content.toList :=
    ((List.rdropWhile_prefix _ _).trans hbefore).trans (htext ▸ prefix_append before after)
  have hink : ink entry.content.toList = ink before + ink after := by
    rw [← ink_append, ← htext]
    rfl
  have hheading : 0 < ink after :=
    Nat.lt_of_lt_of_le (by decide) (ink_mono hafter.isInfix : ink relationsHeading ≤ ink after)
  rw [hsplit]
  refine ⟨hpart.isInfix, ?_⟩
  have hle := ink_mono hbefore.isInfix
  rw [ink_rdropWhile]
  omega

theorem splitRelations_edges (h : ¬ relationsHeading <:+: entry.content.toList)
    (hedges : edges ≠ []) : (splitRelations ctx (bodyOf ctx nameOf entry edges)).1 <:+:
        '\n' :: '\n' :: (entry.content.toList ++ '\n' :: "\n---\n\n".toList) ∧
      ink (splitRelations ctx (bodyOf ctx nameOf entry edges)).1 =
        ink entry.content.toList + 3 := by
  obtain ⟨tail, hsection⟩ : ∃ tail, relationsSection ctx nameOf entry.id edges =
      '\n' :: ("---".toList ++ '\n' :: '\n' :: (relationsHeading ++ tail)) := by
    cases edges with
    | nil => exact absurd rfl hedges
    | cons edge edges => exact ⟨_, rfl⟩
  have hbody : bodyOf ctx nameOf entry edges = '\n' :: '\n' :: (entry.content.toList ++
      '\n' :: '\n' :: ("---".toList ++ '\n' :: '\n' :: (relationsHeading ++ tail))) := by
    simp [bodyOf, hsection]
  have hne : relationsHeading ≠ [] := by decide
  have hnil : ¬ relationsHeading <:+: [] := by decide
  have hrule : ¬ relationsHeading <:+: "---".toList := by decide
  have hempty := fun text => @breakOn_line relationsHeading text [] '\n' hne noBreak_heading hnil
  simp only [nil_append] at hempty
  have hbreak : breakOn relationsHeading (bodyOf ctx nameOf entry edges) =
      some ('\n' :: '\n' :: (entry.content.toList ++ '\n' :: "\n---\n\n".toList),
        relationsHeading ++ tail) := by
    rw [hbody, hempty, hempty, breakOn_line hne noBreak_heading h, hempty,
      breakOn_line hne noBreak_heading hrule, hempty, breakOn_prefix (prefix_append _ _)]
    simp
  have hsplit : (splitRelations ctx (bodyOf ctx nameOf entry edges)).1 =
      ('\n' :: '\n' :: (entry.content.toList ++ '\n' :: "\n---\n\n".toList)).rdropWhile
        isWhitespace := by
    rw [splitRelations, hbreak]
  rw [hsplit]
  refine ⟨(List.rdropWhile_prefix _ _).isInfix, ?_⟩
  rw [ink_rdropWhile]
  have htext : '\n' :: '\n' :: (entry.content.toList ++ '\n' :: "\n---\n\n".toList) =
      "\n\n".toList ++ (entry.content.toList ++ "\n\n---\n\n".toList) := by
    simp
  have hstart : ink "\n\n".toList = 0 := by decide
  have hend : ink "\n\n---\n\n".toList = 3 := by decide
  rw [htext, ink_append, ink_append, hstart, hend, Nat.zero_add]

end Content

end Aeqi.Ideas.Obsidian
