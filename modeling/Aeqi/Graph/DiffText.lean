import Aeqi.Graph.DiffImpact

/-!
# What `git diff` writes

A diff is a list of files with their hunks. Every line of its text is read as the name of a file, as
a range, or as neither. A range is attributed to the name that was read last. Where the ranges of
each file are attributed to the name that the file had, the impact of the diff is exact, whatever
the tables hold.
-/

namespace Aeqi.Graph

open Aeqi.Lib List Option

/-! ## Diffs -/

inductive BodyLine
  | removed (content : List Char)
  | added (content : List Char)
  | noNewline

def BodyLine.text : BodyLine → List Char
  | .removed content => '-' :: content
  | .added content => '+' :: content
  | .noNewline => "\\ No newline at end of file".toList

/-- A hunk without context; `heading` is what stands behind the ranges. -/
structure Hunk where
  oldStart : Nat
  oldCount : Nat
  newStart : Nat
  newCount : Nat
  heading : List Char
  body : List BodyLine
  noBreak : '\n' ∉ heading ∧ ∀ line ∈ body, '\n' ∉ line.text

/-- `oldPath` is none for an added file, `newPath` for a deleted one. The `extended` lines stand
before the names: the modes, the similarity, the index. -/
structure FileDiff where
  oldPath : Option (List Char)
  newPath : Option (List Char)
  extended : List (List Char)
  hunks : List Hunk
  extendedLines : ∀ line ∈ extended, '\n' ∉ line ∧ ∃ c rest, line = c :: rest ∧ c.isAlpha = true
  added : oldPath = none → ∀ hunk ∈ hunks, hunk.oldStart = 0
  named : oldPath ≠ some [] ∧ newPath ≠ some []

def rangeText (start count : Nat) : List Char :=
  Nat.toDigits 10 start ++ if count = 1 then [] else ',' :: Nat.toDigits 10 count

namespace Hunk

def header (h : Hunk) : List Char :=
  ['@', '@', ' ', '-'] ++ rangeText h.oldStart h.oldCount ++
    ' ' :: '+' :: (rangeText h.newStart h.newCount ++ [' ', '@', '@'] ++ h.heading)

def lines (h : Hunk) : List (List Char) := h.header :: h.body.map (·.text)

/-- The lines of the old side. An insertion counts for the line before it. -/
def range (h : Hunk) : Option (Nat × Nat) :=
  if h.oldStart = 0 then none else some (h.oldStart, h.oldStart + max h.oldCount 1 - 1)

end Hunk

/-! ### Names -/

/-- What is quoted, as `core.quotePath` has it. -/
def needsQuote (c : Char) : Bool :=
  c = '"' || c = '\\' || decide (c.toNat < 32) || decide (127 ≤ c.toNat)

def octal (b : UInt8) : List Char :=
  ['\\', Nat.digitChar (b.toNat / 64), Nat.digitChar (b.toNat / 8 % 8),
    Nat.digitChar (b.toNat % 8)]

def quoteByte (b : UInt8) : List Char :=
  if b = 7 then ['\\', 'a'] else if b = 8 then ['\\', 'b'] else if b = 9 then ['\\', 't']
  else if b = 10 then ['\\', 'n'] else if b = 11 then ['\\', 'v'] else if b = 12 then ['\\', 'f']
  else if b = 13 then ['\\', 'r'] else if b = 34 then ['\\', '"'] else if b = 92 then ['\\', '\\']
  else if b < 32 ∨ 127 ≤ b then octal b
  else [Char.ofNat b.toNat]

def sideName (side name : List Char) : List Char :=
  (if name.any needsQuote then '"' :: ((Utf8.encode (side ++ name)).flatMap quoteByte ++ ['"'])
    else side ++ name) ++ if ' ' ∈ name then ['\t'] else []

def nameLine (marker side : List Char) (path : Option (List Char)) : List Char :=
  marker ++ (path.map (sideName side)).getD "/dev/null".toList

namespace FileDiff

def lines (f : FileDiff) : List (List Char) :=
  f.extended ++
    if f.hunks = [] then []
    else nameLine "--- ".toList "a/".toList f.oldPath ::
      nameLine "+++ ".toList "b/".toList f.newPath :: f.hunks.flatMap (·.lines)

def ranges (f : FileDiff) : List (Nat × Nat) := f.hunks.filterMap (·.range)

end FileDiff

def unlines (lines : List (List Char)) : List Char := lines.flatMap (· ++ ['\n'])

def diffText (d : List FileDiff) : List Char := unlines (d.flatMap (·.lines))

/-! ## Lines -/

def dropCarriage (line : List Char) : List Char :=
  if line.getLast? = some '\r' then line.dropLast else line

section Lines

variable {line front text : List Char} {c : Char}

theorem dropCarriage_append (front : List Char) (hne : line ≠ []) :
    dropCarriage (front ++ line) = front ++ dropCarriage line := by
  unfold dropCarriage
  rw [getLast?_append_of_ne_nil _ hne]
  split_ifs
  · exact dropLast_append_of_ne_nil hne
  · rfl

theorem dropCarriage_of_not_mem (h : '\r' ∉ line) : dropCarriage line = line := by
  unfold dropCarriage
  rw [if_neg]
  exact fun hlast => h (mem_of_getLast? hlast)

theorem textLines_cons (hc : c ≠ '\n') (hnext : c ≠ '\r' ∨ ∀ rest, text ≠ '\n' :: rest) :
    textLines (c :: text) = consLine c (textLines text) := by
  rw [textLines.eq_def]
  split
  · contradiction
  next heq => exact absurd (List.cons.inj heq).1 hc
  next rest heq =>
    obtain ⟨rfl, rfl⟩ := List.cons.inj heq
    exact hnext.elim (fun h => absurd rfl h) fun h => absurd rfl (h rest)
  next heq =>
    obtain ⟨rfl, rfl⟩ := List.cons.inj heq
    rfl

theorem textLines_line (h : '\n' ∉ line) :
    textLines (line ++ '\n' :: text) = dropCarriage line :: textLines text := by
  induction line with
  | nil => rfl
  | cons c line ih =>
    have hc : c ≠ '\n' := fun heq => h (heq ▸ mem_cons_self)
    have hline : '\n' ∉ line := fun hmem => h (mem_cons_of_mem _ hmem)
    cases line with
    | nil =>
      by_cases hr : c = '\r'
      · rw [hr]
        rfl
      · rw [cons_append, textLines_cons hc (.inl hr)]
        rw [dropCarriage_of_not_mem (by simpa using Ne.symm hr)]
        rfl
    | cons c' line =>
      have hnext : ∀ rest, (c' :: line) ++ '\n' :: text ≠ '\n' :: rest := by
        intro rest heq
        exact hline ((List.cons.inj heq).1 ▸ mem_cons_self)
      rw [cons_append, textLines_cons hc (.inr hnext), ih hline]
      change _ = dropCarriage ([c] ++ c' :: line) :: _
      rw [dropCarriage_append _ (cons_ne_nil _ _)]
      rfl

theorem textLines_unlines {lines : List (List Char)} (h : ∀ line ∈ lines, '\n' ∉ line) :
    textLines (unlines lines) = lines.map dropCarriage := by
  induction lines with
  | nil => rfl
  | cons line lines ih =>
    obtain ⟨hline, hlines⟩ := forall_mem_cons.1 h
    rw [unlines, flatMap_cons, List.append_assoc, singleton_append, textLines_line hline]
    exact congrArg _ (ih hlines)

end Lines

/-! ## What a line is read as -/

inductive DiffLine
  | file (name : List Char)
  | range (range : Nat × Nat)
  deriving DecidableEq

def readLine (line : List Char) : Option DiffLine :=
  match stripPrefix newNamePrefix line with
  | some file => some (.file file)
  | none => (oldHunkRange line).map .range

section Readings

variable {line name content tail : List Char} {c : Char} {start count : Nat}

theorem readLine_file : readLine (newNamePrefix ++ name) = some (.file name) := by
  unfold readLine stripPrefix
  rw [if_pos (prefix_append _ _), drop_left]

theorem stripPrefix_eq_none (h : ¬ newNamePrefix <+: line) :
    stripPrefix newNamePrefix line = none :=
  if_neg h

theorem readLine_of_neither (hname : ¬ newNamePrefix <+: line) (hhunk : ¬ hunkPrefix <+: line) :
    readLine line = none := by
  unfold readLine oldHunkRange
  rw [stripPrefix_eq_none hname, if_pos hhunk]
  rfl

theorem readLine_of_head (hplus : c ≠ '+') (hat : c ≠ '@') : readLine (c :: line) = none := by
  refine readLine_of_neither (fun h => hplus ?_) fun h => hat ?_
  · exact (cons_prefix_cons.1 h).1.symm
  · exact (cons_prefix_cons.1 h).1.symm

theorem readLine_dropCarriage (hplus : c ≠ '+') (hat : c ≠ '@') :
    readLine (dropCarriage (c :: line)) = none := by
  cases line with
  | nil =>
    unfold dropCarriage
    split_ifs
    · exact (by decide : readLine [] = none)
    · exact readLine_of_head hplus hat
  | cons c' line =>
    change readLine (dropCarriage ([c] ++ c' :: line)) = none
    rw [dropCarriage_append _ (cons_ne_nil _ _)]
    exact readLine_of_head hplus hat

theorem readLine_added (content : List Char) : readLine (dropCarriage ('+' :: content)) = none ∧
      ¬ ['+', '+', ' ', 'b', '/'] <+: content ∨
    ∃ name, readLine (dropCarriage ('+' :: content)) = some (.file name) ∧
      ['+', '+', ' ', 'b', '/'] <+: content := by
  by_cases h : ['+', '+', ' ', 'b', '/'] <+: content
  · obtain ⟨rest, rfl⟩ := h
    refine .inr ⟨dropCarriage rest, ?_, prefix_append _ _⟩
    by_cases hrest : rest = []
    · rw [hrest]
      decide
    · change readLine (dropCarriage (newNamePrefix ++ rest)) = _
      rw [dropCarriage_append _ hrest]
      exact readLine_file
  · refine .inl ⟨readLine_of_neither (fun hname => h ?_) fun hhunk => ?_, h⟩
    · have hwhole : newNamePrefix <+: '+' :: content := by
        unfold dropCarriage at hname
        split_ifs at hname
        · exact hname.trans (List.dropLast_prefix _)
        · exact hname
      exact (cons_prefix_cons.1 hwhole).2
    · have hwhole : hunkPrefix <+: '+' :: content := by
        unfold dropCarriage at hhunk
        split_ifs at hhunk
        · exact hhunk.trans (List.dropLast_prefix _)
        · exact hhunk
      exact nomatch (cons_prefix_cons.1 hwhole).1

/-! ### Ranges -/

theorem isDigit_toDigits {n : Nat} (h : c ∈ Nat.toDigits 10 n) : c.isDigit = true :=
  Nat.isDigit_of_mem_toDigits (by decide) (by decide) h

theorem not_mem_rangeText (hdigit : c.isDigit = false) (hcomma : c ≠ ',') :
    c ∉ rangeText start count := by
  intro h
  have hnot : ∀ n, c ∉ Nat.toDigits 10 n := by
    intro n hmem
    rw [isDigit_toDigits hmem] at hdigit
    cases hdigit
  rcases mem_append.1 h with h | h
  · exact hnot _ h
  · split_ifs at h with hone
    · cases h
    · rcases mem_cons.1 h with heq | h
      · exact hcomma heq
      · exact hnot _ h

theorem parseHunkRange_rangeText (hstart : start < 4294967296) (hcount : count < 4294967296) :
    parseHunkRange (rangeText start count) = some (start, count) := by
  have hcomma : ∀ n, ',' ∉ Nat.toDigits 10 n := by
    intro n hmem
    exact nomatch (isDigit_toDigits hmem)
  unfold parseHunkRange rangeText
  by_cases hone : count = 1
  · rw [if_pos hone, append_nil, splitOn_eq_singleton (hcomma start), hone]
    dsimp only [headD_cons]
    rw [parseUnsigned_toDigits (show start < 2 ^ 32 from hstart)]
    rfl
  · rw [if_neg hone, splitOn_append_cons_self_of_not_mem (hcomma start),
      splitOn_eq_singleton (hcomma count)]
    dsimp only [headD_cons]
    rw [parseUnsigned_toDigits (show start < 2 ^ 32 from hstart)]
    simp [parseUnsigned_toDigits (show count < 2 ^ 32 from hcount)]

theorem oldHunkRange_header (h : Hunk) (hfits : h.oldStart + max h.oldCount 1 < 4294967296) :
    oldHunkRange (['@', '@', ' ', '-'] ++ rangeText h.oldStart h.oldCount ++ ' ' :: tail) = h.range := by
  have hspace : ∀ c ∈ rangeText h.oldStart h.oldCount, decide (c ≠ ' ') = true := by
    intro c hc
    rw [decide_eq_true_iff]
    rintro rfl
    exact not_mem_rangeText (by decide) (by decide) hc
  have hrest : ((['@', '@', ' ', '-'] ++ rangeText h.oldStart h.oldCount ++ ' ' :: tail).dropWhile
      (· ≠ '-')).drop 1 = rangeText h.oldStart h.oldCount ++ ' ' :: tail := rfl
  have htake : (rangeText h.oldStart h.oldCount ++ ' ' :: tail).takeWhile (· ≠ ' ') =
      rangeText h.oldStart h.oldCount := by
    rw [takeWhile_append_of_pos hspace, takeWhile_cons_of_neg (by decide), append_nil]
  unfold oldHunkRange Hunk.range
  rw [if_neg (not_not.2 ⟨_, rfl⟩), if_neg (by simp)]
  dsimp only
  rw [hrest, htake, if_neg (by simp), parseHunkRange_rangeText (by omega) (by omega), bind_some]
  split_ifs with hzero
  · rfl
  · have hend : (h.oldStart + max h.oldCount 1 + 4294967295) % 4294967296 =
        h.oldStart + max h.oldCount 1 - 1 := by omega
    rw [hend]

end Readings

/-! ## What a diff is read as -/

/-- Git's names as they are written without quotes and without a tab. -/
def Plain (name : List Char) : Prop := name.any needsQuote = false ∧ ' ' ∉ name

/-- An added line that begins like the line of a name. -/
def Hunk.Misread (h : Hunk) : Prop :=
  ∃ content, BodyLine.added content ∈ h.body ∧ ['+', '+', ' ', 'b', '/'] <+: content

def Hunk.Fits (h : Hunk) : Prop := h.oldStart + max h.oldCount 1 < 4294967296

def Hunk.readings (h : Hunk) : List DiffLine := h.lines.filterMap fun l => readLine (dropCarriage l)

def FileDiff.readings (f : FileDiff) : List DiffLine :=
  f.lines.filterMap fun l => readLine (dropCarriage l)

theorem readLine_body (l : BodyLine) : readLine (dropCarriage l.text) = none ∨
    ∃ name, readLine (dropCarriage l.text) = some (.file name) := by
  cases l with
  | removed content => exact .inl (readLine_dropCarriage (by decide) (by decide))
  | added content => exact (readLine_added content).imp (fun h => h.1) fun ⟨name, h, _⟩ => ⟨name, h⟩
  | noNewline => exact .inl (by decide)

theorem readings_body {h : Hunk} : ∀ r ∈ (h.body.map (·.text)).filterMap
    (fun l => readLine (dropCarriage l)), ∃ name, r = .file name := by
  intro r hr
  obtain ⟨l, hl, hread⟩ := mem_filterMap.1 hr
  obtain ⟨body, -, rfl⟩ := List.mem_map.1 hl
  rcases readLine_body body with hnone | ⟨name, hname⟩
  · rw [hnone] at hread
    cases hread
  · rw [hname] at hread
    exact ⟨name, (some.inj hread).symm⟩

theorem readings_body_eq_nil {h : Hunk} (hmisread : ¬ h.Misread) :
    (h.body.map (·.text)).filterMap (fun l => readLine (dropCarriage l)) = [] := by
  rw [filterMap_eq_nil_iff]
  intro l hl
  obtain ⟨body, hbody, rfl⟩ := List.mem_map.1 hl
  cases body with
  | removed content => exact readLine_dropCarriage (by decide) (by decide)
  | added content =>
    rcases readLine_added content with ⟨hnone, -⟩ | ⟨-, -, hprefix⟩
    · exact hnone
    · exact absurd ⟨content, hbody, hprefix⟩ hmisread
  | noNewline => decide

theorem readLine_header {h : Hunk} (hfits : h.Fits) :
    readLine (dropCarriage h.header) = h.range.map .range := by
  have hname : ∀ tail, ¬ newNamePrefix <+:
      ['@', '@', ' ', '-'] ++ rangeText h.oldStart h.oldCount ++ ' ' :: tail :=
    nofun
  unfold Hunk.header
  rw [dropCarriage_append _ (cons_ne_nil _ _)]
  have hspace : ∀ tail : List Char, tail ≠ [] →
      dropCarriage (' ' :: tail) = ' ' :: dropCarriage tail := fun tail hne =>
    dropCarriage_append [' '] hne
  rw [hspace _ (cons_ne_nil _ _)]
  unfold readLine
  rw [stripPrefix_eq_none (hname _), oldHunkRange_header h hfits]

theorem Hunk.readings_eq {h : Hunk} (hfits : h.Fits) : h.readings = (h.range.map .range).toList ++
    (h.body.map (·.text)).filterMap fun l => readLine (dropCarriage l) := by
  unfold Hunk.readings Hunk.lines
  cases hr : h.range with
  | none =>
    rw [filterMap_cons_none (by rw [readLine_header hfits, hr]; rfl)]
    rfl
  | some r =>
    rw [filterMap_cons_some (by rw [readLine_header hfits, hr]; rfl)]
    rfl

section Names

variable {name side : List Char} {path : Option (List Char)}

theorem Plain.not_mem (h : Plain name) {c : Char} (hc : needsQuote c = true) : c ∉ name := by
  intro hmem
  have hnot := List.any_eq_false.1 h.1 c hmem
  exact hnot hc

theorem readLine_newName (h : Plain name) :
    readLine (dropCarriage (nameLine "+++ ".toList "b/".toList (some name))) = some (.file name) := by
  have hline : nameLine "+++ ".toList "b/".toList (some name) = newNamePrefix ++ name := by
    unfold nameLine sideName
    simp only [map_some, h.1, h.2, if_false, append_nil]
    rfl
  have hcarriage : '\r' ∉ newNamePrefix ++ name := by
    intro hmem
    rcases mem_append.1 hmem with hmem | hmem
    · exact nomatch hmem
    · exact h.not_mem (by decide) hmem
  rw [hline, dropCarriage_of_not_mem hcarriage, readLine_file]

theorem readLine_newName_cases (path : Option (List Char)) :
    readLine (dropCarriage (nameLine "+++ ".toList "b/".toList path)) = none ∨
      ∃ name, readLine (dropCarriage (nameLine "+++ ".toList "b/".toList path)) = some (.file name) := by
  rcases readLine_added ("++ ".toList ++ (path.map (sideName "b/".toList)).getD
    "/dev/null".toList) with ⟨hnone, -⟩ | ⟨name, hname, -⟩
  · exact .inl hnone
  · exact .inr ⟨name, hname⟩

theorem readLine_oldName (path : Option (List Char)) :
    readLine (dropCarriage (nameLine "--- ".toList "a/".toList path)) = none :=
  readLine_dropCarriage (by decide) (by decide)

theorem break_not_mem_octal (b : UInt8) : '\n' ∉ octal b := by
  have hdigit : ∀ n < 8, '\n' ≠ Nat.digitChar n := by decide
  have hlt := b.toNat_lt
  have hfirst := hdigit (b.toNat / 64) (by omega)
  have hsecond := hdigit (b.toNat / 8 % 8) (by omega)
  have hthird := hdigit (b.toNat % 8) (by omega)
  unfold octal
  rw [mem_cons, mem_cons, mem_cons, mem_singleton]
  rintro (h | h | h | h)
  · exact nomatch h
  · exact hfirst h
  · exact hsecond h
  · exact hthird h

theorem break_not_mem_quoteByte (b : UInt8) : '\n' ∉ quoteByte b := by
  have hprinted : ∀ n < 127, 32 ≤ n → '\n' ≠ Char.ofNat n := by decide
  unfold quoteByte
  split_ifs with h₁ h₂ h₃ h₄ h₅ h₆ h₇ h₈ h₉ hoctal
  all_goals try decide
  · exact break_not_mem_octal b
  · rw [mem_singleton]
    rw [not_or] at hoctal
    exact hprinted b.toNat (not_le.1 hoctal.2) (not_lt.1 hoctal.1)

theorem break_not_mem_sideName (hside : '\n' ∉ side) : '\n' ∉ sideName side name := by
  have htab : '\n' ∉ (if ' ' ∈ name then ['\t'] else []) := by
    split_ifs <;> decide
  intro hmem
  rcases mem_append.1 hmem with hmem | hmem
  · split_ifs at hmem with hquote
    · rcases mem_cons.1 hmem with heq | hmem
      · exact nomatch heq
      · rcases mem_append.1 hmem with hmem | hmem
        · obtain ⟨b, -, hb⟩ := mem_flatMap.1 hmem
          exact break_not_mem_quoteByte b hb
        · exact nomatch hmem
    · rcases mem_append.1 hmem with hmem | hmem
      · exact hside hmem
      · rw [Bool.not_eq_true] at hquote
        exact List.any_eq_false.1 hquote _ hmem (by decide)
  · exact htab hmem

end Names

namespace FileDiff

variable {f : FileDiff}

theorem noBreak_lines (f : FileDiff) : ∀ line ∈ f.lines, '\n' ∉ line := by
  have hname : ∀ marker side : List Char, '\n' ∉ marker → '\n' ∉ side → ∀ path,
      '\n' ∉ nameLine marker side path := by
    intro marker side hmarker hside path hmem
    rcases mem_append.1 hmem with hmem | hmem
    · exact hmarker hmem
    · cases path with
      | none => exact nomatch (show '\n' ∈ "/dev/null".toList from hmem)
      | some name => exact break_not_mem_sideName hside hmem
  intro line hline
  rcases mem_append.1 hline with hline | hline
  · exact (f.extendedLines line hline).1
  · split_ifs at hline with hnil
    · cases hline
    · rcases mem_cons.1 hline with rfl | hline
      · exact hname _ _ (by decide) (by decide) _
      · rcases mem_cons.1 hline with rfl | hline
        · exact hname _ _ (by decide) (by decide) _
        · obtain ⟨h, -, hline⟩ := mem_flatMap.1 hline
          rcases mem_cons.1 hline with rfl | hline
          · have hrange : ∀ start count, '\n' ∉ rangeText start count := fun start count =>
              not_mem_rangeText (by decide) (by decide)
            unfold Hunk.header
            simp only [mem_append, mem_cons, hrange, h.noBreak.1]
            decide
          · obtain ⟨body, hbody, rfl⟩ := List.mem_map.1 hline
            exact h.noBreak.2 body hbody

theorem readings_extended (f : FileDiff) :
    f.extended.filterMap (fun l => readLine (dropCarriage l)) = [] := by
  rw [filterMap_eq_nil_iff]
  intro line hline
  obtain ⟨-, c, -, rfl, halpha⟩ := f.extendedLines line hline
  refine readLine_dropCarriage ?_ ?_
  · rintro rfl
    exact nomatch halpha
  · rintro rfl
    exact nomatch halpha

theorem readings_eq (f : FileDiff) (hne : f.hunks ≠ []) : f.readings =
    (readLine (dropCarriage (nameLine "+++ ".toList "b/".toList f.newPath))).toList ++
      f.hunks.flatMap (·.readings) := by
  unfold readings lines
  rw [if_neg hne, filterMap_append, f.readings_extended, filterMap_cons_none (f := fun l => readLine (dropCarriage l)) (readLine_oldName _),
    filterMap_cons, filterMap_flatMap]
  cases readLine (dropCarriage (nameLine "+++ ".toList "b/".toList f.newPath)) <;> rfl

theorem readings_of_nil (hnil : f.hunks = []) : f.readings = [] := by
  unfold readings lines
  rw [if_pos hnil, append_nil]
  exact f.readings_extended

end FileDiff

/-! ## What the ranges are attributed to -/

/-- The ranges with the name that was read last. -/
def attributed : List Char → List DiffLine → List (List Char × (Nat × Nat))
  | _, [] => []
  | _, .file name :: rest => attributed name rest
  | current, .range range :: rest => (current, range) :: attributed current rest

def nameAfter : List Char → List DiffLine → List Char
  | current, [] => current
  | _, .file name :: rest => nameAfter name rest
  | current, .range _ :: rest => nameAfter current rest

section Attributed

variable {current : List Char} {rs rest : List DiffLine}

theorem attributed_append : attributed current (rs ++ rest) =
    attributed current rs ++ attributed (nameAfter current rs) rest := by
  induction rs generalizing current with
  | nil => rfl
  | cons r rs ih =>
    cases r with
    | file name => exact ih
    | range r => exact congrArg _ ih

theorem attributed_names (h : ∀ r ∈ rs, ∃ name, r = .file name) : attributed current rs = [] := by
  induction rs generalizing current with
  | nil => rfl
  | cons r rs ih =>
    obtain ⟨⟨-, rfl⟩, hrs⟩ := forall_mem_cons.1 h
    exact ih hrs

end Attributed

/-! ### Hunks -/

/-- No range stands behind a line that is taken for a name. -/
def Steady : List Hunk → Prop
  | [] => True
  | h :: hunks => (h.Misread → ∀ h' ∈ hunks, h'.range = none) ∧ Steady hunks

section Hunks

variable {current : List Char} {hunks : List Hunk}

theorem attributed_rangeless (hfits : ∀ h ∈ hunks, h.Fits) (hnone : ∀ h ∈ hunks, h.range = none) :
    ∀ r ∈ hunks.flatMap (·.readings), ∃ name, r = .file name := by
  intro r hr
  obtain ⟨h, hh, hr⟩ := mem_flatMap.1 hr
  rw [Hunk.readings_eq (hfits h hh), hnone h hh] at hr
  exact readings_body r hr

theorem attributed_hunks (hfits : ∀ h ∈ hunks, h.Fits) (hsteady : Steady hunks) :
    attributed current (hunks.flatMap (·.readings)) =
      (hunks.filterMap (·.range)).map fun range => (current, range) := by
  induction hunks generalizing current with
  | nil => rfl
  | cons h hunks ih =>
    obtain ⟨hfit, hfits⟩ := forall_mem_cons.1 hfits
    obtain ⟨hmisread, hsteady⟩ := hsteady
    have hbody : attributed current ((h.body.map (·.text)).filterMap
        fun l => readLine (dropCarriage l)) = [] := attributed_names readings_body
    have hrest : attributed (nameAfter current ((h.body.map (·.text)).filterMap
        fun l => readLine (dropCarriage l))) (hunks.flatMap (·.readings)) =
          (hunks.filterMap (·.range)).map fun range => (current, range) := by
      by_cases hname : h.Misread
      · have hnone := hmisread hname
        rw [attributed_names (attributed_rangeless hfits hnone), filterMap_eq_nil_iff.2 hnone]
        rfl
      · rw [readings_body_eq_nil hname]
        exact ih hfits hsteady
    rw [flatMap_cons, Hunk.readings_eq hfit]
    cases hrange : h.range with
    | none =>
      rw [filterMap_cons_none (by rw [hrange])]
      change attributed current ((h.body.map (·.text)).filterMap
        (fun l => readLine (dropCarriage l)) ++ hunks.flatMap (·.readings)) = _
      rw [attributed_append, hbody, hrest]
      rfl
    | some range =>
      rw [filterMap_cons_some (by rw [hrange])]
      change (current, range) :: attributed current ((h.body.map (·.text)).filterMap
        (fun l => readLine (dropCarriage l)) ++ hunks.flatMap (·.readings)) = _
      rw [attributed_append, hbody, hrest]
      rfl

end Hunks

/-! ### Files -/

namespace FileDiff

/-- A file with lines of the old side keeps a name that is written as it is, and no added line
before a range is taken for a name. -/
structure Attributed (f : FileDiff) : Prop where
  fits : ∀ h ∈ f.hunks, h.Fits
  kept : f.ranges ≠ [] → ∃ name, f.oldPath = some name ∧ f.newPath = some name ∧ Plain name
  steady : Steady f.hunks

/-- The lines of the old side, with the name that the file had. -/
def attributions (f : FileDiff) : List (List Char × (Nat × Nat)) :=
  (f.oldPath.map fun name => f.ranges.map fun range => (name, range)).getD []

variable {f : FileDiff} {current : List Char}

theorem mem_attributions {name : List Char} {range : Nat × Nat} :
    (name, range) ∈ f.attributions ↔ f.oldPath = some name ∧ range ∈ f.ranges := by
  unfold attributions
  cases f.oldPath with
  | none => simp
  | some old =>
    rw [map_some, getD_some, List.mem_map, Option.some.injEq]
    constructor
    · rintro ⟨range', hrange, heq⟩
      obtain ⟨rfl, rfl⟩ := Prod.mk.inj heq
      exact ⟨rfl, hrange⟩
    · rintro ⟨rfl, hrange⟩
      exact ⟨range, hrange, rfl⟩

theorem attributed_readings (h : f.Attributed) :
    attributed current f.readings = f.attributions := by
  by_cases hnil : f.hunks = []
  · have hranges : f.ranges = [] := by
      unfold ranges
      rw [hnil]
      rfl
    rw [readings_of_nil hnil, attributions, hranges]
    cases f.oldPath <;> rfl
  rw [f.readings_eq hnil]
  by_cases hranges : f.ranges = []
  · have hnone : ∀ h ∈ f.hunks, h.range = none := filterMap_eq_nil_iff.1 hranges
    have hnames : attributed current
        ((readLine (dropCarriage (nameLine "+++ ".toList "b/".toList f.newPath))).toList ++
          f.hunks.flatMap (·.readings)) = [] := by
      refine attributed_names fun r hr => ?_
      rcases mem_append.1 hr with hr | hr
      · rcases readLine_newName_cases f.newPath with hread | ⟨name, hread⟩
        · rw [hread] at hr
          cases hr
        · rw [hread] at hr
          exact ⟨name, mem_singleton.1 hr⟩
      · exact attributed_rangeless h.fits hnone r hr
    rw [hnames, attributions, hranges]
    cases f.oldPath <;> rfl
  · obtain ⟨name, hold, hnew, hplain⟩ := h.kept hranges
    rw [hnew, readLine_newName hplain, attributions, hold]
    exact attributed_hunks h.fits h.steady

end FileDiff

theorem attributed_diff {d : List FileDiff} (h : ∀ f ∈ d, f.Attributed) (current : List Char) :
    attributed current (d.flatMap (·.readings)) = d.flatMap (·.attributions) := by
  induction d generalizing current with
  | nil => rfl
  | cons f d ih =>
    obtain ⟨hf, hd⟩ := forall_mem_cons.1 h
    rw [flatMap_cons, flatMap_cons, attributed_append, FileDiff.attributed_readings hf, ih hd]

/-! ## What is read of a diff -/

namespace DiffParse

def apply (s : DiffParse) : DiffLine → DiffParse
  | .file name =>
    { fileChanges := s.finished
      currentFile := name
      currentRanges := if s.currentFile = [] then s.currentRanges else [] }
  | .range range => { s with currentRanges := s.currentRanges ++ [range] }

theorem foldl_line (s : DiffParse) (lines : List (List Char)) :
    lines.foldl line s = (lines.filterMap readLine).foldl apply s := by
  induction lines generalizing s with
  | nil => rfl
  | cons l lines ih =>
    rw [foldl_cons, ih, filterMap_cons]
    unfold line readLine
    cases stripPrefix newNamePrefix l with
    | some file => rfl
    | none => cases oldHunkRange l <;> rfl

def pairs (changes : List (List Char × List (Nat × Nat))) : List (List Char × (Nat × Nat)) :=
  changes.flatMap fun change => change.2.map fun range => (change.1, range)

theorem mem_pairs {changes : List (List Char × List (Nat × Nat))} {name : List Char}
    {range : Nat × Nat} :
    (name, range) ∈ pairs changes ↔ ∃ change ∈ changes, change.1 = name ∧ range ∈ change.2 := by
  unfold pairs
  rw [mem_flatMap]
  refine exists_congr fun change => and_congr_right fun _ => ?_
  rw [List.mem_map]
  constructor
  · rintro ⟨range', hrange, heq⟩
    obtain ⟨rfl, rfl⟩ := Prod.mk.inj heq
    exact ⟨rfl, hrange⟩
  · rintro ⟨rfl, hrange⟩
    exact ⟨range, hrange, rfl⟩

theorem pairs_append (changes more : List (List Char × List (Nat × Nat))) :
    pairs (changes ++ more) = pairs changes ++ pairs more := flatMap_append

theorem finished_file (s : DiffParse) (name : List Char) : (s.apply (.file name)).finished =
    if name = [] then s.finished
    else s.finished ++ [(name, if s.currentFile = [] then s.currentRanges else [])] := rfl

theorem finished_eq {s : DiffParse} (h : s.currentFile ≠ []) :
    s.finished = s.fileChanges ++ [(s.currentFile, s.currentRanges)] := if_neg h

theorem pairs_finished {s : DiffParse} {rs : List DiffLine}
    (hstart : s.currentFile = [] → s.currentRanges = [])
    (hnamed : ∀ e ∈ attributed s.currentFile rs, e.1 ≠ []) :
    pairs (rs.foldl apply s).finished = pairs s.finished ++ attributed s.currentFile rs := by
  induction rs generalizing s with
  | nil => exact (append_nil _).symm
  | cons r rs ih =>
    cases r with
    | file name =>
      have hnone : (if s.currentFile = [] then s.currentRanges else []) = [] := by
        split_ifs with hnil
        · exact hstart hnil
        · rfl
      have hsame : pairs (s.apply (.file name)).finished = pairs s.finished := by
        rw [finished_file, hnone]
        split_ifs
        · rfl
        · rw [pairs_append]
          exact append_nil _
      rw [foldl_cons, ih (s := s.apply (.file name)) (fun _ => hnone) hnamed, hsame]
      rfl
    | range range =>
      obtain ⟨hname, hrest⟩ := forall_mem_cons.1 hnamed
      have hmore : pairs (s.apply (.range range)).finished =
          pairs s.finished ++ [(s.currentFile, range)] := by
        rw [finished_eq (s := s.apply (.range range)) hname, finished_eq hname]
        unfold pairs apply
        simp
      rw [foldl_cons, ih (s := s.apply (.range range)) (fun hnil => absurd hnil hname) hrest,
        hmore, List.append_assoc]
      rfl

theorem names_finished {s : DiffParse} {rs : List DiffLine} {change : List Char × List (Nat × Nat)}
    (h : change ∈ (rs.foldl apply s).finished) :
    change.1 ∈ s.finished.map (·.1) ∨ .file change.1 ∈ rs := by
  induction rs generalizing s with
  | nil => exact .inl (List.mem_map_of_mem h)
  | cons r rs ih =>
    rcases ih h with hmem | hmem
    · cases r with
      | file name =>
        rw [finished_file] at hmem
        by_cases hname : name = []
        · rw [if_pos hname] at hmem
          exact .inl hmem
        · rw [if_neg hname, map_append, mem_append] at hmem
          rcases hmem with hmem | hmem
          · exact .inl hmem
          · rw [mem_singleton.1 hmem]
            exact .inr mem_cons_self
      | range range =>
        have hnames : (s.apply (.range range)).finished.map (·.1) = s.finished.map (·.1) := by
          unfold finished apply
          split_ifs
          · rfl
          · rw [map_append, map_append]
            rfl
        rw [hnames] at hmem
        exact .inl hmem
    · exact .inr (mem_cons_of_mem _ hmem)

end DiffParse

theorem fileChanges_diffText (d : List FileDiff) : fileChanges (diffText d) =
    ((d.flatMap (·.readings)).foldl DiffParse.apply .start).finished := by
  have hbreak : ∀ line ∈ d.flatMap (·.lines), '\n' ∉ line := by
    intro line hline
    obtain ⟨f, -, hline⟩ := mem_flatMap.1 hline
    exact f.noBreak_lines line hline
  have hreadings : ((d.flatMap (·.lines)).map dropCarriage).filterMap readLine =
      d.flatMap (·.readings) := by
    rw [filterMap_map, filterMap_flatMap]
    rfl
  unfold fileChanges diffText
  rw [textLines_unlines hbreak, DiffParse.foldl_line, hreadings]

/-! ## The impact of a diff -/

namespace GraphTables

/-- What is claimed of an impact: the symbols are the innermost ones at the lines of the old side of
each file, and what is affected lies at its distance from them. -/
structure Exact (g : GraphTables) (d : List FileDiff) (maxDepth : Nat) (result : DiffImpact) :
    Prop where
  symbols : ∀ node, node ∈ result.changedSymbols ↔ ∃ f ∈ d, ∃ name, f.oldPath = some name ∧
    ∃ range ∈ f.ranges, Innermost (g.nodesInFile (String.ofList name)) range node
  affected : ImpactExact g (result.changedSymbols.map (·.id)) maxDepth result.affected

variable {g : GraphTables} {d : List FileDiff} {maxDepth : Nat}

theorem impact_nil (g : GraphTables) (maxDepth : Nat) : g.impact [] maxDepth = [] := by
  unfold impact
  cases g.edges.length <;> rfl

theorem affected_exact (diffOutput : List Char) : ImpactExact g
    ((g.diffImpact diffOutput maxDepth).changedSymbols.map (·.id)) maxDepth
      (g.diffImpact diffOutput maxDepth).affected := by
  unfold diffImpact
  dsimp only
  split_ifs with hnil
  · rw [hnil, ← impact_nil g maxDepth]
    exact impact_exact g [] maxDepth
  · exact impact_exact g _ maxDepth

theorem exact_of_attributed (h : ∀ f ∈ d, f.Attributed) :
    g.Exact d maxDepth (g.diffImpact (diffText d) maxDepth) := by
  refine ⟨fun node => ?_, affected_exact _⟩
  have hpairs : DiffParse.pairs (fileChanges (diffText d)) = d.flatMap (·.attributions) := by
    rw [fileChanges_diffText, DiffParse.pairs_finished (fun _ => rfl)]
    · rw [attributed_diff h]
      rfl
    · intro e he
      rw [attributed_diff h] at he
      obtain ⟨f, -, he⟩ := mem_flatMap.1 he
      have hold : f.oldPath = some e.1 ∧ e.2 ∈ f.ranges := FileDiff.mem_attributions.1 he
      rintro hnil
      rw [hnil] at hold
      exact f.named.1 hold.1
  have hsymbols : node ∈ (g.diffImpact (diffText d) maxDepth).changedSymbols ↔
      ∃ name range, (name, range) ∈ DiffParse.pairs (fileChanges (diffText d)) ∧
        Innermost (g.nodesInFile (String.ofList name)) range node := by
    refine mem_changedSymbols.trans ⟨?_, ?_⟩
    · rintro ⟨change, hchange, range, hrange, hinner⟩
      exact ⟨change.1, range, DiffParse.mem_pairs.2 ⟨change, hchange, rfl, hrange⟩, hinner⟩
    · rintro ⟨name, range, hpair, hinner⟩
      obtain ⟨change, hchange, rfl, hrange⟩ := DiffParse.mem_pairs.1 hpair
      exact ⟨change, hchange, range, hrange, hinner⟩
  rw [hsymbols, hpairs]
  constructor
  · rintro ⟨name, range, hpair, hinner⟩
    obtain ⟨f, hf, hpair⟩ := mem_flatMap.1 hpair
    obtain ⟨hold, hrange⟩ := FileDiff.mem_attributions.1 hpair
    exact ⟨f, hf, name, hold, range, hrange, hinner⟩
  · rintro ⟨f, hf, name, hold, range, hrange, hinner⟩
    exact ⟨name, range, mem_flatMap.2 ⟨f, hf, FileDiff.mem_attributions.2 ⟨hold, hrange⟩⟩, hinner⟩

/-! ## Where the impact is exact -/

/-- A diff of plain names without misread lines, in which the name that a file had is the new name
of no other file. -/
structure Tame (d : List FileDiff) : Prop where
  fits : ∀ f ∈ d, ∀ h ∈ f.hunks, h.Fits
  read : ∀ f ∈ d, ∀ h ∈ f.hunks, ¬ h.Misread
  plain : ∀ f ∈ d, ∀ name, f.newPath = some name → Plain name
  distinct : ∀ f ∈ d, ∀ f' ∈ d, ∀ name, f.oldPath = some name → f'.newPath = some name → f = f'

theorem steady_of_read {hunks : List Hunk} (h : ∀ hunk ∈ hunks, ¬ hunk.Misread) : Steady hunks := by
  induction hunks with
  | nil => trivial
  | cons hunk hunks ih =>
    obtain ⟨hread, hrest⟩ := forall_mem_cons.1 h
    exact ⟨fun hmisread => absurd hmisread hread, ih hrest⟩

variable {name : List Char}

theorem Tame.newPath (h : Tame d) (hname : .file name ∈ d.flatMap (·.readings)) :
    ∃ f ∈ d, f.newPath = some name := by
  obtain ⟨f, hf, hread⟩ := mem_flatMap.1 hname
  refine ⟨f, hf, ?_⟩
  by_cases hnil : f.hunks = []
  · rw [FileDiff.readings_of_nil hnil] at hread
    cases hread
  rw [f.readings_eq hnil] at hread
  rcases mem_append.1 hread with hread | hread
  · cases hnew : f.newPath with
    | none =>
      rw [hnew] at hread
      cases hread
    | some new =>
      rw [hnew, readLine_newName (h.plain f hf new hnew)] at hread
      rw [(DiffLine.file.inj (mem_singleton.1 hread))]
  · obtain ⟨hunk, hhunk, hread⟩ := mem_flatMap.1 hread
    rw [Hunk.readings_eq (h.fits f hf hunk hhunk),
      readings_body_eq_nil (h.read f hf hunk hhunk)] at hread
    cases hrange : hunk.range with
    | none =>
      rw [hrange] at hread
      cases hread
    | some range =>
      rw [hrange] at hread
      cases mem_singleton.1 hread

def oneSymbol (name : List Char) (range : Nat × Nat) : CodeNode :=
  ⟨"symbol", .function, "symbol", String.ofList name, range.1, range.2, "rust", true, none, none⟩

def oneSymbolTables (name : List Char) (range : Nat × Nat) : GraphTables where
  nodes := ⟨[⟨1, oneSymbol name range⟩], List.nodup_singleton _, List.nodup_singleton _⟩
  edges := []

variable {range : Nat × Nat}

theorem innermost_oneSymbol {file : List Char} {range' : Nat × Nat} {node : CodeNode}
    (hinner : Innermost ((oneSymbolTables name range).nodesInFile (String.ofList file)) range'
      node) : file = name := by
  obtain ⟨hmem, hfile⟩ := mem_nodesInFile.1 hinner.1
  obtain rfl := mem_singleton.1 hmem
  exact (String.ofList_injective hfile).symm

theorem innermost_self (hrange : range.1 ≤ range.2) :
    Innermost ((oneSymbolTables name range).nodesInFile (String.ofList name)) range
      (oneSymbol name range) := by
  refine ⟨mem_nodesInFile.2 ⟨mem_singleton.2 rfl, rfl⟩, ?_, fun other hother _ => ?_⟩
  · unfold overlaps
    simp [oneSymbol, isStructural, hrange]
  · obtain rfl := mem_singleton.1 (mem_nodesInFile.1 hother).1
    unfold nests
    simp

theorem Hunk.range_le {h : Hunk} (hrange : h.range = some range) :
    range.1 ≤ range.2 := by
  unfold Hunk.range at hrange
  split_ifs at hrange
  rw [← some.inj hrange]
  omega

theorem attributed_of_exact (h : Tame d)
    (hexact : ∀ (g : GraphTables) maxDepth,
      g.Exact d maxDepth (g.diffImpact (diffText d) maxDepth)) :
    ∀ f ∈ d, f.Attributed := by
  intro f hf
  refine ⟨h.fits f hf, fun hranges => ?_, steady_of_read (h.read f hf)⟩
  obtain ⟨range, hrange⟩ := exists_mem_of_ne_nil _ hranges
  obtain ⟨hunk, hhunk, hhunkRange⟩ := mem_filterMap.1 hrange
  obtain ⟨name, hold⟩ : ∃ name, f.oldPath = some name := by
    cases hold : f.oldPath with
    | some name => exact ⟨name, rfl⟩
    | none =>
      have hzero := f.added hold hunk hhunk
      unfold Hunk.range at hhunkRange
      rw [if_pos hzero] at hhunkRange
      cases hhunkRange
  have hsymbol := ((hexact (oneSymbolTables name range) 0).symbols (oneSymbol name range)).2
    ⟨f, hf, name, hold, range, hrange, innermost_self (Hunk.range_le hhunkRange)⟩
  obtain ⟨change, hchange, range', -, hinner⟩ := mem_changedSymbols.1 hsymbol
  have hname : change.1 = name := innermost_oneSymbol hinner
  rw [fileChanges_diffText] at hchange
  rcases DiffParse.names_finished hchange with hnone | hread
  · cases hnone
  · obtain ⟨f', hf', hnew⟩ := h.newPath hread
    rw [hname] at hnew
    obtain rfl := h.distinct f hf f' hf' name hold hnew
    exact ⟨name, hold, hnew, h.plain f hf name hnew⟩

/-- The impact of a diff is exact where each file with lines of the old side keeps its plain name
and none of its added lines before them is taken for a name. -/
theorem diffImpact_exact (d : List FileDiff) :
    ((∀ f ∈ d, f.Attributed) → ∀ (g : GraphTables) maxDepth,
      g.Exact d maxDepth (g.diffImpact (diffText d) maxDepth)) ∧
    (Tame d → ((∀ (g : GraphTables) maxDepth,
      g.Exact d maxDepth (g.diffImpact (diffText d) maxDepth)) ↔ ∀ f ∈ d, f.Attributed)) :=
  ⟨fun h _ _ => exact_of_attributed h,
    fun htame => ⟨attributed_of_exact htame, fun h _ _ => exact_of_attributed h⟩⟩

/-- One line of `a.rs` is changed, and `b.rs` is deleted. -/
def deletion : List FileDiff :=
  [{ oldPath := some "a.rs".toList
     newPath := some "a.rs".toList
     extended := ["diff --git a/a.rs b/a.rs".toList]
     hunks := [⟨9, 1, 9, 1, [], [.removed "old".toList, .added "new".toList], by decide⟩]
     extendedLines := fun line hline =>
      ⟨by rw [List.mem_singleton.1 hline]; decide, 'd', _, List.mem_singleton.1 hline, by decide⟩
     added := fun hnone => by cases hnone
     named := ⟨by decide, by decide⟩ },
    { oldPath := some "b.rs".toList
      newPath := none
      extended := ["deleted file mode 100644".toList]
      hunks := [⟨1, 2, 0, 0, [], [.removed "fn b() -> u32 { 1 }".toList], by decide⟩]
      extendedLines := fun line hline =>
        ⟨by rw [List.mem_singleton.1 hline]; decide, 'd', _, List.mem_singleton.1 hline, by decide⟩
      added := fun hnone => by cases hnone
      named := ⟨by decide, by decide⟩ }]

/-- The lines of `b.rs` are counted against `a.rs`, and its symbol is missed. -/
theorem diffImpact_misses_deleted : ¬ ∀ (d : List FileDiff) (g : GraphTables) (maxDepth : Nat),
    g.Exact d maxDepth (g.diffImpact (diffText d) maxDepth) := by
  intro h
  let g := oneSymbolTables "b.rs".toList (1, 2)
  have hsymbol := ((h deletion g 0).symbols (oneSymbol "b.rs".toList (1, 2))).2
    ⟨deletion[1], by simp, "b.rs".toList, rfl, (1, 2), by decide, innermost_self (by decide)⟩
  have hnone : (g.diffImpact (diffText deletion) 0).changedSymbols = [] := by decide +kernel
  rw [hnone] at hsymbol
  cases hsymbol

end GraphTables

end Aeqi.Graph
