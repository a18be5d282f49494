import Aeqi.Lib.Text

/-!
# Looking for a text in a text

`str::find`, as the two parts on both sides of where the pattern begins first, and what trimming
leaves of a text: a part of it, with all characters that are no white space.
-/

namespace Aeqi.Lib

open List

/-- What is before the first place where the pattern begins, and what begins there. -/
def breakOn (pattern : List Char) : List Char → Option (List Char × List Char)
  | [] => if pattern = [] then some ([], []) else none
  | c :: text =>
    if pattern <+: c :: text then some ([], c :: text)
    else (breakOn pattern text).map fun found => (c :: found.1, found.2)

section BreakOn

variable {pattern text line rest before after : List Char} {c : Char}

theorem breakOn_prefix (h : pattern <+: text) : breakOn pattern text = some ([], text) := by
  cases text with
  | nil => rw [breakOn, if_pos (prefix_nil.mp h)]
  | cons c text => rw [breakOn, if_pos h]

theorem breakOn_cons_of_not (h : ¬ pattern <+: c :: text) : breakOn pattern (c :: text) =
    (breakOn pattern text).map fun found => (c :: found.1, found.2) := by
  rw [breakOn, if_neg h]

theorem breakOn_eq_none : breakOn pattern text = none ↔ ¬ pattern <:+: text := by
  induction text with
  | nil =>
    rw [breakOn]
    split <;> simp_all
  | cons c text ih =>
    rw [breakOn, infix_cons_iff]
    split
    · simp_all
    · simp_all

theorem breakOn_eq_some (h : breakOn pattern text = some (before, after)) :
    text = before ++ after ∧ pattern <+: after := by
  induction text generalizing before with
  | nil =>
    rw [breakOn] at h
    split at h
    · cases h
      simp_all
    · cases h
  | cons c text ih =>
    rw [breakOn] at h
    split at h
    · cases h
      exact ⟨rfl, by assumption⟩
    · obtain ⟨⟨before', after'⟩, hfound, heq⟩ := Option.map_eq_some_iff.mp h
      cases heq
      obtain ⟨htext, hbegins⟩ := ih hfound
      exact ⟨congrArg (c :: ·) htext, hbegins⟩

theorem breakOn_skip (h : c ∉ line) : breakOn (c :: pattern) (line ++ text) =
    (breakOn (c :: pattern) text).map fun found => (line ++ found.1, found.2) := by
  induction line with
  | nil => simp
  | cons b line ih =>
    have hb : ¬ c :: pattern <+: b :: (line ++ text) := fun hbegins =>
      h ((cons_prefix_cons.mp hbegins).1 ▸ mem_cons_self)
    rw [cons_append, breakOn_cons_of_not hb, ih fun hmem => h (mem_cons_of_mem _ hmem),
      Option.map_map]
    rfl

theorem prefix_append_cons (h : c ∉ pattern) :
    pattern <+: line ++ c :: rest ↔ pattern <+: line := by
  refine ⟨fun hbegins => ?_, fun hbegins => hbegins.trans (prefix_append _ _)⟩
  rcases prefix_or_prefix_of_prefix hbegins (prefix_append line (c :: rest)) with
    hline | ⟨tail, rfl⟩
  · exact hline
  · rw [prefix_append_right_inj] at hbegins
    cases tail with
    | nil => exact (append_nil line).symm ▸ prefix_refl line
    | cons b tail =>
      have hb := (cons_prefix_cons.mp hbegins).1
      exact absurd (hb ▸ mem_append_right line mem_cons_self) h

theorem infix_append_cons (h : c ∉ pattern) :
    pattern <:+: line ++ c :: rest ↔ pattern <:+: line ∨ pattern <:+: rest := by
  constructor
  · intro hinside
    induction line with
    | nil =>
      rcases infix_cons_iff.mp hinside with hbegins | hinside
      · have hnil : pattern <+: [] := (prefix_append_cons h).mp hbegins
        exact .inl hnil.isInfix
      · exact .inr hinside
    | cons b line ih =>
      rcases infix_cons_iff.mp hinside with hbegins | hinside
      · exact .inl ((prefix_append_cons h).mp hbegins).isInfix
      · exact (ih hinside).imp (infix_cons ·) id
  · rintro (hinside | hinside)
    · exact hinside.trans (infix_append' [] line (c :: rest))
    · exact hinside.trans ⟨line ++ [c], [], by simp⟩

theorem breakOn_line (hne : pattern ≠ []) (hc : c ∉ pattern) (h : ¬ pattern <:+: line) :
    breakOn pattern (line ++ c :: text) =
      (breakOn pattern text).map fun found => (line ++ c :: found.1, found.2) := by
  induction line with
  | nil =>
    refine breakOn_cons_of_not fun hbegins => hne ?_
    exact prefix_nil.mp ((@prefix_append_cons pattern [] _ c hc).mp hbegins)
  | cons b line ih =>
    rw [infix_cons_iff, not_or] at h
    have hnot : ¬ pattern <+: b :: (line ++ c :: text) := fun hbegins =>
      h.1 ((@prefix_append_cons pattern (b :: line) _ c hc).mp hbegins)
    rw [cons_append, breakOn_cons_of_not hnot, ih h.2, Option.map_map]
    rfl

theorem breakOn_append (more : List Char) (h : breakOn pattern text = some (before, after)) :
    ∃ before' after', breakOn pattern (text ++ more) = some (before', after') ∧ before' <+: before := by
  induction text generalizing before with
  | nil =>
    have hpattern : pattern = [] := by
      by_contra hne
      rw [breakOn, if_neg hne] at h
      cases h
    exact ⟨[], more, breakOn_prefix (hpattern ▸ nil_prefix), nil_prefix⟩
  | cons c text ih =>
    by_cases hbegins : pattern <+: c :: (text ++ more)
    · exact ⟨[], _, breakOn_prefix hbegins, nil_prefix⟩
    · have hnot : ¬ pattern <+: c :: text := fun hshort =>
        hbegins (hshort.trans (prefix_append (c :: text) more))
      rw [breakOn_cons_of_not hnot] at h
      obtain ⟨found, hfound, heq⟩ := Option.map_eq_some_iff.mp h
      cases heq
      obtain ⟨before', after', hbreak, hbefore⟩ := ih hfound
      refine ⟨c :: before', after', ?_, cons_prefix_cons.mpr ⟨rfl, hbefore⟩⟩
      rw [cons_append, breakOn_cons_of_not hbegins, hbreak]
      rfl

theorem breakOn_lines {lines : List (List Char)} (hc : c ∉ pattern)
    (hlines : ∀ l ∈ lines, c ∉ l ∧ ¬ pattern <+: l) :
    breakOn (c :: pattern) (lines.flatMap (c :: ·) ++ (c :: pattern ++ rest)) =
      some (lines.flatMap (c :: ·), c :: pattern ++ rest) := by
  induction lines with
  | nil => exact breakOn_prefix (prefix_append _ _)
  | cons l lines ih =>
    obtain ⟨⟨hl, hnot⟩, hlines⟩ := forall_mem_cons.mp hlines
    obtain ⟨tail, htail⟩ : ∃ tail,
        lines.flatMap (c :: ·) ++ (c :: pattern ++ rest) = c :: tail := by
      cases lines with
      | nil | cons l' lines => exact ⟨_, rfl⟩
    have hhead : ¬ c :: pattern <+:
        c :: (l ++ (lines.flatMap (c :: ·) ++ (c :: pattern ++ rest))) := by
      rw [cons_prefix_cons, htail, prefix_append_cons hc]
      exact fun h => hnot h.2
    rw [flatMap_cons, cons_append, cons_append, append_assoc,
      breakOn_cons_of_not hhead, breakOn_skip hl, ih hlines]
    rfl

end BreakOn

/-! ## Splitting -/

theorem splitOn_piece {text : List Char} {x : Char} :
    ∀ l ∈ text.splitOn x, x ∉ l ∧ l ⊆ text := by
  induction text with
  | nil => simp
  | cons c text ih =>
    rw [splitOn_cons_eq_if_modifyHead]
    split
    · rintro l (_ | ⟨_, hl⟩)
      · exact ⟨not_mem_nil, nil_subset _⟩
      · exact ⟨(ih l hl).1, subset_cons_of_subset _ (ih l hl).2⟩
    · rename_i hc
      cases hs : text.splitOn x with
      | nil => exact absurd hs (splitOn_ne_nil x text)
      | cons first rest =>
        rw [hs] at ih
        obtain ⟨⟨hfirst, hsub⟩, hrest⟩ := forall_mem_cons.mp ih
        refine forall_mem_cons.mpr ⟨⟨fun hmem => ?_, cons_subset_cons c hsub⟩, fun l hl =>
          ⟨(hrest l hl).1, subset_cons_of_subset _ (hrest l hl).2⟩⟩
        rcases mem_cons.mp hmem with heq | hmem
        · exact hc (beq_iff_eq.mpr heq.symm)
        · exact hfirst hmem

/-! ## Trimming -/

section Trimming

variable {text : List Char} {c : Char}

theorem infix_trim (text : List Char) : trim text <:+: text := by
  exact (List.rdropWhile_prefix _ _).isInfix.trans (dropWhile_suffix _).isInfix

theorem mem_of_mem_trim (h : c ∈ trim text) : c ∈ text := (infix_trim text).subset h

/-- The characters that are no white space. -/
def ink (text : List Char) : Nat := text.countP fun c => !isWhitespace c

theorem ink_append (text more : List Char) : ink (text ++ more) = ink text + ink more :=
  countP_append

theorem ink_reverse (text : List Char) : ink text.reverse = ink text := countP_reverse

theorem ink_trimStart (text : List Char) : ink (trimStart text) = ink text := by
  induction text with
  | nil => rfl
  | cons c text ih =>
    unfold trimStart ink at ih ⊢
    cases hc : isWhitespace c with
    | true => rw [dropWhile_cons_of_pos hc, ih, countP_cons_of_neg (by simp [hc])]
    | false => rw [dropWhile_cons_of_neg (by simp [hc])]

theorem ink_trim (text : List Char) : ink (trim text) = ink text := by
  rw [trim, ink_reverse, ink_trimStart, ink_reverse, ink_trimStart]

theorem ink_mono {more : List Char} (h : text <:+: more) : ink text ≤ ink more :=
  h.sublist.countP_le

theorem ink_rdropWhile (text : List Char) : ink (text.rdropWhile isWhitespace) = ink text := by
  have htrim : text.rdropWhile isWhitespace = (trimStart text.reverse).reverse := rfl
  rw [htrim, ink_reverse, ink_trimStart, ink_reverse]

theorem trim_concat (h : isWhitespace c = true) : trim (text ++ [c]) = trim text := by
  have hskip : (trimStart (text ++ [c])).rdropWhile isWhitespace =
      (trimStart text).rdropWhile isWhitespace := by
    unfold trimStart
    rw [dropWhile_append]
    split
    · rename_i hempty
      rw [List.isEmpty_iff.mp hempty, dropWhile_cons_of_pos h]
      rfl
    · exact rdropWhile_concat_pos _ _ _ h
  rw [trim_eq, trim_eq, hskip]

theorem trim_cons (h : isWhitespace c = true) : trim (c :: text) = trim text := by
  rw [trim_eq, trimStart, dropWhile_cons_of_pos h]
  rfl

theorem trim_eq_self (hfirst : ∀ c, text.head? = some c → isWhitespace c = false)
    (hlast : ∀ c, text.getLast? = some c → isWhitespace c = false) : trim text = text := by
  have hstart : trimStart text = text := by
    cases text with
    | nil => rfl
    | cons c text => exact dropWhile_cons_of_neg (by simp [hfirst c rfl])
  rw [trim_eq, hstart, rdropWhile_eq_self_iff]
  intro hne hws
  rw [hlast _ (getLast?_eq_some_getLast hne)] at hws
  exact Bool.false_ne_true hws

theorem trimStart_of_trim (h : trim text = text) : trimStart text = text := by
  have hle : text.length ≤ (trimStart text).length := by
    have hbegins := (List.rdropWhile_prefix isWhitespace (trimStart text)).length_le
    rwa [← trim_eq, h] at hbegins
  exact (dropWhile_suffix isWhitespace).eq_of_length_le hle

theorem last_of_trim (h : trim text = text) (hc : text.getLast? = some c) :
    isWhitespace c = false := by
  rw [trim_eq, trimStart_of_trim h, rdropWhile_eq_self_iff] at h
  have hne : text ≠ [] := by
    rintro rfl
    cases hc
  rw [getLast?_eq_some_getLast hne] at hc
  exact Bool.eq_false_iff.mpr (Option.some.inj hc ▸ h hne)

end Trimming

/-! ## Names of files -/

/-- `file_stem` and `extension`. -/
def splitExtension (file : List Char) : List Char × Option (List Char) :=
  let ext := (file.reverse.takeWhile (· ≠ '.')).reverse
  let stem := file.take (file.length - ext.length - 1)
  if file = "..".toList ∨ stem = [] then (file, none) else (stem, some ext)

end Aeqi.Lib
