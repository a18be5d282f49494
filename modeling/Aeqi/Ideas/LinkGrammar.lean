import Aeqi.Ideas.Links
import Aeqi.Lib.Firsts

/-!
# The links of a body

All the links `[[T]]` that stand in a body, and which of them `parse_links` finds. Where a `[[`
begins no link both its brackets are passed over, so that a link is found only if an even number
of brackets stands directly before it.
-/

namespace Aeqi.Ideas

open Aeqi.Lib List

def inToken (c : Char) : Bool := c ≠ '[' && c ≠ ']' && c ≠ '\n'

/-- The token `T` of a link `[[T]]` at the start of a text. -/
def linkToken : List Char → Option (List Char)
  | '[' :: '[' :: text =>
    if [']', ']'] <+: text.dropWhile inToken then some (text.takeWhile inToken) else none
  | _ => none

def tokenRef (before : Option Char) (raw : List Char) : Option TypedRef :=
  if trim raw = [] then none
  else
    some
      { targetKind := (splitKindId (trim raw)).1
        targetId := (splitKindId (trim raw)).2
        relation := if before = some '!' then "embed" else "mention" }

/-- The links of a text, each with whether the number of brackets directly before it is even. -/
def linksIn : Nat → Option Char → List Char → List (TypedRef × Bool)
  | _, _, [] => []
  | brackets, before, c :: text =>
    (((linkToken (c :: text)).bind (tokenRef before)).map (·, decide (brackets % 2 = 0))).toList ++
      linksIn (if c = '[' then brackets + 1 else 0) (some c) text

def linksOf (body : String) : List (TypedRef × Bool) := linksIn 0 none body.toList

def linkKey (lower : String → String) (r : TypedRef) : String × String × String :=
  (r.targetKind, r.relation, lower r.targetId)

/-- The references that are parsed are those of all links, the first one of each key. -/
def ParsedExactly (lower : String → String) (body : String) : Prop :=
  parseLinks lower body = firstsFrom (linkKey lower) [] ((linksOf body).map (·.1))

theorem linkToken_eq_some {text T : List Char} : linkToken text = some T ↔
    (∀ c ∈ T, inToken c) ∧ '[' :: '[' :: T ++ [']', ']'] <+: text := by
  constructor
  · intro h
    unfold linkToken at h
    split at h
    · split at h
      · next text hclosed =>
        obtain ⟨rest, hrest⟩ := hclosed
        cases h
        refine ⟨fun c hc => mem_takeWhile_imp hc, rest, ?_⟩
        simp [hrest]
      · cases h
    · cases h
  · rintro ⟨hT, rest, rfl⟩
    have hstop : inToken ']' = false := by decide
    have hspan : (T ++ ']' :: ']' :: rest).takeWhile inToken = T ∧
        (T ++ ']' :: ']' :: rest).dropWhile inToken = ']' :: ']' :: rest := by
      rw [takeWhile_append_of_pos hT, dropWhile_append_of_pos hT]
      simp [hstop]
    have htext : '[' :: '[' :: T ++ [']', ']'] ++ rest =
        '[' :: '[' :: (T ++ ']' :: ']' :: rest) := by simp
    rw [htext, linkToken, hspan.1, hspan.2, if_pos ⟨rest, rfl⟩]

theorem scanLink_eq {text : List Char} : scanLink text = linkToken ('[' :: '[' :: text) := by
  induction text with
  | nil => rfl
  | cons c text ih =>
    rw [scanLink]
    by_cases hc : inToken c
    · rw [ih]
      have hplain : c ≠ '[' ∧ c ≠ ']' ∧ c ≠ '\n' := by simpa [inToken, and_assoc] using hc
      simp only [linkToken, hplain, hc, List.dropWhile_cons_of_pos, List.takeWhile_cons_of_pos,
        or_self, if_false]
      split <;> rfl
    · have hstop : c = '\n' ∨ c = '[' ∨ c = ']' := by
        simp only [inToken] at hc
        grind
      have hopen : linkToken ('[' :: '[' :: c :: text) =
          if [']', ']'] <+: c :: text then some [] else none := by
        rw [linkToken, dropWhile_cons_of_neg hc, takeWhile_cons_of_neg hc]
      rw [hopen]
      rcases hstop with rfl | rfl | rfl
      · simp
      · simp
      · cases text with
        | nil => simp
        | cons d text => simp [eq_comm]

/-! ## The loop -/

section Loop

variable {lower : String → String} {before : Option Char} {c : Char}
  {pre text : List Char} {seen : List (String × String × String)}

theorem linksFrom_skip : linksFrom lower (pre.length + 1) before (pre ++ c :: text) seen =
    linksFrom lower 0 (some c) text seen := by
  induction pre generalizing before with
  | nil => rfl
  | cons a pre ih => exact ih

theorem linksIn_skip {brackets : Nat} (h : ∀ a ∈ pre ++ [c], a ≠ '[') :
    linksIn brackets before (pre ++ c :: text) = linksIn 0 (some c) text := by
  have hnone {a : Char} {s : List Char} (ha : a ≠ '[') : linkToken (a :: s) = none := by
    unfold linkToken
    split
    · next heq => exact absurd (List.cons.inj heq).1 ha
    · rfl
  induction pre generalizing brackets before with
  | nil =>
    have hc := h c mem_cons_self
    simp [linksIn, hnone hc, if_neg hc]
  | cons a pre ih =>
    have ha := h a mem_cons_self
    simp only [cons_append, linksIn, hnone ha]
    exact ih fun b hb => h b (mem_cons_of_mem _ hb)

theorem linkToken_eq_none (h : c ≠ '[' ∨ text.head? ≠ some '[') : linkToken (c :: text) = none := by
  cases htoken : linkToken (c :: text) with
  | none => rfl
  | some T =>
    obtain ⟨-, rest, hrest⟩ := linkToken_eq_some.1 htoken
    cases hrest
    simp at h

theorem rest_of_link (brackets : Nat) {raw : List Char}
    (h : linkToken ('[' :: '[' :: text) = some raw) :
    ∃ rest, text = raw ++ ']' :: ']' :: rest ∧
      linksIn (brackets + 1) (some '[') ('[' :: text) = linksIn 0 (some ']') rest := by
  obtain ⟨hraw, rest, hrest⟩ := linkToken_eq_some.1 h
  obtain rfl : raw ++ ']' :: ']' :: rest = text := by simpa using hrest
  have hno : ∀ a ∈ raw ++ [']'] ++ [']'], a ≠ '[' := by
    intro a ha
    simp only [mem_append, mem_singleton] at ha
    rcases ha with (ha | rfl) | rfl
    · rintro rfl
      exact nomatch (hraw _ ha)
    · decide
    · decide
  have hhead : (raw ++ ']' :: ']' :: rest).head? ≠ some '[' := by
    cases raw with
    | nil => simp
    | cons a raw => exact fun ha => hno a mem_cons_self (Option.some.inj ha)
  refine ⟨rest, rfl, ?_⟩
  rw [linksIn, linkToken_eq_none (.inr hhead)]
  have := @linksIn_skip (some '[') ']' (raw ++ [']']) rest (brackets + 2) hno
  simpa using this

theorem linksFrom_eq (skip brackets : Nat) (hsync : skip = 0 ∧ (brackets % 2 = 0 ∨
      text.head? ≠ some '[') ∨ skip = 1 ∧ brackets % 2 = 1) :
    linksFrom lower skip before text seen =
      firstsFrom (linkKey lower) seen (shown (linksIn brackets before text)) := by
  induction hlength : text.length using Nat.strong_induction_on generalizing text skip brackets
    before seen with
  | _ n ih =>
    cases text with
    | nil => cases skip <;> rfl
    | cons c text =>
      have htext : text.length < n := by
        rw [← hlength]
        exact Nat.lt_succ_self _
      rcases hsync with ⟨rfl, hsync⟩ | ⟨rfl, hodd⟩
      · by_cases hopen : c = '[' ∧ text.head? = some '['
        · have heven : brackets % 2 = 0 := hsync.elim id fun h => absurd (congrArg some hopen.1) h
          obtain ⟨rfl, hhead⟩ := hopen
          obtain ⟨text, rfl⟩ := head?_eq_some_iff.1 hhead
          rw [linksFrom, if_pos ⟨rfl, rfl⟩, tail_cons, scanLink_eq, linksIn]
          cases htoken : linkToken ('[' :: '[' :: text) with
          | none => exact ih _ htext 1 _ (.inr ⟨rfl, by rw [if_pos rfl]; omega⟩) rfl
          | some raw =>
            obtain ⟨rest, rfl, hclosed⟩ := rest_of_link brackets htoken
            have hrest : rest.length < n := by
              simp only [length_cons, length_append] at htext
              omega
            have hskip (seen : List (String × String × String)) :
                linksFrom lower (raw.length + 3) (some '[')
                    ('[' :: (raw ++ ']' :: ']' :: rest)) seen =
                  firstsFrom (linkKey lower) seen (shown (linksIn 0 (some ']') rest)) := by
              rw [← ih _ hrest 0 0 (.inl ⟨rfl, .inl rfl⟩) rfl]
              have := @linksFrom_skip lower (some '[') ']' ('[' :: raw ++ [']']) rest seen
              simpa using this
            dsimp only
            rw [if_pos rfl, hclosed, hskip, hskip, Option.bind_some, tokenRef]
            by_cases hblank : trim raw = []
            · rw [if_pos (.inl hblank), if_pos hblank]
              rfl
            · rw [if_neg hblank, heven]
              simp only [hblank, false_or, decide_true, Option.map_some, Option.toList_some,
                singleton_append, shown_cons_true, firstsFrom, linkKey]
              split_ifs <;> rfl
        · rw [linksFrom, if_neg hopen, linksIn, linkToken_eq_none (not_and_or.1 hopen)]
          refine ih _ htext 0 _ (.inl ⟨rfl, ?_⟩) rfl
          split
          · next hc => exact .inr (not_and.1 hopen hc)
          · exact .inl rfl
      · have heven : (if c = '[' then brackets + 1 else 0) % 2 = 0 := by
          split <;> omega
        have hhidden : shown (linksIn brackets before (c :: text)) =
            shown (linksIn (if c = '[' then brackets + 1 else 0) (some c) text) := by
          rw [linksIn, hodd]
          cases (linkToken (c :: text)).bind (tokenRef before) <;> rfl
        rw [hhidden]
        exact ih _ htext 0 _ (.inl ⟨rfl, .inl heven⟩) rfl

end Loop

/-- A body is parsed exactly if every link that is the first of its key, but stands behind an odd
number of brackets, is the next one of a new key that stands behind an even number. -/
theorem parsedExactly_iff (lower : String → String) (body : String) :
    ParsedExactly lower body ↔ Regained (linkKey lower) [] (linksOf body) := by
  rw [← firsts_eq_firsts_shown, ParsedExactly, parseLinks, linksFrom_eq 0 0 (.inl ⟨rfl, .inl rfl⟩)]
  exact eq_comm

/-- `[[[X]]` has a link that is not found. -/
theorem not_parsedExactly : ¬ ∀ lower body, ParsedExactly lower body := by
  intro h
  exact absurd (h id "[[[X]]") (by unfold ParsedExactly; decide +kernel)

end Aeqi.Ideas
