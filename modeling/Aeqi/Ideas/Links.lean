import Aeqi.Lib.Text

/-!
# Inline links

`parse_links` of `inline_links.rs`, the links `[[X]]` and `![[X]]` of a text, and the names that
`reconcile_inline_edges_impl` reports as unresolved. The source goes over bytes and cuts at ASCII
characters only. The lower case of a text is a parameter.
-/

namespace Aeqi.Ideas

open Aeqi.Lib List

def KNOWN_KINDS : List String := ["idea", "session", "quest", "agent", "pack"]

structure TypedRef where
  targetKind : String
  targetId : String
  relation : String
  deriving DecidableEq

/-- `split_once`. -/
def splitOnce (sep : Char) : List Char → Option (List Char × List Char)
  | [] => none
  | c :: text =>
    if c = sep then some ([], text)
    else (splitOnce sep text).map fun halves => (c :: halves.1, halves.2)

def splitKindId (token : List Char) : String × String :=
  match splitOnce ':' token with
  | none => ("idea", String.ofList token)
  | some (maybeKind, rest) =>
    let kind := String.ofList (trim maybeKind)
    let id := trim rest
    if kind ∈ KNOWN_KINDS ∧ id ≠ [] then (kind, String.ofList id)
    else ("idea", String.ofList token)

/-- What stands before `]]`, if no line ends and no other bracket comes first. -/
def scanLink : List Char → Option (List Char)
  | [] => none
  | c :: text =>
    if c = '\n' ∨ c = '[' then none
    else if c = ']' then if text.head? = some ']' then some [] else none
    else (scanLink text).map (c :: ·)

section Parse

variable (lower : String → String)

def linksFrom : Nat → Option Char → List Char → List (String × String × String) → List TypedRef
  | _, _, [], _ => []
  | skip + 1, _, c :: text, seen => linksFrom skip (some c) text seen
  | 0, before, c :: text, seen =>
    if c = '[' ∧ text.head? = some '[' then
      match scanLink text.tail with
      | none => linksFrom 1 (some c) text seen
      | some raw =>
        let token := trim raw
        let relation := if before = some '!' then "embed" else "mention"
        let (kind, id) := splitKindId token
        let key := (kind, relation, lower id)
        if token = [] ∨ key ∈ seen then linksFrom (raw.length + 3) (some c) text seen
        else
          { targetKind := kind, targetId := id, relation } ::
            linksFrom (raw.length + 3) (some c) text (key :: seen)
    else linksFrom 0 (some c) text seen

def parseLinks (body : String) : List TypedRef := linksFrom lower 0 none body.toList []

/-- The loop over the references; `seen` are the lower cases of the names reported so far. -/
def unresolvedFrom (resolver : String → Option String) : List TypedRef → List String → List String
  | [], _ => []
  | r :: refs, seen =>
    if r.targetKind = "idea" ∧ resolver r.targetId = none then
      let key := lower r.targetId
      if key ∈ seen then unresolvedFrom resolver refs seen
      else r.targetId :: unresolvedFrom resolver refs (key :: seen)
    else unresolvedFrom resolver refs seen

def unresolvedRefs (resolver : String → Option String) (refs : List TypedRef) : List String :=
  unresolvedFrom lower resolver refs []

end Parse

/-! ## What is unresolved -/

section Unresolved

variable {lower : String → String} {resolver : String → Option String} {refs : List TypedRef}
  {seen : List String} {key : String}

theorem mem_unresolvedFrom : (∃ name ∈ unresolvedFrom lower resolver refs seen, lower name = key) ↔
    key ∉ seen ∧ ∃ r ∈ refs, r.targetKind = "idea" ∧ resolver r.targetId = none ∧
      lower r.targetId = key := by
  induction refs generalizing seen with
  | nil => simp [unresolvedFrom]
  | cons r refs ih =>
    unfold unresolvedFrom
    dsimp only
    split
    next hopen =>
      split
      next hseen =>
        rw [ih]
        refine and_congr_right fun hkey => ?_
        constructor
        · rintro ⟨r', hr', h⟩
          exact ⟨r', mem_cons_of_mem _ hr', h⟩
        · rintro ⟨r', hr', hidea, hnone, rfl⟩
          rcases mem_cons.1 hr' with rfl | hr'
          · exact absurd hseen hkey
          · exact ⟨r', hr', hidea, hnone, rfl⟩
      next hseen =>
        constructor
        · rintro ⟨name, hname, rfl⟩
          rcases mem_cons.1 hname with rfl | hname
          · exact ⟨hseen, r, mem_cons_self, hopen.1, hopen.2, rfl⟩
          · obtain ⟨hkey, r', hr', h⟩ := ih.1 ⟨name, hname, rfl⟩
            exact ⟨fun hold => hkey (mem_cons_of_mem _ hold), r', mem_cons_of_mem _ hr', h⟩
        · rintro ⟨hkey, r', hr', hidea, hnone, rfl⟩
          by_cases hsame : lower r'.targetId = lower r.targetId
          · exact ⟨r.targetId, mem_cons_self, hsame.symm⟩
          · rcases mem_cons.1 hr' with rfl | hr'
            · exact absurd rfl hsame
            · have hnew : lower r'.targetId ∉ lower r.targetId :: seen :=
                fun hmem => (mem_cons.1 hmem).elim hsame hkey
              obtain ⟨name, hname, heq⟩ := ih.2 ⟨hnew, r', hr', hidea, hnone, rfl⟩
              exact ⟨name, mem_cons_of_mem _ hname, heq⟩
    next hclosed =>
      rw [ih]
      refine and_congr_right fun _ => ?_
      constructor
      · rintro ⟨r', hr', h⟩
        exact ⟨r', mem_cons_of_mem _ hr', h⟩
      · rintro ⟨r', hr', hidea, hnone, rfl⟩
        rcases mem_cons.1 hr' with rfl | hr'
        · exact absurd ⟨hidea, hnone⟩ hclosed
        · exact ⟨r', hr', hidea, hnone, rfl⟩

theorem mem_unresolvedRefs : (∃ name ∈ unresolvedRefs lower resolver refs, lower name = key) ↔
    ∃ r ∈ refs, r.targetKind = "idea" ∧ resolver r.targetId = none ∧ lower r.targetId = key :=
  mem_unresolvedFrom.trans (and_iff_right not_mem_nil)

theorem unresolvedRefs_eq_nil : unresolvedRefs lower resolver refs = [] ↔
    ∀ r ∈ refs, r.targetKind = "idea" → resolver r.targetId ≠ none := by
  constructor
  · intro h r hr hidea hnone
    obtain ⟨name, hname, -⟩ := mem_unresolvedRefs.2 ⟨r, hr, hidea, hnone, rfl⟩
    rw [h] at hname
    exact not_mem_nil hname
  · intro h
    rw [eq_nil_iff_forall_not_mem]
    intro name hname
    obtain ⟨r, hr, hidea, hnone, -⟩ := mem_unresolvedRefs.1 ⟨name, hname, rfl⟩
    exact h r hr hidea hnone

end Unresolved

end Aeqi.Ideas
