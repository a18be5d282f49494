import Aeqi.Lib.Accounts
import Aeqi.Lib.Scanning
import Aeqi.Lib.Text

/-!
# Placeholders (`idea_assembly.rs`)

Two scanners replace `{key}` in a text, one of them in all strings of a JSON value. Each takes what
stands between an opening brace and the next closing one as a key, and passes over the whole of it
whether or not the key is known. So a text with braces of its own, like a JSON snippet, hides the
placeholders in it.

What is inserted is not scanned again. How `serde_json` writes a value is a parameter.
-/

namespace Aeqi.Orchestrator.Placeholders

open Aeqi.Lib List
open String (ofList)

/-! ## Scanning -/

section

variable (lookup : String → Option String)

def written (key : List Char) : List Char :=
  match lookup (ofList key) with
  | some value => value.toList
  | none => '\x7b' :: (key ++ ['\x7d'])

/-- The key is what stands before the next closing brace. -/
def scanRule : Rule Char := fun c rest =>
  if c = '\x7b' ∧ '\x7d' ∈ rest then
    let key := rest.takeWhile (· ≠ '\x7d')
    some (written lookup key, key.length + 1)
  else none

def scan (text : String) : String := ofList (rewrite (scanRule lookup) text.toList)

end

/-! ## Results of tool calls -/

/-- The fields that a reference reads. -/
structure ToolResult where
  output : String
  data : Json := .null

/-- `i64`'s `from_str`. -/
def parseI64 (text : List Char) : Option Int :=
  let digits := match text with
    | '+' :: rest => rest
    | '-' :: rest => rest
    | text => text
  let n : Int := Nat.ofDigitChars 10 digits 0
  let n := if text.head? = some '-' then -n else n
  if digits ≠ [] ∧ digits.all Char.isDigit ∧ -9223372036854775808 ≤ n ∧ n ≤ 9223372036854775807 then
    some n
  else none

/-- `parse_index` of `serde_json`: no sign and no leading zero. -/
def parseIndex (token : List Char) : Option Nat :=
  let n := Nat.ofDigitChars 10 token 0
  if token ≠ [] ∧ token.all Char.isDigit ∧ (token.head? = some '0' → token = ['0']) ∧
      n ≤ 18446744073709551615 then
    some n
  else none

/-- `~1` and then `~0` are written for what they stand for. -/
def unescape (token : List Char) : List Char :=
  let rule (digit char : Char) : Rule Char := fun c rest =>
    if c = '~' ∧ rest.head? = some digit then some ([char], 1) else none
  rewrite (rule '0' '~') (rewrite (rule '1' '/') token)

def step (value : Json) (token : List Char) : Option Json :=
  match value with
  | .obj fields => Json.Fields.get fields (ofList token)
  | .arr xs => (parseIndex token).bind (xs[·]?)
  | _ => none

/-- `Value::pointer`. -/
def pointer (value : Json) (path : List Char) : Option Json :=
  match path with
  | [] => some value
  | '/' :: rest => ((rest.splitOn '/').map unescape).foldlM step value
  | _ => none

/-- `strip_prefix`. -/
def stripPrefix (start : String) (text : List Char) : Option (List Char) :=
  if start.toList.isPrefixOf text then some (text.drop start.toList.length) else none

/-- `split_once('.')`. -/
def splitOnce (text : List Char) : Option (List Char × List Char) :=
  if '.' ∈ text then
    some (text.takeWhile (· ≠ '.'), (text.dropWhile (· ≠ '.')).drop 1)
  else none

/-- The index from the front, or from the back if it is negative. -/
def resultAt (results : List ToolResult) (idx : Int) : Option ToolResult :=
  let n := if idx < 0 then results.length + idx else idx
  if n < 0 then none else results[n.toNat]?

section

variable (toText : Json → String)

def shown : Json → String
  | .str s => s
  | .null => ""
  | other => toText other

def resolveToolCallsRef (reference : String) (results : List ToolResult) : Option String := do
  let rest ← stripPrefix "tool_calls." reference.toList
  let (indexStr, tail) ← splitOnce rest
  let idx ← parseI64 indexStr
  let result ← resultAt results idx
  if tail = "output".toList then pure result.output
  else
    let dataPath ← stripPrefix "data." tail
    let value ← pointer result.data (['/'].intercalate ([] :: dataPath.splitOn '.'))
    pure (shown toText value)

/-! ## Substitution -/

def resolve (context : Accounts String String) (results : List ToolResult) (key : String) :
    Option String :=
  (context.lookup key).or (resolveToolCallsRef toText key results)

def substituteStrWithResults (s : String) (context : Accounts String String)
    (results : List ToolResult) : String :=
  scan (resolve toText context results) s

def mapStrings (f : String → String) : Json → Json
  | .str s => .str (f s)
  | .arr xs => .arr (mapItems f xs)
  | .obj fields => .obj (mapFields f fields)
  | other => other
where
  mapItems (f : String → String) : List Json → List Json
    | [] => []
    | x :: xs => mapStrings f x :: mapItems f xs
  mapFields (f : String → String) : List (String × Json) → List (String × Json)
    | [] => []
    | (k, v) :: fields => (k, mapStrings f v) :: mapFields f fields

def substituteArgsWithResults (args : Json) (context : Accounts String String)
    (results : List ToolResult) : Json :=
  mapStrings (fun s => substituteStrWithResults toText s context results) args

def substituteArgs (args : Json) (context : Accounts String String) : Json :=
  substituteArgsWithResults toText args context []

end

structure AssemblyContext where
  userPrompt : Option String := none
  toolOutput : Option String := none
  questDescription : Option String := none

/-- The providers first, then the three placeholders that are always known. -/
def provided (ctx : AssemblyContext) (providers : Option (Accounts String String)) (key : String) :
    Option String :=
  (providers.bind (·.lookup key)).or
    (match key with
      | "user_prompt" => some (ctx.userPrompt.getD "")
      | "tool_output" => some (ctx.toolOutput.getD "")
      | "quest_description" => some (ctx.questDescription.getD "")
      | _ => none)

def expandTemplateWithProviders (template : String) (ctx : AssemblyContext)
    (providers : Option (Accounts String String)) : String :=
  scan (provided ctx providers) template

def expandTemplate (template : String) (ctx : AssemblyContext) : String :=
  expandTemplateWithProviders template ctx none

/-! ## Exact substitution -/

section

variable (lookup : String → Option String)

/-- A placeholder is a key without braces between two braces, and has a value. -/
def exactRule : Rule Char := fun c rest =>
  let name := rest.takeWhile fun c => c ≠ '\x7b' ∧ c ≠ '\x7d'
  if c = '\x7b' ∧ (rest.drop name.length).head? = some '\x7d' then
    (lookup (ofList name)).map fun value => (value.toList, name.length + 1)
  else none

/-- Every placeholder is replaced, and nothing else. -/
def exact (text : String) : String := ofList (rewrite (exactRule lookup) text.toList)

end

section

variable {lookup : String → Option String} {name outer v w rest : List Char} {c : Char}
  {value : String}

theorem exactRule_of_ne (h : c ≠ '\x7b') : exactRule lookup c rest = none := by
  exact if_neg fun hc => h hc.1

theorem takeWhile_name (h : ∀ c ∈ v, c ≠ '\x7b' ∧ c ≠ '\x7d')
    (hc : c = '\x7b' ∨ c = '\x7d') :
    (v ++ c :: w).takeWhile (fun c => decide (c ≠ '\x7b' ∧ c ≠ '\x7d')) = v := by
  rw [takeWhile_append_of_pos fun c hc => decide_eq_true (h c hc), takeWhile_cons]
  have hstop : decide (c ≠ '\x7b' ∧ c ≠ '\x7d') = false := by
    refine decide_eq_false fun h => ?_
    exact hc.elim h.1 h.2
  rw [hstop]
  simp

theorem exists_first_open (h : '\x7d' ∉ v) :
    ∃ start more, v ++ '\x7b' :: w = start ++ '\x7b' :: more ∧ ∀ c ∈ start, c ≠ '\x7b' ∧ c ≠ '\x7d' := by
  induction v with
  | nil => exact ⟨[], w, rfl, by simp⟩
  | cons a v ih =>
    by_cases ha : a = '\x7b'
    · exact ⟨[], v ++ '\x7b' :: w, by rw [ha]; rfl, by simp⟩
    · obtain ⟨start, more, heq, hstart⟩ := ih fun hmem => h (mem_cons_of_mem _ hmem)
      refine ⟨a :: start, more, by rw [cons_append, heq, cons_append], ?_⟩
      rw [forall_mem_cons]
      exact ⟨⟨ha, fun heq => h (heq ▸ mem_cons_self)⟩, hstart⟩

theorem exactRule_open (h : '\x7d' ∉ v) : exactRule lookup c (v ++ '\x7b' :: w) = none := by
  obtain ⟨start, more, hv, hstart⟩ := @exists_first_open v w h
  unfold exactRule
  rw [hv, takeWhile_name hstart (.inl rfl)]
  refine if_neg fun hc => ?_
  exact absurd hc.2 (by simp)

theorem exactRule_name (h : ∀ c ∈ name, c ≠ '\x7b' ∧ c ≠ '\x7d') :
    exactRule lookup '\x7b' (name ++ '\x7d' :: w) =
      (lookup (ofList name)).map fun value => (value.toList, name.length + 1) := by
  unfold exactRule
  rw [takeWhile_name h (.inr rfl)]
  refine if_pos ⟨rfl, ?_⟩
  rw [drop_left]
  rfl

theorem exact_some (houter : '\x7d' ∉ outer) (hname : ∀ c ∈ name, c ≠ '\x7b' ∧ c ≠ '\x7d')
    (hvalue : lookup (ofList name) = some value) :
    rewrite (exactRule lookup) (outer ++ '\x7b' :: (name ++ '\x7d' :: w)) =
      outer ++ (value.toList ++ rewrite (exactRule lookup) w) := by
  rw [rewrite_append_of_none]
  · have hrule : exactRule lookup '\x7b' ((name ++ ['\x7d']) ++ w) =
        some (value.toList, (name ++ ['\x7d']).length) := by
      rw [List.append_assoc, singleton_append, exactRule_name hname, hvalue, List.length_append]
      rfl
    have htoken := rewrite_of_some hrule
    rw [List.append_assoc, singleton_append] at htoken
    rw [htoken]
  · intro t a v hv
    exact exactRule_open fun hmem => houter (hv ▸ mem_append_right t (mem_cons_of_mem a hmem))

theorem exact_none (houter : '\x7d' ∉ outer) (hname : ∀ c ∈ name, c ≠ '\x7b' ∧ c ≠ '\x7d')
    (hvalue : lookup (ofList name) = none) :
    rewrite (exactRule lookup) (outer ++ '\x7b' :: (name ++ '\x7d' :: w)) =
      outer ++ '\x7b' :: (name ++ '\x7d' :: rewrite (exactRule lookup) w) := by
  rw [rewrite_append_of_none, rewrite_of_none (by rw [exactRule_name hname, hvalue]; rfl)]
  · congr 2
    have hcopied : rewrite (exactRule lookup) ((name ++ ['\x7d']) ++ w) =
        (name ++ ['\x7d']) ++ rewrite (exactRule lookup) w := by
      refine rewrite_append_of_none fun t a v hv => exactRule_of_ne ?_
      have hmem : a ∈ name ++ ['\x7d'] := hv ▸ mem_append_right t mem_cons_self
      rcases mem_append.1 hmem with hmem | hmem
      · exact (hname a hmem).1
      · rw [mem_singleton.1 hmem]
        decide
    rwa [List.append_assoc, List.append_assoc] at hcopied
  · intro t a v hv
    exact exactRule_open fun hmem => houter (hv ▸ mem_append_right t (mem_cons_of_mem a hmem))

end

/-! ### The law of exact substitution -/

section

end

/-! ## What the scanners read -/

def keysFrom : Nat → List Char → List (List Char)
  | _, [] => []
  | skip + 1, _ :: rest => keysFrom skip rest
  | 0, c :: rest =>
    if c = '\x7b' ∧ '\x7d' ∈ rest then
      let key := rest.takeWhile (· ≠ '\x7d')
      key :: keysFrom (key.length + 1) rest
    else keysFrom 0 rest

def keys (text : String) : List (List Char) := keysFrom 0 text.toList

/-- What stands behind the last opening brace of a key. -/
def innerName (key : List Char) : List Char := key.rtakeWhile (· ≠ '\x7b')

def Untangled (lookup : String → Option String) (keys : List (List Char)) : Prop :=
  ∀ key ∈ keys, '\x7b' ∈ key →
    lookup (ofList key) = none ∧ lookup (ofList (innerName key)) = none

section

variable {lookup : String → Option String} {key rest tail text : List Char} {c : Char}
  {value : String}

theorem keysFrom_eq {skip : Nat} : keysFrom skip text = keysFrom 0 (text.drop skip) := by
  induction skip generalizing text with
  | zero => rfl
  | succ skip ih =>
    cases text with
    | nil => rfl
    | cons c text => exact ih

theorem takeWhile_key (h : '\x7d' ∉ key) :
    (key ++ '\x7d' :: tail).takeWhile (fun c => decide (c ≠ '\x7d')) = key := by
  have hkey : ∀ c ∈ key, decide (c ≠ '\x7d') = true := by
    intro c hc
    exact decide_eq_true fun heq => h (heq ▸ hc)
  rw [takeWhile_append_of_pos hkey]
  simp

theorem scan_token (h : '\x7d' ∉ key) :
    rewrite (scanRule lookup) ('\x7b' :: (key ++ '\x7d' :: tail)) =
      written lookup key ++ rewrite (scanRule lookup) tail := by
  have hrule : scanRule lookup '\x7b' ((key ++ ['\x7d']) ++ tail) =
      some (written lookup key, (key ++ ['\x7d']).length) := by
    unfold scanRule
    rw [List.append_assoc, singleton_append, takeWhile_key h, if_pos ⟨rfl, by simp⟩,
      List.length_append, List.length_singleton]
  have htoken := rewrite_of_some hrule
  rwa [List.append_assoc] at htoken

theorem keysFrom_token (h : '\x7d' ∉ key) :
    keysFrom 0 ('\x7b' :: (key ++ '\x7d' :: tail)) = key :: keysFrom 0 tail := by
  have htail : keysFrom (key.length + 1) (key ++ '\x7d' :: tail) = keysFrom 0 tail := by
    rw [keysFrom_eq]
    simp
  rw [keysFrom, if_pos ⟨rfl, by simp⟩]
  simp only [takeWhile_key h, htail]

theorem scan_copy (h : ¬ (c = '\x7b' ∧ '\x7d' ∈ rest)) :
    rewrite (scanRule lookup) (c :: rest) = c :: rewrite (scanRule lookup) rest :=
  rewrite_of_none (if_neg h)

theorem keysFrom_copy (h : ¬ (c = '\x7b' ∧ '\x7d' ∈ rest)) :
    keysFrom 0 (c :: rest) = keysFrom 0 rest := by
  rw [keysFrom, if_neg h]

theorem exact_copy (h : ¬ (c = '\x7b' ∧ '\x7d' ∈ rest)) :
    rewrite (exactRule lookup) (c :: rest) = c :: rewrite (exactRule lookup) rest := by
  refine rewrite_of_none (if_neg fun hc => h ⟨hc.1, ?_⟩)
  exact mem_of_mem_drop (mem_of_head? hc.2)

theorem scan_induction {P : List Char → Prop} (nil : P [])
    (copy : ∀ c rest, ¬ (c = '\x7b' ∧ '\x7d' ∈ rest) → P rest → P (c :: rest))
    (token : ∀ key tail, '\x7d' ∉ key → P tail → P ('\x7b' :: (key ++ '\x7d' :: tail)))
    (text : List Char) : P text := by
  induction hlen : text.length using Nat.strong_induction_on generalizing text with
  | _ n ih =>
    subst hlen
    cases text with
    | nil => exact nil
    | cons c rest =>
      by_cases hc : c = '\x7b' ∧ '\x7d' ∈ rest
      · obtain ⟨rfl, hclose⟩ := hc
        obtain ⟨key, tail, rfl, hkey⟩ := eq_append_cons_of_mem hclose
        exact token key tail hkey (ih tail.length (by simp; omega) tail rfl)
      · exact copy c rest hc (ih rest.length (by simp) rest rfl)

theorem exists_last_open : ∃ outer, '\x7b' :: key = outer ++ '\x7b' :: innerName key ∧
    ('\x7b' ∈ key → outer ≠ []) ∧ ∀ c ∈ innerName key, c ≠ '\x7b' := by
  have hinner : ∀ c ∈ innerName key, c ≠ '\x7b' := by
    intro c hc
    simpa using mem_rtakeWhile_imp hc
  have hsplit : key.rdropWhile (fun c => decide (c ≠ '\x7b')) ++ innerName key = key :=
    rdropWhile_append_rtakeWhile
  by_cases hnil : key.rdropWhile (fun c => decide (c ≠ '\x7b')) = []
  · rw [hnil, nil_append] at hsplit
    have hfree : '\x7b' ∉ key := by
      intro hmem
      rw [← hsplit] at hmem
      exact hinner _ hmem rfl
    exact ⟨[], by rw [hsplit]; rfl, fun hmem => absurd hmem hfree, hinner⟩
  · have hlast := rdropWhile_last_not _ _ hnil
    have hconcat := dropLast_append_getLast hnil
    rw [decide_eq_true_eq, not_not] at hlast
    rw [hlast] at hconcat
    refine ⟨'\x7b' :: (key.rdropWhile fun c => decide (c ≠ '\x7b')).dropLast, ?_, by simp, hinner⟩
    calc '\x7b' :: key
        = '\x7b' :: (key.rdropWhile (fun c => decide (c ≠ '\x7b')) ++ innerName key) := by
          rw [hsplit]
      _ = _ := by rw [← hconcat]; simp

theorem exact_token (h : '\x7d' ∉ key) : ∃ outer,
    '\x7b' :: key = outer ++ '\x7b' :: innerName key ∧ ('\x7b' ∈ key → outer ≠ []) ∧
      rewrite (exactRule lookup) ('\x7b' :: (key ++ '\x7d' :: tail)) =
        (match lookup (ofList (innerName key)) with
          | some value => outer ++ value.toList
          | none => '\x7b' :: (key ++ ['\x7d'])) ++ rewrite (exactRule lookup) tail := by
  obtain ⟨outer, heq, hnested, hinner⟩ := @exists_last_open key
  have hclosed : '\x7d' ∉ '\x7b' :: key := by
    rw [mem_cons, not_or]
    exact ⟨by decide, h⟩
  have houter : '\x7d' ∉ outer := fun hmem => hclosed (heq ▸ mem_append_left _ hmem)
  have hname : ∀ c ∈ innerName key, c ≠ '\x7b' ∧ c ≠ '\x7d' := by
    intro c hc
    refine ⟨hinner c hc, fun hclose => hclosed ?_⟩
    rw [heq, ← hclose]
    exact mem_append_right _ (mem_cons_of_mem _ hc)
  have hassoc : ∀ w : List Char, '\x7b' :: (key ++ '\x7d' :: w) =
      outer ++ '\x7b' :: (innerName key ++ '\x7d' :: w) := by
    intro w
    rw [← cons_append, heq, List.append_assoc, cons_append]
  refine ⟨outer, heq, hnested, ?_⟩
  rw [hassoc]
  cases hvalue : lookup (ofList (innerName key)) with
  | some value =>
    rw [exact_some houter hname hvalue]
    simp
  | none =>
    rw [exact_none houter hname hvalue]
    simp [hassoc]

theorem innerName_of_free (h : '\x7b' ∉ key) : innerName key = key :=
  rtakeWhile_eq_self_iff.2 fun _ hc => decide_eq_true fun heq => h (heq ▸ hc)

theorem exact_plain (hclose : '\x7d' ∉ key) (hopen : '\x7b' ∉ key) :
    rewrite (exactRule lookup) ('\x7b' :: (key ++ '\x7d' :: tail)) =
      written lookup key ++ rewrite (exactRule lookup) tail := by
  obtain ⟨outer, heq, -, htoken⟩ := @exact_token lookup key tail hclose
  rw [htoken]
  rw [innerName_of_free hopen] at heq ⊢
  have houter : outer = [] := by
    have hlen := congrArg List.length heq
    simp only [List.length_append] at hlen
    exact eq_nil_of_length_eq_zero (by omega)
  rw [houter]
  unfold written
  cases lookup (ofList key) <;> rfl

theorem exact_of_untangled (h : Untangled lookup (keysFrom 0 text)) :
    rewrite (scanRule lookup) text = rewrite (exactRule lookup) text := by
  induction text using scan_induction with
  | nil => rfl
  | copy c rest hc ih =>
    rw [keysFrom_copy hc] at h
    rw [scan_copy hc, exact_copy hc, ih h]
  | token key tail hkey ih =>
    rw [keysFrom_token hkey] at h
    have htail : Untangled lookup (keysFrom 0 tail) := fun k hk => h k (mem_cons_of_mem _ hk)
    rw [scan_token hkey, ih htail]
    by_cases hopen : '\x7b' ∈ key
    · obtain ⟨hwhole, hinner⟩ := h key mem_cons_self hopen
      obtain ⟨outer, -, -, htoken⟩ := @exact_token lookup key tail hkey
      rw [htoken, hinner]
      unfold written
      rw [hwhole]
    · rw [exact_plain hkey hopen]

theorem untangled_of_exact
    (hvalues : ∀ key ∈ keysFrom 0 text, ∀ name, name = key ∨ name = innerName key →
      lookup (ofList name) = none ∨ lookup (ofList name) = some "x")
    (h : rewrite (scanRule lookup) text = rewrite (exactRule lookup) text) :
    Untangled lookup (keysFrom 0 text) := by
  induction text using scan_induction with
  | nil => exact nofun
  | copy c rest hc ih =>
    rw [keysFrom_copy hc] at hvalues ⊢
    rw [scan_copy hc, exact_copy hc] at h
    exact ih hvalues (tail_eq_of_cons_eq h)
  | token key tail hkey ih =>
    rw [keysFrom_token hkey] at hvalues ⊢
    have htail := ih fun k hk => hvalues k (mem_cons_of_mem _ hk)
    have hfirst := hvalues key mem_cons_self
    rw [scan_token hkey] at h
    by_cases hopen : '\x7b' ∈ key
    · obtain ⟨outer, heq, hnested, htoken⟩ := @exact_token lookup key tail hkey
      rw [htoken] at h
      obtain ⟨a, more, houter⟩ := exists_cons_of_ne_nil (hnested hopen)
      have ha : a = '\x7b' := by
        rw [houter] at heq
        exact (head_eq_of_cons_eq heq).symm
      -- the scanner starts with the value or with the token, the other with what is before it
      rcases hfirst key (.inl rfl) with hwhole | hwhole
      · rcases hfirst (innerName key) (.inr rfl) with hinner | hinner
        · unfold written at h
          rw [hwhole, hinner] at h
          have hkeys := htail (append_cancel_left h)
          intro k hk hkopen
          rcases mem_cons.1 hk with rfl | hk
          · exact ⟨hwhole, hinner⟩
          · exact hkeys k hk hkopen
        · unfold written at h
          rw [hwhole, hinner] at h
          have hsame : '\x7b' :: (key ++ ['\x7d']) = outer ++ '\x7b' :: (innerName key ++ ['\x7d']) := by
            rw [← cons_append, heq, List.append_assoc, cons_append]
          simp only [hsame, List.append_assoc, append_cancel_left_eq] at h
          exact nomatch (head_eq_of_cons_eq h)
      · have hx : written lookup key = ['x'] := by
          unfold written
          rw [hwhole]
          rfl
        rw [hx, houter, ha] at h
        cases hinner : lookup (ofList (innerName key)) with
        | none | some value =>
          rw [hinner] at h
          exact nomatch (head_eq_of_cons_eq h)
    · rw [exact_plain hkey hopen] at h
      have hkeys := htail (append_cancel_left h)
      intro k hk hkopen
      rcases mem_cons.1 hk with rfl | hk
      · exact absurd hkopen hopen
      · exact hkeys k hk hkopen

end

/-! ## JSON values -/

def strings : Json → List String
  | .str s => [s]
  | .arr xs => itemStrings xs
  | .obj fields => fieldStrings fields
  | _ => []
where
  itemStrings : List Json → List String
    | [] => []
    | x :: xs => strings x ++ itemStrings xs
  fieldStrings : List (String × Json) → List String
    | [] => []
    | (_, v) :: fields => strings v ++ fieldStrings fields

theorem mapStrings_eq_iff {f g : String → String} (x : Json) :
    mapStrings f x = mapStrings g x ↔ ∀ s ∈ strings x, f s = g s := by
  refine Json.rec
    (motive_1 := fun x => mapStrings f x = mapStrings g x ↔ ∀ s ∈ strings x, f s = g s)
    (motive_2 := fun xs => mapStrings.mapItems f xs = mapStrings.mapItems g xs ↔
      ∀ s ∈ strings.itemStrings xs, f s = g s)
    (motive_3 := fun fields => mapStrings.mapFields f fields = mapStrings.mapFields g fields ↔
      ∀ s ∈ strings.fieldStrings fields, f s = g s)
    (motive_4 := fun field => mapStrings f field.2 = mapStrings g field.2 ↔
      ∀ s ∈ strings field.2, f s = g s)
    ?null ?bool ?num ?str ?arr ?obj ?nil ?cons ?noFields ?consField ?field x
  case null => simp [mapStrings, strings]
  case bool => simp [mapStrings, strings]
  case num => simp [mapStrings, strings]
  case str => simp [mapStrings, strings]
  case arr =>
    intro xs ih
    simpa [mapStrings, strings] using ih
  case obj =>
    intro fields ih
    simpa [mapStrings, strings] using ih
  case nil => simp [mapStrings.mapItems, strings.itemStrings]
  case cons =>
    intro x xs hx hxs
    simp only [mapStrings.mapItems, strings.itemStrings, List.cons.injEq, hx, hxs,
      forall_mem_append]
  case noFields => simp [mapStrings.mapFields, strings.fieldStrings]
  case consField =>
    intro field fields hfield hfields
    obtain ⟨key, value⟩ := field
    simp only [mapStrings.mapFields, strings.fieldStrings, List.cons.injEq, Prod.mk.injEq, true_and,
      forall_mem_append, hfields]
    exact and_congr_left fun _ => hfield
  case field =>
    intro key value ih
    exact ih

/-! ## Exactness -/

section

variable (toText : Json → String)

def exactArgsWithResults (args : Json) (context : Accounts String String)
    (results : List ToolResult) : Json :=
  mapStrings (exact (resolve toText context results)) args

def exactTemplate (template : String) (ctx : AssemblyContext)
    (providers : Option (Accounts String String)) : String :=
  exact (provided ctx providers) template

end

def SameKeys (lookup lookup' : String → Option String) : Prop :=
  ∀ key, (lookup key).isSome = (lookup' key).isSome

/-- All names that decide how a text is read have the value `x`, if they have one. -/
def probe (lookup : String → Option String) (names : List String)
    (context : Accounts String String) : Accounts String String :=
  names.foldl (fun context name => if (lookup name).isSome then context.insert name "x" else context)
    context

def names (text : String) : List String :=
  (keys text).flatMap fun key => [ofList key, ofList (innerName key)]

section

variable {lookup lookup' : String → Option String} {text key : String} {known : List String}
  {context : Accounts String String}

theorem scan_eq_exact_iff : scan lookup text = exact lookup text ↔
    rewrite (scanRule lookup) text.toList = rewrite (exactRule lookup) text.toList := by
  exact String.ofList_inj

theorem SameKeys.eq_none (h : SameKeys lookup lookup') : lookup key = none ↔ lookup' key = none := by
  rw [← Option.not_isSome_iff_eq_none, ← Option.not_isSome_iff_eq_none, h key]

theorem SameKeys.untangled (h : SameKeys lookup lookup') {keys : List (List Char)} :
    Untangled lookup keys ↔ Untangled lookup' keys := by
  unfold Untangled
  simp [h.eq_none]

theorem lookup_probe : (probe lookup known context).lookup key =
    if key ∈ known ∧ (lookup key).isSome then some "x" else context.lookup key := by
  unfold probe
  induction known generalizing context with
  | nil => simp
  | cons name known ih =>
    rw [foldl_cons, ih]
    by_cases hknown : key ∈ known ∧ (lookup key).isSome
    · rw [if_pos hknown, if_pos ⟨mem_cons_of_mem _ hknown.1, hknown.2⟩]
    · rw [if_neg hknown]
      by_cases hname : key = name
      · subst hname
        by_cases hsome : (lookup key).isSome = true
        · rw [if_pos hsome, AList.lookup_insert, if_pos ⟨mem_cons_self, hsome⟩]
        · rw [if_neg hsome, if_neg fun h => hsome h.2]
      · have hlookup : (if (lookup name).isSome = true then context.insert name "x"
            else context).lookup key = context.lookup key := by
          split
          · exact AList.lookup_insert_ne hname
          · rfl
        rw [hlookup, if_neg fun h => ?_]
        exact hknown ⟨(mem_cons.1 h.1).resolve_left hname, h.2⟩

variable {rest : String → Option String}

theorem sameKeys_probe (h : ∀ key, lookup key = (context.lookup key).or (rest key)) :
    SameKeys lookup fun key => ((probe lookup known context).lookup key).or (rest key) := by
  intro key
  simp only [lookup_probe]
  by_cases hknown : key ∈ known ∧ (lookup key).isSome
  · rw [if_pos hknown, hknown.2]
    rfl
  · rw [if_neg hknown, h]

theorem probe_value (h : ∀ key, lookup key = (context.lookup key).or (rest key))
    (hkey : key ∈ known) :
    ((probe lookup known context).lookup key).or (rest key) = none ∨
      ((probe lookup known context).lookup key).or (rest key) = some "x" := by
  rw [lookup_probe]
  by_cases hsome : (lookup key).isSome = true
  · rw [if_pos ⟨hkey, hsome⟩]
    exact .inr rfl
  · rw [if_neg fun h => hsome h.2, ← h]
    exact .inl (Option.not_isSome_iff_eq_none.1 hsome)

theorem exact_of_sameKeys (h : Untangled lookup (keys text)) (hsame : SameKeys lookup lookup') :
    scan lookup' text = exact lookup' text :=
  scan_eq_exact_iff.2 (exact_of_untangled (hsame.untangled.1 h))

theorem untangled_of_probe (h : ∀ key, lookup key = (context.lookup key).or (rest key))
    (hnames : names text ⊆ known)
    (hexact : scan (fun key => ((probe lookup known context).lookup key).or (rest key)) text =
      exact (fun key => ((probe lookup known context).lookup key).or (rest key)) text) :
    Untangled lookup (keys text) := by
  have hsame : SameKeys lookup fun key =>
      ((probe lookup known context).lookup key).or (rest key) := sameKeys_probe h
  refine hsame.untangled.2
    (untangled_of_exact (fun key hkey name hname => ?_) (scan_eq_exact_iff.1 hexact))
  refine probe_value h (hnames (mem_flatMap.2 ⟨key, hkey, ?_⟩))
  rcases hname with rfl | rfl
  · exact mem_cons_self
  · exact mem_cons_of_mem _ mem_cons_self

end

/-- Substitution is exact for all values of the known keys if and only if no key with a brace that
a scanner reads is known, nor the name at the end of one. -/
theorem substitution_exact_iff (toText : Json → String) :
    (∀ args context results, (∀ context' results',
          SameKeys (resolve toText context results) (resolve toText context' results') →
            substituteArgsWithResults toText args context' results' =
              exactArgsWithResults toText args context' results') ↔
        ∀ text ∈ strings args, Untangled (resolve toText context results) (keys text)) ∧
    ∀ template ctx providers,
      (∀ ctx' providers', SameKeys (provided ctx providers) (provided ctx' providers') →
          expandTemplateWithProviders template ctx' providers' =
            exactTemplate template ctx' providers') ↔
        Untangled (provided ctx providers) (keys template) := by
  constructor
  · intro args context results
    constructor
    · intro hexact text htext
      have hprobe := hexact
        (probe (resolve toText context results) ((strings args).flatMap names) context) results
        (sameKeys_probe fun _ => rfl)
      refine untangled_of_probe (fun _ => rfl) (fun name hname => ?_)
        ((mapStrings_eq_iff args).1 hprobe text htext)
      exact mem_flatMap.2 ⟨text, htext, hname⟩
    · intro huntangled context' results' hsame
      exact (mapStrings_eq_iff args).2 fun text htext =>
        exact_of_sameKeys (huntangled text htext) hsame
  · intro template ctx providers
    constructor
    · intro hexact
      have hmap : ∀ key, provided ctx providers key =
          ((providers.getD ∅).lookup key).or (provided ctx none key) := by
        intro key
        cases providers <;> rfl
      have hprobe := hexact ctx
        (some (probe (provided ctx providers) (names template) (providers.getD ∅)))
        (sameKeys_probe hmap)
      exact untangled_of_probe hmap (fun _ hname => hname) hprobe
    · intro huntangled ctx' providers' hsame
      exact exact_of_sameKeys huntangled hsame

/-- The placeholder in a JSON snippet is left as it stands. -/
theorem snippet_not_substituted :
    ¬ ∀ toText args context results, substituteArgsWithResults toText args context results =
      exactArgsWithResults toText args context results := by
  intro h
  have htext := (mapStrings_eq_iff _).1
    (h (fun _ => "") (.str "\x7b\"a\": \x7buser_input\x7d\x7d")
      ((∅ : Accounts String String).insert "user_input" "hi") []) _ mem_cons_self
  exact absurd htext (by decide)

end Aeqi.Orchestrator.Placeholders
