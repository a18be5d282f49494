import Aeqi.Lib.Lines
import Aeqi.Orchestrator.Schedules

/-!
# Quests by chat command (`message_router.rs`)

A chat message that starts with a create-quest command makes a quest without a model call. Its
subject is what is left of the lower-cased message when the command phrases, the project and every
`to` are taken out, looked up again in the message by byte offset. Lower-casing is a parameter.
-/

namespace Aeqi.Council

open Aeqi.Lib List
open Aeqi.Orchestrator.Schedules (splitWhitespace)

/-! ## Replacing and slicing -/

/-- `str::replace`; the first `skip` characters belong to what has been replaced. -/
def replaceFrom (pattern new : List Char) : Nat → List Char → List Char
  | _, [] => []
  | skip + 1, _ :: text => replaceFrom pattern new skip text
  | 0, c :: text =>
    if pattern <+: c :: text then new ++ replaceFrom pattern new (pattern.length - 1) text
    else c :: replaceFrom pattern new 0 text

def replace (text pattern new : List Char) : List Char := replaceFrom pattern new 0 text

/-- `&text[start..]`, which fails inside a character and behind the text. -/
def sliceFrom : Nat → List Char → Option (List Char)
  | 0, text => some text
  | _ + 1, [] => none
  | n + 1, c :: text =>
    if n + 1 < c.utf8Size then none else sliceFrom (n + 1 - c.utf8Size) text

section Slices

variable {pattern new front text : List Char}

theorem replace_of_absent (h : ¬ pattern <:+: text) : replace text pattern new = text := by
  induction text with
  | nil => rfl
  | cons c text ih =>
    simp only [infix_cons_iff, not_or] at h
    rw [replace, replaceFrom, if_neg h.1]
    exact congrArg (c :: ·) (ih h.2)

theorem replaceFrom_append (skipped : List Char) :
    replaceFrom pattern new skipped.length (skipped ++ text) = replace text pattern new := by
  induction skipped with
  | nil => rfl
  | cons c skipped ih => exact ih

theorem replace_once (hpattern : pattern ≠ [])
    (hfirst : breakOn pattern (front ++ pattern ++ text) = some (front, pattern ++ text))
    (hlast : ¬ pattern <:+: text) :
    replace (front ++ pattern ++ text) pattern [] = front ++ text := by
  induction front with
  | nil =>
    obtain ⟨c, rest, rfl⟩ := exists_cons_of_ne_nil hpattern
    have hbegins : c :: rest <+: c :: (rest ++ text) := prefix_append (c :: rest) text
    rw [nil_append, cons_append, replace, replaceFrom, if_pos hbegins]
    exact (replaceFrom_append rest).trans (replace_of_absent hlast)
  | cons c front ih =>
    simp only [cons_append, breakOn] at hfirst
    split at hfirst
    · cases hfirst
    · next hnot =>
      obtain ⟨found, hfound, heq⟩ := Option.map_eq_some_iff.1 hfirst
      obtain ⟨hfront, hrest⟩ := Prod.mk.inj heq
      have hlater : found = (front, pattern ++ text) := Prod.ext (List.cons.inj hfront).2 hrest
      rw [cons_append, cons_append, replace, replaceFrom, if_neg hnot]
      exact congrArg (c :: ·) (ih (hlater ▸ hfound))

theorem byteLength_append : byteLength (front ++ text) = byteLength front + byteLength text := by
  simp [byteLength]

theorem sliceFrom_append : sliceFrom (byteLength front) (front ++ text) = some text := by
  induction front with
  | nil => cases text <;> rfl
  | cons c front ih =>
    have hpos := c.utf8Size_pos
    rw [byteLength_cons]
    obtain ⟨n, hn⟩ := Nat.exists_eq_succ_of_ne_zero (Nat.add_pos_left hpos (byteLength front)).ne'
    rw [hn, cons_append, sliceFrom, if_neg (by omega), ← Nat.succ_eq_add_one, ← hn,
      Nat.add_sub_cancel_left, ih]

theorem sliceTo_append : sliceTo (byteLength front) (front ++ text) = some front := by
  induction front with
  | nil => cases text <;> rfl
  | cons c front ih =>
    have hpos := c.utf8Size_pos
    rw [byteLength_cons, cons_append, sliceTo, if_neg (by omega), if_neg (by omega),
      Nat.add_sub_cancel_left, ih]
    rfl

end Slices

/-! ## The command -/

/-- The starts for which `handle_message` calls `handle_create_quest`. -/
def createCommands : List (List Char) :=
  ["create quest", "new quest", "add quest", "create task", "new task", "add task"].map (·.toList)

/-- What is taken out of the message, in this order. -/
def commandPhrases : List (List Char) :=
  ["create a quest", "create quest", "new quest", "add a quest", "add quest",
    "create a task", "create task", "new task", "add a task", "add task"].map (·.toList)

structure ActiveAgent where
  id : String
  name : List Char

structure CreatedQuest where
  id : String
  title : String

structure ChatResponse where
  ok : Bool
  context : String
  action : Option String := none
  task : Option (CreatedQuest × String) := none

/-- The registry: `list_active`, `resolve_by_hint` and `create_task`. -/
structure Registry where
  listActive : List ActiveAgent
  resolveByHint : List Char → Except String (Option ActiveAgent)
  createTask : (agentId : String) → (subject : List Char) → (labels : List String) →
    Except String CreatedQuest

section Command

variable (lower : List Char → List Char) (registry : Registry) (defaultProject : List Char)

def startsCreateQuest (message : List Char) : Bool :=
  createCommands.any fun command => command <+: lower message

def projectOf (hint : Option (List Char)) (message : List Char) : List Char :=
  match hint with
  | some project => project
  | none =>
    let found := ((registry.listActive.find? fun agent =>
      lower agent.name <:+: lower message).map (·.name)).getD []
    if found = [] then (registry.listActive.head?.map (·.name)).getD defaultProject else found

def projectPhrases (project : List Char) : List (List Char) :=
  ["in ".toList ++ lower project, "for ".toList ++ lower project]

/-- `trim`, `trim_start_matches(':')` and `trim`. -/
def taskText (text : List Char) : List Char := trim ((trim text).dropWhile (· = ':'))

def strippedSubject (project message : List Char) : List Char :=
  let text := (commandPhrases ++ projectPhrases lower project).foldl
    (fun text phrase => replace text phrase []) (lower message)
  taskText (replace text " to ".toList " ".toList)

def questSubject (project message : List Char) : Option (List Char) :=
  let subject := strippedSubject lower project message
  if subject = [] then some message
  else
    let start := ((breakOn subject (lower message)).map fun found => byteLength found.1).getD 0
    if start + byteLength subject ≤ byteLength message then
      (sliceFrom start message).bind (sliceTo (byteLength subject))
    else some subject

def createQuest (project subject : List Char) : ChatResponse :=
  let created := match registry.resolveByHint project with
    | .ok (some agent) => registry.createTask agent.id subject ["chat"]
    | .ok none => .error s!"agent not found for hint: {String.ofList project}"
    | .error e => .error e
  match created with
  | .ok task =>
    { ok := true
      context :=
        s!"Done. Created quest {task.id} in {String.ofList project} — \"{String.ofList subject}\""
      action := some "quest_created"
      task := some (task, String.ofList project) }
  | .error e => { ok := false, context := s!"Failed to create task: {e}" }

def handleCreateQuest (hint : Option (List Char)) (message : List Char) : Option ChatResponse :=
  let project := projectOf lower registry defaultProject hint message
  (questSubject lower project message).map (createQuest registry project)

end Command

/-! ## The words of the message -/

/-- The message as the user means it: a command, perhaps the project, and the rest. -/
structure Reading (lower : List Char → List Char) (project message : List Char) where
  command : List Char
  gap : List Char
  phrase : List Char
  rest : List Char
  message_eq : message = command ++ gap ++ phrase ++ rest
  isCommand : lower command ∈ createCommands
  blank : ∀ c ∈ gap, isWhitespace c = true
  isPhrase : lower phrase ∈ [] :: projectPhrases lower project
  ends : ∀ c ∈ rest.head?, phrase ≠ [] → isWhitespace c = true ∨ c = ':'

def KeepsWords (message rest subject : List Char) : Prop :=
  (splitWhitespace (taskText rest)).Sublist (splitWhitespace subject) ∧
    (taskText rest = [] → subject = message)

section Plain

variable {lower : List Char → List Char} {project message : List Char}

/-- A reading of which nothing else is taken out and which is found again where it stands. -/
structure Plain (lower : List Char → List Char) (project message : List Char)
    (r : Reading lower project message) : Prop where
  whole : lower message = lower r.command ++ r.gap ++ lower r.phrase ++ lower r.rest
  commands : ∀ phrase ∈ commandPhrases,
    (phrase ≠ lower r.command → ¬ phrase <:+: lower message) ∧
      ¬ phrase <:+: r.gap ++ lower r.phrase ++ lower r.rest
  phrases : ∀ phrase ∈ projectPhrases lower project,
    (phrase ≠ lower r.phrase → ¬ phrase <:+: r.gap ++ lower r.phrase ++ lower r.rest) ∧
      ¬ phrase <:+: r.gap ++ lower r.rest
  noTo : ¬ " to ".toList <:+: r.gap ++ lower r.rest
  blanks : taskText (r.gap ++ lower r.rest) = lower (taskText r.rest)
  bytes : byteLength (lower (taskText r.rest)) = byteLength (taskText r.rest)
  place : lower (taskText r.rest) ≠ [] → ∃ before after lowBefore lowAfter,
    message = before ++ (taskText r.rest ++ after) ∧
      breakOn (lower (taskText r.rest)) (lower message) = some (lowBefore, lowAfter) ∧
      byteLength before = byteLength lowBefore

variable {text : List Char}

theorem foldl_of_absent {phrases : List (List Char)} (h : ∀ phrase ∈ phrases, ¬ phrase <:+: text) :
    phrases.foldl (fun text phrase => replace text phrase []) text = text := by
  induction phrases with
  | nil => rfl
  | cons phrase phrases ih =>
    rw [foldl_cons, replace_of_absent (h phrase mem_cons_self)]
    exact ih fun phrase hmem => h phrase (mem_cons_of_mem _ hmem)

theorem foldl_takes {phrases : List (List Char)} {front phrase : List Char}
    (hmem : phrase ∈ [] :: phrases)
    (hfirst : phrase ∈ phrases →
      breakOn phrase (front ++ phrase ++ text) = some (front, phrase ++ text))
    (h : ∀ p ∈ phrases, (p ≠ phrase → ¬ p <:+: front ++ phrase ++ text) ∧ ¬ p <:+: front ++ text) :
    phrases.foldl (fun text phrase => replace text phrase []) (front ++ phrase ++ text) =
      front ++ text := by
  rcases mem_cons.1 hmem with rfl | hmem
  · rw [append_nil]
    exact foldl_of_absent fun p hp => (h p hp).2
  · induction phrases with
    | nil => cases hmem
    | cons p phrases ih =>
      have hrest (q) (hq : q ∈ phrases) := h q (mem_cons_of_mem _ hq)
      rw [foldl_cons]
      by_cases hp : p = phrase
      · subst hp
        have hleft := (h p mem_cons_self).2
        have hne : p ≠ [] := fun hnil => hleft (hnil ▸ nil_infix)
        have hlast : ¬ p <:+: text := fun hin => hleft (hin.trans (suffix_append _ _).isInfix)
        rw [replace_once hne (hfirst mem_cons_self) hlast]
        exact foldl_of_absent fun q hq => (hrest q hq).2
      · rw [replace_of_absent ((h p mem_cons_self).1 hp)]
        have hmem := (mem_cons.1 hmem).resolve_left (Ne.symm hp)
        exact ih (mem_cons_of_mem _ hmem) (fun _ => hfirst (mem_cons_of_mem _ hmem))
          hrest hmem

theorem createCommands_subset : createCommands ⊆ commandPhrases := by
  unfold createCommands commandPhrases
  exact map_subset _ (by simp)

theorem strippedSubject_of_plain {r : Reading lower project message}
    (h : Plain lower project message r) :
    strippedSubject lower project message = lower (taskText r.rest) := by
  have hcommand : commandPhrases.foldl (fun text phrase => replace text phrase []) (lower message) =
      r.gap ++ lower r.phrase ++ lower r.rest := by
    have hwhole : lower message =
        [] ++ lower r.command ++ (r.gap ++ lower r.phrase ++ lower r.rest) := by
      rw [h.whole]
      simp
    have hcommands := h.commands
    rw [hwhole] at hcommands ⊢
    exact foldl_takes (mem_cons_of_mem _ (createCommands_subset r.isCommand))
      (fun _ => breakOn_prefix (prefix_append _ _)) hcommands
  have hphrase : (projectPhrases lower project).foldl (fun text phrase => replace text phrase [])
      (r.gap ++ lower r.phrase ++ lower r.rest) = r.gap ++ lower r.rest := by
    refine foldl_takes r.isPhrase (fun hmem => ?_) h.phrases
    have hskip (c : Char) (word : List Char) (hc : isWhitespace c = false) :
        breakOn (c :: word) (r.gap ++ (c :: word) ++ lower r.rest) =
          some (r.gap, c :: word ++ lower r.rest) := by
      have hgap : c ∉ r.gap := fun hin => by
        rw [r.blank c hin] at hc
        cases hc
      rw [append_assoc, breakOn_skip hgap, breakOn_prefix (prefix_append _ _)]
      simp
    simp only [projectPhrases, mem_cons, not_mem_nil, or_false] at hmem
    rcases hmem with hphrase | hphrase <;> rw [hphrase]
    · exact hskip 'i' ("n ".toList ++ lower project) (by decide)
    · exact hskip 'f' ("or ".toList ++ lower project) (by decide)
  rw [strippedSubject, foldl_append, hcommand, hphrase, replace_of_absent h.noTo, h.blanks]

theorem byteLength_eq_zero : byteLength text = 0 ↔ text = [] := by
  cases text with
  | nil => exact iff_of_true rfl rfl
  | cons c text =>
    have hpos := c.utf8Size_pos
    rw [byteLength_cons]
    simp
    omega

theorem questSubject_of_plain {r : Reading lower project message}
    (h : Plain lower project message r) : questSubject lower project message =
      some (if taskText r.rest = [] then message else taskText r.rest) := by
  have hempty : lower (taskText r.rest) = [] ↔ taskText r.rest = [] := by
    rw [← byteLength_eq_zero, h.bytes, byteLength_eq_zero]
  simp only [questSubject, strippedSubject_of_plain h, hempty]
  split
  · rfl
  · next hne =>
    obtain ⟨before, after, lowBefore, lowAfter, hmessage, hplace, hbefore⟩ :=
      h.place (mt hempty.1 hne)
    have hslice : (sliceFrom (byteLength lowBefore) message).bind
        (sliceTo (byteLength (taskText r.rest))) = some (taskText r.rest) := by
      have hfrom := congrArg (sliceFrom (byteLength before)) hmessage
      rw [sliceFrom_append, hbefore] at hfrom
      rw [hfrom]
      exact sliceTo_append
    have hfits : byteLength lowBefore + byteLength (taskText r.rest) ≤ byteLength message := by
      have hlength := congrArg byteLength hmessage
      rw [byteLength_append, byteLength_append] at hlength
      omega
    simp [hplace, h.bytes, if_pos hfits, hslice]

end Plain

/-! ## Whether the quest keeps the words -/

section Words

variable (lower : List Char → List Char) (registry : Registry) (defaultProject : List Char)
  (hint : Option (List Char)) (message : List Char)

/-- There is no panic, and the subject has the words that come behind the command. -/
def CreatesInWords (rest : List Char) : Prop :=
  let project := projectOf lower registry defaultProject hint message
  ∃ subject, questSubject lower project message = some subject ∧
    handleCreateQuest lower registry defaultProject hint message =
      some (createQuest registry project subject) ∧ KeepsWords message rest subject

end Words

def sampleRegistry : Registry where
  listActive := [⟨"a1", "acme".toList⟩]
  resolveByHint _ := .ok (some ⟨"a1", "acme".toList⟩)
  createTask _ subject _ := .ok ⟨"q1", String.ofList subject⟩

end Aeqi.Council
