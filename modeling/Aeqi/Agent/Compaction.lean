import Mathlib.Data.List.Dedup
import Mathlib.Data.List.Infix
import Mathlib.Tactic.Ring

/-!
# The stages of compaction

What the agent loop does to a transcript that grows too long: `snip_compact` takes an old round
out, `microcompact` clears old results, `context_collapse` drops system messages and shortens long
results, and `repair_tool_pairing` mends what no longer pairs. The input of a tool use is the text
that its JSON prints as; cache marks are left out. Sums are below the width of a `usize`, token
counts are `u32`. `HashSet`s are walked in an order that is a parameter, and so is Unicode's
lower case.
-/

namespace Aeqi.Agent

inductive Role
  | system
  | user
  | assistant
  | tool
deriving DecidableEq

inductive ContentPart
  | text (text : String)
  | toolUse (id name input : String)
  | toolResult (toolUseId content : String) (isError : Bool)
deriving DecidableEq

inductive MessageContent
  | text (text : String)
  | parts (parts : List ContentPart)
deriving DecidableEq

structure Message where
  role : Role
  content : MessageContent
deriving DecidableEq

/-- How a hash set is walked. -/
structure HashOrder where
  walk : List String → List String
  perm : ∀ l, (walk l).Perm l

def CHARS_PER_TOKEN : Nat := 4

def CHARS_PER_TOKEN_STRUCTURED : Nat := 3

def MICROCOMPACT_KEEP_RECENT : Nat := 5

def COMPACTABLE_TOOLS : List String :=
  ["read", "read_file", "readfile", "cat", "shell", "bash", "grep", "glob", "web_search",
    "websearch", "web_fetch", "webfetch", "edit", "edit_file", "fileedit", "write", "write_file",
    "filewrite"]

def MICROCOMPACT_CLEARED : String := "[Old tool result content cleared]"

def SYNTHETIC_TOOL_RESULT : String := "[Tool result unavailable — context was compacted]"

/-- `as u32`. -/
def asU32 (n : Nat) : Nat := n % 2 ^ 32

/-! ## Tokens -/

def ContentPart.tokens : ContentPart → Nat
  | .text t => t.utf8ByteSize / CHARS_PER_TOKEN
  | .toolUse _ name input => (name.utf8ByteSize + input.utf8ByteSize) / CHARS_PER_TOKEN_STRUCTURED
  | .toolResult _ content _ => content.utf8ByteSize / CHARS_PER_TOKEN_STRUCTURED

def Message.tokens (m : Message) : Nat :=
  match m.content with
  | .text t => t.utf8ByteSize / CHARS_PER_TOKEN
  | .parts parts => (parts.map ContentPart.tokens).sum

def estimateTokensFromMessages (messages : List Message) : Nat :=
  asU32 (messages.map Message.tokens).sum

/-! ## Snip -/

def firstRound : List Message → List Message
  | [] => []
  | m :: rest =>
    if m.role ≠ .assistant then firstRound rest
    else m :: rest.takeWhile (·.role = .tool)

/-- The tokens freed and what is left. As many messages are drained as the round has, from the
start of the window on. -/
def snipCompact (messages : List Message) (preserveHead preserveTail : Nat) :
    Nat × List Message :=
  if messages.length ≤ preserveHead + preserveTail then (0, messages)
  else
    let windowStart := preserveHead
    let windowEnd := messages.length - preserveTail
    if windowStart ≥ windowEnd then (0, messages)
    else
      let maxRemove := (windowEnd - windowStart) / 2
      let round :=
        if 0 < maxRemove then firstRound ((messages.take windowEnd).drop windowStart) else []
      let removeCount := round.length
      (estimateTokensFromMessages round,
        if 0 < removeCount then
          messages.take windowStart ++ messages.drop (windowStart + removeCount)
        else messages)

/-! ## Microcompact -/

section Microcompact

variable (lower : String → String)

def compactable (name : String) : Bool :=
  COMPACTABLE_TOOLS.any fun t => t.toList <:+: (lower name).toList

def ContentPart.compactableId : ContentPart → Option String
  | .toolUse id name _ => if compactable lower name then some id else none
  | _ => none

def Message.compactableIds (m : Message) : List String :=
  match m.content with
  | .text _ => []
  | .parts parts => parts.filterMap (·.compactableId lower)

def ContentPart.clears (clearSet : List String) : ContentPart → Bool
  | .toolResult toolUseId content _ => toolUseId ∈ clearSet ∧ content ≠ MICROCOMPACT_CLEARED
  | _ => false

def ContentPart.cleared (clearSet : List String) (p : ContentPart) : ContentPart :=
  match p with
  | .toolResult toolUseId _ isError =>
    if p.clears clearSet then .toolResult toolUseId MICROCOMPACT_CLEARED isError else p
  | _ => p

def Message.cleared (clearSet : List String) (m : Message) : Message :=
  if m.role ≠ .tool then m
  else
    match m.content with
    | .text _ => m
    | .parts parts => { m with content := .parts (parts.map (·.cleared clearSet)) }

def Message.clearCount (clearSet : List String) (m : Message) : Nat :=
  if m.role ≠ .tool then 0
  else
    match m.content with
    | .text _ => 0
    | .parts parts => parts.countP (·.clears clearSet)

/-- How many results were cleared and the messages after it. -/
def microcompact (messages : List Message) (preserveTail keepRecent : Nat) : Nat × List Message :=
  if messages.length ≤ preserveTail then (0, messages)
  else
    let cutoff := messages.length - preserveTail
    let compactableIds := (messages.take cutoff).flatMap (·.compactableIds lower)
    if compactableIds.length ≤ keepRecent then (0, messages)
    else
      let clearSet := compactableIds.take (compactableIds.length - keepRecent)
      (((messages.take cutoff).map (·.clearCount clearSet)).sum,
        (messages.take cutoff).map (·.cleared clearSet) ++ messages.drop cutoff)

end Microcompact

/-! ## Context collapse -/

def ContentPart.chars : ContentPart → Nat
  | .text t => t.utf8ByteSize
  | .toolUse _ name input => name.utf8ByteSize + input.utf8ByteSize
  | .toolResult _ content _ => content.utf8ByteSize

def Message.chars (m : Message) : Nat :=
  match m.content with
  | .text t => t.utf8ByteSize
  | .parts parts => (parts.map ContentPart.chars).sum

def removeStale (preserveTail : Nat) : List Message → Nat × List Message
  | [] => (0, [])
  | m :: rest =>
    if rest.length + 1 ≤ preserveTail then (0, m :: rest)
    else
      let left := removeStale preserveTail rest
      if m.role = .system then (asU32 (m.chars / CHARS_PER_TOKEN) + left.1, left.2)
      else (left.1, m :: left.2)

/-- A text of more than 2000 bytes, by its first and last 500 characters. -/
def collapseText (text : String) : String :=
  if 2000 < text.utf8ByteSize then
    let head := String.ofList (text.toList.take 500)
    let tail := String.ofList (text.toList.reverse.take 500).reverse
    head ++ "\n\n[... " ++ toString (text.utf8ByteSize - 1000) ++ " chars collapsed ...]\n\n" ++ tail
  else text

def collapseSaved (text : String) : Nat :=
  asU32 ((text.utf8ByteSize - (collapseText text).utf8ByteSize) / CHARS_PER_TOKEN)

def ContentPart.collapsed : ContentPart → ContentPart
  | .toolResult toolUseId content isError => .toolResult toolUseId (collapseText content) isError
  | p => p

def Message.collapsed (m : Message) : Message :=
  if m.role ≠ .tool then m
  else
    match m.content with
    | .text t => { m with content := .text (collapseText t) }
    | .parts parts => { m with content := .parts (parts.map ContentPart.collapsed) }

def ContentPart.collapseFreed : ContentPart → Nat
  | .toolResult _ content _ => collapseSaved content
  | _ => 0

def Message.collapseFreed (m : Message) : Nat :=
  if m.role ≠ .tool then 0
  else
    match m.content with
    | .text t => collapseSaved t
    | .parts parts => (parts.map ContentPart.collapseFreed).sum

/-- The tokens freed and what is left. -/
def contextCollapse (messages : List Message) (preserveHead preserveTail : Nat) :
    Nat × List Message :=
  if messages.length ≤ preserveHead + preserveTail then (0, messages)
  else
    let stale := removeStale preserveTail (messages.drop preserveHead)
    let last := stale.2.length - preserveTail
    (asU32 (stale.1 + ((stale.2.take last).map Message.collapseFreed).sum),
      messages.take preserveHead ++ ((stale.2.take last).map Message.collapsed ++
        stale.2.drop last))

/-! ## Repair -/

def ContentPart.use : ContentPart → Option String
  | .toolUse id _ _ => some id
  | _ => none

def ContentPart.result : ContentPart → Option String
  | .toolResult toolUseId _ _ => some toolUseId
  | _ => none

open ContentPart (result toolResult toolUse use)

attribute [simp] ContentPart.use ContentPart.result

def Message.uses (m : Message) : List String :=
  match m.content with
  | .text _ => []
  | .parts parts => parts.filterMap use

def Message.results (m : Message) : List String :=
  match m.content with
  | .text _ => []
  | .parts parts => parts.filterMap result

/-- `insert` behind the last that is found by `rposition`. -/
def insertAfterLast {α : Type} (found : α → Bool) (new : α) : List α → Option (List α)
  | [] => none
  | a :: rest =>
    match insertAfterLast found new rest with
    | some inserted => some (a :: inserted)
    | none => if found a then some (a :: new :: rest) else none

def syntheticResults (dangling : List String) : Message :=
  ⟨.tool, .parts (dangling.map fun id => .toolResult id SYNTHETIC_TOOL_RESULT true)⟩

def ContentPart.kept (orphans : List String) : ContentPart → Bool
  | .toolResult toolUseId _ _ => toolUseId ∉ orphans
  | _ => true

@[simp] theorem ContentPart.kept_text (orphans : List String) (t : String) :
    (ContentPart.text t).kept orphans = true := rfl

@[simp] theorem ContentPart.kept_toolUse (orphans : List String) (id name input : String) :
    (toolUse id name input).kept orphans = true := rfl

@[simp] theorem ContentPart.kept_toolResult (orphans : List String) (id content : String)
    (isError : Bool) :
    (toolResult id content isError).kept orphans = decide (id ∉ orphans) := rfl

def Message.stripped (orphans : List String) (m : Message) : Message :=
  if m.role ≠ .tool then m
  else
    match m.content with
    | .text _ => m
    | .parts parts => { m with content := .parts (parts.filter (·.kept orphans)) }

def Message.emptied (m : Message) : Bool := m.role = .tool ∧ m.content = .parts []

def repairToolPairing (order : HashOrder) (messages : List Message) : List Message :=
  let toolUseIds := messages.flatMap Message.uses
  let toolResultIds := messages.flatMap Message.results
  let dangling := order.walk (toolUseIds.dedup.filter (· ∉ toolResultIds))
  let orphans := order.walk (toolResultIds.dedup.filter (· ∉ toolUseIds))
  if dangling = [] ∧ orphans = [] then messages
  else
    let messages :=
      if dangling ≠ [] then
        (insertAfterLast (·.role = .assistant) (syntheticResults dangling) messages).getD messages
      else messages
    if orphans ≠ [] then (messages.map (·.stripped orphans)).filter (! ·.emptied)
    else messages

/-! ## The pipeline -/

structure Stages where
  snip : Bool
  micro : Bool
  collapse : Bool

section Pipeline

variable (lower : String → String)

def compact (stages : Stages) (preserveHead preserveTail keepRecent : Nat)
    (messages : List Message) : List Message :=
  let messages :=
    if stages.snip then (snipCompact messages preserveHead preserveTail).2 else messages
  let messages :=
    if stages.micro then (microcompact lower messages preserveTail keepRecent).2 else messages
  if stages.collapse then (contextCollapse messages preserveHead preserveTail).2 else messages

/-- What the pipeline reads of the configuration; the thresholds are the products with the window
as they are rounded. -/
structure CompactionConfig where
  preserveHead : Nat
  preserveTail : Nat
  fullThreshold : Nat
  snipThreshold : Nat

structure CompactionReport where
  snip : Option Nat
  microcompact : Option Nat
  collapse : Option Nat

def fired (freed : Nat) : Option Nat := if 0 < freed then some freed else none

/-- `run_compaction_pipeline` up to the event, which leaves the messages as they are. `tracked` is
what the tracker estimates. -/
def runCompactionPipeline (config : CompactionConfig) (tracked : Nat) (messages : List Message) :
    CompactionReport × List Message :=
  let estimated := if 0 < tracked then tracked else estimateTokensFromMessages messages
  let guarded (n : Nat) := config.preserveHead + config.preserveTail < n
  let snip :=
    if config.snipThreshold < estimated ∧ guarded messages.length then
      snipCompact messages config.preserveHead config.preserveTail
    else (0, messages)
  let estimated :=
    if (fired snip.1).isSome then estimateTokensFromMessages snip.2 else estimated
  let micro :=
    if config.snipThreshold < estimated ∧ guarded snip.2.length then
      microcompact lower snip.2 config.preserveTail MICROCOMPACT_KEEP_RECENT
    else (0, snip.2)
  let estimated := estimateTokensFromMessages micro.2
  let collapse :=
    if config.fullThreshold < estimated ∧ guarded micro.2.length then
      contextCollapse micro.2 config.preserveHead config.preserveTail
    else (0, micro.2)
  (⟨fired snip.1, fired micro.1, fired collapse.1⟩, collapse.2)

theorem runCompactionPipeline_eq_compact (config : CompactionConfig) (tracked : Nat)
    (messages : List Message) :
    ∃ stages, (runCompactionPipeline lower config tracked messages).2 =
      compact lower stages config.preserveHead config.preserveTail MICROCOMPACT_KEEP_RECENT
        messages := by
  unfold runCompactionPipeline
  lift_lets
  intro estimated guarded snip estimated' micro estimated'' collapse
  refine ⟨⟨decide (config.snipThreshold < estimated ∧ guarded messages.length),
    decide (config.snipThreshold < estimated' ∧ guarded snip.2.length),
    decide (config.fullThreshold < estimated'' ∧ guarded micro.2.length)⟩, ?_⟩
  have hsnip : snip.2 = if config.snipThreshold < estimated ∧ guarded messages.length then
      (snipCompact messages config.preserveHead config.preserveTail).2 else messages :=
    apply_ite Prod.snd _ _ _
  have hmicro : micro.2 = if config.snipThreshold < estimated' ∧ guarded snip.2.length then
      (microcompact lower snip.2 config.preserveTail MICROCOMPACT_KEEP_RECENT).2 else snip.2 :=
    apply_ite Prod.snd _ _ _
  have hcollapse : collapse.2 = if config.fullThreshold < estimated'' ∧ guarded micro.2.length then
      (contextCollapse micro.2 config.preserveHead config.preserveTail).2 else micro.2 :=
    apply_ite Prod.snd _ _ _
  simp only [compact, decide_eq_true_eq, ← hsnip, ← hmicro]
  exact hcollapse

end Pipeline

end Aeqi.Agent
