import Mathlib.Algebra.BigOperators.Group.List.Basic
import Mathlib.Tactic.Ring

/-!
# How many cache breakpoints a request has

Breakpoints come from the segments of the system prompt, from the rule for a prompt without marks,
from the last tool and from the last three messages, besides what assistant parts carry already.
Only the segments are capped. `bodyMarks_le_iff` counts all of them on the request.
-/

/-!
## Requests to Anthropic (`anthropic.rs`)

What `convert_messages` and `convert_tools` make of a chat request, and where the marks for the
prompt cache come from: the assembled segments of the system prompt, and the request itself. An
object of the body is its other fields and its `cache_control`; a JSON value that is passed
through is of an arbitrary type `J`.
-/

namespace Aeqi.Providers

inductive CacheControl
  | ephemeral

/-! ## Segments of the system prompt (`prompt_cache.rs`) -/

structure AssembledPromptSegment where
  content : String
  cacheControl : Option CacheControl := none

def MAX_CACHE_BREAKPOINTS : Nat := 4

/-- The first `dropCount` marks are taken off. -/
def dropMarks : Nat → List AssembledPromptSegment → List AssembledPromptSegment
  | 0, segments => segments
  | _, [] => []
  | dropCount + 1, s :: segments =>
    if s.cacheControl.isSome then { s with cacheControl := none } :: dropMarks dropCount segments
    else s :: dropMarks (dropCount + 1) segments

def applyBreakpointCap (segments : List AssembledPromptSegment) : List AssembledPromptSegment :=
  let marked := segments.countP (·.cacheControl.isSome)
  dropMarks (marked - MAX_CACHE_BREAKPOINTS) segments

/-! ## Messages -/

inductive Role
  | system
  | user
  | assistant
  | tool

section Request

variable (J : Type)

inductive ContentPart
  | text (text : String) (cacheControl : Option CacheControl)
  | toolUse (id name : String) (input : J)
  | toolResult (toolUseId content : String) (isError : Bool)

inductive MessageContent
  | text (text : String)
  | parts (parts : List (ContentPart J))

structure Message where
  role : Role
  content : MessageContent J

structure ToolSpec where
  name : String
  description : String
  inputSchema : J

/-! ## The body -/

inductive BlockBody
  | text (text : String)
  | toolUse (id name : String) (input : J)
  | toolResult (toolUseId content : String) (isError : Bool)

structure Block where
  body : BlockBody J
  cacheControl : Option CacheControl := none

inductive WireContent
  | string (text : String)
  | array (blocks : List (Block J))

structure AnthropicMessage where
  role : String
  content : WireContent J

structure WireTool where
  name : String
  description : String
  inputSchema : J
  cacheControl : Option CacheControl := none

end Request

variable {J : Type}

def MessageContent.asText : MessageContent J → Option String
  | .text s => some s
  | .parts _ => none

def systemContent (systemPrompt : String) :
    Option (List AssembledPromptSegment) → MessageContent J
  | none => .text systemPrompt
  | some segments =>
    let parts := (segments.filter (·.content ≠ "")).map fun s =>
      ContentPart.text s.content s.cacheControl
    if parts = [] then .text systemPrompt else .parts parts

/-! ## `convert_messages` -/

def ContentPart.systemBlock : ContentPart J → Option (String × Bool)
  | .text t cacheControl => some (t, cacheControl.isSome)
  | _ => none

def Message.systemBlocks (m : Message J) : List (String × Bool) :=
  match m.role, m.content with
  | .system, .text text => [(text, false)]
  | .system, .parts parts => parts.filterMap ContentPart.systemBlock
  | _, _ => []

def ContentPart.assistantBlock : ContentPart J → Option (Block J)
  | .text t cacheControl => some ⟨.text t, cacheControl⟩
  | .toolUse id name input => some ⟨.toolUse id name input, none⟩
  | .toolResult .. => none

def ContentPart.toolBlock : ContentPart J → Option (Block J)
  | .toolResult toolUseId content isError => some ⟨.toolResult toolUseId content isError, none⟩
  | _ => none

def Message.convert (m : Message J) : Option (AnthropicMessage J) :=
  match m.role with
  | .system => none
  | .user => m.content.asText.map fun text => ⟨"user", .string text⟩
  | .assistant =>
    match m.content with
    | .text text => some ⟨"assistant", .string text⟩
    | .parts parts => some ⟨"assistant", .array (parts.filterMap ContentPart.assistantBlock)⟩
  | .tool =>
    match m.content with
    | .text _ => none
    | .parts parts => some ⟨"user", .array (parts.filterMap ContentPart.toolBlock)⟩

def markIf (marked : Bool) : Option CacheControl := if marked then some .ephemeral else none

/-- Marks of the segments are kept as they are; without any, the first block is marked and the
others are folded into a second one. -/
def systemBody : List (String × Bool) → Option (List (Block J))
  | [] => none
  | first :: rest =>
    if (first :: rest).any (·.2) then
      some ((first :: rest).map fun block => ⟨.text block.1, markIf block.2⟩)
    else
      let tail := if rest = [] then [] else [⟨.text ("\n\n".intercalate (rest.map (·.1))), none⟩]
      some (⟨.text first.1, some .ephemeral⟩ :: tail)

def pinLast : List (Block J) → List (Block J)
  | [] => []
  | [last] => [{ last with cacheControl := some .ephemeral }]
  | block :: next :: blocks => block :: pinLast (next :: blocks)

def WireContent.pin : WireContent J → WireContent J
  | .string text => .array [⟨.text text, some .ephemeral⟩]
  | .array blocks => .array (pinLast blocks)

def pinTail (converted : List (AnthropicMessage J)) : List (AnthropicMessage J) :=
  let cacheStart := converted.length - 3
  converted.take cacheStart ++
    (converted.drop cacheStart).map fun m => { m with content := m.content.pin }

def convertMessages (messages : List (Message J)) :
    Option (List (Block J)) × List (AnthropicMessage J) :=
  let systemBlocks := messages.flatMap Message.systemBlocks
  let converted := messages.filterMap Message.convert
  (systemBody systemBlocks, pinTail converted)

/-! ## `convert_tools` -/

def pinLastTool : List (WireTool J) → List (WireTool J)
  | [] => []
  | [last] => [{ last with cacheControl := some .ephemeral }]
  | tool :: next :: tools => tool :: pinLastTool (next :: tools)

def convertTools (tools : List (ToolSpec J)) : List (WireTool J) :=
  pinLastTool (tools.map fun t => ⟨t.name, t.description, t.inputSchema, none⟩)

open List Option

variable {J : Type}

/-! ## The body -/

def Block.marked (b : Block J) : Bool := b.cacheControl.isSome

def WireContent.marks : WireContent J → Nat
  | .string _ => 0
  | .array blocks => blocks.countP Block.marked

def bodyMarks (messages : List (Message J)) (tools : List (ToolSpec J)) : Nat :=
  let body := convertMessages messages
  body.1.elim 0 (·.countP Block.marked) + (body.2.map (·.content.marks)).sum +
    (convertTools tools).countP (·.cacheControl.isSome)

/-! ## The request -/

namespace ContentPart

def isText : ContentPart J → Bool
  | text .. => true
  | _ => false

def isToolResult : ContentPart J → Bool
  | toolResult .. => true
  | _ => false

def marked : ContentPart J → Bool
  | text _ cacheControl => cacheControl.isSome
  | _ => false

end ContentPart

open ContentPart (isText isToolResult marked systemBlock toolBlock)

namespace Message

def systemTexts (m : Message J) : Nat :=
  match m.role, m.content with
  | .system, .text _ => 1
  | .system, .parts parts => parts.countP isText
  | _, _ => 0

def systemMarks (m : Message J) : Nat :=
  match m.role, m.content with
  | .system, .parts parts => parts.countP marked
  | _, _ => 0

def ownMarks (m : Message J) : Nat :=
  match m.role, m.content with
  | .assistant, .parts parts => parts.countP marked
  | _, _ => 0

/-- A user's parts and a tool's text are not sent. -/
def sent (m : Message J) : Bool :=
  match m.role, m.content with
  | .system, _ | .user, .parts _ | .tool, .text _ => false
  | .user, .text _ | .assistant, _ | .tool, .parts _ => true

def tailMark (m : Message J) : Nat :=
  match m.role, m.content with
  | .user, .text _ | .assistant, .text _ => 1
  | .assistant, .parts parts =>
    (parts.reverse.find? (! ·.isToolResult)).elim 0 fun last => if last.marked then 0 else 1
  | .tool, .parts parts => if parts.any isToolResult then 1 else 0
  | _, _ => 0

end Message

open Message (convert ownMarks sent systemBlocks systemTexts tailMark)

def systemMarks (messages : List (Message J)) : Nat :=
  let marked := (messages.map Message.systemMarks).sum
  if 0 < marked then marked else min 1 (messages.map systemTexts).sum

def messageMarks (messages : List (Message J)) : Nat :=
  let sent := messages.filter Message.sent
  (messages.map ownMarks).sum + ((sent.drop (sent.length - 3)).map tailMark).sum

def toolMarks (tools : List (ToolSpec J)) : Nat := min 1 tools.length

/-! ## System -/

section System

variable {m : Message J} {blocks : List (String × Bool)}

theorem length_systemBlocks : m.systemBlocks.length = m.systemTexts := by
  obtain ⟨role, content⟩ := m
  cases role <;> cases content
  case system.parts parts =>
    refine length_filterMap_eq_countP.trans (countP_congr fun part _ => ?_)
    cases part <;> simp [systemBlock, isText]
  all_goals rfl

theorem countP_systemBlocks : m.systemBlocks.countP (·.2) = m.systemMarks := by
  obtain ⟨role, content⟩ := m
  cases role <;> cases content
  case system.parts parts =>
    refine (countP_filterMap ..).trans (countP_congr fun part _ => ?_)
    cases part <;> simp [systemBlock, marked]
  all_goals rfl

theorem countP_systemBody : (systemBody (J := J) blocks).elim 0 (·.countP Block.marked) =
    if 0 < blocks.countP (·.2) then blocks.countP (·.2) else min 1 blocks.length := by
  cases blocks with
  | nil => rfl
  | cons first rest =>
    rw [systemBody]
    by_cases hany : (first :: rest).any (·.2)
    · have hpos : 0 < (first :: rest).countP (·.2) := by
        obtain ⟨block, hblock, hmarked⟩ := List.any_eq_true.1 hany
        exact countP_pos_iff.2 ⟨block, hblock, hmarked⟩
      rw [if_pos hany, if_pos hpos, Option.elim_some, countP_map]
      refine countP_congr fun block _ => ?_
      cases h : block.2 <;> simp [Block.marked, markIf, h]
    · have hzero : ¬ 0 < (first :: rest).countP (·.2) := by
        rw [countP_pos_iff]
        rintro ⟨block, hblock, hmarked⟩
        exact hany (List.any_eq_true.2 ⟨block, hblock, hmarked⟩)
      rw [if_neg hany, if_neg hzero]
      simp only [Option.elim_some, countP_cons]
      simp [Block.marked]

theorem marks_system {messages : List (Message J)} :
    (convertMessages messages).1.elim 0 (·.countP Block.marked) = systemMarks messages := by
  have hmarked : (messages.flatMap systemBlocks).countP (·.2) =
      (messages.map Message.systemMarks).sum := by
    rw [countP_flatMap]
    exact congrArg List.sum (map_congr_left fun _ _ => countP_systemBlocks)
  have hlength : (messages.flatMap systemBlocks).length = (messages.map systemTexts).sum := by
    rw [length_flatMap]
    exact congrArg List.sum (map_congr_left fun _ _ => length_systemBlocks)
  unfold convertMessages systemMarks
  rw [countP_systemBody, hmarked, hlength]

end System

/-! ## Messages -/

section Messages

variable {m : Message J} {messages : List (Message J)}

theorem convert_isSome : m.convert.isSome = m.sent := by
  obtain ⟨role, content⟩ := m
  cases role <;> cases content <;> rfl

theorem marks_convert {out : AnthropicMessage J} (h : m.convert = some out) :
    out.content.marks = m.ownMarks := by
  obtain ⟨role, content⟩ := m
  cases role <;> cases content
  case assistant.parts parts =>
    obtain rfl := some.inj h
    refine (countP_filterMap ..).trans (countP_congr fun part _ => ?_)
    cases part <;> simp [ContentPart.assistantBlock, marked, Block.marked]
  case tool.parts parts =>
    obtain rfl := some.inj h
    refine (countP_filterMap ..).trans (countP_eq_zero.2 fun part _ => ?_)
    cases part <;> simp [toolBlock, Block.marked]
  all_goals cases h <;> rfl

theorem countP_pinLast {blocks : List (Block J)} : (pinLast blocks).countP Block.marked =
    blocks.countP Block.marked + blocks.getLast?.elim 0 fun last => if last.marked then 0 else 1 := by
  induction blocks with
  | nil => rfl
  | cons block blocks ih =>
    cases blocks with
    | nil =>
      have hpinned : Block.marked { block with cacheControl := some .ephemeral } := rfl
      simp only [countP_cons, getLast?_singleton, Option.elim_some, hpinned, if_true]
      split <;> rfl
    | cons next blocks =>
      rw [getLast?_cons_cons, pinLast, countP_cons, countP_cons]
      omega

theorem getLast?_filterMap_elim {α β : Type} {f : α → Option β} {w : β → Nat} {l : List α} :
    (l.filterMap f).getLast?.elim 0 w =
      (l.reverse.find? fun a => (f a).isSome).elim 0 fun a => (f a).elim 0 w := by
  rw [getLast?_filterMap]
  induction l.reverse with
  | nil => rfl
  | cons a l ih =>
    cases hf : f a with
    | none => simpa [hf] using ih
    | some b => simp [hf]

theorem find?_isToolResult {parts : List (ContentPart J)} :
    ((parts.reverse.find? fun part => part.toolBlock.isSome).elim 0 fun part =>
      part.toolBlock.elim 0 fun last : Block J => if last.marked then 0 else 1) =
      if parts.any isToolResult then 1 else 0 := by
  rw [← any_reverse]
  induction parts.reverse with
  | nil => rfl
  | cons part parts ih =>
    cases part with
    | toolResult => rfl
    | text | toolUse => simpa [toolBlock, isToolResult] using ih

theorem marks_pin {out : AnthropicMessage J} (h : m.convert = some out) :
    out.content.pin.marks = m.ownMarks + m.tailMark := by
  rw [← marks_convert h]
  obtain ⟨role, content⟩ := m
  cases role <;> cases content
  case assistant.parts parts =>
    obtain rfl := some.inj h
    refine countP_pinLast.trans (congrArg _ (getLast?_filterMap_elim.trans ?_))
    have hsent : (fun part : ContentPart J => part.assistantBlock.isSome) =
        fun part => ! part.isToolResult := by
      funext part
      cases part <;> rfl
    rw [hsent]
    have htail : tailMark ⟨.assistant, .parts parts⟩ =
        (parts.reverse.find? (! ·.isToolResult)).elim 0 fun last => if last.marked then 0 else 1 := rfl
    rw [htail]
    cases hlast : parts.reverse.find? (! ·.isToolResult) with
    | none => rfl
    | some last =>
      cases last with
      | text | toolUse => rfl
      | toolResult => cases find?_some hlast
  case tool.parts parts =>
    obtain rfl := some.inj h
    refine countP_pinLast.trans (congrArg _ (getLast?_filterMap_elim.trans ?_))
    exact find?_isToolResult
  all_goals cases h <;> rfl

theorem drop_filterMap {α β : Type} {f : α → Option β} {l : List α} {n : Nat} :
    (l.filterMap f).drop n = ((l.filter fun a => (f a).isSome).drop n).filterMap f := by
  induction l generalizing n with
  | nil => simp
  | cons a l ih =>
    cases hf : f a with
    | none => simp [hf, ih]
    | some b =>
      cases n with
      | zero =>
        have hrest := @ih 0
        simpa [hf] using hrest
      | succ n => simp [hf, ih]

theorem sum_filterMap {α β : Type} {f : α → Option β} {w : β → Nat} {v : α → Nat} {l : List α}
    (h : ∀ a ∈ l, ∀ b, f a = some b → w b = v a) (hnone : ∀ a ∈ l, f a = none → v a = 0) :
    ((l.filterMap f).map w).sum = (l.map v).sum := by
  induction l with
  | nil => rfl
  | cons a l ih =>
    have hrest := ih (fun a ha => h a (mem_cons_of_mem _ ha))
      fun a ha => hnone a (mem_cons_of_mem _ ha)
    cases hf : f a with
    | none => simp [hf, hrest, hnone a mem_cons_self hf]
    | some b => simp [hf, hrest, h a mem_cons_self b hf]

theorem ownMarks_of_convert (h : m.convert = none) : m.ownMarks = 0 := by
  obtain ⟨role, content⟩ := m
  cases role <;> cases content <;> first | rfl | cases h

theorem marks_messages :
    ((convertMessages messages).2.map (·.content.marks)).sum = messageMarks messages := by
  have hsent : (fun m : Message J => m.convert.isSome) = sent := funext fun _ => convert_isSome
  have hlength : (messages.filterMap convert).length = (messages.filter sent).length := by
    rw [length_filterMap_eq_countP, hsent, countP_eq_length_filter]
  have htail (n : Nat) : (messages.filterMap convert).drop n =
      ((messages.filter sent).drop n).filterMap convert := by
    rw [drop_filterMap, hsent]
  have hsome {n : Nat} : ∀ m ∈ (messages.filter sent).drop n, m.convert ≠ none := by
    intro m hm hnone
    have hm' := (mem_filter.1 (mem_of_mem_drop hm)).2
    rw [← convert_isSome, hnone] at hm'
    cases hm'
  have hall : ((messages.filterMap convert).map (·.content.marks)).sum =
      (messages.map ownMarks).sum :=
    sum_filterMap (fun _ _ _ h => marks_convert h) fun _ _ h => ownMarks_of_convert h
  unfold convertMessages pinTail messageMarks
  simp only [hlength]
  generalize (messages.filter sent).length - 3 = n
  have hown : (((messages.filterMap convert).drop n).map (·.content.marks)).sum =
      (((messages.filter sent).drop n).map ownMarks).sum := by
    rw [htail]
    exact sum_filterMap (fun _ _ _ h => marks_convert h) fun m hm h => absurd h (hsome m hm)
  have hpinned : (((messages.filterMap convert).drop n).map (·.content.pin.marks)).sum =
      (((messages.filter sent).drop n).map fun m => m.ownMarks + m.tailMark).sum := by
    rw [htail]
    exact sum_filterMap (fun _ _ _ h => marks_pin h) fun m hm h => absurd h (hsome m hm)
  rw [← take_append_drop n (messages.filterMap convert), map_append, sum_append] at hall
  rw [sum_map_add] at hpinned
  rw [map_append, sum_append, List.map_map]
  simp only [Function.comp_def]
  omega

end Messages

/-! ## Tools -/

theorem countP_pinLastTool {tools : List (WireTool J)} (h : tools.all (! ·.cacheControl.isSome)) :
    (pinLastTool tools).countP (·.cacheControl.isSome) = min 1 tools.length := by
  induction tools with
  | nil => rfl
  | cons tool tools ih =>
    rw [all_cons, Bool.and_eq_true] at h
    cases tools with
    | nil => rfl
    | cons next tools =>
      rw [pinLastTool, countP_cons, ih h.2]
      have htool : ¬ tool.cacheControl.isSome = true := by simpa using h.1
      rw [if_neg htool]
      simp

theorem marks_tools {tools : List (ToolSpec J)} :
    (convertTools tools).countP (·.cacheControl.isSome) = toolMarks tools := by
  unfold convertTools toolMarks
  rw [countP_pinLastTool (by simp), length_map]

/-! ## The limit -/

theorem bodyMarks_eq {messages : List (Message J)} {tools : List (ToolSpec J)} :
    bodyMarks messages tools = systemMarks messages + messageMarks messages + toolMarks tools := by
  unfold bodyMarks
  simp only
  rw [marks_system, marks_messages, marks_tools]

/-- A request stays within four breakpoints exactly when the marks of its system texts (one, if they
have none), those of its messages and the one of its tools do. -/
theorem bodyMarks_le_iff (messages : List (Message J)) (tools : List (ToolSpec J)) :
    bodyMarks messages tools ≤ MAX_CACHE_BREAKPOINTS ↔
      systemMarks messages + messageMarks messages + toolMarks tools ≤ MAX_CACHE_BREAKPOINTS := by
  rw [bodyMarks_eq]

/-- A prompt, a tool and three messages: five. -/
theorem not_bodyMarks_le : ¬ ∀ (messages : List (Message Unit)) (tools : List (ToolSpec Unit)),
    (messages.map Message.systemMarks).sum ≤ MAX_CACHE_BREAKPOINTS →
      bodyMarks messages tools ≤ MAX_CACHE_BREAKPOINTS := by
  intro h
  have hfive := h [⟨.system, .text "You are ada."⟩, ⟨.user, .text "hello"⟩,
    ⟨.assistant, .text "hi"⟩, ⟨.user, .text "deploy"⟩] [⟨"shell", "runs a command", ()⟩] (by decide)
  revert hfive
  decide

end Aeqi.Providers
