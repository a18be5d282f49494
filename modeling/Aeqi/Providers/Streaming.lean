import Aeqi.Lib.Text

/-!
# Replies of Anthropic (`anthropic.rs`)

What `chat` makes of a reply in one JSON body, and what `chat_stream` makes of the same reply in
server-sent events. Parsing is a parameter: the JSON of a `data:` line is the frame that the types
of the stream see in it, and the input of a tool is a value of an arbitrary type `J`. Requests,
errors of the transport and the logging are left out.
-/

namespace Aeqi.Providers

/-! ## A reply in one body -/

inductive StopReason
  | endTurn
  | toolUse
  | maxTokens
  | unknown (other : String)

def StopReason.ofApi : Option String → StopReason
  | some "end_turn" => .endTurn
  | some "tool_use" => .toolUse
  | some "max_tokens" => .maxTokens
  | some other => .unknown other
  | none => .endTurn

structure Usage where
  promptTokens : Nat := 0
  completionTokens : Nat := 0
  cacheCreationInputTokens : Nat := 0
  cacheReadInputTokens : Nat := 0

structure AnthropicUsage where
  inputTokens : Nat
  outputTokens : Nat
  cacheCreationInputTokens : Nat := 0
  cacheReadInputTokens : Nat := 0

section Chat

variable (J : Type)

structure ToolCall where
  id : String
  name : String
  arguments : J

structure ChatResponse where
  content : Option String
  toolCalls : List (ToolCall J)
  usage : Usage
  stopReason : StopReason

inductive AnthropicContent
  | text (text : String)
  | toolUse (id name : String) (input : J)

structure AnthropicResponse where
  content : List (AnthropicContent J)
  usage : AnthropicUsage
  stopReason : Option String

variable {J}

def AnthropicContent.text? : AnthropicContent J → Option String
  | .text body => some body
  | .toolUse .. => none

def AnthropicContent.toolCall? : AnthropicContent J → Option (ToolCall J)
  | .text _ => none
  | .toolUse id name input => some ⟨id, name, input⟩

/-- What `chat` returns; each text takes the place of the one before. -/
def chat (api : AnthropicResponse J) : ChatResponse J where
  content := (api.content.filterMap (·.text?)).getLast?
  toolCalls := api.content.filterMap (·.toolCall?)
  usage := {
    promptTokens := api.usage.inputTokens
    completionTokens := api.usage.outputTokens
    cacheCreationInputTokens := api.usage.cacheCreationInputTokens
    cacheReadInputTokens := api.usage.cacheReadInputTokens }
  stopReason := .ofApi api.stopReason

end Chat

/-! ## Frames -/

/-- A count of a JSON object. -/
inductive Count
  | missing
  | null
  | value (tokens : Nat)
deriving DecidableEq

def Count.required : Count → Option Nat
  | .missing => none
  | .null => none
  | .value tokens => some tokens

/-- `#[serde(default)]` stands for a count that is missing, not for one that is null. -/
def Count.orDefault : Count → Option Nat
  | .missing => some 0
  | .null => none
  | .value tokens => some tokens

/-- The `usage` of an event. -/
structure UsageFields where
  inputTokens : Count := .missing
  outputTokens : Count := .missing
  cacheCreationInputTokens : Count := .missing
  cacheReadInputTokens : Count := .missing
deriving DecidableEq

def UsageFields.decode (u : UsageFields) : Option AnthropicUsage := do
  let inputTokens ← u.inputTokens.required
  let outputTokens ← u.outputTokens.required
  let cacheCreationInputTokens ← u.cacheCreationInputTokens.orDefault
  let cacheReadInputTokens ← u.cacheReadInputTokens.orDefault
  return { inputTokens, outputTokens, cacheCreationInputTokens, cacheReadInputTokens }

def decodeUsage : Option UsageFields → Option (Option AnthropicUsage)
  | none => some none
  | some u => u.decode.map some

inductive SseContentBlock
  | text (text : String)
  | toolUse (id name : String)
deriving DecidableEq

inductive SseDelta
  | textDelta (text : String)
  | inputJsonDelta (partialJson : String)
deriving DecidableEq

inductive SseFrame
  | messageStart (usage : Option UsageFields)
  | contentBlockStart (index : Nat) (contentBlock : SseContentBlock)
  | contentBlockDelta (index : Nat) (delta : SseDelta)
  | contentBlockStop (index : Nat)
  | messageDelta (stopReason : Option String) (usage : Option UsageFields)
  | messageStop
  | ping
  /-- Another type, or not what the type says. -/
  | other
deriving DecidableEq

/-! ## The stream -/

inductive BlockAccum
  | text (text : String)
  | toolUse (id name inputJson : String)

section Stream

variable (J : Type)

inductive StreamEvent
  | textDelta (text : String)
  | toolUseStart (id name : String)
  | toolUseInput (partialJson : String)
  | toolUseComplete (id name : String) (arguments : J)
  | messageComplete (response : ChatResponse J)
  | usage (usage : Usage)

/-- `buffer` is the line that has not ended yet. -/
structure StreamState where
  buffer : List Char := []
  blocks : List BlockAccum := []
  usage : Usage := {}
  stopReason : StopReason := .endTurn
  sent : List (StreamEvent J) := []

/-- `from_str` on the JSON of a frame and on the input of a tool, and the empty object. -/
structure Parser where
  frame : String → Option SseFrame
  value : String → Option J
  emptyObject : J

variable {J} (parser : Parser J) (s : StreamState J)

def Parser.arguments (inputJson : String) : J := (parser.value inputJson).getD parser.emptyObject

namespace StreamState

def send (event : StreamEvent J) : StreamState J := { s with sent := s.sent ++ [event] }

def padded (index : Nat) : List BlockAccum :=
  s.blocks ++ List.replicate (index + 1 - s.blocks.length) (.text "")

def startBlock (index : Nat) : SseContentBlock → StreamState J
  | .text text => { s with blocks := (s.padded index).set index (.text text) }
  | .toolUse id name =>
    { s.send (.toolUseStart id name) with
      blocks := (s.padded index).set index (.toolUse id name "") }

def extend : SseDelta → BlockAccum → BlockAccum
  | .textDelta text, .text accum => .text (accum ++ text)
  | .inputJsonDelta partialJson, .toolUse id name inputJson =>
    .toolUse id name (inputJson ++ partialJson)
  | _, block => block

def applyDelta (index : Nat) (delta : SseDelta) : StreamState J :=
  let event : StreamEvent J :=
    match delta with
    | .textDelta text => .textDelta text
    | .inputJsonDelta partialJson => .toolUseInput partialJson
  { s.send event with blocks := s.blocks.modify index (extend delta) }

def stopBlock (index : Nat) : StreamState J :=
  match s.blocks[index]? with
  | some (.toolUse id name inputJson) =>
    s.send (.toolUseComplete id name (parser.arguments inputJson))
  | _ => s

def processFrame : SseFrame → StreamState J
  | .messageStart usage =>
    match decodeUsage usage with
    | some (some u) =>
      let usage := { s.usage with promptTokens := u.inputTokens, completionTokens := u.outputTokens }
      { s with usage }.send (.usage usage)
    | _ => s
  | .contentBlockStart index contentBlock => s.startBlock index contentBlock
  | .contentBlockDelta index delta => s.applyDelta index delta
  | .contentBlockStop index => s.stopBlock parser index
  | .messageDelta stopReason usage =>
    match decodeUsage usage with
    | none => s
    | some none => { s with stopReason := .ofApi stopReason }
    | some (some u) =>
      let usage := { s.usage with completionTokens := u.outputTokens }
      { s with stopReason := .ofApi stopReason, usage }.send (.usage usage)
  | .messageStop => s
  | .ping => s
  | .other => s

end StreamState

def dataPrefix : List Char := "data: ".toList

/-- One line, and whether the loop over the lines of the chunk is left. -/
def processLine (line : List Char) : StreamState J × Bool :=
  let line := line.rdropWhile (· = '\r')
  if line = [] ∨ "event:".toList <+: line then (s, false)
  else if ¬ dataPrefix <+: line then (s, false)
  else
    let data := String.ofList (line.drop dataPrefix.length)
    if data = "[DONE]" then (s, true)
    else
      match parser.frame data with
      | none => (s, false)
      | some frame => (s.processFrame parser frame, false)

/-- The complete lines of a text that goes on behind `line`. -/
def processText : List Char → List Char → StreamState J → StreamState J
  | line, [], s => { s with buffer := line }
  | line, c :: text, s =>
    if c = '\n' then
      let next := processLine parser s line
      if next.2 then { next.1 with buffer := text } else processText [] text next.1
    else processText (line ++ [c]) text s

def processChunk (chunk : List UInt8) : StreamState J :=
  processText parser [] (s.buffer ++ Lib.Utf8.fromUtf8Lossy chunk) s

def BlockAccum.text? : BlockAccum → Option String
  | .text accum => if accum = "" then none else some accum
  | .toolUse .. => none

def BlockAccum.toolCall? : BlockAccum → Option (ToolCall J)
  | .text _ => none
  | .toolUse id name inputJson => some ⟨id, name, parser.arguments inputJson⟩

/-- The response at the end; each text that is not empty takes the place of the one before. -/
def StreamState.response : ChatResponse J where
  content := (s.blocks.filterMap (·.text?)).getLast?
  toolCalls := s.blocks.filterMap (·.toolCall? parser)
  usage := s.usage
  stopReason := s.stopReason

def streamState (chunks : List (List UInt8)) : StreamState J :=
  chunks.foldl (processChunk parser) {}

/-- The events that `chat_stream` sends for the chunks of a body. -/
def chatStream (chunks : List (List UInt8)) : List (StreamEvent J) :=
  let s := streamState parser chunks
  s.sent ++ [.messageComplete (s.response parser)]

end Stream

end Aeqi.Providers
