import Aeqi.Providers.Streaming

/-!
# One reply, in one body and in events

A reply that is sent in events is read from the stream as `chat` reads it from one body only when
nothing was cached, when the counts of the last event can be decoded, and when its last text is
the only one that is not empty. The body of the stream is any way to write the events in lines,
cut between any two characters.
-/

namespace Aeqi.Providers

open Lib List Option
open StreamState (applyDelta padded processFrame response send startBlock stopBlock)

variable {J : Type} {parser : Parser J} {s : StreamState J}

/-! ## Lines and chunks -/

section Lines

/-- A line of the body, without its end. -/
inductive Line
  | data (json : String)
  /-- An event's name, a comment, or nothing. -/
  | skipped (text : List Char)

def Line.text : Line → List Char
  | .data json => dataPrefix ++ json.toList
  | .skipped text => text

def Line.frame? (parser : Parser J) : Line → Option SseFrame
  | .data json => parser.frame json
  | .skipped _ => none

/-- The JSON of a data line is that of a frame, and the other lines are none. -/
def Line.Legal (parser : Parser J) : Line → Prop
  | .data json => (parser.frame json).isSome
  | .skipped text => ¬ dataPrefix <+: text

instance Line.decidableLegal (parser : Parser J) : (l : Line) → Decidable (l.Legal parser)
  | .data json => inferInstanceAs (Decidable ((parser.frame json).isSome))
  | .skipped text => inferInstanceAs (Decidable (¬ dataPrefix <+: text))

/-- A line as it is sent; some senders end it with a carriage return. -/
structure WireLine where
  line : Line
  carriage : Bool
  noBreak : '\n' ∉ line.text
  noCarriage : '\r' ∉ line.text

def WireLine.wire (l : WireLine) : List Char :=
  l.line.text ++ (if l.carriage then ['\r'] else []) ++ ['\n']

/-- No line that ends in a text that goes on behind `line` leaves the loop. -/
def Undone (parser : Parser J) : List Char → List Char → Prop
  | _, [] => True
  | line, c :: text =>
    if c = '\n' then (∀ s, (processLine parser s line).2 = false) ∧ Undone parser [] text
    else Undone parser (line ++ [c]) text

variable {line text more : List Char} {frame : SseFrame} {buffer : List Char}

theorem processFrame_buffer : { s with buffer }.processFrame parser frame =
    { s.processFrame parser frame with buffer } := by
  cases frame with
  | messageStart usage | messageDelta stopReason usage => cases h : decodeUsage usage with
    | none => simp [processFrame, h]
    | some u => cases u <;> simp only [processFrame, h, send]
  | contentBlockStart index contentBlock => cases contentBlock <;> rfl
  | contentBlockStop index =>
    simp only [processFrame, stopBlock]
    split <;> rfl
  | contentBlockDelta | messageStop | ping | other => rfl

theorem processLine_buffer : processLine parser { s with buffer } line =
    ({ (processLine parser s line).1 with buffer }, (processLine parser s line).2) := by
  unfold processLine
  simp only
  split
  · rfl
  · split
    · rfl
    · split
      · rfl
      · split
        · rfl
        · rw [processFrame_buffer]

/-- What is in the buffer plays no part in the text that goes on behind `line`. -/
theorem processText_buffer : processText parser line text { s with buffer } =
    processText parser line text s := by
  induction text generalizing line s buffer with
  | nil => rfl
  | cons c text ih =>
    simp only [processText, processLine_buffer]
    split
    · split
      · rfl
      · exact ih
    · exact ih

theorem processText_append (h : Undone parser line text) :
    processText parser line (text ++ more) s =
      processText parser (processText parser line text s).buffer more
        (processText parser line text s) := by
  induction text generalizing line s with
  | nil => exact processText_buffer.symm
  | cons c text ih =>
    simp only [cons_append, processText]
    unfold Undone at h
    by_cases hc : c = '\n'
    · rw [if_pos hc] at h
      simp only [if_pos hc, h.1 s]
      exact ih h.2
    · rw [if_neg hc] at h
      simp only [if_neg hc]
      exact ih h

theorem Undone.left (h : Undone parser line (text ++ more)) : Undone parser line text := by
  induction text generalizing line with
  | nil => trivial
  | cons c text ih =>
    simp only [cons_append, Undone] at h ⊢
    by_cases hc : c = '\n'
    · rw [if_pos hc] at h ⊢
      exact ⟨h.1, ih h.2⟩
    · rw [if_neg hc] at h ⊢
      exact ih h

theorem processText_open (h : '\n' ∉ text) :
    processText parser line (text ++ more) s = processText parser (line ++ text) more s := by
  induction text generalizing line with
  | nil => rw [append_nil, nil_append]
  | cons c text ih =>
    have hc : c ≠ '\n' := fun e => h (e ▸ mem_cons_self)
    rw [cons_append, processText, if_neg hc, ih (fun hmem => h (mem_cons_of_mem _ hmem)),
      List.append_assoc, singleton_append]

theorem Undone.open (h : '\n' ∉ text) :
    Undone parser line (text ++ more) ↔ Undone parser (line ++ text) more := by
  induction text generalizing line with
  | nil => rw [append_nil, nil_append]
  | cons c text ih =>
    have hc : c ≠ '\n' := fun e => h (e ▸ mem_cons_self)
    rw [cons_append, Undone, if_neg hc, ih (fun hmem => h (mem_cons_of_mem _ hmem)),
      List.append_assoc, singleton_append]

theorem buffer_noBreak (h : '\n' ∉ line) (hdone : Undone parser line text) :
    '\n' ∉ (processText parser line text s).buffer := by
  induction text generalizing line s with
  | nil => exact h
  | cons c text ih =>
    simp only [processText]
    unfold Undone at hdone
    by_cases hc : c = '\n'
    · rw [if_pos hc] at hdone
      simp only [if_pos hc, hdone.1 s]
      exact ih not_mem_nil hdone.2
    · rw [if_neg hc] at hdone
      simp only [if_neg hc]
      refine ih ?_ hdone
      rw [mem_append, mem_singleton]
      exact not_or.mpr ⟨h, fun e => hc e.symm⟩

theorem foldl_processChunk {texts : List (List Char)} {read : List Char}
    (h : Undone parser [] (read ++ texts.flatten)) :
    (texts.map Utf8.encode).foldl (processChunk parser) (processText parser [] read s) =
      processText parser [] (read ++ texts.flatten) s := by
  induction texts generalizing read with
  | nil => simp
  | cons chunk texts ih =>
    rw [flatten_cons, ← List.append_assoc] at h ⊢
    have hread : Undone parser [] read := h.left.left
    have hchunk : processChunk parser (processText parser [] read s) (Utf8.encode chunk) =
        processText parser [] (read ++ chunk) s := by
      rw [processChunk, Utf8.fromUtf8Lossy_encode,
        processText_open (buffer_noBreak not_mem_nil hread), nil_append,
        processText_append hread]
    rw [map_cons, foldl_cons, hchunk, ih h]

theorem trimEnd_wire (l : WireLine) :
    (l.line.text ++ if l.carriage then ['\r'] else []).rdropWhile (· = '\r') = l.line.text := by
  have hkeep : l.line.text.rdropWhile (· = '\r') = l.line.text := by
    rw [rdropWhile_eq_self_iff]
    intro hne hlast
    exact l.noCarriage (of_decide_eq_true hlast ▸ getLast_mem hne)
  cases l.carriage with
  | false => rw [if_neg Bool.false_ne_true, append_nil, hkeep]
  | true =>
    rw [if_pos rfl, rdropWhile_concat_pos (fun c => decide (c = '\r')) _ _ (by decide), hkeep]

theorem processLine_wire {l : WireLine} (h : l.line.Legal parser)
    (hdone : parser.frame "[DONE]" = none) :
    processLine parser s (l.line.text ++ if l.carriage then ['\r'] else []) =
      ((l.line.frame? parser).elim s (s.processFrame parser), false) := by
  unfold processLine
  simp only [trimEnd_wire]
  cases hl : l.line with
  | skipped text =>
    rw [hl] at h
    have hnot : ¬ dataPrefix <+: text := h
    rw [Line.text, if_pos hnot, ite_self]
    rfl
  | data json =>
    rw [hl] at h
    obtain ⟨frame, hframe⟩ := isSome_iff_exists.mp h
    have hnot : ¬ (dataPrefix ++ json.toList = [] ∨
        "event:".toList <+: dataPrefix ++ json.toList) := by
      rintro (hnil | ⟨rest, hevent⟩)
      · exact cons_ne_nil _ _ hnil
      · have hfirst := (List.cons.inj hevent).1
        exact nomatch hfirst
    have hjson : json ≠ "[DONE]" := by
      intro e
      rw [e, hdone] at hframe
      cases hframe
    simp only [Line.text, if_neg hnot, prefix_append, not_true, if_false,
      drop_left, String.ofList_toList, if_neg hjson, Line.frame?, hframe, Option.elim]

def frames (parser : Parser J) (body : List WireLine) : List SseFrame :=
  body.filterMap (·.line.frame? parser)

def bodyText (body : List WireLine) : List Char := body.flatMap WireLine.wire

variable {body : List WireLine}

theorem wire_cons (l : WireLine) : bodyText (l :: body) =
    (l.line.text ++ if l.carriage then ['\r'] else []) ++ '\n' :: bodyText body := by
  rw [bodyText, flatMap_cons, WireLine.wire, List.append_assoc]
  rfl

theorem noBreak_wire (l : WireLine) :
    '\n' ∉ (l.line.text ++ if l.carriage then ['\r'] else []) := by
  rw [mem_append]
  refine not_or.mpr ⟨l.noBreak, ?_⟩
  cases l.carriage <;> decide

theorem undone_body (hbody : ∀ l ∈ body, l.line.Legal parser)
    (hdone : parser.frame "[DONE]" = none) : Undone parser [] (bodyText body) := by
  induction body with
  | nil => trivial
  | cons l body ih =>
    rw [wire_cons, Undone.open (noBreak_wire l), nil_append]
    refine ⟨fun s => ?_, ih fun l' hl' => hbody l' (mem_cons_of_mem _ hl')⟩
    rw [processLine_wire (hbody l mem_cons_self) hdone]

theorem processText_body (hbody : ∀ l ∈ body, l.line.Legal parser)
    (hdone : parser.frame "[DONE]" = none) : processText parser [] (bodyText body) s =
      { (frames parser body).foldl (processFrame parser) s with buffer := [] } := by
  induction body generalizing s with
  | nil => rfl
  | cons l body ih =>
    have hline := processLine_wire (s := s) (hbody l mem_cons_self) hdone
    rw [wire_cons, processText_open (noBreak_wire l), nil_append, processText]
    simp only [hline]
    rw [ih fun l' hl' => hbody l' (mem_cons_of_mem _ hl')]
    simp only [frames, filterMap_cons]
    cases l.line.frame? parser <;> rfl

def WholeCharacters (chunks : List (List UInt8)) : Prop :=
  ∀ chunk ∈ chunks, ∃ text, chunk = Utf8.encode text

theorem texts_of_whole {chunks : List (List UInt8)} (h : WholeCharacters chunks) :
    ∃ texts : List (List Char), chunks = texts.map Utf8.encode := by
  induction chunks with
  | nil => exact ⟨[], rfl⟩
  | cons chunk chunks ih =>
    obtain ⟨text, htext⟩ := h chunk mem_cons_self
    obtain ⟨texts, htexts⟩ := ih fun c hc => h c (mem_cons_of_mem _ hc)
    exact ⟨text :: texts, by rw [map_cons, htext, htexts]⟩

theorem flatten_encode (texts : List (List Char)) :
    (texts.map Utf8.encode).flatten = Utf8.encode texts.flatten := by
  induction texts with
  | nil => rfl
  | cons text texts ih => rw [map_cons, flatten_cons, flatten_cons, ih, Utf8.encode_append]

theorem streamState_body {chunks : List (List UInt8)} (hbody : ∀ l ∈ body, l.line.Legal parser)
    (hdone : parser.frame "[DONE]" = none) (hchunks : chunks.flatten = Utf8.encode (bodyText body))
    (hwhole : WholeCharacters chunks) : streamState parser chunks =
      { (frames parser body).foldl (processFrame parser) {} with buffer := [] } := by
  obtain ⟨texts, rfl⟩ := texts_of_whole hwhole
  have htexts : texts.flatten = bodyText body := by
    rw [flatten_encode] at hchunks
    rw [← @Utf8.fromUtf8Lossy_encode texts.flatten, hchunks, Utf8.fromUtf8Lossy_encode]
  have hundone := undone_body hbody hdone
  rw [← htexts] at hundone
  have hfold := @foldl_processChunk J parser {} texts [] hundone
  rw [nil_append, htexts, processText_body hbody hdone] at hfold
  exact hfold

end Lines

/-! ## Decompositions -/

section Decomposition

def joined (start : String) (pieces : List String) : String := pieces.foldl (· ++ ·) start

/-- How a block is sent: what is at its start, and the pieces behind it. -/
inductive BlockSplit
  | text (start : String) (deltas : List String)
  | toolUse (id name : String) (pieces : List String)

def BlockSplit.frames (index : Nat) : BlockSplit → List SseFrame
  | .text start deltas =>
    .contentBlockStart index (.text start) ::
      (deltas.map (.contentBlockDelta index <| .textDelta ·) ++ [.contentBlockStop index])
  | .toolUse id name pieces =>
    .contentBlockStart index (.toolUse id name) ::
      (pieces.map (.contentBlockDelta index <| .inputJsonDelta ·) ++ [.contentBlockStop index])

def blockFrames : Nat → List BlockSplit → List SseFrame
  | _, [] => []
  | index, b :: blocks => b.frames index ++ blockFrames (index + 1) blocks

structure Decomposition where
  startUsage : UsageFields
  blocks : List BlockSplit
  deltaUsage : UsageFields

def Decomposition.frames (d : Decomposition) (stopReason : Option String) : List SseFrame :=
  .messageStart (some d.startUsage) :: (blockFrames 0 d.blocks ++
    [.messageDelta stopReason (some d.deltaUsage), .messageStop])

def SseFrame.silent : SseFrame → Bool
  | .ping => true
  | .other => true
  | _ => false

/-- The block, whole; an input that is the empty object may be sent as no text at all. -/
def Splits (parser : Parser J) : AnthropicContent J → BlockSplit → Prop
  | .text body, .text start deltas => joined start deltas = body
  | .toolUse id name input, .toolUse id' name' pieces => id' = id ∧ name' = name ∧
    (parser.value (joined "" pieces) = some input ∨
      joined "" pieces = "" ∧ input = parser.emptyObject)
  | _, _ => False

def Count.Tells (n : Nat) : Count → Prop
  | .value tokens => tokens = n
  | .missing => n = 0
  | .null => n = 0

/-- The count may be left out, as it has been sent before. -/
def Count.Repeats (n : Nat) : Count → Prop
  | .value tokens => tokens = n
  | .missing => True
  | .null => True

/-- The first usage has all counts but the output's last one, which the last usage has. -/
structure Decomposition.Legal (d : Decomposition) (parser : Parser J)
    (reply : AnthropicResponse J) : Prop where
  blocks : List.Forall₂ (Splits parser) reply.content d.blocks
  startInput : d.startUsage.inputTokens = .value reply.usage.inputTokens
  startOutput : d.startUsage.outputTokens ≠ .missing ∧ d.startUsage.outputTokens ≠ .null
  startCreation : d.startUsage.cacheCreationInputTokens.Tells reply.usage.cacheCreationInputTokens
  startRead : d.startUsage.cacheReadInputTokens.Tells reply.usage.cacheReadInputTokens
  deltaInput : d.deltaUsage.inputTokens.Repeats reply.usage.inputTokens
  deltaOutput : d.deltaUsage.outputTokens = .value reply.usage.outputTokens
  deltaCreation : d.deltaUsage.cacheCreationInputTokens.Repeats
    reply.usage.cacheCreationInputTokens
  deltaRead : d.deltaUsage.cacheReadInputTokens.Repeats reply.usage.cacheReadInputTokens

/-- A body in events for the reply. -/
structure Streams (parser : Parser J) (reply : AnthropicResponse J) (d : Decomposition)
    (body : List WireLine) : Prop where
  legal : d.Legal parser reply
  lines : ∀ l ∈ body, l.line.Legal parser
  frames : (frames parser body).filter (!·.silent) = d.frames reply.stopReason

def BlockSplit.accum : BlockSplit → BlockAccum
  | .text start deltas => .text (joined start deltas)
  | .toolUse id name pieces => .toolUse id name (joined "" pieces)

def BlockSplit.events (parser : Parser J) : BlockSplit → List (StreamEvent J)
  | .text _ deltas => deltas.map .textDelta
  | .toolUse id name pieces =>
    .toolUseStart id name :: (pieces.map .toolUseInput ++
      [.toolUseComplete id name (parser.arguments (joined "" pieces))])

variable {old : List BlockAccum} {accum : BlockAccum} {b : BlockSplit}
variable {blocks : List BlockSplit}

theorem foldl_silent {l : List SseFrame} : l.foldl (processFrame parser) s =
    (l.filter (!·.silent)).foldl (processFrame parser) s := by
  induction l generalizing s with
  | nil => rfl
  | cons frame l ih =>
    cases frame <;> exact ih

theorem set_padded : (s.padded s.blocks.length).set s.blocks.length accum = s.blocks ++ [accum] := by
  have hone : s.blocks.length + 1 - s.blocks.length = 1 := Nat.add_sub_cancel_left _ 1
  rw [padded, hone, set_append_right _ _ (by omega), Nat.sub_self]
  rfl

theorem modify_last {f : BlockAccum → BlockAccum} :
    (old ++ [accum]).modify old.length f = old ++ [f accum] := by
  induction old with
  | nil => rfl
  | cons first old ih => exact congrArg (first :: ·) ih

theorem foldl_deltas {g : String → BlockAccum} {delta : String → SseDelta}
    {event : String → StreamEvent J} {pieces : List String}
    (hdelta : ∀ (s : StreamState J) start piece, s.blocks = old ++ [g start] →
      s.applyDelta old.length (delta piece) =
        { s with blocks := old ++ [g (start ++ piece)], sent := s.sent ++ [event piece] })
    {start : String} (h : s.blocks = old ++ [g start]) :
    (pieces.map (.contentBlockDelta old.length <| delta ·)).foldl
        (processFrame parser) s =
      { s with
        blocks := old ++ [g (joined start pieces)]
        sent := s.sent ++ pieces.map event } := by
  induction pieces generalizing s start with
  | nil => simp [joined, ← h]
  | cons piece pieces ih =>
    rw [map_cons, foldl_cons, processFrame, hdelta s start piece h]
    refine (ih rfl).trans ?_
    simp [joined]

theorem foldl_textDelta {start : String} {deltas : List String}
    (h : s.blocks = old ++ [.text start]) :
    (deltas.map (.contentBlockDelta old.length <| .textDelta ·)).foldl
        (processFrame parser) s =
      { s with
        blocks := old ++ [.text (joined start deltas)]
        sent := s.sent ++ deltas.map .textDelta } := by
  refine foldl_deltas (g := .text) (fun s start piece h => ?_) h
  rw [applyDelta, h, modify_last]
  rfl

theorem foldl_inputJsonDelta {id name inputJson : String} {pieces : List String}
    (h : s.blocks = old ++ [.toolUse id name inputJson]) :
    (pieces.map (.contentBlockDelta old.length <| .inputJsonDelta ·)).foldl
        (processFrame parser) s =
      { s with
        blocks := old ++ [.toolUse id name (joined inputJson pieces)]
        sent := s.sent ++ pieces.map .toolUseInput } := by
  refine foldl_deltas (g := .toolUse id name) (fun s start piece h => ?_) h
  rw [applyDelta, h, modify_last]
  rfl

theorem foldl_block : (b.frames s.blocks.length).foldl (processFrame parser) s =
    { s with blocks := s.blocks ++ [b.accum], sent := s.sent ++ b.events parser } := by
  cases b with
  | text start deltas =>
    have hstart : (s.startBlock s.blocks.length (.text start)).blocks =
        s.blocks ++ [.text start] := set_padded
    rw [BlockSplit.frames, foldl_cons, foldl_append]
    simp only [processFrame]
    rw [foldl_textDelta hstart]
    simp only [foldl_cons, processFrame, stopBlock, getElem?_concat_length]
    rfl
  | toolUse id name pieces =>
    have hstart : (s.startBlock s.blocks.length (.toolUse id name)).blocks =
        s.blocks ++ [.toolUse id name ""] := set_padded
    rw [BlockSplit.frames, foldl_cons, foldl_append]
    simp only [processFrame]
    rw [foldl_inputJsonDelta hstart]
    simp [processFrame, stopBlock, startBlock, send, BlockSplit.accum, BlockSplit.events]

theorem foldl_blocks : (blockFrames s.blocks.length blocks).foldl
      (processFrame parser) s =
    { s with
      blocks := s.blocks ++ blocks.map (·.accum)
      sent := s.sent ++ blocks.flatMap (·.events parser) } := by
  induction blocks generalizing s with
  | nil => simp [blockFrames]
  | cons b blocks ih =>
    rw [blockFrames, foldl_append, foldl_block]
    have hnext := @ih { s with
      blocks := s.blocks ++ [b.accum], sent := s.sent ++ b.events parser }
    simp only [List.length_append, List.length_singleton] at hnext
    rw [hnext]
    simp

end Decomposition

/-! ## Agreement -/

section Agreement

def AnthropicResponse.texts (reply : AnthropicResponse J) : List String :=
  reply.content.filterMap (·.text?)

def StreamEvent.text? : StreamEvent J → Option String
  | .textDelta piece => some piece
  | _ => none

def StreamEvent.complete? : StreamEvent J → Option (ChatResponse J)
  | .messageComplete response => some response
  | _ => none

/-- The stream ends as `chat` does, and both have all that the reply says. -/
structure Agrees (parser : Parser J) (reply : AnthropicResponse J)
    (chunks : List (List UInt8)) : Prop where
  response : (chatStream parser chunks).filterMap (·.complete?) = [chat reply]
  content : ((chat reply).content.getD "").toList = reply.texts.flatMap (·.toList)
  deltas : ((chatStream parser chunks).filterMap (·.text?)).flatMap (·.toList) =
    reply.texts.flatMap (·.toList)

def BlockSplit.start : BlockSplit → String
  | .text start _ => start
  | .toolUse .. => ""

def BlockSplit.deltas : BlockSplit → List String
  | .text _ deltas => deltas
  | .toolUse .. => []

def Decomposition.startOutput (d : Decomposition) : Nat :=
  d.startUsage.decode.elim 0 (·.outputTokens)

/-- Replies and events that the two ways to read agree on. -/
structure Plain (reply : AnthropicResponse J) (d : Decomposition) : Prop where
  uncached : reply.usage.cacheCreationInputTokens = 0 ∧ reply.usage.cacheReadInputTokens = 0
  prompt : d.startUsage.decode.isSome ∨ reply.usage.inputTokens = 0
  completion : d.deltaUsage.decode.isSome ∨ d.startOutput = reply.usage.outputTokens
  stop : d.deltaUsage.decode.isSome ∨ StopReason.ofApi reply.stopReason = .endTurn
  lastText : ∀ init last, reply.texts = init ++ [last] → last ≠ "" ∧ ∀ t ∈ init, t = ""
  starts : ∀ b ∈ d.blocks, b.start = ""

variable {reply : AnthropicResponse J} {d : Decomposition} {texts : List String}
variable {body : List WireLine} {chunks : List (List UInt8)}

theorem toList_joined {start : String} {pieces : List String} :
    (joined start pieces).toList = start.toList ++ pieces.flatMap (·.toList) := by
  induction pieces generalizing start with
  | nil => exact (append_nil _).symm
  | cons piece pieces ih =>
    refine ih.trans ?_
    rw [String.toList_append, List.append_assoc, flatMap_cons]

section Blocks

variable {text id name inputJson : String} {pieces : List String} {input : J}

@[simp] theorem AnthropicContent.text?_text :
    (AnthropicContent.text text : AnthropicContent J).text? = some text := rfl

@[simp] theorem AnthropicContent.toolCall?_toolUse :
    (AnthropicContent.toolUse id name input).toolCall? = some ⟨id, name, input⟩ := rfl

@[simp] theorem BlockSplit.accum_text :
    (BlockSplit.text text pieces).accum = .text (joined text pieces) := rfl

@[simp] theorem BlockSplit.accum_toolUse :
    (BlockSplit.toolUse id name pieces).accum = .toolUse id name (joined "" pieces) := rfl

@[simp] theorem BlockAccum.text?_text :
    (BlockAccum.text text).text? = if text = "" then none else some text := rfl

@[simp] theorem BlockAccum.toolCall?_toolUse :
    (BlockAccum.toolUse id name inputJson).toolCall? parser =
      some ⟨id, name, parser.arguments inputJson⟩ := rfl

@[simp] theorem BlockSplit.deltas_text : (BlockSplit.text text pieces).deltas = pieces := rfl

@[simp] theorem BlockSplit.deltas_toolUse :
    (BlockSplit.toolUse id name pieces).deltas = [] := rfl

@[simp] theorem BlockSplit.start_text : (BlockSplit.text text pieces).start = text := rfl

end Blocks

theorem getLast?_nonempty : (texts.filter (· ≠ "")).getLast? = texts.getLast? ↔
    ∀ init last, texts = init ++ [last] → last ≠ "" := by
  constructor
  · rintro h init last rfl hlast
    rw [getLast?_concat] at h
    have hmem := (mem_filter.mp (mem_of_getLast? h)).2
    exact of_decide_eq_true hmem hlast
  · intro h
    rcases eq_nil_or_concat texts with rfl | ⟨init, last, rfl⟩
    · rfl
    · rw [concat_eq_append] at h ⊢
      have hlast := h init last rfl
      have hkept : [last].filter (· ≠ "") = [last] := filter_cons_of_pos (by simpa using hlast)
      rw [filter_append, hkept, getLast?_concat, getLast?_concat]

theorem flatMap_toList_eq_nil : texts.flatMap (·.toList) = [] ↔ ∀ t ∈ texts, t = "" := by
  rw [flatMap_eq_nil_iff]
  exact forall₂_congr fun t _ => String.toList_eq_nil_iff

theorem getLast?_toList : (texts.getLast?.getD "").toList = texts.flatMap (·.toList) ↔
    ∀ init last, texts = init ++ [last] → ∀ t ∈ init, t = "" := by
  constructor
  · rintro h init last rfl
    rw [getLast?_concat, flatMap_append, flatMap_singleton] at h
    exact flatMap_toList_eq_nil.mp (self_eq_append_left.mp h)
  · intro h
    rcases eq_nil_or_concat texts with rfl | ⟨init, last, rfl⟩
    · rfl
    · rw [concat_eq_append] at h ⊢
      rw [getLast?_concat, getD_some, flatMap_append, flatMap_singleton,
        flatMap_toList_eq_nil.mpr (h init last rfl), nil_append]

variable {content : List (AnthropicContent J)} {blocks : List BlockSplit}

theorem text?_accum (h : List.Forall₂ (Splits parser) content blocks) :
    (blocks.map (·.accum)).filterMap (·.text?) = (content.filterMap (·.text?)).filter (· ≠ "") := by
  induction h with
  | nil => rfl
  | @cons c b content blocks hcb _ ih =>
    cases c with
    | text text => cases b with
      | text start deltas =>
        have htext : joined start deltas = text := hcb
        by_cases hne : text = ""
        · simp [htext, hne, ih]
        · simp [htext, hne, ih]
      | toolUse => exact hcb.elim
    | toolUse => cases b with
      | text => exact hcb.elim
      | toolUse => exact ih

theorem toolCall?_accum (hempty : parser.value "" = none)
    (h : List.Forall₂ (Splits parser) content blocks) :
    (blocks.map (·.accum)).filterMap (·.toolCall? parser) = content.filterMap (·.toolCall?) := by
  induction h with
  | nil => rfl
  | @cons c b content blocks hcb _ ih =>
    cases c with
    | text => cases b with
      | text => exact ih
      | toolUse => exact hcb.elim
    | toolUse id name input => cases b with
      | text => exact hcb.elim
      | toolUse id' name' pieces =>
        obtain ⟨rfl, rfl, hinput⟩ := hcb
        have harguments : parser.arguments (joined "" pieces) = input := by
          rcases hinput with hvalue | ⟨hnone, rfl⟩
          · rw [Parser.arguments, hvalue, getD_some]
          · rw [Parser.arguments, hnone, hempty, getD_none]
        simp [harguments, ih]

theorem length_texts (h : List.Forall₂ (Splits parser) content blocks) :
    ((content.filterMap (·.text?)).flatMap (·.toList)).length =
      (blocks.flatMap (·.start.toList)).length +
        ((blocks.flatMap (·.deltas)).flatMap (·.toList)).length := by
  induction h with
  | nil => rfl
  | @cons c b content blocks hcb _ ih =>
    cases c with
    | text text => cases b with
      | text start deltas =>
        have htext : joined start deltas = text := hcb
        simp only [filterMap_cons, AnthropicContent.text?_text, flatMap_cons, ← htext,
          toList_joined, flatMap_append, List.length_append, BlockSplit.start_text,
          BlockSplit.deltas_text]
        omega
      | toolUse => exact hcb.elim
    | toolUse => cases b with
      | text => exact hcb.elim
      | toolUse => exact ih

theorem deltas_eq (h : List.Forall₂ (Splits parser) content blocks)
    (hstart : ∀ b ∈ blocks, b.start = "") :
    (blocks.flatMap (·.deltas)).flatMap (·.toList) =
      (content.filterMap (·.text?)).flatMap (·.toList) := by
  induction h with
  | nil => rfl
  | @cons c b content blocks hcb _ ih =>
    have ih' := ih fun b' hb' => hstart b' (mem_cons_of_mem _ hb')
    cases c with
    | text text => cases b with
      | text start deltas =>
        have htext : joined start deltas = text := hcb
        have hnone : start = "" := hstart _ mem_cons_self
        simp only [filterMap_cons, AnthropicContent.text?_text, flatMap_cons, ← htext,
          toList_joined, flatMap_append, ih', hnone]
        rfl
      | toolUse => exact hcb.elim
    | toolUse => cases b with
      | text => exact hcb.elim
      | toolUse => exact ih'

theorem deltas_iff (h : List.Forall₂ (Splits parser) content blocks) :
    (blocks.flatMap (·.deltas)).flatMap (·.toList) =
        (content.filterMap (·.text?)).flatMap (·.toList) ↔
      ∀ b ∈ blocks, b.start = "" := by
  refine ⟨fun heq => ?_, deltas_eq h⟩
  have hlength := length_texts h
  rw [← heq] at hlength
  have hnil : blocks.flatMap (·.start.toList) = [] :=
    eq_nil_of_length_eq_zero (by omega)
  rw [flatMap_eq_nil_iff] at hnil
  exact fun b hb => String.toList_eq_nil_iff.mp (hnil b hb)

theorem counts_of_decode {u : UsageFields} {read : AnthropicUsage} (h : u.decode = some read) :
    u.inputTokens = .value read.inputTokens ∧ u.outputTokens = .value read.outputTokens := by
  unfold UsageFields.decode at h
  cases hi : u.inputTokens with
  | missing | null => rw [hi] at h; cases h
  | value inputTokens => cases ho : u.outputTokens with
    | missing | null => rw [hi, ho] at h; cases h
    | value outputTokens =>
      rw [hi, ho] at h
      cases hc : u.cacheCreationInputTokens.orDefault with
      | none => rw [hc] at h; cases h
      | some creation => cases hr : u.cacheReadInputTokens.orDefault with
        | none => rw [hc, hr] at h; cases h
        | some read => rw [hc, hr] at h; cases h; exact ⟨rfl, rfl⟩

def Decomposition.startRead (d : Decomposition) : Usage :=
  d.startUsage.decode.elim {} fun u =>
    { promptTokens := u.inputTokens, completionTokens := u.outputTokens }

def Decomposition.usageRead (d : Decomposition) : Usage :=
  { d.startRead with
    completionTokens := d.deltaUsage.decode.elim d.startRead.completionTokens (·.outputTokens) }

def Decomposition.stopRead (d : Decomposition) (stopReason : Option String) : StopReason :=
  d.deltaUsage.decode.elim .endTurn fun _ => .ofApi stopReason

/-- What is left in the state when the frames of the reply have been read. -/
structure ReadOf (d : Decomposition) (stopReason : Option String) (s : StreamState J) : Prop where
  blocks : s.blocks = d.blocks.map (·.accum)
  usage : s.usage = d.usageRead
  stopReason : s.stopReason = d.stopRead stopReason
  texts : s.sent.filterMap (·.text?) = d.blocks.flatMap (·.deltas)
  complete : s.sent.filterMap (·.complete?) = []

theorem filterMap_events {b : BlockSplit} : (b.events parser).filterMap (·.text?) = b.deltas ∧
    (b.events parser).filterMap (·.complete?) = [] := by
  cases b with
  | text start deltas | toolUse id name pieces =>
    simp [BlockSplit.events, StreamEvent.text?, StreamEvent.complete?]

theorem filterMap_allEvents :
    (blocks.flatMap (·.events parser)).filterMap (·.text?) = blocks.flatMap (·.deltas) ∧
      (blocks.flatMap (·.events parser)).filterMap (·.complete?) = [] := by
  induction blocks with
  | nil => exact ⟨rfl, rfl⟩
  | cons b blocks ih =>
    obtain ⟨htexts, hcomplete⟩ := @filterMap_events J parser b
    rw [flatMap_cons, filterMap_append, filterMap_append, ih.1, ih.2, htexts, hcomplete]
    exact ⟨rfl, rfl⟩

theorem read_start : ∃ sent : List (StreamEvent J),
    sent.filterMap (·.text?) = [] ∧ sent.filterMap (·.complete?) = [] ∧
      ({} : StreamState J).processFrame parser (.messageStart (some d.startUsage)) =
        { usage := d.startRead, sent } := by
  cases h : d.startUsage.decode with
  | none =>
    refine ⟨[], rfl, rfl, ?_⟩
    simp [processFrame, decodeUsage, h, Decomposition.startRead]
  | some u =>
    refine ⟨[.usage d.startRead], rfl, rfl, ?_⟩
    simp [processFrame, decodeUsage, h, Decomposition.startRead, send]

variable {stopReason : Option String}

theorem read_end (hs : s.usage = d.startRead) (hstop : s.stopReason = .endTurn) :
    ∃ sent : List (StreamEvent J),
    sent.filterMap (·.text?) = [] ∧ sent.filterMap (·.complete?) = [] ∧
      s.processFrame parser (.messageDelta stopReason (some d.deltaUsage)) = { s with
          usage := d.usageRead
          stopReason := d.stopRead stopReason
          sent := s.sent ++ sent } := by
  cases h : d.deltaUsage.decode with
  | none =>
    refine ⟨[], rfl, rfl, ?_⟩
    simp [processFrame, decodeUsage, h, Decomposition.usageRead, Decomposition.stopRead, ← hs, ← hstop]
  | some u =>
    refine ⟨[.usage d.usageRead], rfl, rfl, ?_⟩
    simp [processFrame, decodeUsage, h, Decomposition.usageRead, Decomposition.stopRead, send, hs]

theorem readOf_frames : ReadOf d stopReason
    ((d.frames stopReason).foldl (processFrame parser) {}) := by
  obtain ⟨first, htext, hcomplete, hfirst⟩ := @read_start J parser d
  have hblocks : (blockFrames 0 d.blocks).foldl (processFrame parser)
      { usage := d.startRead, sent := first } =
    { usage := d.startRead
      blocks := d.blocks.map (·.accum)
      sent := first ++ d.blocks.flatMap (·.events parser) } := foldl_blocks
  obtain ⟨last, htext', hcomplete', hlast⟩ := @read_end J parser
    { usage := d.startRead
      blocks := d.blocks.map (·.accum)
      sent := first ++ d.blocks.flatMap (·.events parser) } d stopReason rfl rfl
  rw [Decomposition.frames, foldl_cons, hfirst, foldl_append, hblocks, foldl_cons, hlast]
  obtain ⟨hall, hnone⟩ := @filterMap_allEvents J parser d.blocks
  refine ⟨rfl, rfl, rfl, ?_, ?_⟩
  · change ((first ++ _) ++ last).filterMap _ = _
    rw [filterMap_append, filterMap_append, htext, htext', hall, nil_append, append_nil]
  · change ((first ++ _) ++ last).filterMap _ = _
    rw [filterMap_append, filterMap_append, hcomplete, hcomplete', hnone]
    rfl

theorem readOf_stream (h : Streams parser reply d body) (hdone : parser.frame "[DONE]" = none)
    (hchunks : chunks.flatten = Utf8.encode (bodyText body)) (hwhole : WholeCharacters chunks) :
    ReadOf d reply.stopReason (streamState parser chunks) := by
  rw [streamState_body h.lines hdone hchunks hwhole, foldl_silent, h.frames]
  have hread := @readOf_frames J parser d reply.stopReason
  exact ⟨hread.blocks, hread.usage, hread.stopReason, hread.texts, hread.complete⟩

theorem complete?_chatStream (h : ReadOf d stopReason (streamState parser chunks)) :
    (chatStream parser chunks).filterMap (·.complete?) =
      [(streamState parser chunks).response parser] := by
  rw [chatStream, filterMap_append, h.complete]
  rfl

theorem usage_response : (s.response parser).usage = s.usage := rfl

theorem usageRead_iff (h : d.Legal parser reply) : d.usageRead = (chat reply).usage ↔
    (reply.usage.cacheCreationInputTokens = 0 ∧ reply.usage.cacheReadInputTokens = 0) ∧
      (d.startUsage.decode.isSome ∨ reply.usage.inputTokens = 0) ∧
      (d.deltaUsage.decode.isSome ∨ d.startOutput = reply.usage.outputTokens) := by
  have hstart : d.startRead = ⟨if d.startUsage.decode.isSome then reply.usage.inputTokens else 0,
      d.startOutput, 0, 0⟩ := by
    cases hd : d.startUsage.decode with
    | none => simp [Decomposition.startRead, Decomposition.startOutput, hd]
    | some u =>
      have hinput := (counts_of_decode hd).1
      rw [h.startInput] at hinput
      simp [Decomposition.startRead, Decomposition.startOutput, hd, Count.value.inj hinput]
  have hdelta : d.usageRead = { d.startRead with
      completionTokens := if d.deltaUsage.decode.isSome then reply.usage.outputTokens
        else d.startRead.completionTokens } := by
    cases hd : d.deltaUsage.decode with
    | none => simp [Decomposition.usageRead, hd]
    | some u =>
      have houtput := (counts_of_decode hd).2
      rw [h.deltaOutput] at houtput
      simp [Decomposition.usageRead, hd, Count.value.inj houtput]
  rw [hdelta, hstart, Usage.mk.injEq]
  have hprompt : (if d.startUsage.decode.isSome then reply.usage.inputTokens else 0) =
      reply.usage.inputTokens ↔ d.startUsage.decode.isSome ∨ reply.usage.inputTokens = 0 := by
    cases d.startUsage.decode <;> simp [eq_comm]
  have hcompletion : (if d.deltaUsage.decode.isSome then reply.usage.outputTokens
      else d.startOutput) = reply.usage.outputTokens ↔
      d.deltaUsage.decode.isSome ∨ d.startOutput = reply.usage.outputTokens := by
    cases d.deltaUsage.decode <;> simp
  rw [@eq_comm Nat 0, @eq_comm Nat 0]
  tauto

theorem stopRead_iff :
    d.stopRead stopReason = StopReason.ofApi stopReason ↔
      d.deltaUsage.decode.isSome ∨ StopReason.ofApi stopReason = .endTurn := by
  cases hd : d.deltaUsage.decode <;> simp [Decomposition.stopRead, hd, eq_comm]

theorem response_iff (h : Streams parser reply d body) (hempty : parser.value "" = none)
    (hread : ReadOf d reply.stopReason s) : s.response parser = chat reply ↔
      (∀ init last, reply.texts = init ++ [last] → last ≠ "") ∧ s.usage = (chat reply).usage ∧
        s.stopReason = (chat reply).stopReason := by
  have htools : s.blocks.filterMap (·.toolCall? parser) = (chat reply).toolCalls := by
    rw [hread.blocks]
    exact toolCall?_accum hempty h.legal.blocks
  have htexts : s.blocks.filterMap (·.text?) = reply.texts.filter (· ≠ "") := by
    rw [hread.blocks]
    exact text?_accum h.legal.blocks
  rw [response, htools, htexts, ← getLast?_nonempty]
  constructor
  · intro hresponse
    exact ⟨congrArg ChatResponse.content hresponse, congrArg ChatResponse.usage hresponse,
      congrArg ChatResponse.stopReason hresponse⟩
  · rintro ⟨hcontent, husage, hstop⟩
    rw [hcontent, husage, hstop]
    rfl

/-- However the body is cut between characters, the stream and `chat` agree exactly on plain
replies. -/
theorem agrees_iff_plain (parser : Parser J) (hdone : parser.frame "[DONE]" = none)
    (hempty : parser.value "" = none) (reply : AnthropicResponse J) (d : Decomposition)
    (body : List WireLine) (h : Streams parser reply d body) (chunks : List (List UInt8))
    (hchunks : chunks.flatten = Utf8.encode (bodyText body)) (hwhole : WholeCharacters chunks) :
    Agrees parser reply chunks ↔ Plain reply d := by
  have hread := readOf_stream h hdone hchunks hwhole
  have hresponse : (chatStream parser chunks).filterMap (·.complete?) = [chat reply] ↔
      (∀ init last, reply.texts = init ++ [last] → last ≠ "") ∧ d.usageRead = (chat reply).usage ∧
        d.stopRead reply.stopReason = StopReason.ofApi reply.stopReason := by
    rw [complete?_chatStream hread, List.singleton_inj, response_iff h hempty hread, hread.usage,
      hread.stopReason]
    rfl
  have hcontent : ((chat reply).content.getD "").toList = reply.texts.flatMap (·.toList) ↔
      ∀ init last, reply.texts = init ++ [last] → ∀ t ∈ init, t = "" := getLast?_toList
  have hdeltas : ((chatStream parser chunks).filterMap (·.text?)).flatMap (·.toList) =
      reply.texts.flatMap (·.toList) ↔ ∀ b ∈ d.blocks, b.start = "" := by
    have htexts : (chatStream parser chunks).filterMap (·.text?) = d.blocks.flatMap (·.deltas) := by
      rw [chatStream, filterMap_append, hread.texts]
      exact append_nil _
    rw [htexts]
    exact deltas_iff h.legal.blocks
  rw [usageRead_iff h.legal, stopRead_iff] at hresponse
  constructor
  · intro hagrees
    obtain ⟨hlast, ⟨huncached, hprompt, hcompletion⟩, hstop⟩ := hresponse.mp hagrees.response
    have hinit := hcontent.mp hagrees.content
    exact ⟨huncached, hprompt, hcompletion, hstop,
      fun init last htexts => ⟨hlast init last htexts, hinit init last htexts⟩,
      hdeltas.mp hagrees.deltas⟩
  · intro hplain
    refine ⟨hresponse.mpr ⟨fun init last htexts => (hplain.lastText init last htexts).1,
      ⟨hplain.uncached, hplain.prompt, hplain.completion⟩, hplain.stop⟩, ?_, ?_⟩
    · exact hcontent.mpr fun init last htexts => (hplain.lastText init last htexts).2
    · exact hdeltas.mpr hplain.starts

/-! ### A short reply -/

def helloStart : String := "\x7b\"type\":\"message_start\",\"message\":\x7b\"usage\":\x7b" ++
  "\"input_tokens\":9,\"output_tokens\":1\x7d\x7d\x7d"

def helloCached : String := "\x7b\"type\":\"message_start\",\"message\":\x7b\"usage\":\x7b" ++
  "\"input_tokens\":9,\"output_tokens\":1,\"cache_read_input_tokens\":2000\x7d\x7d\x7d"

def helloBlock : String := "\x7b\"type\":\"content_block_start\",\"index\":0,\"content_block\":" ++
  "\x7b\"type\":\"text\",\"text\":\"\"\x7d\x7d"

def helloDelta : String := "\x7b\"type\":\"content_block_delta\",\"index\":0,\"delta\":" ++
  "\x7b\"type\":\"text_delta\",\"text\":\"Olé\"\x7d\x7d"

def helloStop : String := "\x7b\"type\":\"content_block_stop\",\"index\":0\x7d"

def helloEnd : String := "\x7b\"type\":\"message_delta\",\"delta\":\x7b\"stop_reason\":" ++
  "\"end_turn\"\x7d,\"usage\":\x7b\"input_tokens\":9,\"output_tokens\":4\x7d\x7d"

def helloLast : String := "\x7b\"type\":\"message_stop\"\x7d"

def helloUsage : UsageFields := { inputTokens := .value 9, outputTokens := .value 1 }

def helloTable : List (String × SseFrame) :=
  [(helloStart, .messageStart (some helloUsage)),
    (helloCached, .messageStart (some { helloUsage with cacheReadInputTokens := .value 2000 })),
    (helloBlock, .contentBlockStart 0 (.text "")),
    (helloDelta, .contentBlockDelta 0 (.textDelta "Olé")),
    (helloStop, .contentBlockStop 0),
    (helloEnd, .messageDelta (some "end_turn") (some { helloUsage with outputTokens := .value 4 })),
    (helloLast, .messageStop)]

def helloParser : Parser Unit where
  frame json := (helloTable.find? (·.1 = json)).map (·.2)
  value _ := none
  emptyObject := ()

def helloReply (cached : Nat) : AnthropicResponse Unit where
  content := [.text "Olé"]
  usage := { inputTokens := 9, outputTokens := 4, cacheReadInputTokens := cached }
  stopReason := some "end_turn"

def helloSplit (cached : Count) : Decomposition where
  startUsage := { helloUsage with cacheReadInputTokens := cached }
  blocks := [.text "" ["Olé"]]
  deltaUsage := { helloUsage with outputTokens := .value 4 }

def unbroken (text : List Char) : Bool := text.all fun c => c ≠ '\n' && c ≠ '\r'

theorem unbroken_iff {text : List Char} :
    unbroken text = true ↔ ∀ c ∈ text, c ≠ '\n' ∧ c ≠ '\r' := by
  simp [unbroken]

def dataLine (json : String) (h : unbroken (Line.data json).text = true := by decide +kernel) :
    WireLine :=
  ⟨.data json, false, fun hmem => (unbroken_iff.mp h _ hmem).1 rfl,
    fun hmem => (unbroken_iff.mp h _ hmem).2 rfl⟩

def helloRest : List WireLine :=
  [⟨.skipped [], false, by decide, by decide⟩, dataLine helloBlock, dataLine helloDelta,
    dataLine helloStop, dataLine helloEnd, dataLine helloLast]

theorem hello_streams : Streams helloParser (helloReply 0) (helloSplit .missing)
    (dataLine helloStart :: helloRest) where
  legal := {
    blocks := .cons (by decide +kernel : joined "" ["Olé"] = "Olé") .nil
    startInput := rfl
    startOutput := ⟨Count.noConfusion, Count.noConfusion⟩
    startCreation := rfl
    startRead := rfl
    deltaInput := rfl
    deltaOutput := rfl
    deltaCreation := trivial
    deltaRead := trivial }
  lines := by decide +kernel
  frames := by decide +kernel

theorem helloCached_streams : Streams helloParser (helloReply 2000) (helloSplit (.value 2000))
    (dataLine helloCached :: helloRest) where
  legal := { hello_streams.legal with startRead := rfl, deltaRead := trivial }
  lines := by decide +kernel
  frames := by decide +kernel

def lineChunks (body : List WireLine) : List (List UInt8) :=
  (body.map WireLine.wire).map Utf8.encode

theorem flatten_lineChunks : (lineChunks body).flatten = Utf8.encode (bodyText body) := by
  rw [lineChunks, flatten_encode]
  rfl

theorem whole_lineChunks : WholeCharacters (lineChunks body) := by
  intro chunk hchunk
  obtain ⟨line, _, rfl⟩ := List.mem_map.mp hchunk
  exact ⟨line, rfl⟩

theorem hello_agrees : Agrees helloParser (helloReply 0)
    (lineChunks (dataLine helloStart :: helloRest)) :=
  (agrees_iff_plain helloParser (by decide +kernel) rfl (helloReply 0) (helloSplit .missing) _
    hello_streams _ flatten_lineChunks whole_lineChunks).mpr {
      uncached := ⟨rfl, rfl⟩
      prompt := .inl rfl
      completion := .inl rfl
      stop := .inl rfl
      lastText := fun init last htexts => by
        cases init with
        | nil =>
          have hlast : "Olé" = last := (List.cons.inj htexts).1
          exact ⟨hlast ▸ by decide, nofun⟩
        | cons t init =>
          have hnil : [] = init ++ [last] := (List.cons.inj htexts).2
          exact absurd hnil.symm (append_ne_nil_of_right_ne_nil _ (cons_ne_nil _ _))
      starts := by decide +kernel }

/-- The tokens that were read from the cache are lost in the stream. -/
theorem not_streams_as_chat : ¬ ∀ (parser : Parser Unit), parser.frame "[DONE]" = none →
    parser.value "" = none → ∀ (reply : AnthropicResponse Unit) (d : Decomposition)
      (body : List WireLine), Streams parser reply d body → ∀ chunks : List (List UInt8),
        chunks.flatten = Utf8.encode (bodyText body) → Agrees parser reply chunks := by
  intro h
  have hagrees := h helloParser (by decide +kernel) rfl (helloReply 2000)
    (helloSplit (.value 2000)) _ helloCached_streams _ flatten_lineChunks
  have hread := readOf_stream helloCached_streams (by decide +kernel) flatten_lineChunks
    whole_lineChunks
  have hresponse := hagrees.response
  rw [complete?_chatStream hread, List.singleton_inj] at hresponse
  have husage : (helloSplit (.value 2000)).usageRead = (chat (helloReply 2000)).usage := by
    rw [← hread.usage, ← hresponse, usage_response]
  exact nomatch husage

end Agreement

end Aeqi.Providers
