import Aeqi.Lib.Cuts

/-!
# Replies of an upstream (`upstream/deepinfra.rs`)

A reply is one JSON value, or a stream of server-sent events whose lines are read as their bytes
come in. Each chunk of bytes is decoded alone, and only a line with a line break behind it is read.

How `serde_json` reads a text is a parameter. Left out are the errors of the connection, and the
fields of the request.
-/

namespace Aeqi.Inference.Deepinfra

open Aeqi.Lib List Option
open String (ofList ofList_toList toList_ofList)

/-! ## Values -/

/-- `value[key]`, which is null where there is no such field. -/
def index (value : Json) (key : String) : Json := (value.field key).getD .null

def asStr : Json → Option String
  | .str s => some s
  | _ => none

def asArray : Json → Option (List Json)
  | .arr xs => some xs
  | _ => none

/-- What the digits of a literal without fraction and exponent stand for. -/
def natural (digits : List Char) : Option Nat :=
  if digits ≠ [] ∧ digits.all Char.isDigit then some (Nat.ofDigitChars 10 digits 0) else none

def asU64 : Json → Option Nat
  | .num literal => (natural literal.toList).filter (· ≤ 18446744073709551615)
  | _ => none

/-- Minus zero is a float. -/
def asI64 : Json → Option Int
  | .num literal =>
    if literal.toList.head? = some '-' then
      ((natural literal.toList.tail).filter fun n => 1 ≤ n ∧ n ≤ 9223372036854775808).map
        fun n => -(n : Int)
    else ((natural literal.toList).filter (· ≤ 9223372036854775807)).map fun n => (n : Int)
  | _ => none

/-! ## Replies -/

structure UsageStats where
  promptTokens : UInt32
  completionTokens : UInt32
  totalTokens : UInt32

structure ChatMessage where
  role : String
  content : String
  reasoningContent : Option String

structure ChatChoice where
  index : UInt32
  message : ChatMessage
  finishReason : Option String

structure ChatCompletionResponse where
  id : String
  object : String
  created : Int
  model : String
  choices : List ChatChoice
  usage : Option UsageStats

structure ChunkDelta where
  role : Option String
  content : Option String
  reasoningContent : Option String

structure ChunkChoice where
  index : UInt32
  delta : ChunkDelta
  finishReason : Option String

structure ChatCompletionChunk where
  id : String
  object : String
  created : Int
  model : String
  choices : List ChunkChoice

/-- `u[key].as_u64().unwrap_or(0) as u32`; a map without the key panics. -/
def tokens (u : Json.Fields) (key : String) : Option UInt32 :=
  (Json.Fields.get u key).map fun value => UInt32.ofNat ((asU64 value).getD 0)

def usageStats (u : Json.Fields) : Option UsageStats := do
  let promptTokens ← tokens u "prompt_tokens"
  let completionTokens ← tokens u "completion_tokens"
  let totalTokens ← tokens u "total_tokens"
  pure { promptTokens, completionTokens, totalTokens }

/-- `None` is a panic. -/
def parseUsage : Json → Option (Option UsageStats)
  | .obj u => (usageStats u).map some
  | _ => some none

def chatChoice (i : Nat) (c : Json) : ChatChoice where
  index := UInt32.ofNat i
  message :=
    { role := (asStr (index (index c "message") "role")).getD "assistant"
      content := (asStr (index (index c "message") "content")).getD ""
      reasoningContent := asStr (index (index c "message") "reasoning_content") }
  finishReason := asStr (index c "finish_reason")

def chunkChoice (i : Nat) (c : Json) : ChunkChoice where
  index := UInt32.ofNat i
  delta :=
    { role := asStr (index (index c "delta") "role")
      content := asStr (index (index c "delta") "content")
      reasoningContent := asStr (index (index c "delta") "reasoning_content") }
  finishReason := asStr (index c "finish_reason")

/-- `None` is a panic; no error is ever returned. -/
def parseChatResponse (raw : Json) (model : String) : Option ChatCompletionResponse :=
  (parseUsage (index raw "usage")).map fun usage =>
    { id := (asStr (index raw "id")).getD ""
      object := "chat.completion"
      created := (asI64 (index raw "created")).getD 0
      model
      choices := ((asArray (index raw "choices")).getD []).mapIdx chatChoice
      usage }

def parseChunk (raw : Json) (model : String) : ChatCompletionChunk where
  id := (asStr (index raw "id")).getD ""
  object := "chat.completion.chunk"
  created := (asI64 (index raw "created")).getD 0
  model := model
  choices := ((asArray (index raw "choices")).getD []).mapIdx chunkChoice

theorem usageStats_isSome_iff {u : Json.Fields} : (usageStats u).isSome ↔
    ∀ key ∈ ["prompt_tokens", "completion_tokens", "total_tokens"], (Json.Fields.get u key).isSome := by
  unfold usageStats tokens
  simp only [forall_mem_cons]
  cases Json.Fields.get u "prompt_tokens" with
  | none => simp
  | some prompt =>
    cases Json.Fields.get u "completion_tokens" with
    | none => simp
    | some completion => cases Json.Fields.get u "total_tokens" <;> simp

theorem parseChatResponse_isSome_iff {raw : Json} {model : String} :
    (parseChatResponse raw model).isSome ↔ ∀ u, index raw "usage" = .obj u →
      ∀ key ∈ ["prompt_tokens", "completion_tokens", "total_tokens"],
        (Json.Fields.get u key).isSome := by
  unfold parseChatResponse
  rw [isSome_map]
  cases index raw "usage" with
  | obj u =>
    rw [parseUsage, isSome_map, usageStats_isSome_iff]
    simp
  | null | bool b | num literal | str s | arr xs => simp [parseUsage]

/-! ## The stream -/

inductive LineRead
  | skipped
  | done
  | item (chunk : Except String ChatCompletionChunk)

structure StreamState where
  buf : List Char := []
  yielded : List ChatCompletionChunk := []
  /-- How the stream has ended, with an error or without. -/
  ended : Option (Option String) := none

def dataPrefix : List Char := "data: ".toList

/-- `strip_prefix("data: ")`. -/
def dataOf (line : List Char) : Option String :=
  if dataPrefix.isPrefixOf line then some (ofList (line.drop dataPrefix.length)) else none

section

variable (fromStr : String → Except String Json) (model : String)

def parseData (data : String) : Except String ChatCompletionChunk :=
  match fromStr data with
  | .error e => .error ("SSE parse: " ++ e)
  | .ok value => .ok (parseChunk value model)

def readLine (line : List Char) : LineRead :=
  let line := line.rdropWhile (· = '\r')
  if line = [] then .skipped
  else
    match dataOf line with
    | none => .skipped
    | some data => if data = "[DONE]" then .done else .item (parseData fromStr model data)

/-- The lines of a text that goes on behind `line`; with the end of the stream the buffer goes. -/
def drain : List Char → List Char → StreamState → StreamState
  | line, [], s => { s with buf := line }
  | line, c :: text, s =>
    if c = '\n' then
      match readLine fromStr model line with
      | .skipped => drain [] text s
      | .done => { s with buf := [], ended := some none }
      | .item (.ok chunk) => drain [] text { s with yielded := s.yielded ++ [chunk] }
      | .item (.error e) => { s with buf := [], ended := some (some e) }
    else drain (line ++ [c]) text s

def step (s : StreamState) (bytes : List UInt8) : StreamState :=
  if s.ended.isSome then s else drain fromStr model [] (s.buf ++ Utf8.fromUtf8Lossy bytes) s

def chatCompletionStream (chunks : List (List UInt8)) :
    List ChatCompletionChunk × Option String :=
  let s := chunks.foldl (step fromStr model) {}
  (s.yielded, s.ended.getD none)

end

/-! ## Bodies -/

/-- A line without its break, which is LF or CRLF. -/
structure SseLine where
  content : List Char
  crlf : Bool
  noBreak : '\n' ∉ content
  noCarriage : '\r' ∉ content

/-- Lines, and what stands behind the last break. -/
structure SseBody where
  lines : List SseLine
  last : List Char
  noBreak : '\n' ∉ last
  noCarriage : '\r' ∉ last

def SseLine.carriage (l : SseLine) : List Char := if l.crlf then ['\r'] else []

def textOf (lines : List SseLine) (last : List Char) : List Char :=
  lines.flatMap (fun l => l.content ++ (l.carriage ++ ['\n'])) ++ last

def dataLines (lines : List SseLine) : List String := lines.filterMap fun l => dataOf l.content

def SseBody.text (body : SseBody) : List Char := textOf body.lines body.last

section

variable (fromStr : String → Except String Json) (model : String)

/-- One chunk for every data line before `[DONE]`, up to one that cannot be read. -/
def expected : List String → List ChatCompletionChunk × Option String
  | [] => ([], none)
  | data :: rest =>
    if data = "[DONE]" then ([], none)
    else
      match parseData fromStr model data with
      | .error e => ([], some e)
      | .ok chunk => (chunk :: (expected rest).1, (expected rest).2)

def SseBody.expected (body : SseBody) : List ChatCompletionChunk × Option String :=
  Deepinfra.expected fromStr model
    (dataLines body.lines ++ (dataOf body.last).toList)

/-- What is read of every data line before the end does not depend on characters of more than one
byte, and no data line but `[DONE]` goes without a break. -/
def Steady (last : Option String) : List String → Prop
  | [] => ∀ data, last = some data → data = "[DONE]"
  | data :: rest => data = "[DONE]" ∨
      (∀ text', Utf8.Garbled data.toList text' →
        parseData fromStr model (ofList text') = parseData fromStr model data) ∧
      ∀ chunk, parseData fromStr model data = .ok chunk → Steady last rest

def StreamsExactly (body : SseBody) : Prop :=
  ∀ chunks, chunks.flatten = Utf8.encode body.text →
    chatCompletionStream fromStr model chunks = body.expected fromStr model

end

/-! ### What is drained -/

section

variable {fromStr : String → Except String Json} {model : String} {line text more w : List Char}
  {s : StreamState}

theorem drain_congr {s' : StreamState} (hyielded : s.yielded = s'.yielded)
    (hended : s.ended = s'.ended) :
    drain fromStr model line text s = drain fromStr model line text s' := by
  obtain ⟨buf, yielded, ended⟩ := s
  obtain ⟨buf', yielded', ended'⟩ := s'
  cases hyielded
  cases hended
  induction text generalizing line yielded with
  | nil => rfl
  | cons c text ih =>
    simp only [drain]
    split
    · split
      · exact ih _
      · rfl
      · exact ih _
      · rfl
    · exact ih _

theorem drain_append (hs : s.ended = none) : drain fromStr model line (text ++ more) s =
    if (drain fromStr model line text s).ended.isSome then drain fromStr model line text s
    else drain fromStr model (drain fromStr model line text s).buf more
      (drain fromStr model line text s) := by
  induction text generalizing line s with
  | nil =>
    have hopen : ¬ (drain fromStr model line [] s).ended.isSome := by
      simp only [drain, hs]
      decide
    rw [if_neg hopen]
    exact drain_congr rfl rfl
  | cons c text ih =>
    simp only [cons_append, drain]
    split
    · split
      · exact ih hs
      · rfl
      · exact ih hs
      · rfl
    · exact ih hs

theorem drain_open (h : '\n' ∉ text) : drain fromStr model line (text ++ more) s =
    drain fromStr model (line ++ text) more s := by
  induction text generalizing line with
  | nil => rw [append_nil, nil_append]
  | cons c text ih =>
    have hc : c ≠ '\n' := fun e => h (e ▸ mem_cons_self)
    rw [cons_append, drain, if_neg hc, ih (fun hmem => h (mem_cons_of_mem _ hmem)),
      List.append_assoc, singleton_append]

theorem buf_noBreak (h : '\n' ∉ line) : '\n' ∉ (drain fromStr model line text s).buf := by
  induction text generalizing line s with
  | nil => exact h
  | cons c text ih =>
    simp only [drain]
    by_cases hc : c = '\n'
    · rw [if_pos hc]
      split
      · exact ih not_mem_nil
      · exact not_mem_nil
      · exact ih not_mem_nil
      · exact not_mem_nil
    · rw [if_neg hc]
      refine ih ?_
      rw [mem_append, mem_singleton]
      exact not_or.2 ⟨h, fun e => hc e.symm⟩

theorem step_drain {bytes : List UInt8} (hs : s.ended = none) :
    step fromStr model (drain fromStr model [] text s) bytes =
      drain fromStr model [] (text ++ Utf8.fromUtf8Lossy bytes) s := by
  rw [drain_append hs]
  unfold step
  split
  · rfl
  · rw [drain_open (buf_noBreak not_mem_nil), nil_append]

/-- What is yielded, and how the stream ends. -/
def outcome (fromStr : String → Except String Json) (model : String) (text : List Char) :
    List ChatCompletionChunk × Option String :=
  ((drain fromStr model [] text {}).yielded, (drain fromStr model [] text {}).ended.getD none)

theorem stream_eq {chunks : List (List UInt8)} : chatCompletionStream fromStr model chunks =
    outcome fromStr model (Utf8.decodePieces chunks) := by
  have hfold : ∀ text, chunks.foldl (step fromStr model) (drain fromStr model [] text {}) =
      drain fromStr model [] (text ++ Utf8.decodePieces chunks) {} := by
    induction chunks with
    | nil =>
      intro text
      simp [Utf8.decodePieces]
    | cons bytes chunks ih =>
      intro text
      rw [foldl_cons, step_drain rfl, ih, List.append_assoc]
      rfl
  have hstart := hfold []
  rw [nil_append] at hstart
  unfold chatCompletionStream outcome
  rw [← hstart]
  rfl

theorem drain_yielded {chunks : List ChatCompletionChunk} :
    (drain fromStr model line text { yielded := chunks }).yielded =
        chunks ++ (drain fromStr model line text {}).yielded ∧
      (drain fromStr model line text { yielded := chunks }).ended =
        (drain fromStr model line text {}).ended := by
  induction text generalizing line chunks with
  | nil => simp [drain]
  | cons c text ih =>
    simp only [drain]
    split
    · split
      · exact ih
      · simp
      · rename_i chunk _
        have hmore := @ih [] (chunks ++ [chunk])
        have hone := @ih [] [chunk]
        simp [hmore.1, hmore.2, hone.1, hone.2]
      · simp
    · exact ih

theorem outcome_line (h : '\n' ∉ line) : outcome fromStr model (line ++ '\n' :: text) =
    match readLine fromStr model line with
    | .skipped => outcome fromStr model text
    | .done => ([], none)
    | .item (.ok chunk) => (chunk :: (outcome fromStr model text).1, (outcome fromStr model text).2)
    | .item (.error e) => ([], some e) := by
  unfold outcome
  rw [drain_open h, nil_append, drain, if_pos rfl]
  split
  · rfl
  · rfl
  · rename_i chunk _
    obtain ⟨hyielded, hended⟩ := @drain_yielded fromStr model [] text [chunk]
    have hstart : ({ yielded := [] ++ [chunk] } : StreamState) = { yielded := [chunk] } := rfl
    simp [hyielded, hended]
  · rfl

theorem outcome_rest (h : '\n' ∉ text) : outcome fromStr model text = ([], none) := by
  have hopen := @drain_open fromStr model [] text [] {} h
  rw [append_nil] at hopen
  unfold outcome
  rw [hopen]
  rfl

/-! ### Lines whose characters have been cut -/

theorem ascii_dataPrefix : Utf8.Ascii dataPrefix := Utf8.ascii_of_all (by decide)

theorem dataOf_eq_some {data : String} :
    dataOf line = some data ↔ line = dataPrefix ++ data.toList := by
  unfold dataOf
  constructor
  · intro h
    split at h
    · rename_i hprefix
      obtain ⟨rest, rfl⟩ := isPrefixOf_iff_prefix.1 hprefix
      rw [drop_left] at h
      cases h
      rw [toList_ofList]
    · cases h
  · rintro rfl
    rw [if_pos (List.isPrefixOf_iff_prefix.2 (prefix_append _ _)), drop_left, ofList_toList]

theorem dataOf_garbled (h : Utf8.Garbled line w) :
    (dataOf line = none ∧ dataOf w = none) ∨
      ∃ data text', dataOf line = some data ∧ dataOf w = some (ofList text') ∧
        Utf8.Garbled data.toList text' := by
  cases hline : dataOf line with
  | none =>
    left
    refine ⟨rfl, ?_⟩
    rw [eq_none_iff_forall_ne_some]
    intro data hdata
    rw [dataOf_eq_some.1 hdata] at h
    obtain ⟨text', rfl, -⟩ := Utf8.garbled_prefix ascii_dataPrefix h
    have hsome := (@dataOf_eq_some (dataPrefix ++ text') (ofList text')).2
      (by rw [toList_ofList])
    rw [hline] at hsome
    cases hsome
  | some data =>
    right
    rw [dataOf_eq_some.1 hline, Utf8.garbled_append] at h
    obtain ⟨u, v, rfl, hu, hv⟩ := h
    rw [(Utf8.garbled_of_ascii ascii_dataPrefix).1 hu]
    exact ⟨data, v, rfl, dataOf_eq_some.2 (by rw [toList_ofList]), hv⟩

variable {l : SseLine}

theorem rdropWhile_carriage (h : '\r' ∉ line) :
    (line ++ l.carriage).rdropWhile (· = '\r') = line := by
  have hkeep : line.rdropWhile (· = '\r') = line := by
    rw [rdropWhile_eq_self_iff]
    intro hne hlast
    exact h (of_decide_eq_true hlast ▸ getLast_mem hne)
  unfold SseLine.carriage
  split
  · rw [rdropWhile_concat_pos (fun c => decide (c = '\r')) _ _ (by decide), hkeep]
  · rw [append_nil, hkeep]

theorem readLine_eq (h : '\r' ∉ line) :
    readLine fromStr model (line ++ l.carriage) = match dataOf line with
      | none => .skipped
      | some data => if data = "[DONE]" then .done else .item (parseData fromStr model data) := by
  unfold readLine
  simp only [rdropWhile_carriage h]
  split
  · rename_i hnil
    rw [hnil]
    rfl
  · rfl

theorem ascii_carriage : Utf8.Ascii (l.carriage ++ ['\n']) := by
  unfold SseLine.carriage
  split
  · exact Utf8.ascii_of_all (by decide)
  · exact Utf8.ascii_of_all (by decide)

theorem textOf_cons {lines : List SseLine} {last : List Char} :
    textOf (l :: lines) last = l.content ++ ((l.carriage ++ ['\n']) ++ textOf lines last) := by
  unfold textOf
  rw [flatMap_cons, List.append_assoc, List.append_assoc]

theorem garbled_textOf {lines : List SseLine} {last : List Char} :
    Utf8.Garbled (textOf (l :: lines) last) w ↔ ∃ content text, w = content ++ l.carriage ++
      '\n' :: text ∧ Utf8.Garbled l.content content ∧ Utf8.Garbled (textOf lines last) text := by
  rw [textOf_cons, Utf8.garbled_append]
  simp only [Utf8.garbled_append (u := l.carriage ++ ['\n']), Utf8.garbled_of_ascii ascii_carriage]
  constructor
  · rintro ⟨content, _, rfl, hcontent, _, text, rfl, rfl, htext⟩
    exact ⟨content, text, by simp, hcontent, htext⟩
  · rintro ⟨content, text, rfl, hcontent, htext⟩
    exact ⟨content, _, by simp, hcontent, _, text, rfl, rfl, htext⟩

theorem one_byte : '\n'.utf8Size = 1 ∧ '\r'.utf8Size = 1 := by decide

theorem outcome_garbled {content : List Char} (h : Utf8.Garbled l.content content) :
    outcome fromStr model (content ++ l.carriage ++ '\n' :: text) = match dataOf content with
      | none => outcome fromStr model text
      | some data =>
        if data = "[DONE]" then ([], none)
        else
          match parseData fromStr model data with
          | .error e => ([], some e)
          | .ok chunk => (chunk :: (outcome fromStr model text).1, (outcome fromStr model text).2) := by
  have hbreak : '\n' ∉ content ++ l.carriage := by
    rw [mem_append, not_or, Utf8.mem_of_garbled one_byte.1 h]
    refine ⟨l.noBreak, ?_⟩
    unfold SseLine.carriage
    split <;> decide
  have hcarriage : '\r' ∉ content := by
    rw [Utf8.mem_of_garbled one_byte.2 h]
    exact l.noCarriage
  rw [outcome_line hbreak, readLine_eq hcarriage]
  cases dataOf content with
  | none => rfl
  | some data =>
    by_cases hdone : data = "[DONE]"
    · simp [if_pos hdone]
    · simp only [if_neg hdone]
      cases parseData fromStr model data <;> rfl

end

/-! ## Streams that are exact -/

section

variable {fromStr : String → Except String Json} {model : String} {lines : List SseLine}
  {last : List Char}

theorem streamsExactly_iff_garbled {body : SseBody} : StreamsExactly fromStr model body ↔
    ∀ w, Utf8.Garbled body.text w → outcome fromStr model w = body.expected fromStr model := by
  constructor
  · rintro h w ⟨pieces, hpieces, rfl⟩
    rw [← stream_eq]
    exact h pieces hpieces
  · intro h chunks hchunks
    rw [stream_eq]
    exact h _ ⟨chunks, hchunks, rfl⟩

theorem ascii_done : Utf8.Ascii "[DONE]".toList := Utf8.ascii_of_all (by decide)

/-- `[DONE]` is told from other data, however these are cut. -/
theorem done_iff {data : String} {text' : List Char} (h : Utf8.Garbled data.toList text') :
    ofList text' = "[DONE]" ↔ data = "[DONE]" := by
  constructor
  · intro hdone
    have htext : text' = "[DONE]".toList := by rw [← hdone, toList_ofList]
    rw [htext] at h
    exact String.toList_inj.1 (Utf8.garbled_eq_ascii ascii_done h)
  · rintro rfl
    rw [(Utf8.garbled_of_ascii ascii_done).1 h, ofList_toList]

theorem dataLines_none {l : SseLine} (h : dataOf l.content = none) :
    dataLines (l :: lines) = dataLines lines := by
  unfold dataLines
  rw [filterMap_cons, h]

theorem dataLines_some {l : SseLine} {data : String} (h : dataOf l.content = some data) :
    dataLines (l :: lines) = data :: dataLines lines := by
  unfold dataLines
  rw [filterMap_cons, h]

theorem exact_iff_steady (hbreak : '\n' ∉ last) :
    (∀ w, Utf8.Garbled (textOf lines last) w → outcome fromStr model w =
        expected fromStr model (dataLines lines ++ (dataOf last).toList)) ↔
      Steady fromStr model (dataOf last) (dataLines lines) := by
  induction lines with
  | nil =>
    have hread : ∀ w, Utf8.Garbled (textOf [] last) w → outcome fromStr model w = ([], none) := by
      intro w hw
      refine outcome_rest ?_
      rw [Utf8.mem_of_garbled one_byte.1 hw]
      exact hbreak
    constructor
    · intro h data hdata
      have heq := h _ Utf8.Garbled.refl
      rw [hread _ Utf8.Garbled.refl, hdata] at heq
      by_contra hne
      simp only [dataLines, filterMap_nil, nil_append, toList_some, expected, if_neg hne] at heq
      split at heq
      · cases heq
      · cases heq
    · intro h w hw
      rw [hread w hw]
      cases hdata : dataOf last with
      | none => rfl
      | some data =>
        rw [h data hdata]
        rfl
  | cons l lines ih =>
    cases hdata : dataOf l.content with
    | none =>
      rw [dataLines_none hdata, ← ih]
      have hskip : ∀ content text, Utf8.Garbled l.content content →
          outcome fromStr model (content ++ l.carriage ++ '\n' :: text) =
            outcome fromStr model text := by
        intro content text hcontent
        rw [outcome_garbled hcontent]
        rcases dataOf_garbled hcontent with ⟨-, hnone⟩ | ⟨data, -, hsome, -⟩
        · rw [hnone]
        · rw [hdata] at hsome
          cases hsome
      constructor
      · intro h text htext
        rw [← hskip l.content text Utf8.Garbled.refl]
        exact h _ (garbled_textOf.2 ⟨_, text, rfl, Utf8.Garbled.refl, htext⟩)
      · intro h w hw
        obtain ⟨content, text, rfl, hcontent, htext⟩ := garbled_textOf.1 hw
        rw [hskip content text hcontent]
        exact h text htext
    | some data =>
      rw [dataLines_some hdata, cons_append, Steady, ← ih, expected]
      -- the line with its data cut, in front of any text
      have hread : ∀ text' text, Utf8.Garbled data.toList text' →
          Utf8.Garbled l.content (dataPrefix ++ text') ∧
            outcome fromStr model (dataPrefix ++ text' ++ l.carriage ++ '\n' :: text) =
              if data = "[DONE]" then ([], none)
              else
                match parseData fromStr model (ofList text') with
                | .error e => ([], some e)
                | .ok chunk =>
                  (chunk :: (outcome fromStr model text).1, (outcome fromStr model text).2) := by
        intro text' text htext'
        have hcontent : Utf8.Garbled l.content (dataPrefix ++ text') := by
          rw [dataOf_eq_some.1 hdata]
          exact Utf8.garbled_append.2 ⟨_, _, rfl, Utf8.Garbled.refl, htext'⟩
        have hsome : dataOf (dataPrefix ++ text') = some (ofList text') :=
          dataOf_eq_some.2 (by rw [toList_ofList])
        refine ⟨hcontent, ?_⟩
        rw [outcome_garbled hcontent, hsome]
        simp [done_iff htext']
      have hcut : ∀ w, Utf8.Garbled (textOf (l :: lines) last) w ↔ ∃ text' text,
          w = dataPrefix ++ text' ++ l.carriage ++ '\n' :: text ∧
            Utf8.Garbled data.toList text' ∧ Utf8.Garbled (textOf lines last) text := by
        intro w
        rw [garbled_textOf]
        constructor
        · rintro ⟨content, text, rfl, hcontent, htext⟩
          rw [dataOf_eq_some.1 hdata, Utf8.garbled_append] at hcontent
          obtain ⟨u, v, rfl, hu, hv⟩ := hcontent
          rw [(Utf8.garbled_of_ascii ascii_dataPrefix).1 hu]
          exact ⟨v, text, rfl, hv, htext⟩
        · rintro ⟨text', text, rfl, htext', htext⟩
          exact ⟨_, text, rfl, (hread text' text htext').1, htext⟩
      by_cases hdone : data = "[DONE]"
      · refine iff_of_true (fun w hw => ?_) (.inl hdone)
        obtain ⟨text', text, rfl, htext', -⟩ := (hcut w).1 hw
        rw [(hread text' text htext').2, if_pos hdone, if_pos hdone]
      · rw [if_neg hdone]
        simp only [if_neg hdone] at hread
        simp only [hdone, false_or]
        constructor
        · intro h
          have hall : ∀ text' text, Utf8.Garbled data.toList text' →
              Utf8.Garbled (textOf lines last) text → _ := fun text' text htext' htext =>
            (hread text' text htext').2.symm.trans
              (h _ ((hcut _).2 ⟨text', text, rfl, htext', htext⟩))
          have hrest : ∀ chunk, parseData fromStr model data = .ok chunk →
              ∀ text, Utf8.Garbled (textOf lines last) text → outcome fromStr model text =
                expected fromStr model (dataLines lines ++ (dataOf last).toList) := by
            intro chunk hchunk text htext
            have heq := hall data.toList text Utf8.Garbled.refl htext
            rw [ofList_toList, hchunk] at heq
            simp only [Prod.mk.injEq, List.cons.injEq, true_and] at heq
            exact Prod.ext heq.1 heq.2
          refine ⟨fun text' htext' => ?_, hrest⟩
          have heq := hall text' _ htext' Utf8.Garbled.refl
          cases hread' : parseData fromStr model (ofList text') with
          | error e =>
            cases hparse : parseData fromStr model data with
            | error e' =>
              rw [hread', hparse] at heq
              simp only [Prod.mk.injEq, true_and, Option.some.injEq] at heq
              rw [heq]
            | ok chunk =>
              rw [hread', hparse] at heq
              cases heq
          | ok chunk =>
            cases hparse : parseData fromStr model data with
            | error e' =>
              rw [hread', hparse] at heq
              cases heq
            | ok chunk' =>
              rw [hread', hparse] at heq
              simp only [Prod.mk.injEq, List.cons.injEq] at heq
              rw [heq.1.1]
        · intro ⟨hsame, hrest⟩ w hw
          obtain ⟨text', text, rfl, htext', htext⟩ := (hcut w).1 hw
          rw [(hread text' text htext').2, hsame text' htext']
          cases hparse : parseData fromStr model data with
          | error e => rfl
          | ok chunk => simp [hrest chunk hparse text htext]

end

/-- A body is streamed exactly, however it is cut, if and only if it is steady; a reply is read
without a panic if and only if no count of its usage is missing. -/
theorem replies_exact_iff (fromStr : String → Except String Json) (model : String) :
    (∀ body : SseBody, StreamsExactly fromStr model body ↔
      Steady fromStr model (dataOf body.last) (dataLines body.lines)) ∧
    ∀ raw, (parseChatResponse raw model).isSome ↔ ∀ u, index raw "usage" = .obj u →
      ∀ key ∈ ["prompt_tokens", "completion_tokens", "total_tokens"],
        (Json.Fields.get u key).isSome := by
  refine ⟨fun body => ?_, fun raw => parseChatResponse_isSome_iff⟩
  rw [streamsExactly_iff_garbled]
  exact exact_iff_steady body.noBreak

/-- One event whose line has no break behind it. -/
def unterminated : SseBody where
  lines := []
  last := "data: null".toList
  noBreak := by decide
  noCarriage := by decide

/-- The event is lost, and a usage without counts is a panic. -/
theorem replies_not_exact :
    ¬ StreamsExactly (fun _ => .ok .null) "deepseek-v4" unterminated ∧
      parseChatResponse (.obj [("usage", .obj [])]) "deepseek-v4" = none := by
  refine ⟨fun h => ?_, rfl⟩
  have hstream := (streamsExactly_iff_garbled.1 h) _ Utf8.Garbled.refl
  exact nomatch hstream

end Aeqi.Inference.Deepinfra
