import NexaRoute.Go.Json
import NexaRoute.Router.Candidates

/-!
# Canonical stream events

`internal/protocol/canonical/stream.go`, the reading side: every dialect of an upstream decodes into
the same events. A decoder gets one payload of the event stream and hands it to `json.Unmarshal`,
sometimes several times with different types; here a payload comes as what that call makes of it,
one component for each type it is decoded into.

## Main definitions

* `StreamEvent` — what the five decoders produce
-/

namespace NexaRoute.Canonical

open Go
open Router (toLower)

/-! ### Events -/

inductive EventType
  | start
  | text
  | thinking
  | toolStart
  | toolDelta
  | toolEnd
  | usage
  | stop
  | error
  deriving DecidableEq, Repr

/-- The canonical stop reasons; `unset` is the empty string. -/
inductive StopReason
  | unset
  | endTurn
  | maxTokens
  | toolUse
  | stopSequence
  | refusal
  | pauseTurn
  deriving DecidableEq, Repr

structure Usage where
  inputTokens : ℤ := 0
  outputTokens : ℤ := 0
  cacheReadTokens : ℤ := 0
  cacheWriteTokens : ℤ := 0
  reasoningTokens : ℤ := 0
  deriving DecidableEq, Repr

structure StreamEvent where
  type : EventType
  text : String := ""
  toolIndex : ℤ := 0
  toolID : String := ""
  toolName : String := ""
  argsDelta : String := ""
  stopReason : StopReason := .unset
  usage : Option Usage := none
  errorCode : String := ""
  errorMsg : String := ""
  argsFinal : Bool := false
  deriving DecidableEq, Repr

def usageEvent (u : Usage) : StreamEvent := { type := .usage, usage := some u }

def mapStopReason (reason : String) : StopReason :=
  let r := toLower (trimSpace reason)
  if r = "tool_use" ∨ r = "tool_calls" ∨ r = "function_call" then .toolUse
  else if r = "max_tokens" ∨ r = "length" then .maxTokens
  else if r = "stop_sequence" ∨ r = "stop" then .stopSequence
  else if r = "refusal" ∨ r = "content_filter" then .refusal
  else if r = "pause_turn" then .pauseTurn
  else .endTurn

/-- What a decoder returns: the events and whether the stream ended, or an error. -/
abbrev Decoded := Except String (List StreamEvent × Bool)

/-- What `json.Unmarshal` and `strings.TrimSpace` make of a payload: nothing but white space, an
error, or a document. -/
inductive Payload (α : Type)
  | blank
  | malformed (err : String)
  | doc (d : α)

/-! ### OpenAI Chat Completions -/

structure CoreToolCall where
  index : ℤ := 0
  id : String := ""
  name : String := ""
  arguments : String := ""

structure CoreUsage where
  promptTokens : ℤ := 0
  completionTokens : ℤ := 0
  cachedTokens : Option ℤ := none
  reasoningTokens : Option ℤ := none

structure OpenAIChoice where
  index : ℤ := 0
  content : Json := .null
  reasoningContent : String := ""
  reasoning : String := ""
  toolCalls : List CoreToolCall := []
  finishReason : Option String := none

structure OpenAIError where
  code : Json := .null
  message : String := ""
  type : String := ""

structure OpenAIChunk where
  choices : List OpenAIChoice := []
  usage : Option CoreUsage := none
  error : Option OpenAIError := none

/-- A payload, or the sentinel that ends a stream. -/
inductive OpenAIData
  | done
  | payload (p : Payload OpenAIChunk)

/-- The text events of `delta.content`: a string, or a list of parts. -/
def contentEvents : Json → List StreamEvent
  | .str s => if s = "" then [] else [{ type := .text, text := s }]
  | .arr items => items.filterMap fun raw =>
      let typ := ((raw.member "type").map Json.text).getD ""
      let txt := ((raw.member "text").map Json.text).getD ""
      if (typ = "text" ∨ typ = "output_text") ∧ txt ≠ "" then some { type := .text, text := txt }
      else none
  | _ => []

def OpenAIChoice.events (ch : OpenAIChoice) : List StreamEvent :=
  contentEvents ch.content ++
  (if ch.reasoningContent = "" then
    if ch.reasoning = "" then [] else [{ type := .thinking, text := ch.reasoning }]
  else [{ type := .thinking, text := ch.reasoningContent }]) ++
  (ch.toolCalls.flatMap fun tc =>
    (if tc.id ≠ "" ∨ tc.name ≠ "" then
      [{ type := .toolStart, toolIndex := tc.index, toolID := tc.id, toolName := tc.name }]
    else []) ++
    (if tc.arguments = "" then []
    else [{ type := .toolDelta, toolIndex := tc.index, argsDelta := tc.arguments }])) ++
  (match ch.finishReason with
  | none => []
  | some reason =>
    if reason = "" then [] else [{ type := .stop, stopReason := mapStopReason reason }])

def decodeOpenAIStreamChunk : OpenAIData → Decoded
  | .done => .ok ([], true)
  | .payload .blank => .ok ([], false)
  | .payload (.malformed err) => .error ("invalid OpenAI SSE chunk: " ++ err)
  | .payload (.doc chunk) =>
    match chunk.error with
    | some e =>
      let code := if e.code.text = "" then e.type else e.code.text
      .ok ([{ type := .error, errorCode := code, errorMsg := e.message }], true)
    | none =>
      let usage : List StreamEvent := match chunk.usage with
        | none => []
        | some u =>
          if 0 < u.promptTokens ∨ 0 < u.completionTokens then
            [usageEvent
              { inputTokens := u.promptTokens, outputTokens := u.completionTokens,
                cacheReadTokens := u.cachedTokens.getD 0,
                reasoningTokens := u.reasoningTokens.getD 0 }]
          else []
      .ok (usage ++ chunk.choices.flatMap OpenAIChoice.events, false)

/-! ### Anthropic Messages -/

/-- The token counts of a message. -/
structure AnthropicUsage where
  inputTokens : ℤ := 0
  outputTokens : ℤ := 0
  cacheReadTokens : ℤ := 0
  cacheCreationTokens : ℤ := 0

structure AnthropicBlockStart where
  index : ℤ := 0
  type : String := ""
  id : String := ""
  name : String := ""
  text : String := ""
  thinking : String := ""

structure AnthropicBlockDelta where
  index : ℤ := 0
  type : String := ""
  text : String := ""
  thinking : String := ""
  partialJSON : String := ""

structure AnthropicMessageDelta where
  stopReason : String := ""
  usage : AnthropicUsage := {}

/-- A payload under each type it is decoded into. `error` is the envelope's error, when there is one
that is not `null`; what does not fit into it is left out, as the source ignores that error. -/
structure AnthropicDoc where
  type : String := ""
  error : Option (String × String) := none
  messageStart : AnthropicUsage := {}
  blockStart : Except String AnthropicBlockStart := .ok {}
  blockDelta : Except String AnthropicBlockDelta := .ok {}
  blockStop : ℤ := 0
  messageDelta : Except String AnthropicMessageDelta := .ok {}

/-- The events of `content_block_start`. -/
def AnthropicBlockStart.events (cb : AnthropicBlockStart) : List StreamEvent :=
  if cb.type = "text" then
    if cb.text = "" then [] else [{ type := .text, text := cb.text }]
  else if cb.type = "thinking" then
    if cb.thinking = "" then [] else [{ type := .thinking, text := cb.thinking }]
  else if cb.type = "tool_use" then
    [{ type := .toolStart, toolIndex := cb.index, toolID := cb.id, toolName := cb.name }]
  else []

/-- The events of `content_block_delta`. -/
def AnthropicBlockDelta.events (dv : AnthropicBlockDelta) : List StreamEvent :=
  if dv.type = "text_delta" then
    if dv.text = "" then [] else [{ type := .text, text := dv.text }]
  else if dv.type = "thinking_delta" then
    if dv.thinking = "" then [] else [{ type := .thinking, text := dv.thinking }]
  else if dv.type = "input_json_delta" then
    if dv.partialJSON = "" then []
    else [{ type := .toolDelta, toolIndex := dv.index, argsDelta := dv.partialJSON }]
  else []

/-- The events of `message_delta`. -/
def AnthropicMessageDelta.events (md : AnthropicMessageDelta) : List StreamEvent :=
  (if 0 < md.usage.outputTokens ∨ 0 < md.usage.inputTokens ∨ 0 < md.usage.cacheReadTokens ∨
      0 < md.usage.cacheCreationTokens then
    [usageEvent
      { inputTokens := md.usage.inputTokens, outputTokens := md.usage.outputTokens,
        cacheReadTokens := md.usage.cacheReadTokens,
        cacheWriteTokens := md.usage.cacheCreationTokens }]
  else []) ++
  (if md.stopReason = "" then []
  else [{ type := .stop, stopReason := mapStopReason md.stopReason }])

def decodeAnthropicStreamEvent : Payload AnthropicDoc → Except String (List StreamEvent)
  | .blank => .ok []
  | .malformed err => .error ("invalid Anthropic SSE event: " ++ err)
  | .doc d =>
    match d.error with
    | some (code, msg) => .ok [{ type := .error, errorCode := code, errorMsg := msg }]
    | none =>
      if d.type = "message_start" then
        let u := d.messageStart
        .ok [{ type := .start, usage :=
          if 0 < u.inputTokens ∨ 0 < u.cacheReadTokens ∨ 0 < u.cacheCreationTokens then
            some { inputTokens := u.inputTokens, cacheReadTokens := u.cacheReadTokens,
                   cacheWriteTokens := u.cacheCreationTokens }
          else none }]
      else if d.type = "content_block_start" then
        match d.blockStart with
        | .error err => .error ("invalid Anthropic content_block_start: " ++ err)
        | .ok cb => .ok cb.events
      else if d.type = "content_block_delta" then
        match d.blockDelta with
        | .error err => .error ("invalid Anthropic content_block_delta: " ++ err)
        | .ok dv => .ok dv.events
      else if d.type = "content_block_stop" then
        .ok [{ type := .toolEnd, toolIndex := d.blockStop }]
      else if d.type = "message_delta" then
        match d.messageDelta with
        | .error err => .error ("invalid Anthropic message_delta: " ++ err)
        | .ok md => .ok md.events
      else if d.type = "message_stop" then .ok [{ type := .stop, stopReason := .endTurn }]
      else if d.type = "error" then
        .ok [{ type := .error, errorMsg := "anthropic stream error event" }]
      else .ok []

/-! ### Gemini GenerateContent -/

/-- `GeminiCall`; `args` is the text of the raw message. -/
structure GeminiCall where
  name : String := ""
  args : String := ""

/-- `GeminiPart`, as far as responses are read. -/
structure GeminiPart where
  text : String := ""
  functionCall : Option GeminiCall := none
  functionCallV1 : Option GeminiCall := none
  thought : Option Bool := none

/-- `GeminiCandidate`, with the parts of its content. -/
structure GeminiCandidate where
  parts : List GeminiPart := []
  finishReason : String := ""

structure GeminiUsage where
  promptTokenCount : ℤ := 0
  candidatesTokenCount : ℤ := 0
  cachedContentTokenCount : ℤ := 0
  thoughtsTokenCount : ℤ := 0

/-- `GeminiResponse_`. -/
structure GeminiDoc where
  candidates : List GeminiCandidate := []
  blockReason : Option String := none
  usageMetadata : Option GeminiUsage := none

structure ToolCall where
  id : String := ""
  name : String := ""
  arguments : String := ""
  deriving DecidableEq, Repr

/-- `Block`. -/
inductive Block
  | text (text : String)
  | toolCall (call : ToolCall)
  | thinking (text signature : String)
  deriving DecidableEq, Repr

structure Response where
  id : String := ""
  model : String := ""
  blocks : List Block := []
  stopReason : StopReason := .unset
  usage : Usage := {}
  deriving DecidableEq, Repr

/-- `unicode.ToUpper`, for the letters that become letters of ASCII. -/
def upperRune (c : Char) : Char :=
  if c.toNat == 0x131 then 'I' else if c.toNat == 0x17F then 'S' else c.toUpper

/-- `strings.ToUpper`, as far as the result is compared with ASCII text. -/
def toUpper (s : String) : String := String.ofList (s.toList.map upperRune)

def geminiFinishToStop (reason : String) : StopReason :=
  let r := toUpper (trimSpace reason)
  if r = "MAX_TOKENS" then .maxTokens
  else if r = "SAFETY" ∨ r = "PROHIBITED_CONTENT" ∨ r = "BLOCKLIST" ∨ r = "SPII" then .refusal
  else .endTurn

/-- The text of an object without members. -/
def emptyObject : String := "\x7b\x7d"

/-- The call of a function-call part. -/
def GeminiCall.toolCall (c : GeminiCall) : ToolCall :=
  { name := c.name, arguments := if trimSpace c.args = "" then emptyObject else c.args }

def GeminiPart.block (p : GeminiPart) : Option Block :=
  if p.text ≠ "" then
    if p.thought = some true then some (.thinking p.text "thought") else some (.text p.text)
  else match p.functionCall with
    | some c => some (.toolCall c.toolCall)
    | none => p.functionCallV1.map fun c => .toolCall c.toolCall

def Block.isToolCall : Block → Bool
  | .toolCall _ => true
  | _ => false

/-- `DecodeGeminiResponse`, of a body that decodes. -/
def decodeGeminiResponse (d : GeminiDoc) : Response :=
  let blocks := match d.candidates with
    | [] => []
    | c :: _ => c.parts.filterMap GeminiPart.block
  let stopReason := match d.candidates with
    | [] => if d.blockReason.getD "" ≠ "" then .refusal else .endTurn
    | c :: _ =>
      let stop := geminiFinishToStop c.finishReason
      if blocks.any Block.isToolCall ∧ stop = .endTurn then .toolUse else stop
  let usage := match d.usageMetadata with
    | none => {}
    | some u => { inputTokens := u.promptTokenCount, outputTokens := u.candidatesTokenCount,
                  cacheReadTokens := u.cachedContentTokenCount,
                  reasoningTokens := u.thoughtsTokenCount }
  { blocks := blocks, stopReason := stopReason, usage := usage }

/-- The events of a block. The three events of a tool call leave its index zero. -/
def Block.events : Block → List StreamEvent
  | .text t => [{ type := .text, text := t }]
  | .thinking t _ => [{ type := .thinking, text := t }]
  | .toolCall c =>
    [{ type := .toolStart, toolName := c.name, toolID := c.id },
      { type := .toolDelta, argsDelta := c.arguments }, { type := .toolEnd }]

/-- Whether a document ends the stream. -/
def GeminiDoc.terminal (d : GeminiDoc) : Bool :=
  d.blockReason.getD "" ≠ "" || d.candidates.head?.any fun c => trimSpace c.finishReason ≠ ""

def decodeGeminiStreamChunk : Payload GeminiDoc → Decoded
  | .blank => .ok ([], false)
  | .malformed err => .error ("invalid Gemini stream chunk: " ++ err)
  | .doc d =>
    let resp := decodeGeminiResponse d
    .ok (resp.blocks.flatMap Block.events ++
      (if 0 < resp.usage.inputTokens ∨ 0 < resp.usage.outputTokens then
        [usageEvent resp.usage]
      else []) ++
      (if d.terminal then [{ type := .stop, stopReason := resp.stopReason }] else []), d.terminal)

/-! ### Bedrock Converse -/

structure BedrockBlockStart where
  index : ℤ := 0
  toolUse : Option (String × String) := none

structure BedrockBlockDelta where
  index : ℤ := 0
  text : String := ""
  toolUse : Option String := none

/-- A payload under each type it is decoded into. `payload` is the text of the raw message. -/
structure BedrockDoc where
  eventType : String := ""
  payload : String := ""
  blockStart : Except String BedrockBlockStart := .ok {}
  blockDelta : Except String BedrockBlockDelta := .ok {}
  messageStop : Except String String := .ok ""
  metadata : Except String Usage := .ok {}

def bedrockStopToCanonical (stop : String) : StopReason :=
  if stop = "stop_sequence" then .stopSequence
  else if stop = "tool_use" then .toolUse
  else if stop = "max_tokens" then .maxTokens
  else if stop = "content_filtered" ∨ stop = "guardrail_intervened" then .refusal
  else .endTurn

/-- `DecodeBedrockStreamChunk`. The end of a block has no event of its own: it does not say whether
the block was a tool call. -/
def decodeBedrockStreamChunk : Payload BedrockDoc → Decoded
  | .blank => .ok ([], false)
  | .malformed err => .error ("invalid Bedrock stream envelope: " ++ err)
  | .doc d =>
    if d.eventType = "messageStart" then .ok ([{ type := .start }], false)
    else if d.eventType = "contentBlockStart" then
      match d.blockStart with
      | .error err => .error ("invalid Bedrock contentBlockStart: " ++ err)
      | .ok p =>
        match p.toolUse with
        | none => .ok ([], false)
        | some (id, name) =>
          .ok ([{ type := .toolStart, toolIndex := p.index, toolID := id, toolName := name }], false)
    else if d.eventType = "contentBlockDelta" then
      match d.blockDelta with
      | .error err => .error ("invalid Bedrock contentBlockDelta: " ++ err)
      | .ok p =>
        match p.toolUse with
        | some input =>
          .ok ([{ type := .toolDelta, toolIndex := p.index, argsDelta := input }], false)
        | none => .ok (if p.text = "" then [] else [{ type := .text, text := p.text }], false)
    else if d.eventType = "contentBlockStop" then .ok ([], false)
    else if d.eventType = "messageStop" then
      match d.messageStop with
      | .error err => .error ("invalid Bedrock messageStop: " ++ err)
      | .ok stop => .ok ([{ type := .stop, stopReason := bedrockStopToCanonical stop }], true)
    else if d.eventType = "metadata" then
      match d.metadata with
      | .error err => .error ("invalid Bedrock metadata event: " ++ err)
      | .ok u => .ok ([usageEvent u], false)
    else if d.eventType.endsWith "Exception" ∨ d.eventType.endsWith "exception" then
      .ok ([{ type := .error, errorCode := d.eventType, errorMsg := d.payload }], true)
    else .ok ([], false)

/-! ### OpenAI Responses -/

/-- `ResponsesOutputItem`, as far as the stream reads it. -/
structure ResponsesItem where
  type : String := ""
  name : String := ""
  callID : String := ""
  arguments : String := ""

/-- `ResponsesResponse`, as far as the stream reads it. -/
structure ResponsesBody where
  output : List ResponsesItem := []
  usage : Option CoreUsage := none

/-- A payload under each type it is decoded into; `none` where the source ignores the event when it
does not decode. -/
structure ResponsesDoc where
  type : String := ""
  delta : Option String := some ""
  item : Option (ℤ × ResponsesItem) := some (0, {})
  argsDelta : Option (ℤ × String) := some (0, "")
  argsDone : Option (ℤ × String × String) := some (0, "", "")
  body : Except String ResponsesBody := .ok {}
  failure : Option (Json × Json) := none

def ResponsesBody.usageEvents (r : ResponsesBody) : List StreamEvent :=
  match r.usage with
  | none => []
  | some u =>
    [usageEvent
      { inputTokens := u.promptTokens, outputTokens := u.completionTokens,
        cacheReadTokens := u.cachedTokens.getD 0, reasoningTokens := u.reasoningTokens.getD 0 }]

/-- The events of a finished output item: the complete arguments, and the end of the call. -/
def ResponsesItem.doneEvents (index : ℤ) (item : ResponsesItem) : List StreamEvent :=
  (if item.arguments = "" then []
  else [{ type := .toolDelta, toolIndex := index, toolID := item.callID, toolName := item.name,
          argsDelta := item.arguments, argsFinal := true }]) ++
  [{ type := .toolEnd, toolIndex := index }]

/-- `DecodeResponsesStreamEvent`. The type of an event is that of its payload, or the name of the
server-sent event. -/
def decodeResponsesStreamEvent (eventName : String) : Payload ResponsesDoc → Decoded
  | .blank => .ok ([], false)
  | .malformed err => .error ("invalid Responses SSE event: " ++ err)
  | .doc d =>
    let typ := if d.type = "" then eventName else d.type
    if typ = "response.output_text.delta" then
      let delta := d.delta.getD ""
      .ok (if delta = "" then [] else [{ type := .text, text := delta }], false)
    else if typ = "response.reasoning_summary_text.delta" ∨ typ = "response.reasoning_text.delta" then
      let delta := d.delta.getD ""
      .ok (if delta = "" then [] else [{ type := .thinking, text := delta }], false)
    else if typ = "response.output_item.added" then
      match d.item with
      | none => .ok ([], false)
      | some (index, item) =>
        .ok (if item.type = "function_call" then
            [{ type := .toolStart, toolIndex := index, toolID := item.callID, toolName := item.name }]
          else [], false)
    else if typ = "response.function_call_arguments.delta" then
      match d.argsDelta with
      | none => .ok ([], false)
      | some (index, delta) =>
        .ok (if delta = "" then []
          else [{ type := .toolDelta, toolIndex := index, argsDelta := delta }], false)
    else if typ = "response.function_call_arguments.done" then
      match d.argsDone with
      | none => .ok ([], false)
      | some (index, name, args) =>
        .ok (if args = "" then []
          else [{ type := .toolDelta, toolIndex := index, toolName := name, argsDelta := args,
                  argsFinal := true }], false)
    else if typ = "response.output_item.done" then
      match d.item with
      | none => .ok ([], false)
      | some (index, item) =>
        .ok (if item.type = "function_call" then item.doneEvents index else [], false)
    else if typ = "response.incomplete" then
      match d.body with
      | .error err => .error ("invalid Responses incomplete event: " ++ err)
      | .ok r => .ok (r.usageEvents ++ [{ type := .stop, stopReason := .maxTokens }], true)
    else if typ = "response.failed" ∨ typ = "error" then
      let msg := match d.failure with
        | some (.str m, _) => m
        | _ => "responses stream failed"
      let code := match d.failure with
        | some (_, c) => c.text
        | none => ""
      .ok ([{ type := .error, errorCode := code, errorMsg := msg }], true)
    else if typ = "response.completed" ∨ typ = "response.done" then
      match d.body with
      | .error err => .error ("invalid Responses completed event: " ++ err)
      | .ok r =>
        let stop := if r.output.any (·.type == "function_call") then .toolUse else .endTurn
        .ok (r.usageEvents ++ [{ type := .stop, stopReason := stop }], true)
    else .ok ([], false)

/-! ### Upstreams -/

inductive UpstreamKind
  | openAIChat
  | openAIResponses
  | anthropic
  | gemini
  | bedrock
  deriving DecidableEq, Repr

def UpstreamKind.name : UpstreamKind → String
  | .openAIChat => "openai_chat"
  | .openAIResponses => "openai_responses"
  | .anthropic => "anthropic"
  | .gemini => "gemini"
  | .bedrock => "bedrock"

/-- The payloads of an upstream's event stream, in its dialect. Only the Responses dialect reads the
names of events. -/
inductive Upstream
  | openAIChat (frames : List OpenAIData)
  | openAIResponses (frames : List (String × Payload ResponsesDoc))
  | anthropic (frames : List (Payload AnthropicDoc))
  | gemini (frames : List (Payload GeminiDoc))
  | bedrock (frames : List (Payload BedrockDoc))

def Upstream.kind : Upstream → UpstreamKind
  | .openAIChat _ => .openAIChat
  | .openAIResponses _ => .openAIResponses
  | .anthropic _ => .anthropic
  | .gemini _ => .gemini
  | .bedrock _ => .bedrock

/-- What the decoder of the dialect makes of each payload. Of an Anthropic and a Gemini payload the
pump takes no word that it ends the stream. -/
def Upstream.decoded : Upstream → List Decoded
  | .openAIChat frames => frames.map decodeOpenAIStreamChunk
  | .openAIResponses frames => frames.map fun f => decodeResponsesStreamEvent f.1 f.2
  | .anthropic frames => frames.map fun p => (decodeAnthropicStreamEvent p).map fun evs => (evs, false)
  | .gemini frames => frames.map fun p => (decodeGeminiStreamChunk p).map fun d => (d.1, false)
  | .bedrock frames => frames.map decodeBedrockStreamChunk

end NexaRoute.Canonical
