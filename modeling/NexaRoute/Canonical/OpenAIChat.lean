import NexaRoute.Canonical.Request

/-!
# Chat-completions requests

`internal/protocol/canonical/openai_chat.go`: a chat-completions request as a canonical request, and
a canonical request as a chat-completions request. The dialect has a role of its own for tool
results, one result a message; so the results of a user turn become messages in front of it, and of
a tool turn the encoder takes the first part.

## Main definitions

* `decodeOpenAIChatRequest`, `encodeOpenAIChatRequest` — the codec
-/

namespace NexaRoute.Canonical

open Go
open NexaRoute.Core

/-! ### Decoding -/

/-- The type of a content part. -/
def isTextType (typ : String) : Bool := typ == "text" || typ == "input_text"

/-- The text of a content part, when there is some. -/
def partText (m : Json) : Option String :=
  if textMember m "text" = "" then none else some (textMember m "text")

theorem partText_ne {m : Json} {s : String} (h : partText m = some s) : s ≠ "" := by
  unfold partText at h
  split_ifs at h with hs
  obtain rfl := Option.some.inj h
  exact hs

/-- The text of an item of a tool result. -/
def resultText (item : Json) : Option String :=
  match item with
  | .obj members =>
    if isTextType (textMember (.obj members) "type") then partText (.obj members) else none
  | _ => none

/-- `openAIContentToText`. A list without text is sent as its JSON. -/
def openAIContentToText : Json → String
  | .str c => c
  | .null => ""
  | .arr items =>
    if items.filterMap resultText = [] then marshalJSON (.arr items)
    else String.intercalate "\n" (items.filterMap resultText)
  | v => marshalJSON v

def foldBlankSystem (parts : List Part) (system : Bool) : List Part :=
  if system = true ∧ trimSpace (partsToText parts) = "" then [] else parts

/-- An item of a content list. In a system message everything but text is dropped. -/
def contentPart (system : Bool) (item : Json) : Except CodecError (Option Part) :=
  match item with
  | .obj members =>
    let typ := textMember (.obj members) "type"
    if isTextType typ then .ok ((partText (.obj members)).map Part.ofText)
    else if typ = "image_url" ∨ typ = "input_image" then
      if system then .ok none
      else .ok ((decodeOpenAIImage (.obj members)).map fun i => { content := .image i })
    else if system then .ok none
    else .error (.unsupportedPart typ)
  | _ => .ok none

def openAIContentToParts (v : Json) (system : Bool) : Except CodecError (List Part) :=
  match v with
  | .null => .ok []
  | .str c => .ok (if c = "" then [] else foldBlankSystem [.ofText c] system)
  | .arr items =>
    (items.mapM (contentPart system)).map fun parts => foldBlankSystem (parts.filterMap id) system
  | v => .ok [.ofText (marshalJSON v)]

/-- The parts of a message that stand outside its content: the reasoning, and the calls that have a
name. -/
def assistantParts (m : OpenAIMessage) : List Part :=
  (if trimSpace m.reasoningContent = "" then []
    else [{ content := .thinking { text := m.reasoningContent } }]) ++
  (m.toolCalls.filter (·.name ≠ "")).map fun tc =>
    .ofCall { id := tc.id, name := tc.name, arguments := tc.arguments }

/-- One message: what it adds to the system prompt, and to the conversation. -/
def decodeChatMessage (m : OpenAIMessage) : Except CodecError (List Part × List Message) :=
  if m.role = "system" ∨ m.role = "developer" then
    (openAIContentToParts m.content true).map fun parts => (parts, [])
  else if m.role = "assistant" then
    (openAIContentToParts m.content false).map fun parts =>
      ([], [{ role := .assistant, parts := parts ++ assistantParts m }])
  else if m.role = "tool" then
    .ok ([], [{ role := .tool, parts :=
      [.ofResult { toolUseID := m.toolCallID, content := openAIContentToText m.content }] }])
  else
    (openAIContentToParts m.content false).map fun parts => ([], [{ role := .user, parts := parts }])

/-- What a chat client can ask for that the representation has no field for. -/
def chatMetadata (x : OpenAIRequest) : List (String × MetaValue) :=
  (x.seed.map fun n => ("seed", MetaValue.int n)).toList ++
    (x.frequencyPenalty.map fun q => ("frequency_penalty", MetaValue.float q)).toList ++
    (x.presencePenalty.map fun q => ("presence_penalty", MetaValue.float q)).toList

/-- The reasoning a chat client asks for. -/
def chatReasoning (x : OpenAIRequest) : Option Reasoning :=
  if trimSpace x.reasoningEffort ≠ "" then some { effort := x.reasoningEffort }
  else match x.reasoning with
    | none => none
    | some .null => none
    | some _ => some { effort := "medium" }

def decodeOpenAIChatRequest (x : OpenAIRequest) (clientModel : String) :
    Except CodecError Request := do
  let turns ← x.messages.mapM decodeChatMessage
  .ok {
    model := clientModel
    system := turns.flatMap (·.1)
    messages := turns.flatMap (·.2)
    tools := x.tools.map fun t =>
      { name := t.name, description := t.description, parameters := marshalSchema t.parameters }
    toolChoice := decodeOpenAIToolChoice x.toolChoice
    parallelToolCalls := x.parallelToolCalls
    reasoning := chatReasoning x
    temperature := x.temperature
    topP := x.topP
    maxOutputTokens := max (max x.maxTokens x.maxCompletionTokens) 0
    stop := normalizeStop x.stop
    stream := x.stream
    metadata := chatMetadata x
    promptCacheKey := x.promptCacheKey }

/-! ### Encoding -/

/-- A text part of a content list. -/
def textDoc (s : String) : Json := .obj [("type", .str "text"), ("text", .str s)]

/-- An image part of a content list. -/
def imageDoc (u : String) : Json :=
  .obj [("type", .str "image_url"), ("image_url", .obj [("url", .str u)])]

/-- The system prompt as a message, unless it is blank. -/
def systemMessage (parts : List Part) : List OpenAIMessage :=
  if trimSpace (partsToText parts) = "" then []
  else [{ role := "system", content := .str (partsToText parts) }]

/-- Reasoning that is not blank. -/
def Content.thought? : Content → Option String
  | .thinking t => if trimSpace t.text = "" then none else some t.text
  | _ => none

/-- The content of an assistant message. Beside calls a single text is a list as well. -/
def assistantContent (texts : List String) (calls : List OpenAIToolCall) : Json :=
  match calls, texts with
  | [], [] => .str ""
  | [], [t] => .str t
  | _ :: _, [] => .null
  | _, texts => .arr (texts.map textDoc)

/-- The calls of an assistant message. -/
def chatCalls (parts : List Part) : List OpenAIToolCall :=
  (parts.filterMap (·.content.call?)).map fun c =>
    { id := c.id, name := c.name, arguments := c.arguments }

/-- An assistant turn. Of several thoughts the last one is kept. -/
def encodeAssistant (parts : List Part) : OpenAIMessage where
  role := "assistant"
  content := assistantContent (parts.filterMap (·.content.text?)) (chatCalls parts)
  toolCalls := chatCalls parts
  reasoningContent := (parts.filterMap (·.content.thought?)).getLast?.getD ""

def toolResultToOpenAIContent (tr : ToolResult) : String :=
  if tr.isError then "[tool error] " ++ tr.content else tr.content

def toolMessage (tr : ToolResult) : OpenAIMessage where
  role := "tool"
  toolCallID := tr.toolUseID
  content := .str (toolResultToOpenAIContent tr)

/-- A part in a content list. -/
def Content.chatDoc? : Content → Option Json
  | .text s => some (textDoc s)
  | .image i => if i.openAIURL = "" then none else some (imageDoc i.openAIURL)
  | _ => none

def canonicalPartsToOpenAIContent (parts : List Part) : Json :=
  match parts.filterMap (·.content.chatDoc?) with
  | [] => .arr [textDoc ""]
  | docs => .arr docs

def userMessage (content : Json) : OpenAIMessage := { role := "user", content := content }

def userContent (parts : List Part) : Json :=
  match parts with
  | [{ content := .text s, .. }] => .str s
  | parts => canonicalPartsToOpenAIContent parts

/-- The parts that are no tool results. -/
def withoutResults (parts : List Part) : List Part :=
  parts.filter (·.content.result?.isNone)

/-- What is left of a user turn behind its results. -/
def encodeRest (parts : List Part) : List OpenAIMessage :=
  if withoutResults parts = [] then [] else [userMessage (userContent (withoutResults parts))]

/-- A user turn: its results, then the rest. -/
def encodeUser (parts : List Part) : List OpenAIMessage :=
  if parts = [] then [userMessage (.str "")]
  else (parts.filterMap (·.content.result?)).map toolMessage ++ encodeRest parts

/-- A tool turn: the first part, if it is a result. -/
def encodeTool (parts : List Part) : List OpenAIMessage :=
  ((parts.head?.bind (·.content.result?)).map toolMessage).toList

def encodeChatMessage (m : Message) : List OpenAIMessage :=
  match m.role with
  | .assistant => [encodeAssistant m.parts]
  | .tool => encodeTool m.parts
  | _ => encodeUser m.parts

/-- A tool choice on the wire. -/
def chatChoice : Option ToolChoice → Json
  | none => .null
  | some .auto => .str "auto"
  | some .none => .str "none"
  | some .required => .str "required"
  | some (.tool name) => .obj [("type", .str "function"), ("function", .obj [("name", .str name)])]

/-- The effort of an encoder that takes a word. -/
def effortWord (r : Option Reasoning) : Option String :=
  match r with
  | none => none
  | some r =>
    if r.disabled then none else some (if r.effort = "" then "medium" else r.effort)

/-- A response format on the wire. -/
def chatFormat : Option ResponseFormat → Json
  | none => .null
  | some .jsonObject => .obj [("type", .str "json_object")]
  | some (.jsonSchema name schema) =>
    let schemaPart : List (String × Json) := match schema with
      | some (.obj members) => [("schema", .obj members)]
      | some .null => [("schema", .null)]
      | _ => []
    let namePart : List (String × Json) := if name = "" then [] else [("name", .str name)]
    .obj [("type", .str "json_schema"), ("json_schema", .obj (schemaPart ++ namePart))]

/-- Stop sequences on the wire. -/
def chatStop : List String → Json
  | [] => .null
  | [s] => .str s
  | stop => .arr (stop.map .str)

/-- The payload. The model it is addressed to travels beside it. -/
def chatPayload (r : Request) (includeUsage : Bool) : OpenAIRequest where
  messages := systemMessage r.system ++ r.messages.flatMap encodeChatMessage
  promptCacheKey := r.promptCacheKey
  maxTokens := max r.maxOutputTokens 0
  stream := r.stream
  streamOptions := if r.stream ∧ includeUsage then
    some (.obj [("include_usage", .bool true)]) else none
  temperature := r.temperature
  topP := r.topP
  stop := chatStop r.stop
  tools := r.tools.map fun t =>
    { type := "function", name := t.name, description := t.description,
      parameters := some (schemaOrObject t.parameters) }
  toolChoice := chatChoice r.toolChoice
  parallelToolCalls := r.parallelToolCalls
  reasoningEffort := (effortWord r.reasoning).getD ""
  frequencyPenalty := floatFromMetadata r.metadata "frequency_penalty"
  presencePenalty := floatFromMetadata r.metadata "presence_penalty"
  seed := intFromMetadata r.metadata "seed"
  responseFormatRaw := chatFormat r.responseFormat

def encodeOpenAIChatRequest (r : Request) (includeUsage : Bool) :
    Except CodecError OpenAIRequest :=
  if (chatPayload r includeUsage).messages.isEmpty then .error .noMessages
  else .ok (chatPayload r includeUsage)

theorem encodeOpenAIChatRequest_eq_ok_iff {r : Request} {includeUsage : Bool} {p : OpenAIRequest} :
    encodeOpenAIChatRequest r includeUsage = .ok p ↔
      p.messages ≠ [] ∧ p = chatPayload r includeUsage := by
  unfold encodeOpenAIChatRequest
  split_ifs with h
  · constructor
    · rintro ⟨⟩
    · rintro ⟨hne, rfl⟩
      exact absurd (List.isEmpty_iff.mp h) hne
  · constructor
    · rintro ⟨⟩
      exact ⟨fun hnil => h (List.isEmpty_iff.mpr hnil), rfl⟩
    · rintro ⟨-, rfl⟩
      rfl

end NexaRoute.Canonical
