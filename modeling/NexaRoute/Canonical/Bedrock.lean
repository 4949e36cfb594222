import NexaRoute.Canonical.Gemini

/-!
# Converse requests

`internal/protocol/canonical/bedrock.go`: a canonical request for Amazon Bedrock. Calls and results
are content blocks of a turn, whatever its role; a part with a cache marker is followed by a
checkpoint, up to four of them in one request.

## Main definitions

* `encodeBedrockRequest` — the encoder
-/

namespace NexaRoute.Canonical

open Go
open Router (toLower)

/-- `BedrockResultContent`. -/
inductive BedrockResultContent
  | text (s : String)
  | json (raw : String)
  deriving DecidableEq, Repr

/-- `BedrockContentBlock`: one member of the union. `input` is the text of the raw message; a
checkpoint says whether it asks for an hour. -/
inductive BedrockBlock
  | text (s : String)
  | image (format bytes : String)
  | toolUse (toolUseID name input : String)
  | toolResult (toolUseID : String) (content : BedrockResultContent) (error : Bool)
  | cachePoint (hour : Bool)
  deriving DecidableEq, Repr

structure BedrockMessage where
  role : String
  content : List BedrockBlock
  deriving DecidableEq, Repr

/-- `BedrockToolChoice`. -/
inductive BedrockToolChoice
  | auto
  | any
  | tool (name : String)

structure BedrockToolConfig where
  tools : List (String × String × Json)
  toolChoice : Option BedrockToolChoice

/-- `BedrockRequest`, with the members of the inference configuration. -/
structure BedrockRequest where
  messages : List BedrockMessage
  system : List BedrockBlock
  maxTokens : ℤ
  temperature : Option ℚ
  topP : Option ℚ
  stopSequences : List String
  toolConfig : Option BedrockToolConfig

def bedrockMaxCacheCheckpoints : ℕ := 4

/-- `appendBedrockCachePoint`: the checkpoint of a marked part, and the number of them so far. -/
def appendBedrockCachePoint (marker : String) (emitted : ℕ) : List BedrockBlock × ℕ :=
  if marker = "" ∨ bedrockMaxCacheCheckpoints ≤ emitted then ([], emitted)
  else ([.cachePoint (trimSpace marker = "1h")], emitted + 1)

def bedrockImageFormat (mediaType : String) : Option String :=
  let mt := toLower (trimSpace mediaType)
  if mt = "image/png" then some "png"
  else if mt = "image/jpeg" ∨ mt = "image/jpg" then some "jpeg"
  else if mt = "image/gif" then some "gif"
  else if mt = "image/webp" then some "webp"
  else none

/-- The content of a result: a JSON object as such, anything else as text. -/
def bedrockResultContent (content : String) : BedrockResultContent :=
  if decodesAny content = true ∧ (trimSpace content).toList.head? = some '{' then .json content
  else .text content

def encodeBedrockPart : Content → Except CodecError (Option BedrockBlock)
  | .text s => .ok (if s = "" then none else some (.text s))
  | .image i =>
    if i.data = "" then .ok none
    else match bedrockImageFormat i.mediaType with
      | some format => .ok (some (.image format i.data))
      | none => .error (.imageMediaType i.mediaType)
  | .toolCall c => .ok (some (.toolUse c.id c.name (argumentsOrEmpty c.arguments)))
  | .toolResult tr =>
    .ok (some (.toolResult tr.toolUseID (bedrockResultContent tr.content) tr.isError))
  | .thinking _ => .ok none

/-- The checkpoint behind a part, if the part made a block. -/
def checkpoint (block : Option BedrockBlock) (marker : String) (emitted : ℕ) :
    List BedrockBlock × ℕ :=
  if block = none then ([], emitted) else appendBedrockCachePoint marker emitted

/-- The blocks of the parts of a turn, with the number of checkpoints before and behind them. -/
def encodeBedrockParts : List Part → ℕ → Except CodecError (List BedrockBlock × ℕ)
  | [], emitted => .ok ([], emitted)
  | p :: parts, emitted => do
    let block ← encodeBedrockPart p.content
    let point := checkpoint block p.cacheControl emitted
    let rest ← encodeBedrockParts parts point.2
    .ok (block.toList ++ (point.1 ++ rest.1), rest.2)

/-- A turn with its blocks; without any it is left out. -/
def bedrockMessage (role : Role) (blocks : List BedrockBlock) : List BedrockMessage :=
  if blocks = [] then []
  else [{ role := if role = .assistant then "assistant" else "user", content := blocks }]

def encodeBedrockMessages : List Message → ℕ → Except CodecError (List BedrockMessage)
  | [], _ => .ok []
  | m :: messages, emitted => do
    let turn ← encodeBedrockParts m.parts emitted
    let rest ← encodeBedrockMessages messages turn.2
    .ok (bedrockMessage m.role turn.1 ++ rest)

def systemTexts (parts : List Part) : List Part := parts.filter (·.content.text?.isSome)

/-- A tool choice on the wire. -/
def bedrockChoice : ToolChoice → BedrockToolChoice
  | .required => .any
  | .tool name => .tool name
  | _ => .auto

/-- The tools, unless they are switched off. -/
def bedrockTools (r : Request) : Option BedrockToolConfig :=
  if r.tools.isEmpty ∨ r.toolChoice = some .none then none
  else some {
    tools := r.tools.map fun t =>
      (t.name, t.description, t.parameters.getD (.obj [("type", .str "object")]))
    toolChoice := r.toolChoice.map bedrockChoice }

/-- Whether the raw messages of a block marshal. -/
def BedrockBlock.marshals : BedrockBlock → Bool
  | .toolUse _ _ input => validRaw input
  | .toolResult _ (.json raw) _ => validRaw raw
  | _ => true

/-- The payload with its system prompt and its turns. -/
def bedrockPayload (r : Request) (system : List BedrockBlock) (messages : List BedrockMessage) :
    BedrockRequest where
  messages := messages
  system := system
  maxTokens := r.maxOutputTokens
  temperature := r.temperature
  topP := r.topP
  stopSequences := r.stop
  toolConfig := bedrockTools r

/-- `EncodeBedrockRequest`. The model is returned beside the payload. -/
def encodeBedrockRequest (r : Request) : Except CodecError BedrockRequest := do
  let system ← encodeBedrockParts (systemTexts r.system) 0
  let messages ← encodeBedrockMessages r.messages system.2
  if messages.all fun m => m.content.all BedrockBlock.marshals then
    .ok (bedrockPayload r system.1 messages)
  else .error .marshal

end NexaRoute.Canonical
