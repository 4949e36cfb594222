import NexaRoute.Canonical.OpenAIChat

/-!
# GenerateContent requests

`internal/protocol/canonical/gemini.go` and `gemini_ingress.go`: a canonical request for a Gemini
upstream, and a GenerateContent request of a Gemini client. The dialect knows a call and its
response by the name of the function. The ingress therefore leaves the id of a call empty and puts
the name of the function into the id of a result; the encoder finds the name of a result again in
the first call with its id.

A raw message is text here, as the code handles it; `json.Marshal` refuses text that is not JSON.

## Main definitions

* `encodeGeminiRequest`, `decodeGeminiIngressRequest` — the two codecs
-/

namespace NexaRoute.Canonical

open Go
open NexaRoute.Core
open Router (toLower)

/-! ### Requests -/

structure GeminiBlob where
  mimeType : String := ""
  mimeV1 : String := ""
  data : String := ""
  deriving DecidableEq, Repr

def GeminiBlob.mime (b : GeminiBlob) : String := if b.mimeType = "" then b.mimeV1 else b.mimeType

/-- `GeminiResponse`; `response` is the text of the raw message. -/
structure GeminiFunctionResponse where
  name : String := ""
  response : String := ""
  deriving DecidableEq, Repr

/-- `GeminiPart`. -/
structure GeminiContentPart where
  text : String := ""
  inlineData : Option GeminiBlob := none
  inlineDataV1 : Option GeminiBlob := none
  functionCall : Option GeminiCall := none
  functionCallV1 : Option GeminiCall := none
  functionResponse : Option GeminiFunctionResponse := none
  functionResponseV1 : Option GeminiFunctionResponse := none
  thought : Option Bool := none

structure GeminiContent where
  role : String := ""
  parts : List GeminiContentPart := []

structure GeminiCallingConfig where
  mode : String := ""
  allowedFunctionNames : List String := []

structure GeminiGenerationConfig where
  temperature : Option ℚ := none
  topP : Option ℚ := none
  topK : Option ℚ := none
  maxOutputTokens : ℤ := 0
  stopSequences : List String := []
  responseMimeType : String := ""
  responseSchema : Option Json := none
  candidateCount : ℤ := 0
  responseModalities : List String := []

/-- `GeminiRequest`. A tool is the list of its function declarations. -/
structure GeminiRequest where
  contents : List GeminiContent := []
  systemInstruction : Option (List GeminiContentPart) := none
  tools : List (List Json) := []
  toolConfig : Option GeminiCallingConfig := none
  generationConfig : Option GeminiGenerationConfig := none
  safetySettings : List Json := []

/-! ### Encoding -/

/-- Whether `json.Marshal` accepts a raw message. -/
def validRaw (raw : String) : Bool :=
  match parseJSON (bytes raw) with
  | some doc => decide (doc.depth ≤ maxNestingDepth)
  | none => false

/-- The call a part holds, also without a name. -/
def Content.anyCall? : Content → Option ToolCall
  | .toolCall c => some c
  | _ => none

/-- `toolNameForID`: the name of the first call of an assistant turn that has the id. -/
def toolNameForID (r : Request) (id : String) : String :=
  let calls := (r.messages.filter (·.role = .assistant)).flatMap fun m =>
    m.parts.filterMap (·.content.anyCall?)
  match calls.find? (·.id = id) with
  | some c => c.name
  | none => if id = "" then "unknown" else id

/-- Whether a text decodes into `any`. -/
def decodesAny (text : String) : Bool :=
  match parseJSON (bytes text) with
  | some doc => decide (doc.depth ≤ maxNestingDepth) && Kind.any.fits doc
  | none => false

def parseOrQuote (content : String) : String :=
  let s := trimSpace content
  if s = "" then "\x7b\"result\": \"\"\x7d"
  else if decodesAny s then s
  else marshalJSON (.obj [("result", .str s)])

/-- The blob of an image. An image behind a remote URL is left out. -/
def Image.blob? (i : Image) : Option GeminiBlob :=
  let found : Option (String × String) :=
    if i.url ≠ "" ∧ i.data = "" then parseDataURL i.url else some (i.mediaType, i.data)
  match found with
  | none => none
  | some (mt, data) =>
    if data = "" then none
    else some { mimeType := if mt = "" then "image/png" else mt, data := data }

def encodeGeminiPart (r : Request) : Content → Option GeminiContentPart
  | .text s => if s = "" then none else some { text := s }
  | .image i => i.blob?.map fun b => { inlineData := some b }
  | .toolCall c =>
    if c.name = "" then none
    else some { functionCall := some { name := c.name, args := argumentsOrEmpty c.arguments } }
  | .toolResult tr =>
    let answer : GeminiFunctionResponse :=
      { name := toolNameForID r tr.toolUseID, response := parseOrQuote tr.content }
    some { functionResponse := some answer }
  | .thinking _ => none

def encodeGeminiMessage (r : Request) (m : Message) : GeminiContent where
  role := if m.role = .assistant then "model" else "user"
  parts := match m.parts.filterMap fun p => encodeGeminiPart r p.content with
    | [] => [{ text := "" }]
    | parts => parts

/-- A keyword of a schema that Gemini rejects. -/
def rejectedKeyword (key : String) : Bool :=
  "$".toList.isPrefixOf key.toList || key == "additionalProperties"

mutual

/-- `stripSchemaKeywords`, on the value of a member: an object, or a list with objects in it. -/
def stripValue : Json → Json
  | .obj members => .obj (stripMembers members)
  | .arr items => .arr (stripItems items)
  | v => v

def stripItems : List Json → List Json
  | [] => []
  | .obj members :: items => .obj (stripMembers members) :: stripItems items
  | v :: items => v :: stripItems items

def stripMembers : List (String × Json) → List (String × Json)
  | [] => []
  | (key, v) :: members =>
    if rejectedKeyword key then stripMembers members
    else (key, stripValue v) :: stripMembers members

end

def geminiDeclaration (t : ToolDef) : Json :=
  let description : List (String × Json) :=
    if t.description = "" then [] else [("description", .str t.description)]
  let parameters : List (String × Json) := match t.parameters with
    | some (.obj members) => [("parameters", .obj (stripMembers members))]
    | _ => []
  .obj ([("name", .str t.name)] ++ description ++ parameters)

/-- The calling mode of a tool choice. -/
def geminiChoice : ToolChoice → GeminiCallingConfig
  | .auto => { mode := "MODE_AUTO" }
  | .none => { mode := "MODE_NONE" }
  | .required => { mode := "MODE_ANY" }
  | .tool name =>
    { mode := "MODE_ANY", allowedFunctionNames := if name = "" then [] else [name] }

def geminiGeneration (r : Request) : GeminiGenerationConfig where
  temperature := r.temperature
  topP := r.topP
  topK := r.topK
  maxOutputTokens := max r.maxOutputTokens 0
  stopSequences := r.stop
  responseMimeType := if r.responseFormat.isSome then "application/json" else ""
  responseSchema := match r.responseFormat with
    | some (.jsonSchema _ (some (.obj members))) => some (.obj (stripMembers members))
    | some (.jsonSchema _ (some .null)) => some (.obj [])
    | _ => none

/-- Whether the raw messages of a part marshal. -/
def GeminiContentPart.marshals (p : GeminiContentPart) : Bool :=
  (p.functionCall.all fun c => validRaw c.args) &&
    p.functionResponse.all fun fr => validRaw fr.response

def geminiPayload (r : Request) : GeminiRequest where
  contents := r.messages.map (encodeGeminiMessage r)
  systemInstruction := if trimSpace (partsToText r.system) = "" then none
    else some [{ text := partsToText r.system }]
  tools := if r.tools.isEmpty then [] else [r.tools.map geminiDeclaration]
  toolConfig := if r.tools.isEmpty then none else r.toolChoice.map geminiChoice
  generationConfig := some (geminiGeneration r)

/-- `EncodeGeminiRequest`. The model is returned beside the payload. -/
def encodeGeminiRequest (r : Request) : Except CodecError GeminiRequest :=
  if (geminiPayload r).contents.all fun c => c.parts.all GeminiContentPart.marshals then
    .ok (geminiPayload r)
  else .error .marshal

/-! ### Ingress -/

/-- A part of a client's content. -/
def geminiIngressPart (p : GeminiContentPart) : Except CodecError Part :=
  match p.functionCall <|> p.functionCallV1, p.functionResponse <|> p.functionResponseV1,
    p.inlineData <|> p.inlineDataV1 with
  | some call, _, _ =>
    if trimSpace call.name = "" then .error .callName
    else
      let args := if trimSpace call.args = "" then emptyObject else trimSpace call.args
      if (unmarshalObject args).isSome then
        .ok (.ofCall { name := call.name, arguments := args })
      else .error .callArguments
  | none, some resp, _ =>
    if trimSpace resp.name = "" then .error .responseName
    -- the name of the function takes the place of the id
    else .ok (.ofResult { toolUseID := resp.name, content := resp.response })
  | none, none, some blob =>
    if blob.data = "" then .error .blobData
    else
      let mt := if blob.mime = "" then "image/png" else blob.mime
      .ok { content := .image { mediaType := mt, data := blob.data } }
  | none, none, none =>
    if p.text = "" then .error .emptyPart
    else if p.thought = some true then .ok { content := .thinking { text := p.text } }
    else .ok (.ofText p.text)

/-- The role of a content. Only the first one may leave it out. -/
def geminiRole (c : GeminiContent) (i : ℕ) : Except CodecError Role :=
  let role := toLower (trimSpace c.role)
  if role = "" then if i = 0 then .ok .user else .error (.roleRequired i)
  else if role = "user" then .ok .user
  else if role = "model" then .ok .assistant
  else if role = "function" then .ok .tool
  else .error (.contentRole i c.role)

def decodeGeminiContent (entry : GeminiContent × ℕ) : Except CodecError Message := do
  let role ← geminiRole entry.1 entry.2
  let parts ← entry.1.parts.mapM geminiIngressPart
  if parts = [] then .error (.partRequired entry.2) else .ok { role := role, parts := parts }

/-- What the gateway does not serve. -/
def checkGeneration (gc : GeminiGenerationConfig) : Except CodecError Unit :=
  if gc.candidateCount > 1 then .error (.candidateCount gc.candidateCount)
  else match gc.responseModalities.find? fun m => toUpper (trimSpace m) ≠ "TEXT" with
    | some m => .error (.modality m)
    | none => .ok ()

def geminiSystemPart (p : GeminiContentPart) : Except CodecError Part :=
  if p.text = "" then .error .systemPart else .ok (.ofText p.text)

def decodeDeclaration (decl : Json) : Except CodecError ToolDef :=
  let name := textMember decl "name"
  if trimSpace name = "" then .error .declarationName
  else match decl.member "parameters" with
    | none => .ok { name := name, description := textMember decl "description" }
    | some .null => .ok { name := name, description := textMember decl "description" }
    | some (.obj members) =>
      .ok { name := name, description := textMember decl "description",
            parameters := some (.obj members) }
    | some _ => .error (.declarationParameters name)

/-- A mode without the word the wire form puts in front. -/
def bareMode (mode : String) : String :=
  let m := (toUpper (trimSpace mode)).toList
  String.ofList ((m.dropPrefix? "MODE_".toList).getD m)

def decodeCalling (cfg : GeminiCallingConfig) : Except CodecError ToolChoice :=
  let mode := bareMode cfg.mode
  if mode = "" ∨ mode = "AUTO" then .ok .auto
  else if mode = "NONE" then .ok .none
  else if mode = "ANY" then
    match cfg.allowedFunctionNames with
    | [name] => .ok (.tool name)
    | _ => .ok .required
  else .error (.callingMode cfg.mode)

/-- The response format of a generation configuration. -/
def decodeMime (gc : GeminiGenerationConfig) : Except CodecError (Option ResponseFormat) :=
  let mime := toLower (trimSpace gc.responseMimeType)
  if mime = "" ∨ mime = "text/plain" then
    if gc.responseSchema.isSome then .error .schemaWithoutJSON else .ok none
  else if mime = "application/json" then
    match gc.responseSchema with
    | some schema => .ok (some (.jsonSchema "" (some schema)))
    | none => .ok (some .jsonObject)
  else .error (.responseMimeType gc.responseMimeType)

/-- `DecodeGeminiIngressRequest`. The model comes from the path. -/
def decodeGeminiIngressRequest (x : GeminiRequest) (model : String) :
    Except CodecError Request := do
  if trimSpace model = "" then throw .modelRequired
  if x.contents.isEmpty then throw .contentsRequired
  let gc := x.generationConfig.getD {}
  checkGeneration gc
  unless x.safetySettings.isEmpty do throw .safetySettings
  let system ← (x.systemInstruction.getD []).mapM geminiSystemPart
  let messages ← x.contents.zipIdx.mapM decodeGeminiContent
  let tools ← x.tools.flatten.mapM decodeDeclaration
  let choice ← x.toolConfig.mapM decodeCalling
  let format ← decodeMime gc
  return {
    model := model
    system := system
    messages := messages
    tools := tools
    toolChoice := choice
    responseFormat := format
    temperature := gc.temperature
    topP := gc.topP
    topK := gc.topK
    maxOutputTokens := gc.maxOutputTokens
    stop := gc.stopSequences }

end NexaRoute.Canonical
