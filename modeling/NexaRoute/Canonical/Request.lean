import NexaRoute.Canonical.Stream
import NexaRoute.Core.Wire
import NexaRoute.Go.Marshal

/-!
# Canonical requests

`internal/protocol/canonical/canonical.go`: the representation every client dialect is decoded into
and every upstream dialect is encoded from. A part of a message is one of five kinds with its own
data, so a part whose type says one thing and whose fields another cannot be built. A raw message is
the document it holds; the arguments of a tool call and the content of a tool result stay text,
since nobody checks that they are JSON before an encoder does.

## Main definitions

* `Request`, `Message`, `Content` — requests in no dialect
-/

namespace NexaRoute.Canonical

open Go
open NexaRoute.Core

/-! ### The representation -/

/-- `Image`: a URL, or data in base64 with its media type. -/
structure Image where
  url : String := ""
  mediaType : String := ""
  data : String := ""
  deriving DecidableEq, Repr

structure ToolResult where
  toolUseID : String
  content : String := ""
  isError : Bool := false
  deriving DecidableEq, Repr

structure Thinking where
  text : String := ""
  signature : String := ""
  deriving DecidableEq, Repr

/-- The kinds of parts, each with the field its type selects. -/
inductive Content
  | text (s : String)
  | image (i : Image)
  | toolCall (c : ToolCall)
  | toolResult (r : ToolResult)
  | thinking (t : Thinking)
  deriving DecidableEq, Repr

structure Part where
  content : Content
  cacheControl : String := ""
  deriving DecidableEq, Repr

def Part.ofText (s : String) : Part := { content := .text s }

def Part.ofCall (c : ToolCall) : Part := { content := .toolCall c }

def Part.ofResult (r : ToolResult) : Part := { content := .toolResult r }

/-- The role of a message. The encoders know three; a Responses client may send any other. -/
inductive Role
  | user
  | assistant
  | tool
  | other (word : String)
  deriving DecidableEq, Repr

def Role.word : Role → String
  | .user => "user"
  | .assistant => "assistant"
  | .tool => "tool"
  | .other word => word

structure Message where
  role : Role
  parts : List Part
  deriving DecidableEq, Repr

structure ToolDef where
  name : String
  description : String := ""
  parameters : Option Json := none

/-- `ToolChoice`. -/
inductive ToolChoice
  | auto
  | none
  | required
  | tool (name : String)
  deriving DecidableEq, Repr

structure Reasoning where
  effort : String := ""
  budgetTokens : ℤ := 0
  disabled : Bool := false
  deriving DecidableEq, Repr

/-- `ResponseFormat`, of the kinds that are not text. -/
inductive ResponseFormat
  | jsonObject
  | jsonSchema (name : String) (schema : Option Json)

/-- A value of the metadata, as far as encoders look at it. -/
inductive MetaValue
  | int (n : ℤ)
  | float (q : ℚ)
  | other

structure Request where
  model : String
  system : List Part := []
  messages : List Message := []
  tools : List ToolDef := []
  toolChoice : Option ToolChoice := none
  parallelToolCalls : Option Bool := none
  reasoning : Option Reasoning := none
  responseFormat : Option ResponseFormat := none
  temperature : Option ℚ := none
  topP : Option ℚ := none
  topK : Option ℚ := none
  maxOutputTokens : ℤ := 0
  stop : List String := []
  stream : Bool := false
  metadata : List (String × MetaValue) := []
  promptCacheKey : String := ""

/-- Why a client's request is not decoded, or a canonical one not encoded. -/
inductive CodecError
  | unsupportedPart (typ : String)
  | unsupportedRole (role : String)
  | noMessages
  | previousResponse
  | invalidInput
  | invalidItem
  | toolType (typ : String)
  | toolChoiceType (typ : String)
  | invalidContent
  | invalidSystem
  | imageSource
  | modelRequired
  | contentsRequired
  | candidateCount (n : ℤ)
  | modality (m : String)
  | safetySettings
  | systemPart
  | roleRequired (content : ℕ)
  | contentRole (content : ℕ) (role : String)
  | partRequired (content : ℕ)
  | callName
  | callArguments
  | responseName
  | blobData
  | emptyPart
  | declarationName
  | declarationParameters (name : String)
  | callingMode (mode : String)
  | schemaWithoutJSON
  | responseMimeType (mime : String)
  | imageMediaType (mediaType : String)
  | marshal
  deriving DecidableEq, Repr

/-! ### Parts -/

/-- The text of a part, when there is some. -/
def Content.text? : Content → Option String
  | .text s => if s = "" then none else some s
  | _ => none

/-- The result a part holds. -/
def Content.result? : Content → Option ToolResult
  | .toolResult r => some r
  | _ => none

/-- The call a part holds, when it has a name. -/
def Content.call? : Content → Option ToolCall
  | .toolCall c => if c.name = "" then none else some c
  | _ => none

/-- `partsToText`: the texts, a line each. -/
def partsToText (parts : List Part) : String :=
  String.intercalate "\n" (parts.filterMap (·.content.text?))

theorem partsToText_ofText {t : String} (h : t ≠ "") : partsToText [.ofText t] = t := by
  have hsome : (Part.ofText t).content.text? = some t := if_neg h
  simp only [partsToText, List.filterMap_cons, List.filterMap_nil, hsome]
  exact String.intercalate_singleton ..

theorem intercalate_ne {sep : String} {texts : List String} (hnil : texts ≠ [])
    (hne : ∀ t ∈ texts, t ≠ "") : String.intercalate sep texts ≠ "" := by
  match texts, hnil with
  | t :: texts, _ =>
    intro h
    have hhead : t = "" := by
      cases texts with
      | nil => simpa using h
      | cons t' texts =>
        rw [String.intercalate_cons_cons] at h
        exact (String.append_eq_empty_iff.mp (String.append_eq_empty_iff.mp h).1).1
    exact hne t (List.mem_cons_self ..) hhead

theorem text_ne {c : Content} {t : String} (h : c.text? = some t) : t ≠ "" := by
  cases c with
  | text s =>
    simp only [Content.text?] at h
    split_ifs at h with hs
    obtain rfl := Option.some.inj h
    exact hs
  | _ => cases h

/-- `parseDataURL`: the media type and the data. -/
def parseDataURL (u : String) : Option (String × String) :=
  if "data:".toList.isPrefixOf u.toList then
    let rest := u.toList.drop 5
    let head := rest.takeWhile (· ≠ ',')
    if head.length = rest.length then none
    else
      let mt := (head.dropSuffix? ";base64".toList).getD head
      some (if mt = [] then "application/octet-stream" else String.ofList mt,
        String.ofList (rest.drop (head.length + 1)))
  else none

theorem parseDataURL_mediaType {u mt data : String} (h : parseDataURL u = some (mt, data)) :
    mt ≠ "" := by
  unfold parseDataURL at h
  simp only at h
  split_ifs at h with _ _ hmt
  · obtain ⟨rfl, -⟩ := Prod.mk.inj (Option.some.inj h)
    decide
  · obtain ⟨rfl, -⟩ := Prod.mk.inj (Option.some.inj h)
    intro heq
    exact hmt (by simpa using congrArg String.toList heq)

/-- The URL under which the OpenAI dialects send an image; empty when there is nothing to send. -/
def Image.openAIURL (i : Image) : String :=
  if i.url = "" ∧ i.data ≠ "" then
    "data:" ++ (if i.mediaType = "" then "image/png" else i.mediaType) ++ ";base64," ++ i.data
  else i.url

/-- The arguments of a call, or an empty object. -/
def argumentsOrEmpty (arguments : String) : String :=
  if trimSpace arguments = "" then emptyObject else arguments

/-! ### Shared by the decoders -/

def normalizeStop : Json → List String
  | .str s => if s = "" then [] else [s]
  | .arr items => (items.map Json.text).filter (· ≠ "")
  | _ => []

/-- The URL of an image part of the OpenAI dialects. -/
def openAIImageURL (m : Json) : String :=
  match m.member "image_url" with
  | some (.str s) => s
  | some (.obj members) => textMember (.obj members) "url"
  | some _ => ""
  | none => textMember m "url"

/-- `decodeOpenAIImage`. A data URL without data is no image. -/
def decodeOpenAIImage (m : Json) : Option Image :=
  let s := openAIImageURL m
  if s = "" then none
  else match parseDataURL s with
    | some (mt, data) => if data = "" then none else some { mediaType := mt, data := data }
    | none => some { url := s }

/-- The name of the function a tool choice of type `function` asks for. -/
def functionChoice (c : Json) : String :=
  match c.member "function" with
  | some (.obj members) =>
    if textMember (.obj members) "name" = "" then textMember c "name"
    else textMember (.obj members) "name"
  | _ => textMember c "name"

def toolNamed (name : String) : Option ToolChoice := if name = "" then none else some (.tool name)

def decodeOpenAIToolChoice : Json → Option ToolChoice
  | .str c =>
    if c = "auto" then some .auto
    else if c = "none" then some .none
    else if c = "required" then some .required
    else none
  | .obj members =>
    if textMember (.obj members) "type" = "function" then toolNamed (functionChoice (.obj members))
    else if textMember (.obj members) "type" = "tool" then
      toolNamed (textMember (.obj members) "name")
    else none
  | _ => none

/-- `marshalSchema`: a schema without members is none. -/
def marshalSchema : Option (List (String × Json)) → Option Json
  | none => none
  | some [] => none
  | some members => some (.obj members)

def schemaOrObject : Option Json → List (String × Json)
  | some (.obj members) => members
  | _ => [("type", .str "object")]

/-- A float as an integer, towards zero. -/
def truncate (q : ℚ) : ℤ := q.num.tdiv q.den

/-- `meta[key]`. -/
def metaValue (metadata : List (String × MetaValue)) (key : String) : Option MetaValue :=
  (metadata.reverse.find? (·.1 == key)).map (·.2)

def intFromMetadata (metadata : List (String × MetaValue)) (key : String) : Option ℤ :=
  match metaValue metadata key with
  | some (.int n) => some n
  | some (.float q) => some (truncate q)
  | _ => none

/-- `floatFromMetadata`. An integer that a decoder put there is none of the types it looks for. -/
def floatFromMetadata (metadata : List (String × MetaValue)) (key : String) : Option ℚ :=
  match metaValue metadata key with
  | some (.float q) => some q
  | _ => none

end NexaRoute.Canonical
