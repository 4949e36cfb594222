import NexaRoute.Go.Json

/-!
# Requests on the wire

`internal/core/wire.go`: chat-completions requests and messages requests after decoding. A value of
type `any` is the document it was decoded from, with `null` for `nil`; a raw message is the document
it holds, and none when it is absent.

## Main definitions

* `OpenAIRequest`, `AnthropicRequest` — requests after decoding
-/

namespace NexaRoute.Core

open Go

/-! ### Chat completions -/

/-- `OpenAIToolCall`, without the index and the type: no translation of a request reads them. -/
structure OpenAIToolCall where
  id : String := ""
  name : String := ""
  arguments : String := ""
  deriving DecidableEq, Repr

structure OpenAIMessage where
  role : String
  content : Json := .null
  toolCallID : String := ""
  toolCalls : List OpenAIToolCall := []
  reasoningContent : String := ""

/-- `OpenAITool` with its function. The parameters are the members of an object, or none. -/
structure OpenAITool where
  type : String := ""
  name : String := ""
  description : String := ""
  parameters : Option (List (String × Json)) := none

structure OpenAIRequest where
  messages : List OpenAIMessage := []
  promptCacheKey : String := ""
  maxTokens : ℤ := 0
  maxCompletionTokens : ℤ := 0
  stream : Bool := false
  streamOptions : Option Json := none
  temperature : Option ℚ := none
  topP : Option ℚ := none
  stop : Json := .null
  tools : List OpenAITool := []
  toolChoice : Json := .null
  parallelToolCalls : Option Bool := none
  reasoningEffort : String := ""
  reasoning : Option Json := none
  frequencyPenalty : Option ℚ := none
  presencePenalty : Option ℚ := none
  seed : Option ℤ := none
  user : String := ""
  n : ℤ := 0
  responseFormatRaw : Json := .null

/-! ### Messages -/

structure AnthMessage (γ : Type) where
  role : String
  content : γ

structure AnthTool where
  name : String
  description : String := ""
  inputSchema : List (String × Json)

/-- `AnthropicRequest`, over the type of the content of a message. -/
structure AnthropicRequest (γ : Type) where
  model : String
  maxTokens : ℤ := 0
  messages : List (AnthMessage γ) := []
  system : Option Json := none
  tools : List AnthTool := []
  toolChoice : Option Json := none
  stream : Bool := false
  temperature : Option ℚ := none
  topP : Option ℚ := none
  topK : ℤ := 0
  stopSequences : List String := []
  thinking : Option Json := none
  metadata : Option Json := none

/-! ### Values of unknown type -/

/-- `s, _ := m[key].(string)`. -/
def textMember (m : Json) (key : String) : String := ((m.member key).map Json.text).getD ""

/-- `json.Unmarshal` of a text into a map; none when it fails. `null` leaves a nil map behind. -/
def unmarshalObject (text : String) : Option Json :=
  (parseJSON (bytes text)).filter fun doc =>
    decide (doc.depth ≤ maxNestingDepth) && Kind.object.fits doc

/-- A field of type `*bool` after decoding. -/
def boolField (name : String) (members : List (String × Json)) : Option Bool :=
  members.foldl (fun b m =>
    if fieldNamed name m.1 then
      match m.2 with
      | .bool c => some c
      | _ => none
    else b) none

end NexaRoute.Core
