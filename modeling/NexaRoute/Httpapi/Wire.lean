import NexaRoute.Go.Json

/-!
# Requests as the handlers decode them

`readJSON` and the checks with which the chat-completions and the messages handler begin. The body
is decoded into the request type of the ingress; a key goes to its field whatever its letter case,
and a field that occurs again is overwritten.

## Main definitions

* `decodeRequest` — what a handler makes of a body
-/

namespace NexaRoute.Httpapi

open Go

/-! ### Request types -/

def openAIToolCall : Kind :=
  .struct [("index", .int), ("id", .string), ("type", .string),
    ("function", .struct [("name", .string), ("arguments", .string)])]

def openAIMessage : Kind :=
  .struct [("role", .string), ("content", .any), ("name", .string), ("tool_call_id", .string),
    ("tool_calls", .slice openAIToolCall), ("reasoning_content", .string)]

def openAITool : Kind :=
  .struct [("type", .string),
    ("function", .struct [("name", .string), ("description", .string), ("parameters", .object)])]

def openAIRequest : Kind :=
  .struct [("model", .string), ("prompt_cache_key", .string), ("messages", .slice openAIMessage),
    ("max_tokens", .int), ("max_completion_tokens", .int), ("stream", .bool),
    ("stream_options", .raw), ("temperature", .float), ("top_p", .float), ("stop", .any),
    ("tools", .slice openAITool), ("tool_choice", .any), ("parallel_tool_calls", .bool),
    ("reasoning_effort", .string), ("reasoning", .raw), ("frequency_penalty", .float),
    ("presence_penalty", .float), ("seed", .int), ("user", .string), ("n", .int),
    ("response_format", .any)]

def anthropicRequest : Kind :=
  .struct [("model", .string), ("max_tokens", .int),
    ("messages", .slice (.struct [("role", .string), ("content", .raw)])), ("system", .raw),
    ("tools", .slice (.struct [("name", .string), ("description", .string),
      ("input_schema", .object)])),
    ("tool_choice", .any), ("stream", .bool), ("temperature", .float), ("top_p", .float),
    ("top_k", .int), ("stop_sequences", .slice .string), ("thinking", .raw), ("metadata", .raw)]

/-- The two ingresses whose handlers are modelled down to the decoded request. -/
inductive Ingress
  | chatCompletions
  | messages
  deriving DecidableEq, Repr

def Ingress.path : Ingress → String
  | .chatCompletions => "/v1/chat/completions"
  | .messages => "/v1/messages"

/-- What an ingress decodes into. -/
def Ingress.request : Ingress → Kind
  | .chatCompletions => openAIRequest
  | .messages => anthropicRequest

/-! ### Reading the body -/

/-- Why a handler refuses a request it has admitted. -/
inductive Refusal
  | tooLarge
  | invalidJSON
  | incomplete
  | tooComplex
  deriving DecidableEq, Repr

/-- Sixteen mebibytes. -/
def maxJSONBodyBytes : ℕ := 16 * 2 ^ 20

/-- `readJSON` into a struct type: the members of the object, in order. -/
def readJSON (request : Kind) (body : List UInt8) : Except Refusal (List (String × Json)) :=
  if body.length > maxJSONBodyBytes then .error .tooLarge
  else match parseJSON body with
    | none => .error .invalidJSON
    | some doc =>
      if doc.depth > maxNestingDepth ∨ request.fits doc = false then .error .invalidJSON
      else match doc with
        | .obj members => .ok members
        | _ => .ok []

/-- A field of type `string` after decoding: every string is stored, and `null` is not. -/
def stringField (name : String) (members : List (String × Json)) : String :=
  members.foldl (fun s m => match m.2 with
    | .str t => if fieldNamed name m.1 then t else s
    | _ => s) ""

/-- The length of a slice field after decoding. -/
def sliceLength (name : String) (members : List (String × Json)) : ℕ :=
  members.foldl (fun n m => match m.2 with
    | .arr items => if fieldNamed name m.1 then items.length else n
    | .null => if fieldNamed name m.1 then 0 else n
    | _ => n) 0

/-! ### The walk over the messages -/

/-- The values of a Go map: of a key that occurs again, the last. -/
def mapValues : List (String × Json) → List Json
  | [] => []
  | (key, v) :: members =>
    if members.any (·.1 == key) then mapValues members else v :: mapValues members

/-- A key of a Go map. -/
def mapGet (key : String) (members : List (String × Json)) : Option Json :=
  (members.reverse.find? (·.1 == key)).map (·.2)

/-- What a node of the walk pushes; `none` for a node that is no container. -/
def children : Json → Option (List Json)
  | .arr items => some items
  | .obj members => some (mapValues members)
  | _ => none

/-- The walk with room for `left` more nodes. A container whose children do not fit sets the flag,
which nothing takes back. -/
def walk : ℕ → List Json → Bool
  | _, [] => false
  | 0, _ :: _ => true
  | left + 1, v :: stack =>
    match children v with
    | none => walk left stack
    | some vs => decide (vs.length + stack.length > left) || walk left (vs ++ stack)

/-- Nodes the walk visits at most. -/
def maxNodes : ℕ := 100000

/-- Whether `Extract` finds the request too complex. Its own decoding fails on a number that is no
`float64`, and it then looks no further. -/
def tooComplex (members : List (String × Json)) : Bool :=
  Kind.object.fits (.obj members) && walk maxNodes (mapGet "messages" members).toList

/-- The handler from the body on to the model of the routing requirement. -/
def decodeRequest (ingress : Ingress) (body : List UInt8) : Except Refusal String :=
  match readJSON ingress.request body with
  | .error refusal => .error refusal
  | .ok members =>
    if trimSpace (stringField "model" members) = "" ∨ sliceLength "messages" members = 0 then
      .error .incomplete
    else if tooComplex members then .error .tooComplex
    else .ok (stringField "model" members)

end NexaRoute.Httpapi
