import Mathlib.Data.List.Chain
import NexaRoute.Core.Wire
import NexaRoute.Httpapi.Wire
import NexaRoute.Router.Candidates
import NexaRoute.Translate.NameMap

/-!
# Chat completions for an upstream that speaks messages

`OpenAIToAnthropic`: a chat-completions request becomes a messages request. The upstream accepts a
conversation only when it begins with a user turn and its turns alternate; so turns of one role are
merged, and a placeholder is put in front of a conversation that begins with an assistant turn.

Two rules merge turns. A user message goes into whatever user turn is open, a tool result only into
a turn that began with a tool result. A tool result behind a user turn of any other kind therefore
opens a second user turn. A tool call without an id gets one from the number of turns so far and its
place in the message, and these numbers meet again in the next message that is merged.

## Main results

* `valid_translation_iff` — when the conversation is valid
-/

namespace NexaRoute.Translate

open Go NexaRoute.Core Httpapi Machine Router List Option

variable {r : ChatRole} {nm : Option NameMap} {d : Draft} (roles : List ChatRole) (o : List Seat)

/-! ### Content -/

/-- Why a message content is refused. -/
inductive ContentError
  | partTypeRequired
  | textRequired (typ : String)
  | imageRole
  | imageURL
  | unsupportedPart (typ : String)
  | nonObjectPart
  | unsupportedValue
  deriving DecidableEq, Repr

inductive ImageSource
  | base64 (mediaType data : String)
  | url (u : String)
  deriving DecidableEq, Repr

/-- A content block of a messages request. -/
inductive AnthBlock
  | text (s : String)
  | image (source : ImageSource)
  | toolUse (id name : String) (input : Json)
  | toolResult (toolUseID : String) (content : Json)

def emptyTextPlaceholder : AnthBlock := .text "..."

def normalizeImageMediaType (mediaType : String) : String :=
  let mt := toLower (trimSpace mediaType)
  if mt ∈ ["image/jpg", "image/jpe", "image/jp2", "image/pipeg"] then "image/jpeg"
  else if mt ∈ ["image/svg", "image/svgz"] then "image/svg+xml"
  else mt

def imageURL : Option Json → String
  | some (.str u) => u
  | some (.obj members) => textMember (.obj members) "url"
  | _ => ""

def openAIImageToAnthSource (v : Option Json) : Option ImageSource :=
  let u := (trimSpace (imageURL v)).toList
  if u = [] then none
  else if "data:".toList.isPrefixOf u then
    let head := (u.drop 5).takeWhile (· ≠ ',')
    -- `strings.SplitN(rest, ",", 2)` has two parts just when there is a comma
    if head.length = (u.drop 5).length then none
    else match head.dropSuffix? ";base64".toList with
      | some mt =>
        some (.base64 (normalizeImageMediaType (String.ofList mt))
          (String.ofList ((u.drop 5).drop (head.length + 1))))
      | none => some (.url (String.ofList u))
  else some (.url (String.ofList u))

def validatePart (allowImage : Bool) (m : Json) : Except ContentError Unit :=
  match m.member "type" with
  | some (.str typ) =>
    if trimSpace typ = "" then .error .partTypeRequired
    else if typ = "text" ∨ typ = "input_text" then
      match m.member "text" with
      | some (.str _) => .ok ()
      | _ => .error (.textRequired typ)
    else if typ = "image_url" then
      if allowImage = false then .error .imageRole
      else if openAIImageToAnthSource (m.member "image_url") = none then .error .imageURL
      else .ok ()
    else .error (.unsupportedPart typ)
  | _ => .error .partTypeRequired

/-- An item of a content array. -/
def validateItem (allowImage : Bool) : Json → Except ContentError Unit
  | .obj members => validatePart allowImage (.obj members)
  | _ => .error .nonObjectPart

def validateOpenAIContentForAnthropic (content : Json) (allowImage : Bool) :
    Except ContentError Unit :=
  match content with
  | .null => .ok ()
  | .str _ => .ok ()
  | .arr items => items.forM (validateItem allowImage)
  | _ => .error .unsupportedValue

def partBlock (m : Json) : Option AnthBlock :=
  let typ := textMember m "type"
  if typ = "text" ∨ typ = "input_text" then
    if textMember m "text" = "" then none else some (.text (textMember m "text"))
  else if typ = "image_url" then (openAIImageToAnthSource (m.member "image_url")).map .image
  else none

/-- `openAIContentToAnthBlocks`, of a content that was validated: it is a text, an array or
nothing. -/
def openAIContentToAnthBlocks : Json → List AnthBlock
  | .str v => if v = "" then [] else [.text v]
  | .arr items => items.filterMap partBlock
  | _ => []

def AnthBlock.text? : AnthBlock → Option String
  | .text s => some s
  | _ => none

/-- The texts of a content, a line each. -/
def systemText (blocks : List AnthBlock) : String :=
  String.intercalate "\n" (blocks.filterMap AnthBlock.text?)

/-! ### Messages -/

/-- Why a request is not translated. -/
inductive TranslateError
  | content (role : String) (e : ContentError)
  | unsupportedRole (role : String)
  | callName
  | toolCallID
  | noMessages
  deriving DecidableEq, Repr

inductive ChatRole
  | system
  | user
  | assistant
  | tool
  deriving DecidableEq, Repr

/-- The word for a role, without its case and the spaces around it. -/
def roleWord (m : OpenAIMessage) : String := toLower (trimSpace m.role)

/-- The role of a message, if the translation knows it. -/
def chatRole (m : OpenAIMessage) : Option ChatRole :=
  let role := roleWord m
  if role = "system" ∨ role = "developer" then some .system
  else if role = "user" then some .user
  else if role = "assistant" then some .assistant
  else if role = "tool" then some .tool
  else none

/-- Who speaks in a turn. -/
inductive Side
  | user
  | assistant
  deriving DecidableEq, Repr

/-- The role of a turn on the wire. -/
def Side.word : Side → String
  | .user => "user"
  | .assistant => "assistant"

structure PendingMsg where
  side : Side
  blocks : List AnthBlock
  allToolResults : Bool := false

/-- What the loop over the messages has so far, the latest turn first. -/
structure Draft where
  system : Option String := none
  messages : List PendingMsg := []
  assistantHasToolUse : Bool := false

def flushInto (messages : List PendingMsg) (side : Side) (blocks : List AnthBlock) :
    List PendingMsg :=
  if blocks = [] then messages
  else match messages with
    | last :: earlier =>
      if last.side = side then { last with blocks := last.blocks ++ blocks } :: earlier
      else { side := side, blocks := blocks } :: last :: earlier
    | [] => [{ side := side, blocks := blocks }]

/-- A tool result goes into the open turn when that began with one. -/
def addResult (messages : List PendingMsg) (result : AnthBlock) : List PendingMsg :=
  match messages with
  | last :: earlier =>
    if last.side = .user ∧ last.allToolResults = true then
      { last with blocks := last.blocks ++ [result] } :: earlier
    else { side := .user, blocks := [result], allToolResults := true } :: last :: earlier
  | [] => [{ side := .user, blocks := [result], allToolResults := true }]

/-- The id of a numbered tool call. -/
def numberedID (k : ℕ) : String := "toolu_openai_" ++ toString k

/-- The id of a tool call, with the number it would get. -/
def callID (tc : OpenAIToolCall) (k : ℕ) : String :=
  if trimSpace tc.id = "" then numberedID k else trimSpace tc.id

/-- The input of a tool call; what is not an object is kept as it is. -/
def callInput (arguments : String) : Json :=
  if trimSpace arguments = "" then .obj []
  else (unmarshalObject arguments).getD (.obj [("_raw", .str arguments)])

/-- The name of a tool for the upstream, as the marshaller writes it. -/
def wireName (nm : Option NameMap) (name : String) : String :=
  String.ofList (runes (forward nm (bytes name)))

def callBlock (nm : Option NameMap) (call : OpenAIToolCall × ℕ) : Except TranslateError AnthBlock :=
  if trimSpace call.1.name = "" then .error .callName
  else .ok (.toolUse (callID call.1 call.2) (wireName nm call.1.name) (callInput call.1.arguments))

def orPlaceholder (blocks : List AnthBlock) : List AnthBlock :=
  if blocks = [] then [emptyTextPlaceholder] else blocks

def normalizeToolResultContent : Json → Json
  | .null => .str ""
  | v => v

/-- The validation of the content of a message. -/
def checked (m : OpenAIMessage) (allowImage : Bool) : Except TranslateError Unit :=
  (validateOpenAIContentForAnthropic m.content allowImage).mapError (.content (roleWord m))

def Draft.addSystem (d : Draft) (text : String) : Draft :=
  if text = "" then d
  else match d.system with
    | some prev => { d with system := some (trimSpace (prev ++ "\n" ++ text)) }
    | none => { d with system := some text }

def assistantBlocks (nm : Option NameMap) (n : ℕ) (m : OpenAIMessage) :
    Except TranslateError (List AnthBlock) := do
  let calls ← (m.toolCalls.zipIdx n).mapM (callBlock nm)
  return openAIContentToAnthBlocks m.content ++ calls

def Draft.message (nm : Option NameMap) (d : Draft) (m : OpenAIMessage) :
    Except TranslateError Draft :=
  match chatRole m with
  | none => .error (.unsupportedRole m.role)
  | some .system => do
    checked m false
    return d.addSystem (systemText (openAIContentToAnthBlocks m.content))
  | some .assistant => do
    checked m true
    let blocks ← assistantBlocks nm d.messages.length m
    return { d with
      messages := flushInto d.messages .assistant (orPlaceholder blocks)
      assistantHasToolUse := d.assistantHasToolUse || !m.toolCalls.isEmpty }
  | some .tool => do
    checked m false
    if trimSpace m.toolCallID = "" then .error .toolCallID
    else
      return { d with
        messages := addResult d.messages
          (.toolResult m.toolCallID (normalizeToolResultContent m.content)) }
  | some .user => do
    checked m true
    return { d with
      messages := flushInto d.messages .user (orPlaceholder (openAIContentToAnthBlocks m.content)) }

/-! ### The request -/

/-- The effort of a `reasoning` object. -/
def reasoningObjectEffort (members : List (String × Json)) : String :=
  if boolField "enabled" members = some false then "none"
  else toLower (trimSpace (stringField "effort" members))

def openAIEffort (req : OpenAIRequest) : String :=
  let effort := toLower (trimSpace req.reasoningEffort)
  if effort ≠ "" then effort
  else match req.reasoning with
    | some (.obj members) =>
      if (Kind.struct [("effort", .string), ("enabled", .bool)]).fits (.obj members) then
        reasoningObjectEffort members
      else ""
    | _ => ""

def reasoningEffortToThinkingBudget (effort : String) : Option ℕ :=
  if effort ∈ ["none", "off", "disabled", ""] then none
  else if effort = "minimal" ∨ effort = "low" then some 2048
  else if effort = "medium" then some 8192
  else if effort = "high" then some 16384
  else if effort = "xhigh" ∨ effort = "max" then some 32768
  else some 8192

/-- The limit the request gives, or the default. -/
def requestedMaxTokens (req : OpenAIRequest) : ℤ :=
  if 0 < req.maxTokens then req.maxTokens
  else if 0 < req.maxCompletionTokens then req.maxCompletionTokens
  else 4096

/-- The limit above a thinking budget. -/
def raisedMaxTokens (maxTokens : ℤ) : Option ℕ → ℤ
  | some budget => if maxTokens ≤ budget then budget + 1024 else maxTokens
  | none => maxTokens

def thinkingJSON (budget : ℕ) : Json :=
  .obj [("type", .str "enabled"), ("budget_tokens", .number (toString budget))]

def toolSchema : Option (List (String × Json)) → List (String × Json)
  | none => [("type", .str "object")]
  | some members =>
    if ((Json.obj members).member "type").isSome then members
    else members ++ [("type", .str "object")]

def applyOpenAIToolChoiceToAnthropic (nm : Option NameMap) : Json → Option Json
  | .str "required" => some (.obj [("type", .str "any")])
  | .str "none" => some (.obj [("type", .str "none")])
  | .str "auto" => some (.obj [("type", .str "auto")])
  | .obj members =>
    match (Json.obj members).member "function" with
    | some (.obj f) =>
      let name := textMember (.obj f) "name"
      if name = "" then none
      else some (.obj [("type", .str "tool"), ("name", .str (wireName nm name))])
    | _ => none
  | _ => none

def applyOpenAIStopToAnthropic : Json → List String
  | .str v => if v = "" then [] else [v]
  | .arr items => (items.map Json.text).filter (· ≠ "")
  | _ => []

/-- The conversation begins with a user turn. -/
def withOpening (messages : List PendingMsg) : List PendingMsg :=
  match messages with
  | first :: rest =>
    if first.side = .user then first :: rest
    else { side := .user, blocks := [emptyTextPlaceholder] } :: first :: rest
  | [] => []

/-- The request for the upstream, from what the loop has collected. -/
def Draft.request (d : Draft) (nm : Option NameMap) (req : OpenAIRequest) (model : String) :
    AnthropicRequest (List AnthBlock) :=
  let budget := reasoningEffortToThinkingBudget (openAIEffort req)
  { model := model
    stream := req.stream
    temperature := req.temperature
    topP := req.topP
    maxTokens := raisedMaxTokens (requestedMaxTokens req) budget
    -- a replayed tool call has no signed thinking in front of it
    thinking := if d.assistantHasToolUse then none else budget.map thinkingJSON
    system := d.system.map Json.str
    messages := (withOpening d.messages.reverse).map fun p =>
      { role := p.side.word, content := p.blocks }
    tools := req.tools.map fun t =>
      { name := wireName nm t.name
        description := t.description
        inputSchema := toolSchema t.parameters }
    toolChoice := applyOpenAIToolChoiceToAnthropic nm req.toolChoice
    stopSequences := applyOpenAIStopToAnthropic req.stop
    metadata :=
      if trimSpace req.user = "" then none
      else some (.obj [("user_id", .str (trimSpace req.user))]) }

/-- The translation, with the names of the tools settled. -/
def translateWith (nm : Option NameMap) (req : OpenAIRequest) (model : String) :
    Except TranslateError (AnthropicRequest (List AnthBlock)) := do
  let d ← req.messages.foldlM (Draft.message nm) {}
  if d.messages = [] then .error .noMessages else return d.request nm req model

/-- `OpenAIToAnthropic`: the request for the upstream, and the map of the tool names. -/
def openAIToAnthropic (req : OpenAIRequest) (model : String) :
    Option (Except TranslateError (AnthropicRequest (List AnthBlock) × Option NameMap)) :=
  (newAnthropicNameMap (req.tools.map fun t => bytes t.name)).map fun nm =>
    (translateWith nm req model).map fun out => (out, nm)

/-! ### Conversations as the upstream expects them -/

/-- The id of a tool call, if a block is one. -/
def AnthBlock.toolUseID? : AnthBlock → Option String
  | .toolUse id _ _ => some id
  | _ => none

/-- The ids of the tool calls of a request. -/
def toolUseIDs (out : AnthropicRequest (List AnthBlock)) : List String :=
  out.messages.flatMap fun m => m.content.filterMap AnthBlock.toolUseID?

/-- The explicit ids of the tool calls in a list of chat messages: those that are not blank. -/
def explicitIDs (messages : List OpenAIMessage) : List String :=
  (messages.filter fun m => chatRole m = some .assistant).flatMap fun m =>
    (m.toolCalls.map (·.id)).filter fun id => trimSpace id ≠ ""

/-- The budget of a thinking document. -/
def budgetTokens (thinking : Json) : Option ℤ :=
  match thinking.member "budget_tokens" with
  | some (.number literal) => parseInt64 literal
  | _ => none

/-- What the upstream expects of the translation of a request. -/
structure Valid (req : OpenAIRequest) (out : AnthropicRequest (List AnthBlock)) : Prop where
  opens : out.messages.head?.map (·.role) = some "user"
  roles : ∀ m ∈ out.messages, m.role = "user" ∨ m.role = "assistant"
  alternates : (out.messages.map (·.role)).IsChain (· ≠ ·)
  content : ∀ m ∈ out.messages, m.content ≠ []
  ids : (explicitIDs req.messages).Nodup → (toolUseIDs out).Nodup
  thinking : ∀ t ∈ out.thinking, ∃ b ∈ budgetTokens t, b < out.maxTokens

/-- Some run of user and tool messages begins with a user message and holds a tool message. -/
def Mixed (roles : List ChatRole) : Prop :=
  ∃ before mid after, roles = before ++ .user :: (mid ++ .tool :: after) ∧ .assistant ∉ mid ∧
    ∀ r ∈ before.getLast?, r = .assistant

def turnRoles (messages : List OpenAIMessage) : List ChatRole :=
  (messages.filterMap chatRole).filter (· ≠ .system)

/-- What the id of a tool call comes from: the request, or a number. -/
inductive Slot
  | given (id : String)
  | numbered (k : ℕ)
  deriving DecidableEq, Repr

def Slot.id : Slot → String
  | .given id => id
  | .numbered k => numberedID k

def Slot.given? : Slot → Option String
  | .given id => some id
  | .numbered _ => none

def Slot.number? : Slot → Option ℕ
  | .given _ => none
  | .numbered k => some k

/-- The slot of a tool call, with the number it would get. -/
def callSlot (call : OpenAIToolCall × ℕ) : Slot :=
  if trimSpace call.1.id = "" then .numbered call.2 else .given (trimSpace call.1.id)

/-- Who speaks in a message; nobody in a system message. -/
def ChatRole.side? : ChatRole → Option Side
  | .system => none
  | .user => some .user
  | .tool => some .user
  | .assistant => some .assistant

/-- The slots of the calls in the messages that follow `n` turns, the last of them spoken by
`prev`. -/
def slots : ℕ → Option Side → List OpenAIMessage → List Slot
  | _, _, [] => []
  | n, prev, m :: ms =>
    match (chatRole m).bind ChatRole.side? with
    | none => slots n prev ms
    | some side =>
      (if side = .assistant then (m.toolCalls.zipIdx n).map callSlot else []) ++
        slots (if prev = some side then n else n + 1) (some side) ms

/-- The ids of slots differ. -/
structure Apart (l : List Slot) : Prop where
  given : (l.filterMap Slot.given?).Nodup
  numbered : (l.filterMap Slot.number?).Nodup
  across : ∀ k ∈ l.filterMap Slot.number?, numberedID k ∉ l.filterMap Slot.given?

/-! ### Ids -/

theorem numberedID_injective {j k : ℕ} (h : numberedID j = numberedID k) : j = k :=
  toString_nat_injective ((String.append_right_inj "toolu_openai_").mp h)

theorem perm_map_id (l : List Slot) :
    (l.map Slot.id).Perm (l.filterMap Slot.given? ++ (l.filterMap Slot.number?).map numberedID) := by
  induction l with
  | nil => rfl
  | cons s l ih =>
    cases s with
    | given d => exact ih.cons d
    | numbered k => exact (ih.cons _).trans perm_middle.symm

theorem nodup_map_id_iff (l : List Slot) : (l.map Slot.id).Nodup ↔ Apart l := by
  rw [(perm_map_id l).nodup_iff, nodup_append, nodup_map_iff @numberedID_injective]
  constructor
  · rintro ⟨hg, hn, ha⟩
    exact ⟨hg, hn, fun k hk hm => ha _ hm _ (mem_map_of_mem hk) rfl⟩
  · rintro ⟨hg, hn, ha⟩
    refine ⟨hg, hn, ?_⟩
    rintro id hid _ hmem rfl
    obtain ⟨k, hk, rfl⟩ := mem_map.mp hmem
    exact ha k hk hid

/-! ### Turns

A turn is a side and whether it began with a tool result; the latest turn comes first. -/

/-- What merging depends on. -/
abbrev Seat := Side × Bool

/-- Content that joins an open turn of its side. -/
def joined (o : List Seat) (side : Side) : List Seat :=
  if o.head?.map Prod.fst = some side then o else (side, false) :: o

/-- A tool result that joins a turn that began with one. -/
def joinedResult (o : List Seat) : List Seat :=
  if o.head? = some (.user, true) then o else (.user, true) :: o

def nextTurns (o : List Seat) : ChatRole → List Seat
  | .system => o
  | .user => joined o .user
  | .assistant => joined o .assistant
  | .tool => joinedResult o

/-- The open turn behind one message. -/
def seatNext (s : Option Seat) : ChatRole → Option Seat
  | .system => s
  | .user => if s.map Prod.fst = some .user then s else some (.user, false)
  | .assistant => if s.map Prod.fst = some .assistant then s else some (.assistant, false)
  | .tool => some (.user, true)

/-- No tool result meets an open user turn that did not begin with one. -/
def Clean : Option Seat → List ChatRole → Prop
  | _, [] => True
  | s, r :: rs => (r = .tool → s ≠ some (.user, false)) ∧ Clean (seatNext s r) rs

def Alternates (o : List Seat) : Prop := o.IsChain fun a b => a.1 ≠ b.1

theorem head?_nextTurns (r : ChatRole) : (nextTurns o r).head? = seatNext o.head? r := by
  cases r with
  | system => rfl
  | user | assistant => simp only [nextTurns, joined, seatNext]; split <;> rfl
  | tool =>
    simp only [nextTurns, joinedResult, seatNext]
    split
    · assumption
    · rfl

theorem alternates_joined (side : Side) : Alternates (joined o side) ↔ Alternates o := by
  unfold joined
  split
  · rfl
  · next h =>
    rw [Alternates, isChain_cons]
    refine ⟨And.right, fun ho => ⟨?_, ho⟩⟩
    intro s hs he
    exact h (by rw [mem_def.mp hs]; exact congrArg some he.symm)

theorem alternates_joinedResult :
    Alternates (joinedResult o) ↔ o.head? ≠ some (.user, false) ∧ Alternates o := by
  unfold joinedResult
  split
  · next h => simp [h]
  · next h =>
    rw [Alternates, isChain_cons]
    refine and_congr_left fun _ => ⟨fun hs he => hs _ he rfl, ?_⟩
    rintro hne ⟨side, results⟩ hs rfl
    cases results with
    | false => exact hne hs
    | true => exact h hs

theorem alternates_nextTurns (r : ChatRole) :
    Alternates (nextTurns o r) ↔ (r = .tool → o.head? ≠ some (.user, false)) ∧ Alternates o := by
  cases r with
  | system => simp [nextTurns]
  | user => simpa [nextTurns] using alternates_joined o .user
  | assistant => simpa [nextTurns] using alternates_joined o .assistant
  | tool => simpa [nextTurns] using alternates_joinedResult o

theorem alternates_iff_clean : ∀ o : List Seat,
    Alternates (roles.foldl nextTurns o) ↔ Alternates o ∧ Clean o.head? roles := by
  induction roles with
  | nil => intro o; simp [Clean]
  | cons r rs ih =>
    intro o
    rw [foldl_cons, ih, alternates_nextTurns, head?_nextTurns, Clean]
    tauto

/-! ### Mixed runs -/

/-- The side of an open turn is a user's. -/
def UserOpen (s : Option Seat) : Prop := s.map Prod.fst = some .user

/-- A run begins behind these roles. -/
def Begins (s : Option Seat) (before : List ChatRole) : Prop :=
  match before.getLast? with
  | none => ¬ UserOpen s
  | some r => r = .assistant

/-- A tool message comes before the next assistant message. -/
def Reaches (roles : List ChatRole) : Prop :=
  ∃ mid after, roles = mid ++ .tool :: after ∧ ChatRole.assistant ∉ mid

/-- A run begins with a user message and holds a tool message. -/
def MixedFrom (s : Option Seat) (roles : List ChatRole) : Prop :=
  ∃ before after, roles = before ++ .user :: after ∧ Begins s before ∧ Reaches after

theorem map_fst_seatNext (hr : r ≠ .system) (s : Option Seat) :
    (seatNext s r).map Prod.fst = r.side? := by
  cases r with
  | system => exact absurd rfl hr
  | tool => rfl
  | user | assistant =>
    simp only [seatNext]
    split
    · assumption
    · rfl

theorem begins_cons {s : Option Seat} (hr : r ≠ .system) (before : List ChatRole) :
    Begins s (r :: before) ↔ Begins (seatNext s r) before := by
  unfold Begins
  rw [getLast?_cons]
  cases before.getLast? with
  | some q => rfl
  | none =>
    show r = .assistant ↔ ¬ UserOpen (seatNext s r)
    rw [UserOpen, map_fst_seatNext hr]
    cases r with
    | system => exact absurd rfl hr
    | user | assistant | tool => simp [ChatRole.side?]

theorem reaches_cons (r : ChatRole) (roles : List ChatRole) :
    Reaches (r :: roles) ↔ r = .tool ∨ (r ≠ .assistant ∧ Reaches roles) := by
  constructor
  · rintro ⟨mid, after, he, hmid⟩
    cases mid with
    | nil => exact .inl (cons.inj he).1
    | cons q mid =>
      obtain rfl := (cons.inj he).1
      exact .inr ⟨fun hq => hmid (hq ▸ mem_cons_self), mid, after, (cons.inj he).2,
        fun hm => hmid (mem_cons_of_mem _ hm)⟩
  · rintro (rfl | ⟨hr, mid, after, rfl, hmid⟩)
    · exact ⟨[], roles, rfl, not_mem_nil⟩
    · refine ⟨r :: mid, after, rfl, fun hm => ?_⟩
      rcases mem_cons.mp hm with rfl | hm
      · exact hr rfl
      · exact hmid hm

theorem mixedFrom_cons {s : Option Seat} (hr : r ≠ .system) (roles : List ChatRole) :
    MixedFrom s (r :: roles) ↔
      (r = .user ∧ ¬ UserOpen s ∧ Reaches roles) ∨ MixedFrom (seatNext s r) roles := by
  constructor
  · rintro ⟨before, after, he, hb, hreach⟩
    cases before with
    | nil =>
      obtain ⟨rfl, rfl⟩ := cons.inj he
      exact .inl ⟨rfl, hb, hreach⟩
    | cons q before =>
      obtain rfl := (cons.inj he).1
      exact .inr ⟨before, after, (cons.inj he).2, (begins_cons hr before).mp hb, hreach⟩
  · rintro (⟨rfl, hb, hreach⟩ | ⟨before, after, rfl, hb, hreach⟩)
    · exact ⟨[], roles, rfl, hb, hreach⟩
    · exact ⟨r :: before, after, rfl, (begins_cons hr before).mpr hb, hreach⟩

theorem not_clean_iff : ∀ s : Option Seat, ChatRole.system ∉ roles →
    (¬ Clean s roles ↔ (s = some (.user, false) ∧ Reaches roles) ∨ MixedFrom s roles) := by
  induction roles with
  | nil => intro s _; simp [Clean, Reaches, MixedFrom]
  | cons r rs ih =>
    intro s hs
    have hr : r ≠ .system := fun h => hs (h ▸ mem_cons_self)
    rw [Clean, not_and_or, ih _ fun h => hs (mem_cons_of_mem _ h), reaches_cons,
      mixedFrom_cons hr]
    cases r with
    | system => exact absurd rfl hr
    | tool => simp [seatNext]
    | assistant =>
      have hseat : seatNext s .assistant ≠ some (.user, false) := by
        intro h
        have hside := map_fst_seatNext hr s
        rw [h] at hside
        cases hside
      simp [hseat]
    | user =>
      by_cases hopen : UserOpen s
      · have hseat : seatNext s .user = s := if_pos hopen
        simp [hseat, hopen]
      · have hseat : seatNext s .user = some (.user, false) := if_neg hopen
        have hne : s ≠ some (.user, false) := by rintro rfl; exact hopen rfl
        simp [hseat, hopen, hne]

theorem mixedFrom_none_iff : MixedFrom none roles ↔ Mixed roles := by
  constructor
  · rintro ⟨before, _, rfl, hb, mid, after, rfl, hmid⟩
    refine ⟨before, mid, after, rfl, hmid, fun r hr => ?_⟩
    rwa [Begins, mem_def.mp hr] at hb
  · rintro ⟨before, mid, after, rfl, hmid, hb⟩
    refine ⟨before, _, rfl, ?_, mid, after, rfl, hmid⟩
    unfold Begins
    split
    · simp [UserOpen]
    · next r hr => exact hb r hr

theorem clean_filter : ∀ s : Option Seat, Clean s (roles.filter (· ≠ .system)) ↔ Clean s roles := by
  induction roles with
  | nil => intro s; rfl
  | cons r rs ih =>
    intro s
    by_cases hr : r = .system
    · subst hr
      rw [filter_cons_of_neg (by simp), ih]
      simp [Clean, seatNext]
    · rw [filter_cons_of_pos (by simpa using hr), Clean, Clean, ih]

theorem clean_iff_not_mixed (messages : List OpenAIMessage) :
    Clean none (messages.filterMap chatRole) ↔ ¬ Mixed (turnRoles messages) := by
  rw [← clean_filter, ← mixedFrom_none_iff, ← not_iff_not, not_not,
    not_clean_iff _ none (by simp)]
  simp [turnRoles]

/-! ### One message -/

/-- The turns of a draft, as far as merging depends on them. -/
def outline (messages : List PendingMsg) : List Seat :=
  messages.map fun p => (p.side, p.allToolResults)

/-- The ids of the tool calls in a list of blocks. -/
def blockIDs (blocks : List AnthBlock) : List String := blocks.filterMap AnthBlock.toolUseID?

/-- The ids of the tool calls of a draft, in the order of the conversation. -/
def pendingIDs (messages : List PendingMsg) : List String :=
  messages.reverse.flatMap fun p => blockIDs p.blocks

/-- Every turn has content. -/
def Full (messages : List PendingMsg) : Prop := ∀ p ∈ messages, p.blocks ≠ []

theorem pendingIDs_cons (p : PendingMsg) (ms : List PendingMsg) :
    pendingIDs (p :: ms) = pendingIDs ms ++ blockIDs p.blocks := by
  simp [pendingIDs]

theorem blockIDs_append (a b : List AnthBlock) : blockIDs (a ++ b) = blockIDs a ++ blockIDs b :=
  filterMap_append

section Flush

variable {messages : List PendingMsg} {side : Side} {blocks : List AnthBlock}

theorem outline_flushInto (hb : blocks ≠ []) :
    outline (flushInto messages side blocks) = joined (outline messages) side := by
  unfold flushInto
  rw [if_neg hb]
  cases messages with
  | nil => simp [outline, joined]
  | cons last earlier =>
    by_cases h : last.side = side
    · simp [outline, joined, h]
    · simp [outline, joined, h]

theorem pendingIDs_flushInto :
    pendingIDs (flushInto messages side blocks) = pendingIDs messages ++ blockIDs blocks := by
  unfold flushInto
  split
  · next h => simp [h, blockIDs]
  · split
    · split
      · simp only [pendingIDs_cons, blockIDs_append, append_assoc]
      · simp only [pendingIDs_cons]
    · simp [pendingIDs]

theorem Full.flushInto (h : Full messages) : Full (flushInto messages side blocks) := by
  unfold Translate.flushInto
  split
  · exact h
  · next hb =>
    split
    · next last earlier =>
      have hlast := h last mem_cons_self
      split
      · exact forall_mem_cons.mpr
          ⟨by simp [hlast], fun p hp => h p (mem_cons_of_mem _ hp)⟩
      · exact forall_mem_cons.mpr ⟨hb, h⟩
    · exact forall_mem_cons.mpr ⟨hb, by simp⟩

end Flush

section Result

variable {messages : List PendingMsg} {result : AnthBlock}

theorem outline_addResult :
    outline (addResult messages result) = joinedResult (outline messages) := by
  cases messages with
  | nil => rfl
  | cons last earlier =>
    simp only [addResult, outline, joinedResult, map_cons, head?_cons, some.injEq,
      Prod.mk.injEq]
    split <;> rfl

theorem pendingIDs_addResult (hr : result.toolUseID? = none) :
    pendingIDs (addResult messages result) = pendingIDs messages := by
  have hids : blockIDs [result] = [] := by simp [blockIDs, hr]
  unfold addResult
  split
  · split
    · simp only [pendingIDs_cons, blockIDs_append, hids, append_nil]
    · simp only [pendingIDs_cons, hids, append_nil]
  · simp [pendingIDs, hids]

theorem Full.addResult (h : Full messages) : Full (addResult messages result) := by
  unfold Translate.addResult
  split
  · split
    · exact forall_mem_cons.mpr ⟨by simp, fun p hp => h p (mem_cons_of_mem _ hp)⟩
    · exact forall_mem_cons.mpr ⟨by simp, h⟩
  · exact forall_mem_cons.mpr ⟨by simp, by simp⟩

end Result

theorem toolUseID?_partBlock {m : Json} {b : AnthBlock} (h : partBlock m = some b) :
    b.toolUseID? = none := by
  simp only [partBlock] at h
  split at h
  · split at h
    · cases h
    · cases h; rfl
  · split at h
    · obtain ⟨src, -, rfl⟩ := map_eq_some_iff.mp h
      rfl
    · cases h

theorem blockIDs_content (content : Json) : blockIDs (openAIContentToAnthBlocks content) = [] := by
  refine filterMap_eq_nil_iff.mpr fun b hb => ?_
  unfold openAIContentToAnthBlocks at hb
  split at hb
  · split at hb
    · cases hb
    · obtain rfl := mem_singleton.mp hb
      rfl
  · obtain ⟨m, -, hm⟩ := mem_filterMap.mp hb
    exact toolUseID?_partBlock hm
  · cases hb

theorem blockIDs_orPlaceholder (blocks : List AnthBlock) :
    blockIDs (orPlaceholder blocks) = blockIDs blocks := by
  unfold orPlaceholder
  split
  · next h => rw [h]; rfl
  · rfl

theorem orPlaceholder_ne_nil (blocks : List AnthBlock) : orPlaceholder blocks ≠ [] := by
  unfold orPlaceholder
  split
  · simp
  · assumption

theorem id_callSlot (call : OpenAIToolCall × ℕ) : (callSlot call).id = callID call.1 call.2 := by
  unfold callSlot callID
  split <;> rfl

theorem blockIDs_calls {calls : List (OpenAIToolCall × ℕ)} :
    ∀ {blocks : List AnthBlock}, calls.mapM (callBlock nm) = .ok blocks →
      blockIDs blocks = (calls.map callSlot).map Slot.id := by
  induction calls with
  | nil => rintro blocks h; cases h; rfl
  | cons c cs ih =>
    intro blocks h
    rw [mapM_cons] at h
    obtain ⟨b, hb, h⟩ := ok_of_bind h
    obtain ⟨bs, hbs, h⟩ := ok_of_bind h
    cases h
    unfold callBlock at hb
    split at hb <;> cases hb
    rw [map_cons, map_cons, id_callSlot, ← ih hbs]
    rfl

/-- The ids of the calls of a message that follows `n` turns. -/
def messageIDs (n : ℕ) (m : OpenAIMessage) : List String :=
  if chatRole m = some .assistant then ((m.toolCalls.zipIdx n).map callSlot).map Slot.id else []

/-- What one message does to the turns. -/
structure Draft.Moves (d : Draft) (m : OpenAIMessage) (d' : Draft) : Prop where
  turns : ∃ r, chatRole m = some r ∧ outline d'.messages = nextTurns (outline d.messages) r
  ids : pendingIDs d'.messages = pendingIDs d.messages ++ messageIDs d.messages.length m
  full : Full d.messages → Full d'.messages

theorem Draft.message_spec {d' : Draft} {m : OpenAIMessage} (h : d.message nm m = .ok d') :
    d.Moves m d' := by
  unfold Draft.message at h
  split at h
  · cases h
  · next hr =>
    obtain ⟨-, -, h⟩ := ok_of_bind h
    cases h
    have hmessages : ∀ text, (d.addSystem text).messages = d.messages := by
      intro text
      unfold Draft.addSystem
      split
      · rfl
      · split <;> rfl
    exact ⟨⟨_, hr, by rw [hmessages]; rfl⟩, by simp [hmessages, messageIDs, hr], by simp [hmessages]⟩
  · next hr =>
    obtain ⟨-, -, h⟩ := ok_of_bind h
    obtain ⟨blocks, hblocks, h⟩ := ok_of_bind h
    cases h
    obtain ⟨calls, hcalls, hb⟩ := ok_of_bind hblocks
    cases hb
    refine ⟨⟨_, hr, outline_flushInto (orPlaceholder_ne_nil _)⟩, ?_, Full.flushInto⟩
    rw [pendingIDs_flushInto, blockIDs_orPlaceholder, blockIDs_append, blockIDs_content,
      blockIDs_calls hcalls, messageIDs, if_pos hr, nil_append]
  · next hr =>
    obtain ⟨-, -, h⟩ := ok_of_bind h
    split at h <;> cases h
    refine ⟨⟨_, hr, outline_addResult⟩, ?_, Full.addResult⟩
    rw [pendingIDs_addResult rfl]
    simp [messageIDs, hr]
  · next hr =>
    obtain ⟨-, -, h⟩ := ok_of_bind h
    cases h
    refine ⟨⟨_, hr, outline_flushInto (orPlaceholder_ne_nil _)⟩, ?_, Full.flushInto⟩
    simp [pendingIDs_flushInto, blockIDs_orPlaceholder, blockIDs_content, messageIDs, hr]

/-! ### All messages -/

theorem length_nextTurns {o : List Seat} {side : Side} (hside : r.side? = some side)
    (hclean : r = .tool → o.head? ≠ some (.user, false)) :
    (nextTurns o r).length = if o.head?.map Prod.fst = some side then o.length else o.length + 1 := by
  cases r with
  | system => cases hside
  | user | assistant =>
    cases hside
    simp only [nextTurns, joined]
    split <;> rfl
  | tool =>
    cases hside
    simp only [nextTurns, joinedResult]
    split
    · next h => simp [h]
    · next h =>
      rw [if_neg]
      · rfl
      · intro hmap
        obtain ⟨⟨u, results⟩, hhead, rfl⟩ := map_eq_some_iff.mp hmap
        cases results with
        | true => exact h hhead
        | false => exact hclean rfl hhead

/-- The run over the messages: the turns follow the roles, and the ids are those of the slots as
long as no tool result meets an open user turn. -/
theorem run_spec {messages : List OpenAIMessage} : ∀ {d d' : Draft},
    messages.foldlM (Draft.message nm) d = .ok d' →
    outline d'.messages = (messages.filterMap chatRole).foldl nextTurns (outline d.messages) ∧
    (Full d.messages → Full d'.messages) ∧
    (Clean (outline d.messages).head? (messages.filterMap chatRole) →
      pendingIDs d'.messages = pendingIDs d.messages ++
        (slots d.messages.length ((outline d.messages).head?.map Prod.fst) messages).map
          Slot.id) := by
  induction messages with
  | nil =>
    rintro d d' h
    cases h
    exact ⟨rfl, id, fun _ => (append_nil _).symm⟩
  | cons m ms ih =>
    intro d d' h
    obtain ⟨d₁, h₁, h⟩ := ok_of_bind h
    obtain ⟨⟨r, hr, hturns⟩, hids, hfull⟩ := Draft.message_spec h₁
    obtain ⟨houtline, hfull', hslots⟩ := ih h
    rw [hturns] at houtline
    rw [filterMap_cons_some hr]
    refine ⟨houtline, hfull' ∘ hfull, ?_⟩
    rintro ⟨hmeet, hclean⟩
    rw [hturns, head?_nextTurns] at hslots
    rw [hslots hclean, hids, append_assoc, append_cancel_left_eq, slots, hr,
      bind_some]
    cases hside : r.side? with
    | none =>
      have hsys : r = .system := by
        cases r with
        | system => rfl
        | _ => cases hside
      subst hsys
      have hlen : d₁.messages.length = d.messages.length := by
        simpa [outline, nextTurns] using congrArg length hturns
      simp [messageIDs, hr, seatNext, hlen]
    | some side =>
      have hne : r ≠ .system := by rintro rfl; cases hside
      have hlen : d₁.messages.length =
          if (outline d.messages).head?.map Prod.fst = some side then d.messages.length
          else d.messages.length + 1 := by
        have h' := length_nextTurns hside hmeet
        rw [← hturns] at h'
        simpa [outline] using h'
      have hcalls : messageIDs d.messages.length m =
          (if side = .assistant then (m.toolCalls.zipIdx d.messages.length).map callSlot
            else []).map Slot.id := by
        unfold messageIDs
        rw [hr]
        cases r with
        | system => exact absurd rfl hne
        | user | tool | assistant => cases hside; rfl
      rw [map_fst_seatNext hne, hside, hlen, hcalls]
      simp only [map_append]

/-! ### Validity -/

theorem Side.word_injective {a b : Side} (h : a.word = b.word) : a = b := by
  cases a <;> cases b <;> first | rfl | exact absurd h (by decide)

theorem withOpening_cons (first : PendingMsg) (rest : List PendingMsg) :
    withOpening (first :: rest) =
      if first.side = .user then first :: rest
      else { side := .user, blocks := [emptyTextPlaceholder] } :: first :: rest := rfl

theorem mem_withOpening {ms : List PendingMsg} {p : PendingMsg} (h : p ∈ withOpening ms) :
    p ∈ ms ∨ p = { side := .user, blocks := [emptyTextPlaceholder] } := by
  cases ms with
  | nil => cases h
  | cons first rest =>
    rw [withOpening_cons] at h
    split at h
    · exact .inl h
    · exact (mem_cons.mp h).symm

theorem isChain_withOpening (ms : List PendingMsg) :
    ((withOpening ms).map (·.side)).IsChain (· ≠ ·) ↔ (ms.map (·.side)).IsChain (· ≠ ·) := by
  cases ms with
  | nil => rfl
  | cons first rest =>
    rw [withOpening_cons]
    split
    · rfl
    · next h => simp [Ne.symm h]

theorem isChain_sides (messages : List PendingMsg) :
    (messages.reverse.map (·.side)).IsChain (· ≠ ·) ↔ Alternates (outline messages) := by
  rw [map_reverse, isChain_reverse, Alternates, outline, isChain_map,
    isChain_map]
  constructor <;> exact List.IsChain.imp fun _ _ h => h.symm

theorem toolUseIDs_request (d : Draft) (nm : Option NameMap) (req : OpenAIRequest)
    (model : String) : toolUseIDs (d.request nm req model) = pendingIDs d.messages := by
  unfold toolUseIDs Draft.request pendingIDs
  rw [flatMap_map]
  cases d.messages.reverse with
  | nil => rfl
  | cons first rest =>
    rw [withOpening_cons]
    split <;> rfl

theorem opens_request (nm : Option NameMap) (req : OpenAIRequest) (model : String)
    (hne : d.messages ≠ []) :
    (d.request nm req model).messages.head?.map (·.role) = some "user" := by
  have hrev : d.messages.reverse ≠ [] := by simpa using hne
  unfold Draft.request
  cases hms : d.messages.reverse with
  | nil => exact absurd hms hrev
  | cons first rest =>
    simp only [withOpening_cons]
    split
    · next h => simp [h, Side.word]
    · rfl

theorem budgetTokens_thinkingJSON {effort : String} {budget : ℕ}
    (h : reasoningEffortToThinkingBudget effort = some budget) :
    budgetTokens (thinkingJSON budget) = some (budget : ℤ) := by
  have hvalues : budget = 2048 ∨ budget = 8192 ∨ budget = 16384 ∨ budget = 32768 := by
    unfold reasoningEffortToThinkingBudget at h
    split_ifs at h <;> (have hb := some.inj h; omega)
  rcases hvalues with rfl | rfl | rfl | rfl <;> decide +kernel

theorem valid_request_iff (req : OpenAIRequest) (model : String) (hne : d.messages ≠ [])
    (hfull : Full d.messages) :
    Valid req (d.request nm req model) ↔
      Alternates (outline d.messages) ∧
        ((explicitIDs req.messages).Nodup → (pendingIDs d.messages).Nodup) := by
  have halt : (((d.request nm req model).messages.map (·.role)).IsChain (· ≠ ·)) ↔
      Alternates (outline d.messages) := by
    rw [← isChain_sides, ← isChain_withOpening]
    show (((withOpening d.messages.reverse).map fun p => AnthMessage.mk p.side.word p.blocks).map
      (·.role)).IsChain (· ≠ ·) ↔ _
    rw [List.map_map, List.isChain_map, List.isChain_map]
    constructor
    · exact List.IsChain.imp fun a b h he => h (congrArg Side.word he)
    · exact List.IsChain.imp fun a b h he => h (Side.word_injective he)
  have hmem : ∀ m ∈ (d.request nm req model).messages, ∃ p : PendingMsg, p.blocks ≠ [] ∧
      m = { role := p.side.word, content := p.blocks } := by
    intro m hm
    obtain ⟨p, hp, rfl⟩ := mem_map.mp hm
    refine ⟨p, ?_, rfl⟩
    rcases mem_withOpening hp with hp | rfl
    · exact hfull p (mem_reverse.mp hp)
    · simp
  constructor
  · intro h
    exact ⟨halt.mp h.alternates, fun hex => toolUseIDs_request d nm req model ▸ h.ids hex⟩
  · rintro ⟨hturns, hids⟩
    refine ⟨?_, ?_, halt.mpr hturns, ?_, ?_, ?_⟩
    · exact opens_request nm req model hne
    · intro m hm
      obtain ⟨p, -, rfl⟩ := hmem m hm
      cases hp : p.side with
      | user => exact .inl rfl
      | assistant => exact .inr rfl
    · intro m hm
      obtain ⟨p, hp, rfl⟩ := hmem m hm
      exact hp
    · intro hex
      rw [toolUseIDs_request]
      exact hids hex
    · intro t ht
      have ht : (if d.assistantHasToolUse then none
          else (reasoningEffortToThinkingBudget (openAIEffort req)).map thinkingJSON) = some t := ht
      split at ht
      · cases ht
      · obtain ⟨budget, hbudget, rfl⟩ := map_eq_some_iff.mp ht
        refine ⟨budget, budgetTokens_thinkingJSON hbudget, ?_⟩
        simp only [Draft.request, hbudget, raisedMaxTokens]
        split <;> omega

/-- A translated request is a conversation as the upstream expects it just when no run of user and
tool messages begins with a user message and holds a tool message, and, if its explicit ids differ,
the ids that calls are given differ too: trimmed ones, numbers, and one from the other. -/
theorem valid_translation_iff (req : OpenAIRequest) (model : String)
    (out : AnthropicRequest (List AnthBlock)) (nm : Option NameMap)
    (h : openAIToAnthropic req model = some (.ok (out, nm))) :
    Valid req out ↔ ¬ Mixed (turnRoles req.messages) ∧
      ((explicitIDs req.messages).Nodup → Apart (slots 0 none req.messages)) := by
  obtain ⟨nm', -, h⟩ := map_eq_some_iff.mp h
  obtain ⟨out', h, he⟩ := ok_of_map h
  cases he
  obtain ⟨d, hd, h⟩ := ok_of_bind h
  split at h
  · cases h
  · next hne =>
    cases h
    obtain ⟨houtline, hfull, hids⟩ := run_spec hd
    have hclean : Alternates (outline d.messages) ↔ ¬ Mixed (turnRoles req.messages) := by
      rw [houtline, alternates_iff_clean, ← clean_iff_not_mixed]
      exact and_iff_right .nil
    rw [valid_request_iff req model hne (hfull (by simp [Full])), hclean]
    refine and_congr_right fun hmixed => ?_
    rw [hids ((clean_iff_not_mixed _).mpr hmixed), ← nodup_map_id_iff]
    exact Iff.rfl

/-! ### Conversations -/

/-- What an accepted request is translated into. -/
def accepted {ε α β : Type} : Option (Except ε (α × β)) → Option (α × β)
  | some (.ok r) => some r
  | _ => none

theorem exists_of_accepted {ε α β γ : Type} {x : Option (Except ε (α × β))} {f : α → γ} {c : γ}
    (h : (accepted x).map (fun r => f r.1) = some c) :
    ∃ out nm, x = some (.ok (out, nm)) ∧ f out = c := by
  cases x with
  | none => cases h
  | some y =>
    cases y with
    | error e => cases h
    | ok r => exact ⟨r.1, r.2, rfl, some.inj h⟩

/-- The roles and the tool call ids of a translated request. -/
def rolesAndIDs (out : AnthropicRequest (List AnthBlock)) : List String × List String :=
  (out.messages.map (·.role), toolUseIDs out)

/-- A question, two calls, one of them with an id, and their results. -/
def lookedUp : OpenAIRequest where
  messages :=
    [{ role := "user", content := .str "the weather?" },
      { role := "assistant", toolCalls := [{ id := "c1", name := "look" }, { name := "look" }] },
      { role := "tool", toolCallID := "c1", content := .str "rain" },
      { role := "tool", toolCallID := "toolu_openai_2", content := .str "sun" }]

theorem valid_translation_lookedUp :
    ∃ out nm, openAIToAnthropic lookedUp "m" = some (.ok (out, nm)) ∧ Valid lookedUp out := by
  have heval : (accepted (openAIToAnthropic lookedUp "m")).map (fun r => rolesAndIDs r.1) =
      some (["user", "assistant", "user"], ["c1", "toolu_openai_2"]) := by decide +kernel
  obtain ⟨out, nm, h, -⟩ := exists_of_accepted heval
  refine ⟨out, nm, h, (valid_translation_iff lookedUp "m" out nm h).mpr ⟨?_, fun _ => ?_⟩⟩
  · rw [← clean_iff_not_mixed]
    have hroles : lookedUp.messages.filterMap chatRole = [.user, .assistant, .tool, .tool] := by
      decide +kernel
    rw [hroles]
    simp [Clean, seatNext]
  · have hslots : slots 0 none lookedUp.messages = [.given "c1", .numbered 2] := by
      decide +kernel
    rw [hslots, ← nodup_map_id_iff]
    decide +kernel

/-- A tool result right behind a user message. -/
def resultBehindUser : OpenAIRequest where
  messages :=
    [{ role := "user", content := .str "go on" },
      { role := "tool", toolCallID := "c1", content := .str "rain" }]

/-- Two calls without ids, and one more in the next message of the same turn. -/
def threeCalls : OpenAIRequest where
  messages :=
    [{ role := "assistant", toolCalls := [{ name := "look" }, { name := "look" }] },
      { role := "assistant", toolCalls := [{ name := "look" }] }]

/-- Two user turns follow each other, and two calls have the same id. -/
theorem translation_not_valid :
    (∃ out nm, openAIToAnthropic resultBehindUser "m" = some (.ok (out, nm)) ∧
      out.messages.map (·.role) = ["user", "user"] ∧ ¬ Valid resultBehindUser out) ∧
    ∃ out nm, openAIToAnthropic threeCalls "m" = some (.ok (out, nm)) ∧
      explicitIDs threeCalls.messages = [] ∧
      toolUseIDs out = ["toolu_openai_0", "toolu_openai_1", "toolu_openai_1"] ∧
      ¬ Valid threeCalls out := by
  have hbehind : (accepted (openAIToAnthropic resultBehindUser "m")).map (fun r => rolesAndIDs r.1) =
      some (["user", "user"], []) := by decide +kernel
  have hthree : (accepted (openAIToAnthropic threeCalls "m")).map (fun r => rolesAndIDs r.1) =
      some (["user", "assistant"], ["toolu_openai_0", "toolu_openai_1", "toolu_openai_1"]) := by
    decide +kernel
  constructor
  · obtain ⟨out, nm, h, heval⟩ := exists_of_accepted hbehind
    have hroles : out.messages.map (·.role) = ["user", "user"] := congrArg Prod.fst heval
    refine ⟨out, nm, h, hroles, fun hvalid => ?_⟩
    have halt := hvalid.alternates
    rw [hroles] at halt
    simp at halt
  · obtain ⟨out, nm, h, heval⟩ := exists_of_accepted hthree
    have hids : toolUseIDs out = ["toolu_openai_0", "toolu_openai_1", "toolu_openai_1"] :=
      congrArg Prod.snd heval
    have hexplicit : explicitIDs threeCalls.messages = [] := by decide +kernel
    refine ⟨out, nm, h, hexplicit, hids, fun hvalid => ?_⟩
    have hnodup := hvalid.ids (hexplicit ▸ .nil)
    rw [hids] at hnodup
    simp at hnodup

end NexaRoute.Translate
