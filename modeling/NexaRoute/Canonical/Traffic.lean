import Mathlib.Data.List.Flatten
import NexaRoute.Canonical.Bedrock
import NexaRoute.Canonical.OpenAIResponses
import NexaRoute.Machine

/-!
# Tool traffic of an encoded request

What a request says about tools, in the order of the conversation: the calls that have a name, and
the results. An encoder must not lose any of it.

Gemini and Bedrock take calls and results wherever they stand, or refuse the request. The two OpenAI
encoders have a branch for each role, and each branch takes what it expects there: calls from an
assistant turn, results from any other, and from a tool turn the chat encoder takes the first part
alone. The Gemini ingress, which is free to mix them, produces turns on which traffic is lost.

What an encoder emits of a turn is a part of the turn's traffic in the same order. So a request
loses nothing just when no turn does, and it remains to say which turns those are.

## Main results

* `tool_traffic_conveyed_iff` — when an encoder keeps calls and results
-/

namespace NexaRoute.Canonical

open Go Machine List Option BedrockBlock Content Except Message
open NexaRoute.Core

/-! ### Parts of lists -/

section Lists

variable {α β : Type*}

theorem filterMap_congr_iff {α β : Type*} {f g : α → Option β} :
    ∀ {l : List α}, (∀ a ∈ l, g a = none → f a = none) →
      (l.filterMap f = l.filterMap g ↔ ∀ a ∈ l, f a = g a)
  | [], _ => by simp
  | a :: l, h => by
    obtain ⟨ha, hl⟩ := forall_mem_cons.mp h
    rw [forall_mem_cons, ← filterMap_congr_iff hl]
    cases hg : g a with
    | none =>
      rw [filterMap_cons_none hg, filterMap_cons_none (ha hg), ha hg, and_iff_right rfl]
    | some b =>
      rw [filterMap_cons_some hg]
      cases hf : f a with
      | some b' => rw [filterMap_cons_some hf, cons.injEq, some.injEq]
      | none =>
        -- the first list is too short
        rw [filterMap_cons_none hf]
        refine iff_of_false (fun heq => ?_) (by rintro ⟨⟨⟩, -⟩)
        have hlen := congrArg length heq
        have hle : l.countP (fun a => (f a).isSome) ≤ l.countP (fun a => (g a).isSome) := by
          refine countP_mono_left fun a ha hf => ?_
          rw [isSome_iff_ne_none] at hf ⊢
          exact mt (hl a ha) hf
        rw [length_cons, length_filterMap_eq_countP,
          length_filterMap_eq_countP] at hlen
        omega

theorem filterMap_sublist {f g : α → Option β} (h : ∀ a, f a = none ∨ f a = g a) (l : List α) :
    (l.filterMap f).Sublist (l.filterMap g) := by
  rw [filterMap_eq_flatMap_toList, filterMap_eq_flatMap_toList]
  refine Sublist.flatMap_right l fun a _ => ?_
  rcases h a with hf | hf
  · rw [hf]
    exact nil_sublist _
  · rw [hf]

theorem flatMap_eq_iff {f g : α → List β} : ∀ l : List α, (∀ a ∈ l, (f a).Sublist (g a)) →
    ((l.flatMap f).length = (l.flatMap g).length ↔ ∀ a ∈ l, f a = g a)
  | [], _ => by simp
  | a :: l, h => by
    have hl : ∀ b ∈ l, (f b).Sublist (g b) := fun b hb => h b (mem_cons_of_mem a hb)
    have hhead := h a (mem_cons_self ..)
    have htail := (Sublist.flatMap_right l hl).length_le
    rw [forall_mem_cons, ← flatMap_eq_iff l hl, flatMap_cons, flatMap_cons, length_append,
      length_append]
    constructor
    · intro heq
      have hle := hhead.length_le
      exact ⟨hhead.eq_of_length (by omega), by omega⟩
    · rintro ⟨heq, hrest⟩
      rw [heq, hrest]

end Lists

/-! ### Traffic -/

/-- A call or a result. -/
inductive Traffic
  | call (c : ToolCall)
  | result (r : ToolResult)
  deriving DecidableEq, Repr

open Traffic

def Content.traffic? (c : Content) : Option Traffic :=
  (c.call?.map .call) <|> (c.result?.map .result)

def Content.callTraffic? (c : Content) : Option Traffic := c.call?.map .call

def Content.resultTraffic? (c : Content) : Option Traffic := c.result?.map .result

def Message.traffic (m : Message) : List Traffic := m.parts.filterMap (·.content.traffic?)

/-- The traffic of a request, in the order of the conversation. -/
def Request.traffic (r : Request) : List Traffic := r.messages.flatMap Message.traffic

variable (c : Content)

theorem Content.call_or_result : c.call? = none ∨ c.result? = none := by
  cases c <;> simp [call?, result?]

theorem Content.callTraffic_le : c.callTraffic? = none ∨ c.callTraffic? = c.traffic? := by
  cases h : c.call? with
  | none => exact .inl (by rw [callTraffic?, h]; rfl)
  | some tc => exact .inr (by rw [callTraffic?, traffic?, h]; rfl)

theorem Content.callTraffic_eq_iff : c.callTraffic? = c.traffic? ↔ c.result? = none := by
  unfold callTraffic? traffic?
  rcases c.call_or_result with h | h
  · rw [h]
    cases c.result? <;> simp
  · rw [h]
    cases c.call? <;> simp

theorem Content.resultTraffic_le : c.resultTraffic? = none ∨ c.resultTraffic? = c.traffic? := by
  unfold resultTraffic? traffic?
  rcases c.call_or_result with h | h
  · exact .inr (by rw [h]; rfl)
  · exact .inl (by rw [h]; rfl)

theorem Content.resultTraffic_eq_iff : c.resultTraffic? = c.traffic? ↔ c.call? = none := by
  unfold resultTraffic? traffic?
  rcases c.call_or_result with h | h
  · rw [h]
    cases c.result? <;> simp
  · cases c.call? <;> simp

variable (parts : List Part) (m : Message) (r : Request)

theorem calls_sublist : (parts.filterMap (·.content.callTraffic?)).Sublist
    (parts.filterMap (·.content.traffic?)) :=
  filterMap_sublist (fun p => p.content.callTraffic_le) parts

theorem results_sublist : (parts.filterMap (·.content.resultTraffic?)).Sublist
    (parts.filterMap (·.content.traffic?)) :=
  filterMap_sublist (fun p => p.content.resultTraffic_le) parts

theorem calls_eq_iff :
    parts.filterMap (·.content.callTraffic?) = parts.filterMap (·.content.traffic?) ↔
      ∀ p ∈ parts, p.content.result? = none := by
  rw [filterMap_congr_iff fun p _ h => p.content.callTraffic_le.elim id (·.trans h)]
  simp only [callTraffic_eq_iff]

theorem results_eq_iff :
    parts.filterMap (·.content.resultTraffic?) = parts.filterMap (·.content.traffic?) ↔
      ∀ p ∈ parts, p.content.call? = none := by
  rw [filterMap_congr_iff fun p _ h => p.content.resultTraffic_le.elim id (·.trans h)]
  simp only [resultTraffic_eq_iff]

/-! ### Items of a payload -/

/-- A call or a result on the wire. In a Gemini payload the name stands for the id of a result, and
a call has no id. -/
inductive WireItem
  | call (id name arguments : String)
  | result (id content : String)
  deriving DecidableEq, Repr

def chatItems (m : OpenAIMessage) : List WireItem :=
  m.toolCalls.map (fun tc => .call tc.id tc.name tc.arguments) ++
    if m.role = "tool" then [.result m.toolCallID m.content.text] else []

def chatPayloadItems (p : OpenAIRequest) : List WireItem := p.messages.flatMap chatItems

def InputEntry.item? : InputEntry → Option WireItem
  | .functionCall id name arguments => some (.call id name arguments)
  | .functionCallOutput id output => some (.result id output)
  | .message _ _ => none

def ResponsesPayload.items (p : ResponsesPayload) : List WireItem := p.input.filterMap InputEntry.item?

def GeminiContentPart.item? (p : GeminiContentPart) : Option WireItem :=
  (p.functionCall.map fun c => .call "" c.name c.args) <|>
    p.functionResponse.map fun fr => .result fr.name fr.response

/-- The items of a GenerateContent payload. -/
def GeminiRequest.items (p : GeminiRequest) : List WireItem :=
  p.contents.flatMap fun c => c.parts.filterMap GeminiContentPart.item?

def BedrockResultContent.raw : BedrockResultContent → String
  | .text s => s
  | .json raw => raw

def BedrockBlock.item? : BedrockBlock → Option WireItem
  | .toolUse id name input => if name = "" then none else some (.call id name input)
  | .toolResult id content _ => some (.result id content.raw)
  | _ => none

/-- The items of a Converse payload. -/
def BedrockRequest.items (p : BedrockRequest) : List WireItem :=
  p.messages.flatMap fun m => m.content.filterMap BedrockBlock.item?

/-- A call or a result as the chat encoder writes it. -/
def Traffic.chat : Traffic → WireItem
  | .call c => .call c.id c.name c.arguments
  | .result tr => .result tr.toolUseID (toolResultToOpenAIContent tr)

/-- A call or a result as the Responses encoder and the Bedrock encoder write it. -/
def Traffic.plain : Traffic → WireItem
  | .call c => .call c.id c.name (argumentsOrEmpty c.arguments)
  | .result tr => .result tr.toolUseID tr.content

/-- A call or a result as the Gemini encoder writes it. -/
def Traffic.gemini (r : Request) : Traffic → WireItem
  | .call c => .call "" c.name (argumentsOrEmpty c.arguments)
  | .result tr => .result (toolNameForID r tr.toolUseID) (parseOrQuote tr.content)

/-- An encoder conveys the traffic of a request: it fails, or the items of its payload are the calls
and the results, each once and in order. -/
def Conveys (render : Traffic → WireItem) (r : Request) (items : Except CodecError (List WireItem)) :
    Prop :=
  ∀ l, items = .ok l → l = r.traffic.map render

theorem conveys_ok_iff {render : Traffic → WireItem} {r : Request} {items : List WireItem} :
    Conveys render r (.ok items) ↔ items = r.traffic.map render :=
  ⟨fun hc => hc _ rfl, fun heq _ hl => (ok.inj hl).symm.trans heq⟩

theorem emitted_eq_iff {emitted : Message → List Traffic} (render : Traffic → WireItem)
    (r : Request) (h : ∀ m, (emitted m).Sublist m.traffic) :
    (r.messages.flatMap emitted).map render = r.traffic.map render ↔
      ∀ m ∈ r.messages, emitted m = m.traffic := by
  rw [← flatMap_eq_iff r.messages fun m _ => h m]
  constructor
  · intro heq
    have hlen := congrArg length heq
    rwa [length_map, length_map] at hlen
  · intro hlen
    have hall := (flatMap_eq_iff r.messages fun m _ => h m).mp hlen
    rw [Request.traffic, flatMap_congr hall]

/-! ### Chat completions -/

/-- What the chat encoder emits of a turn. -/
def Message.chatTraffic (m : Message) : List Traffic :=
  match m.role with
  | .assistant => m.parts.filterMap (·.content.callTraffic?)
  | .tool => (m.parts.head?.bind (·.content.resultTraffic?)).toList
  | _ => m.parts.filterMap (·.content.resultTraffic?)

/-- A turn of which the chat encoder loses nothing: no results beside the calls of an assistant, no
calls in any other turn, and in a tool turn nothing behind the first part. -/
def Message.ChatSeated (m : Message) : Prop :=
  match m.role with
  | .assistant => ∀ p ∈ m.parts, p.content.result? = none
  | .tool => (∀ p ∈ m.parts.head?, p.content.call? = none) ∧
      ∀ p ∈ m.parts.tail, p.content.traffic? = none
  | _ => ∀ p ∈ m.parts, p.content.call? = none

/-- A request without a single chat message: the system prompt is blank, and every turn is a tool
turn that does not begin with a result. -/
def Request.Mute (r : Request) : Prop :=
  trimSpace (partsToText r.system) = "" ∧
    ∀ m ∈ r.messages, m.role = .tool ∧ ∀ p ∈ m.parts.head?, p.content.result? = none

theorem chatItems_systemMessage : (systemMessage parts).flatMap chatItems = [] := by
  unfold systemMessage
  split_ifs <;> rfl

theorem chatItems_encodeAssistant : chatItems (encodeAssistant parts) =
      (parts.filterMap (·.content.callTraffic?)).map Traffic.chat := by
  have hrole : (encodeAssistant parts).role = "assistant" := rfl
  rw [chatItems, hrole, if_neg (by decide), List.append_nil]
  simp only [encodeAssistant, chatCalls, List.map_filterMap, Content.callTraffic?,
    Option.map_map]
  rfl

theorem chatItems_encodeUser : (encodeUser parts).flatMap chatItems =
      (parts.filterMap (·.content.resultTraffic?)).map Traffic.chat := by
  have hresults : ((parts.filterMap (·.content.result?)).map toolMessage).flatMap chatItems =
      (parts.filterMap (·.content.resultTraffic?)).map chat := by
    have hone : chatItems ∘ toolMessage = fun tr => [(result tr).chat] := rfl
    rw [List.flatMap_map, show (fun tr => chatItems (toolMessage tr)) = _ from hone,
      ← List.map_eq_flatMap]
    simp only [Content.resultTraffic?, List.map_filterMap, Option.map_map]
    rfl
  have hrest : (encodeRest parts).flatMap chatItems = [] := by
    unfold encodeRest
    split_ifs <;> rfl
  unfold encodeUser
  split_ifs with h
  · rw [h]
    rfl
  · rw [List.flatMap_append, hresults, hrest, List.append_nil]

theorem chatItems_encodeTool : (encodeTool parts).flatMap chatItems =
      (parts.head?.bind (·.content.resultTraffic?)).toList.map chat := by
  cases parts with
  | nil => rfl
  | cons p parts =>
    simp only [encodeTool, head?_cons, bind_some, resultTraffic?]
    cases p.content.result? <;> rfl

theorem chatItems_encodeChatMessage :
    (encodeChatMessage m).flatMap chatItems = m.chatTraffic.map chat := by
  obtain ⟨role, parts⟩ := m
  cases role with
  | assistant =>
    show [encodeAssistant parts].flatMap chatItems = _
    rw [flatMap_singleton, chatItems_encodeAssistant]
    rfl
  | tool => exact chatItems_encodeTool parts
  | user | other word => exact chatItems_encodeUser parts

theorem chatPayloadItems_eq {r : Request} {includeUsage : Bool} {p : OpenAIRequest}
    (h : encodeOpenAIChatRequest r includeUsage = .ok p) :
    chatPayloadItems p = (r.messages.flatMap chatTraffic).map chat := by
  obtain ⟨-, rfl⟩ := encodeOpenAIChatRequest_eq_ok_iff.mp h
  show (systemMessage r.system ++ r.messages.flatMap encodeChatMessage).flatMap chatItems = _
  rw [flatMap_append, chatItems_systemMessage, nil_append, flatMap_assoc,
    map_flatMap]
  simp only [chatItems_encodeChatMessage]

theorem Message.chatTraffic_sublist : m.chatTraffic.Sublist m.traffic := by
  obtain ⟨role, parts⟩ := m
  cases role with
  | assistant => exact calls_sublist parts
  | tool =>
    refine List.Sublist.trans ?_ (results_sublist parts)
    show (parts.head?.bind (·.content.resultTraffic?)).toList.Sublist _
    cases parts with
    | nil => exact .slnil
    | cons p parts =>
      rw [head?_cons, bind_some, filterMap_cons]
      cases p.content.resultTraffic? with
      | none => exact nil_sublist _
      | some t => exact (nil_sublist _).cons_cons t
  | user | other word => exact results_sublist parts

theorem Message.chatTraffic_eq_iff : m.chatTraffic = m.traffic ↔ m.ChatSeated := by
  obtain ⟨role, parts⟩ := m
  cases role with
  | assistant => exact calls_eq_iff parts
  | tool =>
    show (parts.head?.bind (·.content.resultTraffic?)).toList = parts.filterMap _ ↔
      (∀ p ∈ parts.head?, p.content.call? = none) ∧ ∀ p ∈ parts.tail, p.content.traffic? = none
    cases parts with
    | nil => simp
    | cons p parts =>
      rw [head?_cons, bind_some, tail_cons, filterMap_cons,
        ← filterMap_eq_nil_iff]
      simp only [mem_def, some.injEq, forall_eq', ← resultTraffic_eq_iff]
      have hle := p.content.resultTraffic_le
      generalize p.content.resultTraffic? = a at hle ⊢
      generalize p.content.traffic? = b at hle ⊢
      cases b with
      | none =>
        obtain rfl : a = none := hle.elim id id
        exact ⟨fun h => ⟨rfl, h.symm⟩, fun h => h.2.symm⟩
      | some t =>
        rcases hle with rfl | rfl
        · constructor
          · rintro ⟨⟩
          · rintro ⟨⟨⟩, -⟩
        · exact ⟨fun h => ⟨rfl, (cons.inj h).2.symm⟩, fun h => by rw [h.2]; rfl⟩
  | user | other word => exact results_eq_iff parts

theorem encodeChatMessage_eq_nil_iff :
    encodeChatMessage m = [] ↔ m.role = .tool ∧ ∀ p ∈ m.parts.head?, p.content.result? = none := by
  have huser : ∀ parts, encodeUser parts ≠ [] := by
    intro parts h
    unfold encodeUser at h
    split_ifs at h with hparts
    obtain ⟨hresults, hrest⟩ := append_eq_nil_iff.mp h
    unfold encodeRest at hrest
    split_ifs at hrest with hwithout
    -- no results and nothing else: there is no part
    apply hparts
    rw [eq_nil_iff_forall_not_mem]
    intro p hp
    have hnone : p.content.result? = none :=
      filterMap_eq_nil_iff.mp (map_eq_nil_iff.mp hresults) p hp
    have := filter_eq_nil_iff.mp hwithout p hp
    rw [hnone] at this
    exact this rfl
  obtain ⟨role, parts⟩ := m
  cases role with
  | assistant => simp [encodeChatMessage]
  | tool =>
    show encodeTool parts = [] ↔ _
    rw [encodeTool]
    cases parts with
    | nil => simp
    | cons p parts =>
      cases p.content.result? <;> simp
  | user | other word => simpa [encodeChatMessage] using huser parts

/-- The chat encoder conveys the traffic of a request just when it has nothing to send at all, or
every part of it stands where the encoder looks for it. -/
theorem conveys_chat_iff (includeUsage : Bool) :
    Conveys chat r ((encodeOpenAIChatRequest r includeUsage).map chatPayloadItems) ↔
      r.Mute ∨ ∀ m ∈ r.messages, m.ChatSeated := by
  have hmute : (chatPayload r includeUsage).messages = [] ↔ r.Mute := by
    show systemMessage r.system ++ r.messages.flatMap encodeChatMessage = [] ↔ _
    rw [append_eq_nil_iff, flatMap_eq_nil_iff, Request.Mute]
    simp only [encodeChatMessage_eq_nil_iff]
    refine and_congr_left' ?_
    unfold systemMessage
    split_ifs with h <;> simp [h]
  simp only [← chatTraffic_eq_iff]
  rw [← emitted_eq_iff chat r chatTraffic_sublist, ← hmute]
  cases h : encodeOpenAIChatRequest r includeUsage with
  | error e =>
    have hempty : (chatPayload r includeUsage).messages = [] := by
      unfold encodeOpenAIChatRequest at h
      split_ifs at h with hempty
      exact isEmpty_iff.mp hempty
    exact ⟨fun _ => .inl hempty, fun _ l hl => by cases hl⟩
  | ok p =>
    have hitems := chatPayloadItems_eq h
    obtain ⟨hne, rfl⟩ := encodeOpenAIChatRequest_eq_ok_iff.mp h
    rw [or_iff_right hne, ← hitems]
    exact conveys_ok_iff

/-! ### Responses -/

/-- What the Responses encoder emits of a turn. -/
def Message.responsesTraffic (m : Message) : List Traffic :=
  match m.role with
  | .assistant => m.parts.filterMap (·.content.callTraffic?)
  | _ => m.parts.filterMap (·.content.resultTraffic?)

/-- A turn of which the Responses encoder loses nothing: no results beside the calls of an
assistant, and no calls in any other turn. -/
def Message.ResponsesSeated (m : Message) : Prop :=
  match m.role with
  | .assistant => ∀ p ∈ m.parts, p.content.result? = none
  | _ => ∀ p ∈ m.parts, p.content.call? = none

theorem items_responsesAssistant : (responsesAssistant parts).filterMap InputEntry.item? =
      (parts.filterMap (·.content.callTraffic?)).map plain := by
  have htext : (if partsToText parts = "" then []
      else [InputEntry.message "assistant" (.str (partsToText parts))]).filterMap
        InputEntry.item? = [] := by split_ifs <;> rfl
  rw [responsesAssistant, filterMap_append, htext, append_nil, filterMap_map,
    map_filterMap]
  simp only [Content.callTraffic?, Option.map_map, List.filterMap_filterMap]
  congr 1
  funext p
  cases p.content.call? <;> rfl

theorem items_responsesResults : (responsesResults parts).filterMap InputEntry.item? =
      (parts.filterMap (·.content.resultTraffic?)).map plain := by
  rw [responsesResults, filterMap_map, map_filterMap]
  simp only [Content.resultTraffic?, Option.map_map, List.filterMap_filterMap]
  congr 1
  funext p
  cases p.content.result? <;> rfl

theorem items_responsesRest (role : String) (parts : List Part) :
    (responsesRest role parts).filterMap InputEntry.item? = [] := by
  unfold responsesRest
  split
  · rfl
  · rfl
  · split <;> rfl

theorem items_encodeResponsesMessage : (encodeResponsesMessage m).filterMap InputEntry.item? =
      m.responsesTraffic.map plain := by
  obtain ⟨role, parts⟩ := m
  have hother : ∀ word, (responsesResults parts ++
      responsesRest word (withoutResults parts)).filterMap InputEntry.item? =
      (parts.filterMap (·.content.resultTraffic?)).map plain := by
    intro word
    rw [filterMap_append, items_responsesResults, items_responsesRest, append_nil]
  cases role with
  | assistant => exact items_responsesAssistant parts
  | tool => exact items_responsesResults parts
  | user | other word => exact hother _

theorem ResponsesPayload.items_eq (upstreamModel : String) :
    (encodeResponsesRequest r upstreamModel).items =
      (r.messages.flatMap responsesTraffic).map plain := by
  have hsystem : (systemEntry r.system).filterMap InputEntry.item? = [] := by
    unfold systemEntry
    split_ifs <;> rfl
  show (systemEntry r.system ++ r.messages.flatMap encodeResponsesMessage).filterMap
    InputEntry.item? = _
  rw [filterMap_append, hsystem, nil_append, filterMap_flatMap, map_flatMap]
  simp only [items_encodeResponsesMessage]

theorem Message.responsesTraffic_sublist : m.responsesTraffic.Sublist m.traffic := by
  obtain ⟨role, parts⟩ := m
  cases role with
  | assistant => exact calls_sublist parts
  | tool | user | other word => exact results_sublist parts

theorem Message.responsesTraffic_eq_iff : m.responsesTraffic = m.traffic ↔ m.ResponsesSeated := by
  obtain ⟨role, parts⟩ := m
  cases role with
  | assistant => exact calls_eq_iff parts
  | tool | user | other word => exact results_eq_iff parts

theorem conveys_responses_iff (upstreamModel : String) :
    Conveys plain r (.ok (encodeResponsesRequest r upstreamModel).items) ↔
      ∀ m ∈ r.messages, m.ResponsesSeated := by
  simp only [← responsesTraffic_eq_iff]
  rw [← emitted_eq_iff plain r responsesTraffic_sublist,
    ← ResponsesPayload.items_eq r upstreamModel]
  exact conveys_ok_iff

/-! ### Gemini -/

theorem item_encodeGeminiPart :
    (encodeGeminiPart r c).bind GeminiContentPart.item? = c.traffic?.map (gemini r) := by
  cases c with
  | text s =>
    simp only [encodeGeminiPart]
    split_ifs <;> rfl
  | image i =>
    simp only [encodeGeminiPart]
    cases i.blob? <;> rfl
  | toolCall tc =>
    simp only [encodeGeminiPart, traffic?, call?]
    split_ifs <;> rfl
  | toolResult tr | thinking t => rfl

theorem items_encodeGeminiMessage (m : Message) :
    (encodeGeminiMessage r m).parts.filterMap GeminiContentPart.item? =
      m.traffic.map (gemini r) := by
  have hparts : (m.parts.filterMap fun p => encodeGeminiPart r p.content).filterMap
      GeminiContentPart.item? = m.traffic.map (gemini r) := by
    rw [filterMap_filterMap, traffic, map_filterMap]
    simp only [item_encodeGeminiPart]
  rw [← hparts]
  simp only [encodeGeminiMessage]
  split
  · next hnil => rw [hnil]; rfl
  · rfl

theorem conveys_gemini :
    Conveys (gemini r) r ((encodeGeminiRequest r).map GeminiRequest.items) := by
  intro l hl
  unfold encodeGeminiRequest at hl
  split_ifs at hl
  · obtain rfl := ok.inj hl
    show (r.messages.map (encodeGeminiMessage r)).flatMap
      (fun c => c.parts.filterMap GeminiContentPart.item?) = _
    rw [flatMap_map, Request.traffic, map_flatMap]
    simp only [items_encodeGeminiMessage]
  · cases hl

/-! ### Bedrock -/

theorem item_encodeBedrockPart {c : Content} {block : Option BedrockBlock}
    (h : encodeBedrockPart c = .ok block) :
    block.bind item? = c.traffic?.map plain := by
  cases c with
  | text s =>
    obtain rfl := ok.inj h
    split_ifs <;> rfl
  | image i =>
    simp only [encodeBedrockPart] at h
    split_ifs at h
    · obtain rfl := ok.inj h
      rfl
    · split at h
      · obtain rfl := ok.inj h
        rfl
      · cases h
  | toolCall tc =>
    obtain rfl := ok.inj h
    simp only [bind_some, item?, traffic?, call?]
    split_ifs <;> rfl
  | toolResult tr =>
    obtain rfl := ok.inj h
    simp only [bind_some, item?, bedrockResultContent]
    split_ifs <;> rfl
  | thinking t =>
    obtain rfl := ok.inj h
    rfl

theorem items_checkpoint (block : Option BedrockBlock) (marker : String) (emitted : ℕ) :
    (checkpoint block marker emitted).1.filterMap item? = [] := by
  unfold checkpoint appendBedrockCachePoint
  split_ifs <;> rfl

theorem items_encodeBedrockParts : ∀ {parts : List Part} {emitted : ℕ}
    {out : List BedrockBlock × ℕ}, encodeBedrockParts parts emitted = .ok out →
    out.1.filterMap item? =
      (parts.filterMap (·.content.traffic?)).map plain
  | [], _, _, h => by
    obtain rfl := ok.inj h
    rfl
  | p :: parts, emitted, out, h => by
    obtain ⟨block, hblock, h⟩ := ok_of_bind h
    obtain ⟨rest, hrest, h⟩ := ok_of_bind h
    obtain rfl := ok.inj h
    have hitem := item_encodeBedrockPart hblock
    have hhead : block.toList.filterMap item? =
        (p.content.traffic?.map plain).toList := by
      rw [← hitem]
      cases block with
      | none => rfl
      | some b =>
        rw [toList_some, filterMap_cons, bind_some]
        cases b.item? <;> rfl
    rw [filterMap_append, filterMap_append, items_checkpoint, nil_append,
      items_encodeBedrockParts hrest, hhead, filterMap_cons]
    cases p.content.traffic? <;> rfl

theorem items_encodeBedrockMessages : ∀ {messages : List Message} {emitted : ℕ}
    {out : List BedrockMessage}, encodeBedrockMessages messages emitted = .ok out →
    out.flatMap (fun m => m.content.filterMap item?) =
      (messages.flatMap traffic).map plain
  | [], _, _, h => by
    obtain rfl := ok.inj h
    rfl
  | m :: messages, emitted, out, h => by
    obtain ⟨turn, hturn, h⟩ := ok_of_bind h
    obtain ⟨rest, hrest, h⟩ := ok_of_bind h
    obtain rfl := ok.inj h
    have hhead : (bedrockMessage m.role turn.1).flatMap
        (fun m => m.content.filterMap item?) = m.traffic.map plain := by
      rw [traffic, ← items_encodeBedrockParts hturn, bedrockMessage]
      by_cases hnil : turn.1 = []
      · rw [if_pos hnil, hnil]
        rfl
      · rw [if_neg hnil, flatMap_singleton]
    rw [flatMap_append, hhead, items_encodeBedrockMessages hrest, flatMap_cons,
      map_append]

theorem BedrockRequest.items_eq {r : Request} {p : BedrockRequest}
    (h : encodeBedrockRequest r = .ok p) : p.items = r.traffic.map plain := by
  obtain ⟨system, -, h⟩ := ok_of_bind h
  obtain ⟨messages, hmessages, h⟩ := ok_of_bind h
  split_ifs at h
  obtain rfl := ok.inj h
  exact items_encodeBedrockMessages hmessages

theorem conveys_bedrock : Conveys plain r ((encodeBedrockRequest r).map BedrockRequest.items) := by
  intro l hl
  obtain ⟨p, hp, rfl⟩ := ok_of_map hl
  exact BedrockRequest.items_eq hp

/-! ### All encoders -/

/-- Tool traffic is conveyed by the Gemini and the Bedrock encoder whatever the request, and by the
two OpenAI encoders just when it stands where they look for it. -/
theorem tool_traffic_conveyed_iff (r : Request) (upstreamModel : String) (includeUsage : Bool) :
    (Conveys Traffic.chat r ((encodeOpenAIChatRequest r includeUsage).map chatPayloadItems) ↔
      r.Mute ∨ ∀ m ∈ r.messages, m.ChatSeated) ∧
    (Conveys Traffic.plain r (.ok (encodeResponsesRequest r upstreamModel).items) ↔
      ∀ m ∈ r.messages, m.ResponsesSeated) ∧
    Conveys (Traffic.gemini r) r ((encodeGeminiRequest r).map GeminiRequest.items) ∧
    Conveys Traffic.plain r ((encodeBedrockRequest r).map BedrockRequest.items) :=
  ⟨conveys_chat_iff r includeUsage, conveys_responses_iff r upstreamModel, conveys_gemini r,
    conveys_bedrock r⟩

/-- A Gemini client's answers to two calls, both in one turn. -/
def twoAnswers : GeminiRequest where
  contents := [{ role := "user", parts := [{ text := "go" }] },
    { role := "model", parts := [{ functionCall := some { name := "a" } },
      { functionCall := some { name := "b" } }] },
    { role := "function", parts := [{ functionResponse := some { name := "a", response := "1" } },
      { functionResponse := some { name := "b", response := "2" } }] }]

/-- A Gemini client's answer in a turn of the model. -/
def answerOfModel : GeminiRequest where
  contents := [{ role := "user", parts := [{ text := "go" }] },
    { role := "model", parts := [{ functionCall := some { name := "a" } },
      { functionResponse := some { name := "a", response := "1" } }] }]

/-- The second answer of a turn is lost on the way to a chat upstream, and an answer in a turn of the
model on the way to a Responses upstream. -/
theorem second_answer_lost :
    (∃ r, decodeGeminiIngressRequest twoAnswers "m" = .ok r ∧
      ¬ Conveys Traffic.chat r ((encodeOpenAIChatRequest r false).map chatPayloadItems)) ∧
    (∃ r, decodeGeminiIngressRequest answerOfModel "m" = .ok r ∧
      ¬ Conveys Traffic.plain r (.ok (encodeResponsesRequest r "m").items)) := by
  constructor
  · have hrun : (decodeGeminiIngressRequest twoAnswers "m").map (fun r =>
        (r.traffic.map chat, (encodeOpenAIChatRequest r false).map chatPayloadItems)) =
        .ok ([.call "" "a" emptyObject, .call "" "b" emptyObject, .result "a" "1",
          .result "b" "2"], .ok [.call "" "a" emptyObject, .call "" "b" emptyObject,
          .result "a" "1"]) := by decide +kernel
    obtain ⟨r, hr, heq⟩ := ok_of_map hrun
    obtain ⟨htraffic, hitems⟩ := Prod.mk.inj heq
    refine ⟨r, hr, fun hconveys => ?_⟩
    have hlost := hconveys _ hitems
    rw [htraffic] at hlost
    exact absurd hlost (by decide)
  · have hrun : (decodeGeminiIngressRequest answerOfModel "m").map (fun r =>
        (r.traffic.map plain, (encodeResponsesRequest r "m").items)) =
        .ok ([.call "" "a" emptyObject, .result "a" "1"], [.call "" "a" emptyObject]) := by
      decide +kernel
    obtain ⟨r, hr, heq⟩ := ok_of_map hrun
    obtain ⟨htraffic, hitems⟩ := Prod.mk.inj heq
    refine ⟨r, hr, fun hconveys => ?_⟩
    have hlost := hconveys _ rfl
    rw [htraffic, hitems] at hlost
    exact absurd hlost (by decide)

end NexaRoute.Canonical
