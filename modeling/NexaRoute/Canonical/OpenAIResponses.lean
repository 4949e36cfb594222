import NexaRoute.Canonical.OpenAIChat
import NexaRoute.Httpapi.Wire

/-!
# Responses requests

The encoder of `internal/protocol/canonical/openai_responses.go`: the input of a Responses request
is a list of items, where tool calls and tool results stand beside the messages. It writes the calls
of an assistant turn before its text, and takes results only from turns of other roles.

## Main results

* `turn_order_iff` — when the items of a turn follow its parts
-/

namespace NexaRoute.Canonical

open Go List

/-- An item of the input of a payload. -/
inductive InputEntry
  | message (role : String) (content : Json)
  | functionCall (callID name arguments : String)
  | functionCallOutput (callID output : String)

structure ResponsesPayload where
  model : String
  input : List InputEntry
  stream : Bool
  maxOutputTokens : Option ℤ
  temperature : Option ℚ
  topP : Option ℚ
  stop : List String
  tools : List (String × String × Json)
  toolChoice : Json
  parallelToolCalls : Option Bool
  promptCacheKey : String
  effort : Option String
  format : Option Json

def callEntry (c : ToolCall) : InputEntry :=
  .functionCall c.id c.name (argumentsOrEmpty c.arguments)

def resultEntry (tr : ToolResult) : InputEntry := .functionCallOutput tr.toolUseID tr.content

/-- An assistant turn: its calls, then its text. -/
def responsesAssistant (parts : List Part) : List InputEntry :=
  (parts.filterMap (·.content.call?)).map callEntry ++
    if partsToText parts = "" then [] else [.message "assistant" (.str (partsToText parts))]

def responsesResults (parts : List Part) : List InputEntry :=
  (parts.filterMap (·.content.result?)).map resultEntry

/-- A part in the content of a message. -/
def Content.inputDoc? : Content → Option Json
  | .text s => some (.obj [("type", .str "input_text"), ("text", .str s)])
  | .image i =>
    if i.openAIURL = "" then none
    else some (.obj [("type", .str "input_image"), ("image_url", .str i.openAIURL)])
  | _ => none

/-- What is left of a turn without its results. -/
def responsesRest (role : String) (parts : List Part) : List InputEntry :=
  match parts with
  | [] => []
  | [{ content := .text s, .. }] => [.message role (.str s)]
  | parts => match parts.filterMap (·.content.inputDoc?) with
    | [] => []
    | docs => [.message role (.arr docs)]

/-- The items of a turn. -/
def encodeResponsesMessage (m : Message) : List InputEntry :=
  match m.role with
  | .assistant => responsesAssistant m.parts
  | .tool => responsesResults m.parts
  | role => responsesResults m.parts ++ responsesRest role.word (withoutResults m.parts)

/-- The system prompt as an item, unless it is blank. -/
def systemEntry (parts : List Part) : List InputEntry :=
  if trimSpace (partsToText parts) = "" then []
  else [.message "system" (.str (partsToText parts))]

/-- A tool choice on the wire. -/
def responsesChoice : Option ToolChoice → Json
  | some (.tool name) => .obj [("type", .str "function"), ("name", .str name)]
  | choice => chatChoice choice

def rawOrEmptyObject : Option Json → Json
  | none => .obj [("type", .str "object")]
  | some .null => .obj [("type", .str "object")]
  | some raw => raw

/-- A response format on the wire. -/
def formatDoc : Option ResponseFormat → Option Json
  | none => none
  | some .jsonObject => some (.obj [("type", .str "json_object")])
  | some (.jsonSchema name schema) =>
    let namePart : List (String × Json) := if name = "" then [] else [("name", .str name)]
    some (.obj ([("type", .str "json_schema"), ("schema", rawOrEmptyObject schema)] ++ namePart))

/-- `EncodeResponsesRequest`. Everything in the payload marshals. -/
def encodeResponsesRequest (r : Request) (upstreamModel : String) : ResponsesPayload where
  model := upstreamModel
  input := systemEntry r.system ++ r.messages.flatMap encodeResponsesMessage
  stream := r.stream
  maxOutputTokens := if r.maxOutputTokens > 0 then some r.maxOutputTokens else none
  temperature := r.temperature
  topP := r.topP
  stop := r.stop
  tools := r.tools.map fun t => (t.name, t.description, rawOrEmptyObject t.parameters)
  toolChoice := responsesChoice r.toolChoice
  parallelToolCalls := r.parallelToolCalls
  promptCacheKey := r.promptCacheKey
  effort := effortWord r.reasoning
  format := formatDoc r.responseFormat

/-! ### The order of a turn -/

/-- What an assistant turn says: a text, or a tool call. -/
inductive Speech
  | text (s : String)
  | call (c : ToolCall)

open Speech

def Speech.text? : Speech → Option String
  | .text s => some s
  | .call _ => none

def Speech.call? : Speech → Option ToolCall
  | .text _ => none
  | .call c => some c

/-- The parts the encoder writes: a text that is not empty, a call that has a name. -/
def Content.speech? : Content → Option Speech
  | .text s => if s = "" then none else some (.text s)
  | .toolCall c => if c.name = "" then none else some (.call c)
  | _ => none

def speech (parts : List Part) : List Speech := parts.filterMap (·.content.speech?)

/-- The items say what is said, in its order. An item may join texts that stand together. -/
inductive InOrder : List Speech → List InputEntry → Prop
  | nil : InOrder [] []
  | call (c : ToolCall) {said : List Speech} {items : List InputEntry} (h : InOrder said items) :
      InOrder (.call c :: said) (callEntry c :: items)
  | texts {texts : List String} {said : List Speech} {items : List InputEntry}
      (hne : texts ≠ []) (h : InOrder said items) :
      InOrder (texts.map .text ++ said)
        (.message "assistant" (.str (String.intercalate "\n" texts)) :: items)

/-- No text stands before a call. -/
def CallsFirst (said : List Speech) : Prop :=
  said.Pairwise fun a b => b.call?.isSome = true → a.call?.isSome = true

def InputEntry.isCall : InputEntry → Bool
  | .functionCall _ _ _ => true
  | _ => false

variable (parts : List Part)

theorem filterMap_speech : (speech parts).filterMap call? = parts.filterMap (·.content.call?) ∧
      (speech parts).filterMap text? = parts.filterMap (·.content.text?) := by
  have hcontent : ∀ c : Content, c.speech?.bind call? = c.call? ∧
      c.speech?.bind text? = c.text? := by
    intro c
    cases c with
    | text s => by_cases hs : s = "" <;> simp [Content.speech?, Content.call?, Content.text?, hs,
        call?, text?]
    | toolCall call => by_cases hname : call.name = "" <;> simp [Content.speech?, Content.call?,
        Content.text?, hname, call?, text?]
    | _ => exact ⟨rfl, rfl⟩
  simp only [speech, filterMap_filterMap, hcontent, and_self]

theorem callsFirst_of_inOrder {said : List Speech} {calls : List ToolCall} {text : List InputEntry}
    (htext : text = [] ∨ ∃ role content, text = [.message role content])
    (h : InOrder said (calls.map callEntry ++ text)) : CallsFirst said := by
  generalize hitems : calls.map callEntry ++ text = items at h
  induction h generalizing calls with
  | nil => exact .nil
  | call c h ih =>
    cases calls with
    | nil =>
      rcases htext with rfl | ⟨role, content, rfl⟩
      · cases hitems
      · cases hitems
    | cons c' calls => exact .cons (fun _ _ _ => rfl) (ih (cons.inj hitems).2)
  | @texts texts said items hne h ih =>
    cases calls with
    | nil =>
      rcases htext with rfl | ⟨role, content, rfl⟩
      · cases hitems
      · obtain ⟨-, rfl⟩ := cons.inj hitems
        cases h
        rw [append_nil]
        exact pairwise_map.mpr (pairwise_of_forall fun _ _ h => h)
    | cons c' calls => cases hitems

theorem exists_texts {said : List Speech} (h : ∀ b ∈ said, b.call? = none) :
    ∃ texts : List String, said = texts.map .text := by
  induction said with
  | nil => exact ⟨[], rfl⟩
  | cons b said ih =>
    obtain ⟨texts, rfl⟩ := ih fun b' hb' => h b' (mem_cons_of_mem b hb')
    cases b with
    | text s => exact ⟨s :: texts, rfl⟩
    | call c => cases h _ mem_cons_self

theorem inOrder_of_callsFirst {said : List Speech} (h : CallsFirst said) :
    InOrder said ((said.filterMap call?).map callEntry ++
      if said.filterMap text? = [] then []
      else [.message "assistant" (.str (String.intercalate "\n" (said.filterMap text?)))]) := by
  induction said with
  | nil => exact .nil
  | cons a said ih =>
    obtain ⟨ha, hrest⟩ := pairwise_cons.mp h
    cases a with
    | call c => exact .call c (ih hrest)
    | text s =>
      obtain ⟨texts, rfl⟩ := exists_texts fun b hb => Option.not_isSome_iff_eq_none.mp fun hcall =>
        Bool.false_ne_true (ha b hb hcall)
      have hcalls : ((text s :: texts.map .text).filterMap call?) = [] := by
        simp [call?]
      have htexts : ((text s :: texts.map .text).filterMap text?) = s :: texts := by
        simp [Function.comp_def, text?]
      have hitem := InOrder.texts (cons_ne_nil s texts) .nil
      rw [append_nil, map_cons] at hitem
      rw [hcalls, htexts, if_neg (cons_ne_nil s texts)]
      exact hitem

theorem responsesAssistant_eq :
    responsesAssistant parts = ((speech parts).filterMap call?).map callEntry ++
      if (speech parts).filterMap text? = [] then []
      else [.message "assistant"
        (.str (String.intercalate "\n" ((speech parts).filterMap text?)))] := by
  obtain ⟨hcalls, htexts⟩ := filterMap_speech parts
  have hne : ∀ t ∈ parts.filterMap (·.content.text?), t ≠ "" := by
    intro t ht
    obtain ⟨p, -, hp⟩ := mem_filterMap.mp ht
    exact text_ne hp
  rw [hcalls, htexts, responsesAssistant]
  refine congrArg _ (if_congr ⟨fun h => ?_, fun h => by rw [partsToText, h]; rfl⟩ rfl rfl)
  by_contra hnil
  exact intercalate_ne hnil hne h

theorem inOrder_responsesAssistant_iff :
    InOrder (speech parts) (responsesAssistant parts) ↔ CallsFirst (speech parts) := by
  rw [responsesAssistant_eq]
  refine ⟨callsFirst_of_inOrder ?_, inOrder_of_callsFirst⟩
  split
  · exact .inl rfl
  · exact .inr ⟨_, _, rfl⟩

theorem calls_encodeResponsesMessage (m : Message) :
    (encodeResponsesMessage m).filter (·.isCall) =
      if m.role = .assistant then (m.parts.filterMap (·.content.call?)).map callEntry else [] := by
  have hresults : ∀ parts, (responsesResults parts).filter (·.isCall) = [] := by
    intro parts
    rw [responsesResults, filter_map]
    simp [resultEntry, InputEntry.isCall]
  have hrest : ∀ role parts, (responsesRest role parts).filter (·.isCall) = [] := by
    intro role parts
    unfold responsesRest
    split
    · rfl
    · rfl
    · split <;> rfl
  unfold encodeResponsesMessage
  cases m.role with
  | assistant =>
    rw [responsesAssistant, filter_append, filter_map, if_pos rfl]
    split <;> simp [Function.comp_def, callEntry, InputEntry.isCall]
  | tool => exact hresults m.parts
  | _ => simp [hresults, hrest]

/-- **The order of a turn.** The items of a message stand where the message stands, with its calls
among them. Those of an assistant turn follow its parts if no text of it stands before a call; the
text goes behind the calls. -/
theorem turn_order_iff (r : Request) (upstreamModel : String) :
    ((encodeResponsesRequest r upstreamModel).input =
        systemEntry r.system ++ (r.messages.map encodeResponsesMessage).flatten ∧
      ∀ m ∈ r.messages,
        (encodeResponsesMessage m).filter (·.isCall) =
          (if m.role = .assistant then (m.parts.filterMap (·.content.call?)).map callEntry else []) ∧
        (m.role = .assistant → InOrder (speech m.parts) (encodeResponsesMessage m))) ↔
    ∀ m ∈ r.messages, m.role = .assistant → CallsFirst (speech m.parts) := by
  have hinput : (encodeResponsesRequest r upstreamModel).input =
      systemEntry r.system ++ (r.messages.map encodeResponsesMessage).flatten := rfl
  rw [and_iff_right hinput]
  refine forall₂_congr fun m _ => ?_
  rw [and_iff_right (calls_encodeResponsesMessage m)]
  refine imp_congr_right fun hrole => ?_
  rw [encodeResponsesMessage, hrole]
  exact inOrder_responsesAssistant_iff m.parts

/-- An assistant that announces its call. -/
def announced : Request where
  model := "m"
  messages := [⟨.assistant, [.ofText "Let me look.", .ofCall ⟨"1", "search", "\x7b\x7d"⟩]⟩]

theorem announced_out_of_order : ¬∀ m ∈ announced.messages, m.role = .assistant →
    InOrder (speech m.parts) (encodeResponsesMessage m) := by
  intro h
  have hfirst := (inOrder_responsesAssistant_iff _).mp (h _ mem_cons_self rfl)
  exact absurd ((pairwise_cons.mp hfirst).1 _ mem_cons_self rfl) Bool.false_ne_true

end NexaRoute.Canonical
