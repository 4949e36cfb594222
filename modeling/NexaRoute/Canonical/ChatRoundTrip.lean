import NexaRoute.Canonical.Traffic

/-!
# A chat request that is decoded and encoded again

Between a chat client and an upstream that speaks the same dialect a request passes through the
canonical representation. What it says on the way in and on the way out is read off the wire by the
same functions: the turns with their texts, images, reasoning, calls and results, and the settings.

Most of it comes out as it went in. What does not is listed in `Plain`: the response format, for
which the encoder has a branch and the decoder has none; a tool choice of a shape the decoder does
not know; tools that are no functions; a number of choices other than one; images of an assistant
turn; the detail an image is to be seen in; reasoning that is blank; data URLs that are not written
the way the encoder writes them; tool results in several pieces; system messages other than one text
in front; empty stop sequences; and content that is neither text nor a list.

## Main results

* `chat_round_trip_iff` — the requests that come out as they went in
-/

namespace NexaRoute.Canonical

open Go Machine List Option Except
open NexaRoute.Core

variable {item v : Json} {parts : List Part} {m : OpenAIMessage} {t : String}

/-! ### What is on the wire -/

/-- A text or an image. -/
inductive ContentItem
  | text (s : String)
  | image (url detail : String)
  deriving DecidableEq, Repr

open ContentItem

/-- Something a turn says. -/
inductive TurnItem
  | content (item : ContentItem)
  | reasoning (s : String)
  | call (c : OpenAIToolCall)
  | result (id : String) (content : List ContentItem)
  deriving DecidableEq, Repr

open TurnItem

/-- Who speaks. Any role without a name of its own is the user's. -/
inductive Speaker
  | system
  | assistant
  | tool
  | user
  deriving DecidableEq, Repr

def speaker (role : String) : Speaker :=
  if role = "system" ∨ role = "developer" then .system
  else if role = "assistant" then .assistant
  else if role = "tool" then .tool
  else .user

/-- The detail an image is to be seen in: beside its URL, or beside the text that is its URL. -/
def imageDetail (m : Json) : String :=
  match m.member "image_url" with
  | some (.obj members) => textMember (.obj members) "detail"
  | _ => textMember m "detail"

/-- An item of a content list, if it is a text or an image. -/
def contentItem? : Json → Option ContentItem
  | .obj members =>
    let typ := textMember (.obj members) "type"
    if isTextType typ then (partText (.obj members)).map .text
    else if typ = "image_url" ∨ typ = "input_image" then
      if openAIImageURL (.obj members) = "" then none
      else some (.image (openAIImageURL (.obj members)) (imageDetail (.obj members)))
    else none
  | _ => none

/-- The texts and the images of a content. -/
def contentItems : Json → List ContentItem
  | .str s => if s = "" then [] else [.text s]
  | .arr items => items.filterMap contentItem?
  | _ => []

/-- The reasoning beside the content. -/
def reasoningItems (m : OpenAIMessage) : List TurnItem :=
  if m.reasoningContent = "" then [] else [.reasoning m.reasoningContent]

def callItems (m : OpenAIMessage) : List TurnItem :=
  (m.toolCalls.filter (·.name ≠ "")).map .call

/-- What a message says. -/
def turnItems (m : OpenAIMessage) : List TurnItem :=
  match speaker m.role with
  | .assistant => (contentItems m.content).map .content ++ (reasoningItems m ++ callItems m)
  | .tool => [.result m.toolCallID (contentItems m.content)]
  | _ => (contentItems m.content).map .content

/-- Who speaks, and what. -/
def turn (m : OpenAIMessage) : Speaker × List TurnItem := (speaker m.role, turnItems m)

def Json.str? : Json → Option String
  | .str s => some s
  | _ => none

/-- The stop sequences, when they have the shape of some. -/
def stopSequences : Json → Option (List String)
  | .null => some []
  | .str s => some [s]
  | .arr items => items.mapM Json.str?
  | _ => none

/-- A tool choice: none, a word, a function, or a shape of another kind. -/
inductive WireChoice
  | absent
  | word (s : String)
  | function (name : String)
  | other
  deriving DecidableEq, Repr

/-- The name of the function a choice asks for, when it asks for one. -/
def chosenFunction (c : Json) : String :=
  if textMember c "type" = "function" then functionChoice c
  else if textMember c "type" = "tool" then textMember c "name"
  else ""

/-- The tool choice of a request. -/
def wireChoice : Json → WireChoice
  | .null => .absent
  | .str s => .word s
  | .obj members =>
    if chosenFunction (.obj members) = "" then .other
    else .function (chosenFunction (.obj members))
  | _ => .other

/-- A tool with the schema of any object where it has none. -/
def withSchema (t : OpenAITool) : OpenAITool :=
  { t with parameters := some (t.parameters.getD [("type", .str "object")]) }

/-- How many choices are asked for, one unless it is said otherwise. -/
def choices (n : ℤ) : ℤ := if n = 0 then 1 else n

/-- The bound on the output: the larger of two fields. -/
def outputLimit (x : OpenAIRequest) : ℤ := max (max x.maxTokens x.maxCompletionTokens) 0

/-- A payload carries what a request says. -/
structure Carries (x p : OpenAIRequest) : Prop where
  responseFormat : p.responseFormatRaw = x.responseFormatRaw
  toolChoice : wireChoice p.toolChoice = wireChoice x.toolChoice
  parallelToolCalls : p.parallelToolCalls = x.parallelToolCalls
  stop : stopSequences p.stop = stopSequences x.stop
  temperature : p.temperature = x.temperature
  topP : p.topP = x.topP
  frequencyPenalty : p.frequencyPenalty = x.frequencyPenalty
  presencePenalty : p.presencePenalty = x.presencePenalty
  seed : p.seed = x.seed
  n : choices p.n = choices x.n
  limit : outputLimit p = outputLimit x
  tools : p.tools = x.tools.map withSchema
  messages : p.messages.map turn = x.messages.map turn

/-! ### Requests that come out as they went in -/

/-- A URL the encoder writes again: not a data URL, or one of base64 with a media type and data. -/
def KeptURL (u : String) : Prop :=
  ∀ mt data, parseDataURL u = some (mt, data) →
    data ≠ "" ∧ u = "data:" ++ mt ++ ";base64," ++ data

/-- A tool choice the decoder knows. -/
def KnownChoice : WireChoice → Prop
  | .absent => True
  | .word s => s = "auto" ∨ s = "none" ∨ s = "required"
  | .function _ => True
  | .other => False

/-- Content that is text, a list, or missing. -/
def Shaped : Json → Prop
  | .null => True
  | .str _ => True
  | .arr _ => True
  | _ => False

/-- A message that comes out as it went in. -/
def PlainMessage (m : OpenAIMessage) : Prop :=
  match speaker m.role with
  | .system => ∃ t, contentItems m.content = [.text t] ∧ trimSpace t ≠ ""
  | .assistant => Shaped m.content ∧ (∀ u d, .image u d ∉ contentItems m.content) ∧
      (m.reasoningContent = "" ∨ trimSpace m.reasoningContent ≠ "")
  | .tool => Shaped m.content ∧
      ∀ items, m.content = .arr items → ∃ t, contentItems m.content = [.text t]
  | .user => Shaped m.content ∧ ∀ u d, .image u d ∈ contentItems m.content → KeptURL u ∧ d = ""

/-- A request that comes out as it went in. -/
structure Plain (x : OpenAIRequest) : Prop where
  responseFormat : x.responseFormatRaw = .null
  toolChoice : KnownChoice (wireChoice x.toolChoice)
  stop : ∃ l, stopSequences x.stop = some l ∧ "" ∉ l
  n : x.n = 0 ∨ x.n = 1
  tools : ∀ t ∈ x.tools, t.type = "function" ∧ t.parameters ≠ some []
  system : ∀ m ∈ x.messages.tail, speaker m.role ≠ .system
  messages : ∀ m ∈ x.messages, PlainMessage m

/-! ### Settings -/

theorem stop_carried_iff (v : Json) : stopSequences (chatStop (normalizeStop v)) = stopSequences v ↔
    ∃ l, stopSequences v = some l ∧ "" ∉ l := by
  -- whatever the list, the encoder's shape of it reads as the list
  have hstop : ∀ l : List String, stopSequences (chatStop l) = some l := by
    have hstr : ∀ l : List String, (l.map Json.str).mapM Json.str? = some l := by
      intro l
      induction l with
      | nil => rfl
      | cons s l ih => rw [map_cons, mapM_cons, ih]; rfl
    intro l
    match l with
    | [] | [s] => rfl
    | s :: t :: l => exact hstr (s :: t :: l)
  rw [hstop]
  have hkeeps : ∀ l, stopSequences v = some l → normalizeStop v = l.filter (· ≠ "") := by
    intro l hl
    cases v with
    | null => obtain rfl := some.inj hl; rfl
    | str s =>
      obtain rfl := some.inj hl
      by_cases hs : s = "" <;> simp [normalizeStop, hs]
    | arr items =>
      have htext : ∀ {items : List Json} {l : List String}, items.mapM Json.str? = some l →
          items.map Json.text = l := by
        intro items
        induction items with
        | nil =>
          intro l hl
          obtain rfl := some.inj hl
          rfl
        | cons item items ih =>
          intro l hl
          rw [mapM_cons] at hl
          obtain ⟨s, hs, hl⟩ := bind_eq_some_iff.mp hl
          obtain ⟨l', hl', hl⟩ := bind_eq_some_iff.mp hl
          obtain rfl := some.inj hl
          rw [map_cons, ih hl']
          cases item with
          | str s' => obtain rfl := some.inj hs; rfl
          | _ => cases hs
      rw [normalizeStop, htext hl]
    | _ => cases hl
  constructor
  · intro heq
    refine ⟨normalizeStop v, heq.symm, ?_⟩
    rw [hkeeps _ heq.symm]
    simp
  · rintro ⟨l, hl, hempty⟩
    rw [hl, hkeeps l hl, some.injEq, filter_eq_self]
    intro s hs
    rw [decide_eq_true_eq]
    rintro rfl
    exact hempty hs

theorem choice_carried_iff (v : Json) :
    wireChoice (chatChoice (decodeOpenAIToolChoice v)) = wireChoice v ↔
      KnownChoice (wireChoice v) := by
  have htool : ∀ name, name ≠ "" → wireChoice (chatChoice (some (.tool name))) = .function name := by
    intro name hname
    let doc : Json := .obj [("type", .str "function"), ("function", .obj [("name", .str name)])]
    have htype : textMember doc "type" = "function" := rfl
    have hmember : doc.member "function" = some (.obj [("name", .str name)]) := rfl
    have hinner : textMember (.obj [("name", .str name)]) "name" = name := rfl
    have hchosen : chosenFunction doc = name := by
      simp only [chosenFunction, functionChoice, htype, hmember, hinner, if_true, if_neg hname]
    show (if chosenFunction doc = "" then _ else _) = _
    rw [hchosen, if_neg hname]
  cases v with
  | null => exact ⟨fun _ => trivial, fun _ => rfl⟩
  | str s =>
    show _ ↔ s = "auto" ∨ s = "none" ∨ s = "required"
    simp only [decodeOpenAIToolChoice]
    split_ifs with h₁ h₂ h₃
    · rw [h₁]; exact ⟨fun _ => .inl rfl, fun _ => rfl⟩
    · rw [h₂]; exact ⟨fun _ => .inr (.inl rfl), fun _ => rfl⟩
    · rw [h₃]; exact ⟨fun _ => .inr (.inr rfl), fun _ => rfl⟩
    · constructor
      · rintro ⟨⟩
      · rintro (h | h | h)
        · exact absurd h h₁
        · exact absurd h h₂
        · exact absurd h h₃
  | obj members =>
    have hdecode : decodeOpenAIToolChoice (.obj members) =
        toolNamed (chosenFunction (.obj members)) := by
      simp only [decodeOpenAIToolChoice, chosenFunction]
      split_ifs <;> rfl
    rw [hdecode, toolNamed, wireChoice]
    by_cases hname : chosenFunction (.obj members) = ""
    · rw [if_pos hname, if_pos hname]
      constructor <;> rintro ⟨⟩
    · rw [if_neg hname, if_neg hname, htool _ hname]
      exact ⟨fun _ => trivial, fun _ => rfl⟩
  | _ =>
    constructor <;> rintro ⟨⟩

theorem tools_carried_iff (tools : List OpenAITool) :
    (tools.map fun t => (OpenAITool.mk "function" t.name t.description
      (some (schemaOrObject (marshalSchema t.parameters))))) = tools.map withSchema ↔
      ∀ t ∈ tools, t.type = "function" ∧ t.parameters ≠ some [] := by
  rw [map_inj_left]
  refine forall₂_congr fun t _ => ?_
  obtain ⟨type, name, description, parameters⟩ := t
  have htype : "function" = type ↔ type = "function" := eq_comm
  simp only [withSchema, OpenAITool.mk.injEq, true_and, htype]
  refine and_congr_right fun _ => ?_
  rcases parameters with _ | _ | ⟨m, ms⟩
  · exact ⟨fun _ => nofun, fun _ => rfl⟩
  · exact ⟨nofun, fun h => absurd rfl h⟩
  · exact ⟨fun _ => nofun, fun _ => rfl⟩

theorem choices_eq_iff (n : ℤ) : choices 0 = choices n ↔ n = 0 ∨ n = 1 := by
  unfold choices
  split_ifs <;> omega

/-! ### Content -/

def ContentItem.text? : ContentItem → Option String
  | .text s => some s
  | .image .. => none

/-- A part as it is read off the wire. -/
def Content.item? : Content → Option ContentItem
  | .text s => if s = "" then none else some (.text s)
  | .image i => if i.openAIURL = "" then none else some (.image i.openAIURL "")
  | _ => none

/-- The URL under which an image is sent: a data URL is written anew, or dropped without data. -/
def rewritten (u : String) : Option String :=
  match parseDataURL u with
  | some (mt, data) => if data = "" then none else some ("data:" ++ mt ++ ";base64," ++ data)
  | none => some u

/-- What the encoder makes of an item. -/
def kept : ContentItem → Option ContentItem
  | .text s => some (.text s)
  | .image u _ => (rewritten u).map (.image · "")

theorem kept_image_iff (u d : String) :
    kept (.image u d) = some (.image u d) ↔ KeptURL u ∧ d = "" := by
  rw [kept, map_eq_some_iff]
  unfold rewritten KeptURL
  cases parseDataURL u with
  | none =>
    constructor
    · rintro ⟨u', -, hu'⟩
      exact ⟨nofun, (image.inj hu').2.symm⟩
    · rintro ⟨-, rfl⟩
      exact ⟨u, rfl, rfl⟩
  | some p =>
    obtain ⟨mt, data⟩ := p
    simp only
    constructor
    · rintro ⟨u', h, hu'⟩
      obtain ⟨rfl, rfl⟩ := image.inj hu'
      refine ⟨fun mt' data' heq => ?_, rfl⟩
      obtain ⟨rfl, rfl⟩ := Prod.mk.inj (some.inj heq)
      split_ifs at h with hdata
      exact ⟨hdata, (some.inj h).symm⟩
    · rintro ⟨h, rfl⟩
      obtain ⟨hdata, hu⟩ := h mt data rfl
      exact ⟨u, by rw [if_neg hdata, ← hu], rfl⟩

theorem kept_text (a : ContentItem) : (kept a).bind text? = a.text? := by
  cases a with
  | text s => rfl
  | image u d =>
    rw [kept]
    cases rewritten u <;> rfl

theorem image_item (m : Json) :
    (decodeOpenAIImage m).bind (fun i => Content.item? (.image i)) =
      if openAIImageURL m = "" then none
      else kept (.image (openAIImageURL m) (imageDetail m)) := by
  have hkept : kept (.image (openAIImageURL m) (imageDetail m)) =
      (rewritten (openAIImageURL m)).map (.image · "") := rfl
  rw [hkept]
  unfold decodeOpenAIImage rewritten
  simp only
  split_ifs with hu
  · rfl
  · cases hp : parseDataURL (openAIImageURL m) with
    | none =>
      have hurl : Image.openAIURL { url := openAIImageURL m } = openAIImageURL m := by
        rw [Image.openAIURL, if_neg fun h => hu h.1]
      simp only [bind_some, map_some, Content.item?, hurl, if_neg hu]
    | some p =>
      obtain ⟨mt, data⟩ := p
      simp only
      split_ifs with hdata
      · rfl
      · have hurl : Image.openAIURL { mediaType := mt, data := data } =
            "data:" ++ mt ++ ";base64," ++ data := by
          rw [Image.openAIURL, if_pos ⟨rfl, hdata⟩, if_neg (parseDataURL_mediaType hp)]
        have hne : "data:" ++ mt ++ ";base64," ++ data ≠ "" := by
          intro h
          exact hdata (String.append_eq_empty_iff.mp h).2
        simp only [bind_some, map_some, Content.item?, hurl, if_neg hne]

theorem contentPart_item {o : Option Part} (h : contentPart false item = .ok o) :
    o.bind (·.content.item?) = (contentItem? item).bind kept := by
  cases item with
  | obj members =>
    simp only [contentPart, contentItem?, Bool.false_eq_true, if_false] at h ⊢
    split_ifs at h ⊢ with htext himage hurl
    · obtain rfl := ok.inj h
      cases hs : partText (.obj members) with
      | none => rfl
      | some s =>
        simp only [map_some, bind_some, Part.ofText, Content.item?,
          if_neg (partText_ne hs), kept]
    · obtain rfl := ok.inj h
      have himg := image_item (.obj members)
      rw [if_pos hurl] at himg
      rw [bind_map, bind_none]
      exact himg
    · obtain rfl := ok.inj h
      have himg := image_item (.obj members)
      rw [if_neg hurl] at himg
      rw [bind_map, bind_some]
      exact himg
  | _ =>
    obtain rfl := ok.inj h
    rfl

/-- A text or an image. -/
def Content.Plain (c : Content) : Prop := c.call? = none ∧ c.result? = none ∧ c.thought? = none

theorem plain_ofText (s : String) : (Part.ofText s).content.Plain := ⟨rfl, rfl, rfl⟩

theorem contentPart_plain {p : Part} (h : contentPart false item = .ok (some p)) :
    p.content.Plain := by
  cases item with
  | obj members =>
    simp only [contentPart, Bool.false_eq_true, if_false] at h
    split_ifs at h
    · obtain ⟨s, -, rfl⟩ := map_eq_some_iff.mp (ok.inj h)
      exact plain_ofText s
    · obtain ⟨i, -, rfl⟩ := map_eq_some_iff.mp (ok.inj h)
      exact ⟨rfl, rfl, rfl⟩
  | _ => cases h

theorem filterMap_of_forall₂ {α β γ : Type*} {R : α → Option β → Prop} {f : β → Option γ}
    {g : α → Option γ} {l : List α} {os : List (Option β)} (h : List.Forall₂ R l os)
    (hR : ∀ a o, R a o → o.bind f = g a) : (os.filterMap id).filterMap f = l.filterMap g := by
  induction h with
  | nil => rfl
  | cons ha _ ih =>
    rw [filterMap_filterMap] at ih ⊢
    rw [filterMap_cons, filterMap_cons, ih, ← hR _ _ ha]
    rfl

theorem mapM_contentPart {items : List Json} {os : List (Option Part)}
    (h : List.Forall₂ (fun item o => contentPart false item = .ok o) items os) :
    (os.filterMap id).filterMap (·.content.item?) =
      (items.filterMap contentItem?).filterMap kept ∧ ∀ p ∈ os.filterMap id, p.content.Plain := by
  constructor
  · rw [filterMap_filterMap (l := items)]
    exact filterMap_of_forall₂ h fun _ _ => contentPart_item
  · intro p hp
    obtain ⟨o, ho, hid⟩ := mem_filterMap.mp hp
    obtain rfl : o = some p := hid
    induction h with
    | nil => cases ho
    | cons hitem _ ih =>
      rcases mem_cons.mp ho with rfl | ho
      · exact contentPart_plain hitem
      · exact ih (mem_filterMap.mpr ⟨some p, ho, rfl⟩) ho

theorem contentItems_of_not_shaped (h : ¬ Shaped v) : contentItems v = [] := by
  cases v with
  | str s | arr items => exact absurd trivial h
  | _ => rfl

theorem openAIContentToParts_items (hread : v.readable = true)
    (h : openAIContentToParts v false = .ok parts) :
    (∀ p ∈ parts, p.content.Plain) ∧
      (Shaped v → parts.filterMap (·.content.item?) = (contentItems v).filterMap kept) ∧
      (¬ Shaped v → ∃ t, t ≠ "" ∧ parts = [.ofText t]) := by
  have hfold : ∀ parts, foldBlankSystem parts false = parts := by
    intro parts
    rw [foldBlankSystem, if_neg (by rintro ⟨⟨⟩, -⟩)]
  cases v with
  | null =>
    obtain rfl := ok.inj h
    exact ⟨nofun, fun _ => rfl, fun hs => absurd trivial hs⟩
  | str c =>
    obtain rfl := ok.inj h
    refine ⟨fun p hp => ?_, fun _ => ?_, fun hs => absurd trivial hs⟩
    · split_ifs at hp
      · cases hp
      · obtain rfl := mem_singleton.mp hp
        exact plain_ofText c
    · by_cases hc : c = ""
      · rw [if_pos hc, contentItems, if_pos hc]
        rfl
      · have hitem : (Part.ofText c).content.item? = some (.text c) := if_neg hc
        rw [if_neg hc, hfold, contentItems, if_neg hc]
        simp only [filterMap_cons, filterMap_nil, hitem, kept]
  | arr items =>
    obtain ⟨os, hos, rfl⟩ := ok_of_map h
    obtain ⟨hitems, hplain⟩ := mapM_contentPart (mapM_eq_ok_iff.mp hos)
    exact ⟨hplain, fun _ => hitems, fun hs => absurd trivial hs⟩
  | bool b | number literal | obj members =>
    obtain rfl := ok.inj h
    refine ⟨fun p hp => ?_, fun hs => hs.elim, fun _ => ⟨_, marshalJSON_ne hread, rfl⟩⟩
    obtain rfl := mem_singleton.mp hp
    exact plain_ofText _

theorem contentItem_textDoc (t : String) :
    contentItem? (textDoc t) = if t = "" then none else some (.text t) := by
  have htype : isTextType (textMember (textDoc t) "type") = true := rfl
  have htext : partText (textDoc t) = if t = "" then none else some t := rfl
  have hitem : contentItem? (textDoc t) = (partText (textDoc t)).map .text := by
    rw [textDoc] at htype ⊢
    simp only [contentItem?, if_pos htype]
  rw [hitem, htext]
  split_ifs <;> rfl

theorem contentItem_imageDoc (u : String) :
    contentItem? (imageDoc u) = if u = "" then none else some (.image u "") := by
  have htype : ¬ isTextType (textMember (imageDoc u) "type") = true := Bool.false_ne_true
  have himage : textMember (imageDoc u) "type" = "image_url" := rfl
  rfl

theorem chatDoc_item (c : Content) : c.chatDoc?.bind contentItem? = c.item? := by
  cases c with
  | text t => exact contentItem_textDoc t
  | image i =>
    simp only [Content.chatDoc?, Content.item?]
    split_ifs with h
    · rfl
    · rw [bind_some, contentItem_imageDoc, if_neg h]
  | _ => rfl

theorem contentItems_canonicalParts (parts : List Part) :
    contentItems (canonicalPartsToOpenAIContent parts) = parts.filterMap (·.content.item?) := by
  have hdocs : (parts.filterMap (·.content.chatDoc?)).filterMap contentItem? =
      parts.filterMap (·.content.item?) := by
    rw [filterMap_filterMap]
    simp only [chatDoc_item]
  rw [← hdocs]
  unfold canonicalPartsToOpenAIContent
  split
  · next hnil =>
    rw [hnil, contentItems, filterMap_cons_none (contentItem_textDoc "")]
  · rfl

theorem contentItems_userContent (parts : List Part) :
    contentItems (userContent parts) = parts.filterMap (·.content.item?) := by
  unfold userContent
  split
  · next t cache =>
    rw [contentItems]
    by_cases ht : t = ""
    · rw [if_pos ht, filterMap_cons_none]
      · rfl
      · exact if_pos ht
    · rw [if_neg ht, filterMap_cons_some]
      · rfl
      · exact if_neg ht
  · exact contentItems_canonicalParts parts

theorem contentItems_textDocs : ∀ {texts : List String}, (∀ t ∈ texts, t ≠ "") →
    (texts.map textDoc).filterMap contentItem? = texts.map .text
  | [], _ => rfl
  | t :: texts, h => by
    have ht := h t (mem_cons_self ..)
    rw [map_cons, filterMap_cons_some ((contentItem_textDoc t).trans (if_neg ht)),
      contentItems_textDocs fun t ht => h t (mem_cons_of_mem _ ht), map_cons]

theorem contentItems_assistantContent {texts : List String} (h : ∀ t ∈ texts, t ≠ "")
    (calls : List OpenAIToolCall) :
    contentItems (assistantContent texts calls) = texts.map .text := by
  unfold assistantContent
  split
  · rfl
  · rw [contentItems, if_neg (h _ (mem_singleton_self _))]
    rfl
  · rfl
  · exact contentItems_textDocs h

/-! ### Turns -/

def TurnItem.content? : TurnItem → Option ContentItem
  | .content c => some c
  | _ => none

theorem content_append_inj {l l' : List ContentItem} {rest rest' : List TurnItem}
    (h : ∀ t ∈ rest, t.content? = none) (h' : ∀ t ∈ rest', t.content? = none) :
    l.map .content ++ rest = l'.map .content ++ rest' ↔ l = l' ∧ rest = rest' := by
  have hleft : ∀ l : List ContentItem, (l.map content).filterMap content? = l := by
    intro l
    rw [filterMap_map]
    exact filterMap_some
  constructor
  · intro heq
    have hcontent := congrArg (filterMap content?) heq
    rw [filterMap_append, filterMap_append, hleft, hleft,
      filterMap_eq_nil_iff.mpr h, filterMap_eq_nil_iff.mpr h', append_nil,
      append_nil] at hcontent
    subst hcontent
    exact ⟨rfl, append_cancel_left heq⟩
  · rintro ⟨rfl, rfl⟩
    rfl

theorem filterMap_eq_self_iff {α : Type*} {f : α → Option α} (l : List α) :
    l.filterMap f = l ↔ ∀ a ∈ l, f a = some a := by
  rw [← filterMap_congr_iff nofun, filterMap_some]

theorem map_content_inj {l l' : List ContentItem} :
    l.map content = l'.map content ↔ l = l' :=
  map_inj_right fun _ _ h => content.inj h

theorem user_turn (hm : speaker m.role = .user) (hread : m.content.readable = true)
    (h : openAIContentToParts m.content false = .ok parts) :
    ∃ p, encodeUser parts = [p] ∧ speaker p.role = .user ∧ (turn p = turn m ↔ PlainMessage m) := by
  obtain ⟨hplain, hshaped, hodd⟩ := openAIContentToParts_items hread h
  have hresults : parts.filterMap (·.content.result?) = [] :=
    filterMap_eq_nil_iff.mpr fun p hp => (hplain p hp).2.1
  have hwithout : withoutResults parts = parts :=
    filter_eq_self.mpr fun p hp => by rw [(hplain p hp).2.1]; rfl
  -- one message, with the content of all parts
  obtain ⟨content, hencode, hcontent⟩ : ∃ content, encodeUser parts = [userMessage content] ∧
      contentItems content = parts.filterMap (·.content.item?) := by
    unfold encodeUser encodeRest
    rw [hresults, hwithout]
    split_ifs with hnil
    · exact ⟨.str "", rfl, by rw [hnil]; rfl⟩
    · exact ⟨userContent parts, rfl, contentItems_userContent parts⟩
  refine ⟨userMessage content, hencode, rfl, ?_⟩
  have hturn : turn (userMessage content) =
      (.user, (parts.filterMap (·.content.item?)).map .content) := by
    rw [← hcontent]
    rfl
  rw [hturn]
  simp only [turn, turnItems, PlainMessage, hm, Prod.mk.injEq, map_content_inj, true_and]
  by_cases hs : Shaped m.content
  · rw [hshaped hs, filterMap_eq_self_iff]
    constructor
    · intro hall
      exact ⟨hs, fun u d hu => (kept_image_iff u d).mp (hall _ hu)⟩
    · rintro ⟨-, hall⟩ a ha
      cases a with
      | text t => rfl
      | image u d => exact (kept_image_iff u d).mpr (hall u d ha)
  · obtain ⟨t, ht, rfl⟩ := hodd hs
    have hitem : (Part.ofText t).content.item? = some (.text t) := if_neg ht
    rw [contentItems_of_not_shaped hs]
    simp only [filterMap_cons, filterMap_nil, hitem, cons_ne_nil, hs, false_and]

theorem text_items (c : Content) : c.item?.bind text? = c.text? := by
  cases c with
  | text t | image i =>
    simp only [Content.item?, Content.text?]
    split_ifs <;> rfl
  | _ => rfl

theorem contentItem_ne (h : contentItem? item = some (.text t)) :
    t ≠ "" := by
  cases item with
  | obj members =>
    simp only [contentItem?] at h
    split_ifs at h
    · obtain ⟨s, hs, hst⟩ := map_eq_some_iff.mp h
      obtain rfl := text.inj hst
      exact partText_ne hs
    · cases h
  | _ => cases h

theorem text_ne_of_mem (h : .text t ∈ contentItems v) : t ≠ "" := by
  cases v with
  | str s =>
    rw [contentItems] at h
    split_ifs at h with hs
    · cases h
    · obtain rfl := text.inj (mem_singleton.mp h)
      exact hs
  | arr items =>
    obtain ⟨item, -, hitem⟩ := mem_filterMap.mp h
    exact contentItem_ne hitem
  | _ => cases h

theorem text_map_eq_self_iff (l : List ContentItem) :
    (l.filterMap text?).map .text = l ↔ ∀ u d, .image u d ∉ l := by
  rw [map_filterMap, filterMap_eq_self_iff]
  constructor
  · intro h u d hu
    cases h _ hu
  · intro h a ha
    cases a with
    | text t => rfl
    | image u d => exact absurd ha (h u d)

theorem text_filterMap (parts : List Part) :
    parts.filterMap (·.content.text?) =
      (parts.filterMap (·.content.item?)).filterMap text? := by
  rw [filterMap_filterMap]
  simp only [text_items]

theorem assistantParts_text (m : OpenAIMessage) :
    (assistantParts m).filterMap (·.content.text?) = [] := by
  rw [filterMap_eq_nil_iff]
  intro p hp
  rcases mem_append.mp hp with hp | hp
  · split_ifs at hp
    · cases hp
    · obtain rfl := mem_singleton.mp hp
      rfl
  · obtain ⟨c, -, rfl⟩ := mem_map.mp hp
    rfl

theorem assistantParts_thought (m : OpenAIMessage) :
    (assistantParts m).filterMap (·.content.thought?) =
      if trimSpace m.reasoningContent = "" then [] else [m.reasoningContent] := by
  have hcalls : ((m.toolCalls.filter (·.name ≠ "")).map fun tc : OpenAIToolCall =>
      Part.ofCall { id := tc.id, name := tc.name, arguments := tc.arguments }).filterMap
        (·.content.thought?) = [] := by
    rw [filterMap_eq_nil_iff]
    intro p hp
    obtain ⟨c, -, rfl⟩ := mem_map.mp hp
    rfl
  rw [assistantParts, filterMap_append, hcalls, append_nil]
  split_ifs with h
  · rfl
  · simp only [filterMap_cons, filterMap_nil, Content.thought?, if_neg h]

theorem chatCalls_assistantParts (m : OpenAIMessage) :
    chatCalls (assistantParts m) = m.toolCalls.filter (·.name ≠ "") := by
  have hthought : (if trimSpace m.reasoningContent = "" then []
      else [({ content := .thinking { text := m.reasoningContent } } : Part)]).filterMap
        (·.content.call?) = [] := by
    split_ifs <;> rfl
  rw [chatCalls, assistantParts, filterMap_append, hthought, nil_append,
    filterMap_map, map_filterMap, filterMap_eq_self_iff]
  intro c hc
  have hname : c.name ≠ "" := of_decide_eq_true (mem_filter.mp hc).2
  simp only [Function.comp_apply, Part.ofCall, Content.call?, if_neg hname, map_some]

theorem beside_content (m m' : OpenAIMessage) :
    ∀ t ∈ reasoningItems m ++ callItems m', t.content? = none := by
  intro t ht
  rcases mem_append.mp ht with ht | ht
  · rw [reasoningItems] at ht
    split_ifs at ht
    · cases ht
    · obtain rfl := mem_singleton.mp ht
      rfl
  · obtain ⟨c, -, rfl⟩ := mem_map.mp ht
    rfl

theorem reasoning_kept_iff {p : OpenAIMessage}
    (h : p.reasoningContent =
    if trimSpace m.reasoningContent = "" then "" else m.reasoningContent) :
    reasoningItems p = reasoningItems m ↔
      m.reasoningContent = "" ∨ trimSpace m.reasoningContent ≠ "" := by
  unfold reasoningItems
  rw [h]
  by_cases hblank : trimSpace m.reasoningContent = ""
  · by_cases hnil : m.reasoningContent = "" <;> simp [hblank]
  · simp [hblank]

theorem assistant_turn (hm : speaker m.role = .assistant) (hread : m.content.readable = true)
    (h : openAIContentToParts m.content false = .ok parts) :
    turn (encodeAssistant (parts ++ assistantParts m)) = turn m ↔ PlainMessage m := by
  obtain ⟨hplain, hshaped, hodd⟩ := openAIContentToParts_items hread h
  have hcalls : chatCalls (parts ++ assistantParts m) = m.toolCalls.filter (·.name ≠ "") := by
    have hnone : parts.filterMap (·.content.call?) = [] :=
      filterMap_eq_nil_iff.mpr fun p hp => (hplain p hp).1
    rw [← chatCalls_assistantParts, chatCalls, filterMap_append, hnone, nil_append]
    rfl
  have hthoughts : (parts ++ assistantParts m).filterMap (·.content.thought?) =
      if trimSpace m.reasoningContent = "" then [] else [m.reasoningContent] := by
    have hnone : parts.filterMap (·.content.thought?) = [] :=
      filterMap_eq_nil_iff.mpr fun p hp => (hplain p hp).2.2
    rw [← assistantParts_thought, filterMap_append, hnone, nil_append]
  have htexts : (parts ++ assistantParts m).filterMap (·.content.text?) =
      parts.filterMap (·.content.text?) := by
    rw [filterMap_append, assistantParts_text, append_nil]
  have hne : ∀ t ∈ parts.filterMap (·.content.text?), t ≠ "" := by
    intro t ht
    obtain ⟨p, -, hp⟩ := mem_filterMap.mp ht
    exact text_ne hp
  have hcontent : contentItems (encodeAssistant (parts ++ assistantParts m)).content =
      (parts.filterMap (·.content.text?)).map .text := by
    rw [← contentItems_assistantContent hne (chatCalls (parts ++ assistantParts m)), ← htexts]
    rfl
  have hreasoning : (encodeAssistant (parts ++ assistantParts m)).reasoningContent =
      if trimSpace m.reasoningContent = "" then "" else m.reasoningContent := by
    show ((parts ++ assistantParts m).filterMap (·.content.thought?)).getLast?.getD "" = _
    rw [hthoughts]
    split_ifs <;> rfl
  have hcallItems : callItems (encodeAssistant (parts ++ assistantParts m)) = callItems m := by
    show ((chatCalls (parts ++ assistantParts m)).filter _).map call = _
    rw [hcalls, List.filter_filter]
    simp only [Bool.and_self]
    rfl
  have hturn : turn (encodeAssistant (parts ++ assistantParts m)) = (.assistant,
      ((parts.filterMap (·.content.text?)).map .text).map .content ++
        (reasoningItems (encodeAssistant (parts ++ assistantParts m)) ++ callItems m)) := by
    rw [← hcontent, ← hcallItems]
    rfl
  rw [hturn]
  simp only [turn, turnItems, PlainMessage, hm]
  rw [Prod.mk.injEq, content_append_inj (beside_content _ _) (beside_content _ _),
    append_left_inj, reasoning_kept_iff hreasoning]
  -- the content
  by_cases hs : Shaped m.content
  · rw [text_filterMap, hshaped hs, filterMap_filterMap]
    simp only [kept_text, text_map_eq_self_iff, hs, true_and]
  · obtain ⟨t, ht, rfl⟩ := hodd hs
    have htext : (Part.ofText t).content.text? = some t := if_neg ht
    rw [contentItems_of_not_shaped hs]
    simp only [filterMap_cons, filterMap_nil, htext, map_cons, map_nil,
      cons_ne_nil, false_and, and_false, hs]

theorem resultText_eq (item : Json) : resultText item = (contentItem? item).bind text? := by
  cases item with
  | obj members =>
    simp only [resultText, contentItem?]
    split_ifs
    · cases partText (.obj members) <;> rfl
    · rfl
    · rfl
    · rfl
  | _ => rfl

theorem contentItems_str {s : String} (h : s ≠ "") : contentItems (.str s) = [.text s] := if_neg h

theorem toolContent_iff (hread : v.readable = true) :
    contentItems (.str (openAIContentToText v)) = contentItems v ↔
      Shaped v ∧ ∀ items, v = .arr items → ∃ t, contentItems v = [.text t] := by
  cases v with
  | null | str s => exact ⟨fun _ => ⟨trivial, nofun⟩, fun _ => rfl⟩
  | bool b | number literal | obj members =>
    show contentItems (.str (marshalJSON _)) = [] ↔ _
    rw [contentItems_str (marshalJSON_ne hread)]
    exact ⟨nofun, fun h => h.1.elim⟩
  | arr items =>
    have htexts : items.filterMap resultText =
        (contentItems (.arr items)).filterMap text? := by
      rw [contentItems, filterMap_filterMap]
      simp only [resultText_eq]
    have hne : openAIContentToText (.arr items) ≠ "" := by
      rw [openAIContentToText]
      split_ifs with hnil
      · exact marshalJSON_ne hread
      · refine intercalate_ne hnil fun t ht => ?_
        rw [htexts] at ht
        obtain ⟨a, ha, hat⟩ := mem_filterMap.mp ht
        cases a with
        | text t' =>
          obtain rfl := some.inj hat
          exact text_ne_of_mem ha
        | image u d => cases hat
    rw [contentItems_str hne]
    constructor
    · intro h
      exact ⟨trivial, fun _ _ => ⟨_, h.symm⟩⟩
    · rintro ⟨-, h⟩
      obtain ⟨t, ht⟩ := h items rfl
      have htext : openAIContentToText (.arr items) = t := by
        rw [openAIContentToText, htexts, ht, if_neg nofun]
        exact String.intercalate_singleton ..
      rw [htext, ht]

theorem tool_turn (hm : speaker m.role = .tool) (hread : m.content.readable = true) :
    turn (toolMessage ⟨m.toolCallID, openAIContentToText m.content, false⟩) = turn m ↔
      PlainMessage m := by
  have hturn : turn (toolMessage ⟨m.toolCallID, openAIContentToText m.content, false⟩) = (.tool,
      [.result m.toolCallID (contentItems (.str (openAIContentToText m.content)))]) := rfl
  rw [hturn]
  simp only [turn, turnItems, PlainMessage, hm, ← toolContent_iff hread, Prod.mk.injEq,
    cons.injEq, result.injEq, true_and, and_true]

/-! ### System messages -/

theorem contentPart_systemText {o : Option Part} (h : contentPart true item = .ok o) :
    o.bind (·.content.text?) = (contentItem? item).bind text? := by
  cases item with
  | obj members =>
    simp only [contentPart, contentItem?, if_true] at h ⊢
    split_ifs at h ⊢
    · obtain rfl := ok.inj h
      cases hs : partText (.obj members) with
      | none => rfl
      | some s =>
        simp only [map_some, bind_some, Part.ofText, Content.text?,
          if_neg (partText_ne hs), text?]
    · obtain rfl := ok.inj h
      rfl
    · obtain rfl := ok.inj h
      rfl
    · obtain rfl := ok.inj h
      rfl
  | _ =>
    obtain rfl := ok.inj h
    rfl

theorem mapM_contentPart_systemText {items : List Json} {os : List (Option Part)}
    (h : List.Forall₂ (fun item o => contentPart true item = .ok o) items os) :
    (os.filterMap id).filterMap (·.content.text?) =
      (items.filterMap contentItem?).filterMap text? := by
  rw [filterMap_filterMap (l := items)]
  exact filterMap_of_forall₂ h fun _ _ => contentPart_systemText

theorem partsToText_foldBlank (h : trimSpace (partsToText parts) ≠ "") :
    foldBlankSystem parts true = parts := if_neg fun hblank => h hblank.2

theorem partsToText_of_single (h : openAIContentToParts v true = .ok parts)
    (hv : contentItems v = [.text t]) (ht : trimSpace t ≠ "") : partsToText parts = t := by
  cases v with
  | str s =>
    rw [contentItems] at hv
    split_ifs at hv with hs
    obtain rfl := text.inj (cons.inj hv).1
    have htext := partsToText_ofText hs
    obtain rfl := ok.inj h
    rw [if_neg hs, partsToText_foldBlank (by rwa [htext]), htext]
  | arr items =>
    obtain ⟨os, hos, rfl⟩ := ok_of_map h
    have htext : partsToText (os.filterMap id) = t := by
      rw [partsToText, mapM_contentPart_systemText (mapM_eq_ok_iff.mp hos)]
      rw [contentItems] at hv
      rw [hv]
      exact String.intercalate_singleton ..
    rw [partsToText_foldBlank (by rwa [htext]), htext]
  | _ => cases hv

theorem system_turn (hm : speaker m.role = .system)
    (h : openAIContentToParts m.content true = .ok parts) :
    (systemMessage parts).map turn = [turn m] ↔ PlainMessage m := by
  have hsent : trimSpace (partsToText parts) ≠ "" → (systemMessage parts).map turn =
      [(.system, [content (.text (partsToText parts))])] := by
    intro hblank
    have hne : partsToText parts ≠ "" := fun hnil => hblank (by rw [hnil]; rfl)
    rw [systemMessage, if_neg hblank, map_singleton]
    show [(Speaker.system, (contentItems (.str (partsToText parts))).map content)] = _
    rw [contentItems_str hne]
    rfl
  have hturn : turn m = (.system, (contentItems m.content).map .content) := by
    simp only [turn, turnItems, hm]
  simp only [hturn, PlainMessage, hm]
  constructor
  · intro heq
    by_cases hblank : trimSpace (partsToText parts) = ""
    · rw [systemMessage, if_pos hblank] at heq
      cases heq
    · rw [hsent hblank] at heq
      have hitems : [text (partsToText parts)].map content =
          (contentItems m.content).map .content := (Prod.mk.inj (cons.inj heq).1).2
      exact ⟨partsToText parts, (map_content_inj.mp hitems).symm, hblank⟩
  · rintro ⟨t, ht, hblank⟩
    have htext := partsToText_of_single h ht hblank
    rw [hsent (by rwa [htext]), htext, ht]
    rfl

theorem systemMessage_cases (parts : List Part) :
    systemMessage parts = [] ∨ ∃ p, systemMessage parts = [p] := by
  unfold systemMessage
  split_ifs
  · exact .inl rfl
  · exact .inr ⟨_, rfl⟩

/-! ### The conversation -/

theorem decodeChatMessage_system {t : List Part × List Message} (hm : speaker m.role = .system)
    (h : decodeChatMessage m = .ok t) :
    t.2 = [] ∧ openAIContentToParts m.content true = .ok t.1 := by
  have hrole : m.role = "system" ∨ m.role = "developer" := by
    unfold speaker at hm
    split_ifs at hm with hrole
    exact hrole
  rw [decodeChatMessage, if_pos hrole] at h
  obtain ⟨parts, hparts, rfl⟩ := ok_of_map h
  exact ⟨rfl, hparts⟩

theorem decodeChatMessage_other {t : List Part × List Message} (hm : speaker m.role ≠ .system)
    (hread : m.content.readable = true) (h : decodeChatMessage m = .ok t) :
    t.1 = [] ∧ ∃ p, t.2.flatMap encodeChatMessage = [p] ∧ speaker p.role ≠ .system ∧
      (turn p = turn m ↔ PlainMessage m) := by
  unfold decodeChatMessage at h
  split_ifs at h with hsystem hassistant htool
  · exact absurd (if_pos hsystem) hm
  · obtain ⟨parts, hparts, rfl⟩ := ok_of_map h
    have hspeaker : speaker m.role = .assistant := by rw [hassistant]; rfl
    refine ⟨rfl, encodeAssistant (parts ++ assistantParts m), rfl, ?_,
      assistant_turn hspeaker hread hparts⟩
    rintro ⟨⟩
  · obtain rfl := ok.inj h
    have hspeaker : speaker m.role = .tool := by rw [htool]; rfl
    refine ⟨rfl, _, rfl, ?_, tool_turn hspeaker hread⟩
    rintro ⟨⟩
  · obtain ⟨parts, hparts, rfl⟩ := ok_of_map h
    have hspeaker : speaker m.role = .user := by
      rw [speaker, if_neg hsystem, if_neg hassistant, if_neg htool]
    obtain ⟨p, hp, huser, hturn⟩ := user_turn hspeaker hread hparts
    refine ⟨rfl, p, ?_, ?_, hturn⟩
    · rw [flatMap_singleton]
      exact hp
    · rw [huser]
      rintro ⟨⟩

section Conversation

variable {ms : List OpenAIMessage} {ts : List (List Part × List Message)}

variable (h : List.Forall₂ (fun m t => decodeChatMessage m = .ok t) ms ts)
  (hread : ∀ m ∈ ms, m.content.readable = true)

include h hread

theorem encoded_not_system :
    ∀ p ∈ (ts.flatMap (·.2)).flatMap encodeChatMessage, speaker p.role ≠ .system := by
  induction h with
  | nil => rintro p ⟨⟩
  | @cons m t ms ts hm _ ih =>
    intro p hp
    rw [flatMap_cons, flatMap_append] at hp
    rcases mem_append.mp hp with hp | hp
    · by_cases hs : speaker m.role = .system
      · rw [(decodeChatMessage_system hs hm).1] at hp
        cases hp
      · obtain ⟨-, q, hq, hspeaker, -⟩ :=
          decodeChatMessage_other hs (hread m (mem_cons_self ..)) hm
        rw [hq] at hp
        obtain rfl := mem_singleton.mp hp
        exact hspeaker
    · exact ih (fun m hm => hread m (mem_cons_of_mem _ hm)) p hp

theorem turns_iff_of_no_system (hsystem : ∀ m ∈ ms, speaker m.role ≠ .system) :
    ts.flatMap (·.1) = [] ∧
      (((ts.flatMap (·.2)).flatMap encodeChatMessage).map turn = ms.map turn ↔
        ∀ m ∈ ms, PlainMessage m) := by
  induction h with
  | nil => exact ⟨rfl, ⟨fun _ => forall_mem_nil _, fun _ => rfl⟩⟩
  | @cons m t ms ts hm _ ih =>
    obtain ⟨hprompt, p, hp, -, hturn⟩ := decodeChatMessage_other
      (hsystem m (mem_cons_self ..)) (hread m (mem_cons_self ..)) hm
    obtain ⟨hprompts, hturns⟩ := ih (fun m hm => hread m (mem_cons_of_mem _ hm))
      fun m hm => hsystem m (mem_cons_of_mem _ hm)
    constructor
    · rw [flatMap_cons, hprompt, hprompts, append_nil]
    · rw [flatMap_cons, flatMap_append, hp, singleton_append, map_cons,
        map_cons, cons.injEq, hturn, hturns, forall_mem_cons]

theorem carriesMessages_iff :
    (systemMessage (ts.flatMap (·.1)) ++ (ts.flatMap (·.2)).flatMap encodeChatMessage).map turn =
        ms.map turn ↔
      (∀ m ∈ ms.tail, speaker m.role ≠ .system) ∧ ∀ m ∈ ms, PlainMessage m := by
  have hbehind := encoded_not_system h hread
  by_cases htail : ∀ m ∈ ms.tail, speaker m.role ≠ .system
  · rw [and_iff_right htail]
    cases h with
    | nil => exact ⟨fun _ => forall_mem_nil _, fun _ => rfl⟩
    | @cons m t ms ts hm hms =>
      have hreads : ∀ m ∈ ms, m.content.readable = true :=
        fun m hm => hread m (mem_cons_of_mem _ hm)
      by_cases hs : speaker m.role = .system
      · obtain ⟨hnone, hparts⟩ := decodeChatMessage_system hs hm
        obtain ⟨hprompts, hturns⟩ := turns_iff_of_no_system hms hreads htail
        rw [flatMap_cons, flatMap_cons, hnone, hprompts, append_nil, nil_append,
          map_append, map_cons, forall_mem_cons, ← system_turn hs hparts, ← hturns]
        rcases systemMessage_cases t.1 with hnil | ⟨q, hq⟩
        · -- without a prompt some other message would be the system's
          rw [hnil, map_nil, nil_append]
          constructor
          · intro heq
            obtain ⟨p, hp, hpm⟩ := mem_map.mp (heq ▸ mem_cons_self)
            rw [flatMap_cons, hnone, nil_append] at hbehind
            exact absurd ((congrArg Prod.fst hpm).trans hs) (hbehind p hp)
          · rintro ⟨⟨⟩, -⟩
        · rw [hq, map_singleton, singleton_append, cons.injEq, cons.injEq,
            and_iff_left rfl]
      · have hall : ∀ m' ∈ m :: ms, speaker m'.role ≠ .system :=
          forall_mem_cons.mpr ⟨hs, htail⟩
        obtain ⟨hprompts, hturns⟩ := turns_iff_of_no_system (.cons hm hms) hread hall
        have hblank : systemMessage [] = [] := if_pos rfl
        rw [hprompts, hblank, nil_append, hturns]
  · rw [← not_iff_not]
    simp only [htail, false_and, not_false_eq_true, iff_true]
    intro heq
    apply htail
    intro m hm hspeaker
    have hmem : turn m ∈ (ms.map turn).tail := by
      rw [← map_tail]
      exact mem_map_of_mem hm
    rw [← heq, ← map_tail] at hmem
    obtain ⟨p, hp, hpm⟩ := List.mem_map.mp hmem
    have hrest : p ∈ (ts.flatMap (·.2)).flatMap encodeChatMessage := by
      rcases systemMessage_cases (ts.flatMap (·.1)) with hnil | ⟨q, hq⟩
      · rw [hnil] at hp
        exact mem_of_mem_tail hp
      · rw [hq] at hp
        exact hp
    exact hbehind p hrest ((congrArg Prod.fst hpm).trans hspeaker)

end Conversation

/-! ### The whole request -/

theorem metaValues (x : OpenAIRequest) :
    intFromMetadata (chatMetadata x) "seed" = x.seed ∧
      floatFromMetadata (chatMetadata x) "frequency_penalty" = x.frequencyPenalty ∧
      floatFromMetadata (chatMetadata x) "presence_penalty" = x.presencePenalty := by
  rcases hs : x.seed with _ | n <;> rcases hf : x.frequencyPenalty with _ | f <;>
    rcases hp : x.presencePenalty with _ | q <;> simp only [chatMetadata, hs, hf, hp] <;>
    exact ⟨rfl, rfl, rfl⟩

/-- A prompt, a question with an image, a call that is thought about, and its result. -/
def weatherChat : OpenAIRequest where
  messages := [
    { role := "system", content := .str "Be brief." },
    { role := "user", content := .arr [textDoc "How is it?", imageDoc "map.png"] },
    { role := "assistant", content := .str "Let me see.", reasoningContent := "Ask the service.",
      toolCalls := [⟨"c1", "weather", "\x7b\"days\":3\x7d"⟩] },
    { role := "tool", toolCallID := "c1", content := .arr [textDoc "sunny"] }]
  temperature := some (1 / 2)
  stop := .arr [.str "END"]
  tools := [{ type := "function", name := "weather", parameters := none }]
  toolChoice := .str "auto"
  parallelToolCalls := some false
  seed := some 7
  n := 1

theorem weatherChat_plain : Plain weatherChat where
  responseFormat := rfl
  toolChoice := .inl rfl
  stop := ⟨["END"], rfl, by decide⟩
  n := .inr rfl
  tools := by
    intro t ht
    obtain rfl := mem_singleton.mp ht
    exact ⟨rfl, nofun⟩
  system := by
    show ∀ m ∈ weatherChat.messages.tail, speaker m.role ≠ .system
    simp [weatherChat, speaker]
  messages := by
    have hitems : contentItems (.arr [textDoc "How is it?", imageDoc "map.png"]) =
        [.text "How is it?", .image "map.png" ""] := by decide
    simp only [weatherChat, forall_mem_cons]
    refine ⟨⟨"Be brief.", rfl, by decide +kernel⟩, ⟨trivial, ?_⟩, ⟨trivial, ?_, .inr ?_⟩,
      ⟨trivial, fun _ _ => ⟨"sunny", rfl⟩⟩, nofun⟩
    · intro u d hu
      rw [hitems] at hu
      obtain ⟨rfl, rfl⟩ : u = "map.png" ∧ d = "" := by simpa using hu
      exact ⟨nofun, rfl⟩
    · rintro u d ⟨⟩
      contradiction
    · decide +kernel

def greeting : OpenAIRequest := { messages := [{ role := "user", content := .str "hi" }] }

/-- A greeting that asks for an answer in JSON. -/
def jsonGreeting : OpenAIRequest :=
  { greeting with responseFormatRaw := .obj [("type", .str "json_object")] }

end NexaRoute.Canonical
