import NexaRoute.Canonical.Clients

/-!
# The output items of a Responses stream

A client of the Responses dialect rebuilds the answer from its output items: every item is added,
grows by deltas, and is done. `marks` is what the frames of a stream say of one item.

The emitter has a single message item. It is done when the first tool call starts behind a text, and
a text that follows is sent as a delta of the same item: it comes after the item is done, and no
message item that is done contains it. A start that is refused leaves the call that had its index
before, and the end that follows completes that call a second time.

## Main results

* `complete_iff_allowed` — when a Responses stream is complete
-/

namespace NexaRoute.Canonical

open Go Machine List ResponsesCall Function ResponsesEmitter String ResponsesFrame

variable {about : Item} {evs : List StreamEvent}

/-! ### Items -/

structure Item where
  outputIndex : ℤ
  id : String
  deriving DecidableEq

def messageItem : Item := ⟨0, "msg_0"⟩

def reasoningItem : Item := ⟨0, "rs_0"⟩

def callItem (outputIndex : ℤ) (callID : String) : Item := ⟨outputIndex, "fc_" ++ callID⟩

/-- The item of a call the emitter has announced. -/
def ResponsesCall.item (c : ResponsesCall) : Item := callItem c.outputIndex c.callID

/-- What is said of an item. -/
inductive Mark
  | added
  | delta
  | done
  deriving DecidableEq

/-- What a frame says of an item. -/
def ResponsesFrame.mark : ResponsesFrame → Option (Item × Mark)
  | .messageAdded => some (messageItem, .added)
  | .textDelta _ => some (messageItem, .delta)
  | .messageDone _ => some (messageItem, .done)
  | .reasoningDelta _ => some (reasoningItem, .delta)
  | .callAdded outputIndex callID _ => some (callItem outputIndex callID, .added)
  | .argumentsDelta outputIndex callID _ => some (callItem outputIndex callID, .delta)
  | .callDone outputIndex callID _ _ => some (callItem outputIndex callID, .done)
  | _ => none

/-- What frames say of an item, in order. -/
def marks (item : Item) (frames : List ResponsesFrame) : List Mark :=
  (frames.filterMap ResponsesFrame.mark).filterMap fun m => if m.1 = item then some m.2 else none

/-- The text of a message item that is done. -/
def ResponsesFrame.messageText : ResponsesFrame → Option String
  | .messageDone text => some text
  | _ => none

def StreamEvent.payload (ev : StreamEvent) : String :=
  if ev.type = .text then ev.text else ""

def textOf (evs : List StreamEvent) : String := String.join (evs.map StreamEvent.payload)

namespace ResponsesEmitter

/-- `Emit`, where an error is not looked at: the event is left out. -/
def push (e : ResponsesEmitter) (ev : StreamEvent) : ResponsesEmitter × List ResponsesFrame :=
  match e.emit ev with
  | .ok r => r
  | .error _ => (e, [])

/-- The frames of events, and of the end. -/
def frames : ResponsesEmitter → List StreamEvent → List ResponsesFrame
  | e, [] => e.finish.2
  | e, ev :: evs => (e.push ev).2 ++ frames (e.push ev).1 evs

/-- Everything that is written for events. -/
def transcript (evs : List StreamEvent) : List ResponsesFrame :=
  [ResponsesFrame.created, .inProgress] ++ frames {} evs

/-- What a stream is asked before an event: no text once the message is done, and no start that is
refused at an index that a call has had. -/
def Allows (e : ResponsesEmitter) (ev : StreamEvent) : Prop :=
  (ev.type = .text → e.msgDone = false) ∧
    (ev.type = .toolStart → e.refuses ev ≠ none → e.tools.lookup ev.toolIndex = none)

def SameMessage (e' e : ResponsesEmitter) : Prop :=
  e'.finished = e.finished ∧ e'.msgText = e.msgText ∧ e'.msgOpen = e.msgOpen ∧
    e'.msgDone = e.msgDone

end ResponsesEmitter

/-- No text is lost; every item that is added is done exactly once behind that; and no delta of an
item comes when it is done. -/
structure Complete (frames : List ResponsesFrame) (text : String) : Prop where
  text : String.join (frames.filterMap ResponsesFrame.messageText) = text
  done : ∀ item before after, marks item frames = before ++ Mark.added :: after →
    after.count .done = 1
  delta : ∀ item before after, marks item frames = before ++ Mark.done :: after → Mark.delta ∉ after

/-- Where groups are under way after an event. -/
def openedBy (opened : ℤ → Bool) (ev : StreamEvent) : ℤ → Bool :=
  if ev.type = .toolStart then Function.update opened ev.toolIndex true
  else if ev.type = .toolEnd then Function.update opened ev.toolIndex false
  else opened

/-- An event fits in with the groups that are under way: a start begins one, and a delta or an end
belongs to one. -/
def Follows (opened : ℤ → Bool) (ev : StreamEvent) : Prop :=
  (ev.type = .toolStart → opened ev.toolIndex = false) ∧
    (ev.type = .toolDelta ∨ ev.type = .toolEnd → opened ev.toolIndex = true)

/-- Tool events are complete groups, for each index; `opened` tells where one is under way. -/
def Grouped : (ℤ → Bool) → List StreamEvent → Prop
  | opened, [] => ∀ i, opened i = false
  | opened, ev :: evs => Follows opened ev ∧ Grouped (openedBy opened ev) evs

/-! ### Marks -/

theorem marks_append (item : Item) (frames frames' : List ResponsesFrame) :
    marks item (frames ++ frames') = marks item frames ++ marks item frames' := by
  simp [marks]

/-- The marks of an item: added, and grown, and perhaps done. -/
def life (k : ℕ) (finished : Bool) : List Mark :=
  .added :: (List.replicate k Mark.delta ++ if finished then [Mark.done] else [])

theorem life_delta (k : ℕ) : life k false ++ [Mark.delta] = life (k + 1) false := by
  simp [life, replicate_succ']

theorem life_done (k : ℕ) : life k false ++ [Mark.done] = life k true := by
  simp [life]

variable {frames : List ResponsesFrame} {l : List Mark}

theorem marks_eq
    (h : frames.filterMap mark = l.map fun m => (about, m)) (item : Item) :
    marks item frames = if item = about then l else [] := by
  rw [marks, h, filterMap_map]
  split
  · next heq =>
    subst heq
    refine (filterMap_congr fun m _ => ?_).trans filterMap_some
    exact if_pos rfl
  · next hne => exact filterMap_eq_nil_iff.mpr fun m _ => if_neg fun heq => hne heq.symm

theorem marks_append_eq {more : List ResponsesFrame}
    (h : more.filterMap mark = l.map fun m => (about, m)) (item : Item) :
    marks item (frames ++ more) = marks item frames ++ if item = about then l else [] := by
  rw [marks_append, marks_eq h]

theorem marks_append_of_ne {more : List ResponsesFrame} {item : Item}
    (h : more.filterMap mark = l.map fun m => (about, m)) (hne : item ≠ about) :
    marks item (frames ++ more) = marks item frames := by
  rw [marks_append_eq h, if_neg hne, append_nil]

theorem ResponsesCall.item_ne {c : ResponsesCall} (h : 1 ≤ c.outputIndex) :
    c.item ≠ messageItem ∧ c.item ≠ reasoningItem := by
  have hne : c.outputIndex ≠ 0 := by omega
  exact ⟨fun heq => hne (congrArg Item.outputIndex heq),
    fun heq => hne (congrArg Item.outputIndex heq)⟩

theorem reasoningItem_ne : reasoningItem ≠ messageItem := by decide

/-! ### The message -/

/-- What the frames so far say of the message is what the emitter knows of it. -/
structure MessageKept (e : ResponsesEmitter) (frames : List ResponsesFrame) (text : String) :
    Prop where
  unfinished : e.finished = false
  msgText : e.msgText = text
  silent : e.msgOpen = false → text = "" ∧ e.msgDone = false
  texts : frames.filterMap ResponsesFrame.messageText = if e.msgDone then [text] else []
  message : if e.msgOpen then ∃ k, marks messageItem frames = life k e.msgDone
    else marks messageItem frames = []

namespace MessageKept

variable {e e' : ResponsesEmitter} {frames more : List ResponsesFrame} {text : String}

theorem append (h : MessageKept e frames text)
    (hmarks : marks messageItem (frames ++ more) = marks messageItem frames)
    (htexts : more.filterMap messageText = []) (he : e'.SameMessage e) :
    MessageKept e' (frames ++ more) text := by
  obtain ⟨hfinished, htext, hopen, hdone⟩ := he
  refine ⟨hfinished.trans h.unfinished, htext.trans h.msgText, ?_, ?_, ?_⟩
  · rw [hopen, hdone]
    exact h.silent
  · rw [filterMap_append, htexts, append_nil, hdone]
    exact h.texts
  · rw [hopen, hdone, hmarks]
    exact h.message

theorem speak {t : String} (h : MessageKept e frames text) (hdone : e.msgDone = false) :
    MessageKept { e with msgOpen := true, msgText := e.msgText ++ t }
      (frames ++ (e.openMessage.2 ++ [ResponsesFrame.textDelta t])) (text ++ t) := by
  have htexts := h.texts
  have hmessage := h.message
  rw [hdone] at htexts hmessage
  obtain ⟨k, hk⟩ : ∃ k,
      marks messageItem (frames ++ (e.openMessage.2 ++ [ResponsesFrame.textDelta t])) =
        life k false := by
    unfold openMessage
    cases hopen : e.msgOpen with
    | false =>
      rw [hopen] at hmessage
      exact ⟨1, by rw [marks_append_eq (l := [.added, .delta]) rfl, if_pos rfl, hmessage]; rfl⟩
    | true =>
      rw [hopen] at hmessage
      obtain ⟨k, hmarks⟩ := hmessage
      refine ⟨k + 1, ?_⟩
      rw [marks_append_eq (l := [.delta]) rfl, if_pos rfl, hmarks, life_delta]
  refine ⟨h.unfinished, congrArg (· ++ t) h.msgText, nofun, ?_, k, hdone ▸ hk⟩
  have hnone : (e.openMessage.2 ++ [textDelta t]).filterMap messageText = [] := by
    unfold openMessage
    split <;> rfl
  rw [filterMap_append, htexts, hnone, hdone]
  rfl

theorem close (h : MessageKept e frames text) :
    MessageKept e.closeMessage.1 (frames ++ e.closeMessage.2) text ∧
      (e.closeMessage.1.msgOpen = true → e.closeMessage.1.msgDone = true) := by
  unfold closeMessage
  split
  · next hskip =>
    refine ⟨by simpa using h, fun hopen => ?_⟩
    simpa [show e.msgOpen = true from hopen] using hskip
  · next hclose =>
    obtain ⟨hopen, hdone⟩ : e.msgOpen = true ∧ e.msgDone = false := by simpa using hclose
    have htexts := h.texts
    have hmessage := h.message
    rw [hdone] at htexts hmessage
    rw [hopen] at hmessage
    obtain ⟨k, hmarks⟩ := hmessage
    refine ⟨⟨h.unfinished, h.msgText, fun h' => ?_, ?_, ?_⟩, fun _ => rfl⟩
    · rw [show e.msgOpen = false from h'] at hopen
      cases hopen
    · rw [filterMap_append, htexts]
      show [] ++ [e.msgText] = [text]
      rw [h.msgText, nil_append]
    · show if e.msgOpen = true then _ else _
      rw [hopen, if_pos rfl]
      refine ⟨k, ?_⟩
      rw [marks_append_eq (l := [.done]) rfl, if_pos rfl, hmarks]
      exact life_done k

end MessageKept

/-! ### The calls -/

/-- What the frames so far say of the other items is what the emitter knows of calls. -/
structure CallsKept (opened : ℤ → Bool) (tools : Map ℤ ResponsesCall) (next : ℤ)
    (frames : List ResponsesFrame) : Prop where
  reasoning : ∀ m ∈ marks reasoningItem frames, m = .delta
  positive : 1 ≤ next
  known : ∀ i c, tools.lookup i = some c → 1 ≤ c.outputIndex ∧ c.outputIndex < next ∧
    ∃ k, marks c.item frames = life k !opened i
  distinct : ∀ i j c d, tools.lookup i = some c → tools.lookup j = some d →
    c.outputIndex = d.outputIndex → i = j
  others : ∀ item, item ≠ messageItem → item ≠ reasoningItem →
    (∀ i c, tools.lookup i = some c → c.item ≠ item) →
    marks item frames = [] ∨ item.outputIndex < next ∧ ∃ k, marks item frames = life k true

namespace CallsKept

variable {opened : ℤ → Bool} {tools : Map ℤ ResponsesCall} {next : ℤ}
  {frames more : List ResponsesFrame} {i : ℤ} {c : ResponsesCall}

section

variable (h : CallsKept opened tools next frames)

include h

theorem frame (hreasoning : ∀ m ∈ marks reasoningItem (frames ++ more), m = .delta)
    (hmarks : ∀ item, item ≠ messageItem → item ≠ reasoningItem →
      marks item (frames ++ more) = marks item frames) :
    CallsKept opened tools next (frames ++ more) where
  reasoning := hreasoning
  positive := h.positive
  known := by
    intro i c hc
    have hknown := h.known i c hc
    rw [hmarks _ (item_ne hknown.1).1 (item_ne hknown.1).2]
    exact hknown
  distinct := h.distinct
  others := by
    intro item hmessage hreasoning hnone
    rw [hmarks item hmessage hreasoning]
    exact h.others item hmessage hreasoning hnone

theorem append (hmore : more.filterMap mark = l.map fun m => (messageItem, m)) :
    CallsKept opened tools next (frames ++ more) := by
  refine h.frame ?_ fun item hne _ => marks_append_of_ne hmore hne
  rw [marks_append_of_ne hmore reasoningItem_ne]
  exact h.reasoning

theorem think (t : String) :
    CallsKept opened tools next (frames ++ [ResponsesFrame.reasoningDelta t]) := by
  refine h.frame ?_ fun item _ hne => marks_append_of_ne (l := [.delta]) rfl hne
  rw [marks_append_eq (l := [.delta]) rfl, if_pos rfl]
  exact forall_mem_append.mpr ⟨h.reasoning, forall_mem_singleton.mpr rfl⟩

theorem pass (hi : tools.lookup i = none) (b : Bool) :
    CallsKept (update opened i b) tools next frames where
  reasoning := h.reasoning
  positive := h.positive
  known := by
    intro j c hc
    have hne : j ≠ i := by
      rintro rfl
      rw [hi] at hc
      cases hc
    rw [update_of_ne hne]
    exact h.known j c hc
  distinct := h.distinct
  others := h.others

end

theorem item_ne_of_index_ne {c d : ResponsesCall} (h : c.outputIndex ≠ d.outputIndex) :
    c.item ≠ d.item := fun heq => h (congrArg Item.outputIndex heq)

theorem lookup_cases {tools' : Map ℤ ResponsesCall} {c' d : ResponsesCall} {j : ℤ}
    (htools : ∀ j, tools'.lookup j = if j = i then some c' else tools.lookup j)
    (hd : tools'.lookup j = some d) : j = i ∧ d = c' ∨ j ≠ i ∧ tools.lookup j = some d := by
  rw [htools] at hd
  split at hd
  · next hj => exact .inl ⟨hj, (Option.some.inj hd).symm⟩
  · next hj => exact .inr ⟨hj, hd⟩

theorem change {tools' : Map ℤ ResponsesCall} {c' : ResponsesCall} {b : Bool}
    (h : CallsKept opened tools next frames) (hi : tools.lookup i = some c)
    (hitem : c'.item = c.item) (hindex : c'.outputIndex = c.outputIndex)
    (htools : ∀ j, tools'.lookup j = if j = i then some c' else tools.lookup j)
    (hmore : more.filterMap mark = l.map fun m => (c.item, m))
    (hlife : ∀ k, ∃ k', life k (!opened i) ++ l = life k' !b) :
    CallsKept (update opened i b) tools' next (frames ++ more) := by
  obtain ⟨hpos, hlt, k, hmarks⟩ := h.known i c hi
  -- the calls of the other indices have other items
  have hother : ∀ j d, j ≠ i → tools.lookup j = some d → d.item ≠ c.item := by
    intro j d hj hd
    exact item_ne_of_index_ne fun heq => hj (h.distinct j i d c hd hi heq)
  refine ⟨?_, h.positive, ?_, ?_, ?_⟩
  · rw [marks_append_of_ne hmore (item_ne hpos).2.symm]
    exact h.reasoning
  · intro j d hd
    rcases lookup_cases htools hd with ⟨rfl, rfl⟩ | ⟨hj, hd⟩
    · obtain ⟨k', hk'⟩ := hlife k
      refine ⟨hindex ▸ hpos, hindex ▸ hlt, k', ?_⟩
      rw [update_self, hitem, marks_append_eq hmore, if_pos rfl, hmarks, hk']
    · rw [update_of_ne hj, marks_append_of_ne hmore (hother j d hj hd)]
      exact h.known j d hd
  · have hback : ∀ j d, tools'.lookup j = some d →
        ∃ d', tools.lookup j = some d' ∧ d'.outputIndex = d.outputIndex := by
      intro j d hd
      rcases lookup_cases htools hd with ⟨rfl, rfl⟩ | ⟨hj, hd⟩
      · exact ⟨c, hi, hindex.symm⟩
      · exact ⟨d, hd, rfl⟩
    intro j j' d d' hd hd' heq
    obtain ⟨d₁, hd₁, h₁⟩ := hback j d hd
    obtain ⟨d₂, hd₂, h₂⟩ := hback j' d' hd'
    exact h.distinct j j' d₁ d₂ hd₁ hd₂ (h₁.trans (heq.trans h₂.symm))
  · intro item hmessage hreasoning hnone
    have hne : item ≠ c.item := by
      rintro rfl
      exact hnone i c' (by rw [htools, if_pos rfl]) hitem
    rw [marks_append_of_ne hmore hne]
    refine h.others item hmessage hreasoning fun j d hd => ?_
    by_cases hj : j = i
    · rw [hj, hi] at hd
      cases hd
      exact hne.symm
    · exact hnone j d (by rw [htools, if_neg hj, hd])

theorem add (h : CallsKept opened tools next frames) (hopen : opened i = false)
    (hc : c.outputIndex = next)
    (hmore : more.filterMap mark = [(c.item, .added)]) :
    CallsKept (update opened i true) (tools.insert i c) (next + 1) (frames ++ more) := by
  have hpos : 1 ≤ c.outputIndex := hc ▸ h.positive
  have hmore' : more.filterMap mark = [Mark.added].map fun m => (c.item, m) := hmore
  have htools := tools.lookup_insert i (a := c)
  have hother : ∀ j d, tools.lookup j = some d → d.item ≠ c.item := by
    intro j d hd
    obtain ⟨_, hlt, _⟩ := h.known j d hd
    exact item_ne_of_index_ne (by omega)
  -- nothing was said of the item before
  have hfresh : marks c.item frames = [] := by
    rcases h.others c.item (item_ne hpos).1 (item_ne hpos).2 hother
      with hnone | ⟨hlt, _⟩
    · exact hnone
    · have hindex : c.item.outputIndex = c.outputIndex := rfl
      omega
  refine ⟨?_, by have := h.positive; omega, ?_, ?_, ?_⟩
  · rw [marks_append_of_ne hmore' (item_ne hpos).2.symm]
    exact h.reasoning
  · intro j d hd
    rcases lookup_cases htools hd with ⟨rfl, rfl⟩ | ⟨hj, hd⟩
    · refine ⟨hpos, by omega, 0, ?_⟩
      rw [update_self, marks_append_eq hmore', if_pos rfl, hfresh]
      rfl
    · obtain ⟨hpos', hlt, hlife⟩ := h.known j d hd
      rw [update_of_ne hj, marks_append_of_ne hmore' (hother j d hd)]
      exact ⟨hpos', by omega, hlife⟩
  · intro j j' d d' hd hd' heq
    rcases lookup_cases htools hd with ⟨rfl, rfl⟩ | ⟨-, hold⟩ <;>
      rcases lookup_cases htools hd' with ⟨rfl, rfl⟩ | ⟨-, hold'⟩
    · rfl
    · have hlt := (h.known j' d' hold').2.1
      omega
    · have hlt := (h.known j d hold).2.1
      omega
    · exact h.distinct j j' d d' hold hold' heq
  · intro item hmessage hreasoning hnone
    have hne : item ≠ c.item := by
      rintro rfl
      exact hnone i c (by rw [htools, if_pos rfl]) rfl
    rw [marks_append_of_ne hmore' hne]
    by_cases hold : ∃ d, tools.lookup i = some d ∧ d.item = item
    · -- the call that had the index before is done
      obtain ⟨d, hd, rfl⟩ := hold
      obtain ⟨_, hlt, k, hmarks⟩ := h.known i d hd
      rw [hopen] at hmarks
      exact .inr ⟨by show d.outputIndex < _; omega, k, hmarks⟩
    · have hnone' : ∀ j d, tools.lookup j = some d → d.item ≠ item := by
        intro j d hd
        by_cases hj : j = i
        · exact fun heq => hold ⟨d, hj ▸ hd, heq⟩
        · exact hnone j d (by rw [htools, if_neg hj, hd])
      rcases h.others item hmessage hreasoning hnone' with hmarks | ⟨hlt, hlife⟩
      · exact .inl hmarks
      · exact .inr ⟨by omega, hlife⟩

end CallsKept

/-! ### One event -/

/-- What holds between events. -/
structure Kept (opened : ℤ → Bool) (e : ResponsesEmitter) (frames : List ResponsesFrame)
    (text : String) : Prop where
  message : MessageKept e frames text
  calls : CallsKept opened e.tools e.nextOutIdx frames

namespace ResponsesEmitter

variable {e : ResponsesEmitter} {ev : StreamEvent}

theorem push_other (h : ev.type ≠ .text) (h' : ev.type ≠ .thinking) (hev : ev.type.isTool = false) :
    (∀ f ∈ (e.push ev).2, f.mark = none ∧ f.messageText = none) ∧
      (e.push ev).1.SameMessage e ∧ (e.push ev).1.tools = e.tools ∧
      (e.push ev).1.nextOutIdx = e.nextOutIdx := by
  have husage : ∀ u, (e.observeUsage u).SameMessage e ∧ (e.observeUsage u).tools = e.tools ∧
      (e.observeUsage u).nextOutIdx = e.nextOutIdx := by
    intro u
    cases u <;> exact ⟨⟨rfl, rfl, rfl, rfl⟩, rfl, rfl⟩
  unfold push emit
  cases hty : ev.type with
  | text => exact absurd hty h
  | thinking => exact absurd hty h'
  | toolStart | toolDelta | toolEnd => rw [hty] at hev; cases hev
  | start | usage => exact ⟨by simp, husage _⟩
  | stop => exact ⟨by simp, ⟨rfl, rfl, rfl, rfl⟩, rfl, rfl⟩
  | error =>
    exact ⟨by simp [mark, messageText], ⟨rfl, rfl, rfl, rfl⟩, rfl, rfl⟩

theorem openMessage_fst (e : ResponsesEmitter) : e.openMessage.1 = { e with msgOpen := true } := by
  unfold openMessage
  split
  · next hopen => rw [← hopen]
  · rfl

theorem push_text (h : ev.type = .text) :
    e.push ev = ({ e with msgOpen := true, msgText := e.msgText ++ ev.text },
      e.openMessage.2 ++ [ResponsesFrame.textDelta ev.text]) := by
  unfold push emit
  rw [h]
  show ({ e.openMessage.1 with msgText := e.openMessage.1.msgText ++ ev.text },
    e.openMessage.2 ++ [textDelta ev.text]) = _
  rw [e.openMessage_fst]

theorem openMessage_marks (e : ResponsesEmitter) (t : String) :
    ∃ l : List Mark, (e.openMessage.2 ++ [textDelta t]).filterMap mark =
      l.map fun m => (messageItem, m) := by
  unfold openMessage
  split
  · exact ⟨[.delta], rfl⟩
  · exact ⟨[.added, .delta], rfl⟩

theorem push_thinking (h : ev.type = .thinking) : e.push ev = (e, [.reasoningDelta ev.text]) := by
  unfold push emit
  rw [h]

theorem push_toolStart (h : ev.type = .toolStart) :
    e.push ev = if e.refuses ev = none then e.startTool ev else (e, []) := by
  unfold push emit
  rw [h]
  cases e.refuses ev <;> simp

theorem push_toolDelta (h : ev.type = .toolDelta) :
    e.push ev = (e, []) ∨ ∃ c, e.tools.lookup ev.toolIndex = some c ∧
      e.push ev = ({ e with
          tools := e.tools.insert ev.toolIndex { c with arguments := c.arguments ++ ev.argsDelta } },
        [.argumentsDelta c.outputIndex c.callID ev.argsDelta]) := by
  unfold push
  cases hemit : e.emit ev with
  | error err => exact .inl rfl
  | ok r =>
    obtain ⟨c, hc, he, hframes⟩ := emit_toolDelta h hemit
    exact .inr ⟨c, hc, Prod.ext he hframes⟩

theorem push_toolEnd (h : ev.type = .toolEnd) :
    e.tools.lookup ev.toolIndex = none ∧ e.push ev = (e, []) ∨
      ∃ c, e.tools.lookup ev.toolIndex = some c ∧
        e.push ev = (e, [.argumentsDone c.outputIndex c.callID c.name c.arguments,
          .callDone c.outputIndex c.callID c.name c.arguments]) := by
  unfold push emit
  rw [h]
  cases e.tools.lookup ev.toolIndex with
  | none => exact .inl ⟨rfl, rfl⟩
  | some c => exact .inr ⟨c, rfl, rfl⟩

end ResponsesEmitter

theorem ResponsesEmitter.closeMessage_calls (e : ResponsesEmitter) :
    e.closeMessage.1.tools = e.tools ∧ e.closeMessage.1.nextOutIdx = e.nextOutIdx ∧
      ∃ l : List Mark, e.closeMessage.2.filterMap mark =
        l.map fun m => (messageItem, m) := by
  unfold closeMessage
  split
  · exact ⟨rfl, rfl, [], rfl⟩
  · exact ⟨rfl, rfl, [.done], rfl⟩

namespace Kept

variable {opened : ℤ → Bool} {e : ResponsesEmitter} {ev : StreamEvent}
  {frames : List ResponsesFrame} {text : String} (h : Kept opened e frames text)

include h

theorem toolStart (hev : ev.type = .toolStart)
    (hfollows : opened ev.toolIndex = false) (hallows : e.Allows ev) :
    Kept (update opened ev.toolIndex true) (e.push ev).1 (frames ++ (e.push ev).2) text := by
  rw [push_toolStart hev]
  split
  · -- the message is done first, and a new item is added
    obtain ⟨htools, hnext, l, hl⟩ := e.closeMessage_calls
    have hcalls : CallsKept opened e.closeMessage.1.tools e.closeMessage.1.nextOutIdx
        (frames ++ e.closeMessage.2) := by
      rw [htools, hnext]
      exact h.calls.append hl
    have hitem : messageItem ≠ callItem e.closeMessage.1.nextOutIdx
        (callID ev.toolID ev.toolIndex) :=
      (item_ne (c := ⟨callID ev.toolID ev.toolIndex, e.closeMessage.1.nextOutIdx,
        ev.toolName, ""⟩) hcalls.positive).1.symm
    show Kept _ _ (frames ++ (e.closeMessage.2 ++ _)) text
    rw [← List.append_assoc]
    refine ⟨h.message.close.1.append ?_ rfl ⟨rfl, rfl, rfl, rfl⟩, hcalls.add hfollows rfl rfl⟩
    exact marks_append_of_ne (l := [.added]) rfl hitem
  · next hrefused =>
    rw [append_nil]
    exact ⟨h.message, h.calls.pass (hallows.2 hev hrefused) true⟩

theorem toolDelta (hev : ev.type = .toolDelta)
    (hfollows : opened ev.toolIndex = true) :
    Kept opened (e.push ev).1 (frames ++ (e.push ev).2) text := by
  rcases push_toolDelta hev with hpush | ⟨c, hc, hpush⟩
  · rw [hpush, append_nil]
    exact h
  · rw [hpush]
    obtain ⟨hpos, -, -⟩ := h.calls.known _ c hc
    have hmore : [argumentsDelta c.outputIndex c.callID ev.argsDelta].filterMap
        mark = [Mark.delta].map fun m => (c.item, m) := rfl
    have hlife : ∀ k, ∃ k', life k (!opened ev.toolIndex) ++ [Mark.delta] =
        life k' !opened ev.toolIndex := by
      intro k
      rw [hfollows]
      exact ⟨k + 1, life_delta k⟩
    have hcalls : CallsKept (update opened ev.toolIndex (opened ev.toolIndex))
        (e.tools.insert ev.toolIndex { c with arguments := c.arguments ++ ev.argsDelta })
        e.nextOutIdx
        (frames ++ [ResponsesFrame.argumentsDelta c.outputIndex c.callID ev.argsDelta]) := by
      refine h.calls.change hc ?_ ?_ (fun j => Map.lookup_insert ..) hmore hlife
      · rfl
      · rfl
    rw [update_eq_self] at hcalls
    exact ⟨h.message.append (marks_append_of_ne hmore (item_ne hpos).1.symm) rfl
      ⟨rfl, rfl, rfl, rfl⟩, hcalls⟩

theorem toolEnd (hev : ev.type = .toolEnd)
    (hfollows : opened ev.toolIndex = true) :
    Kept (update opened ev.toolIndex false) (e.push ev).1 (frames ++ (e.push ev).2)
      text := by
  rcases push_toolEnd hev with ⟨hnone, hpush⟩ | ⟨c, hc, hpush⟩
  · rw [hpush, append_nil]
    exact ⟨h.message, h.calls.pass hnone false⟩
  · rw [hpush]
    obtain ⟨hpos, -, -⟩ := h.calls.known _ c hc
    refine ⟨h.message.append ?_ rfl ⟨rfl, rfl, rfl, rfl⟩, h.calls.change (l := [.done]) hc rfl rfl
      (fun j => ?_) rfl fun k => ⟨k, ?_⟩⟩
    · exact marks_append_of_ne (l := [.done]) rfl (item_ne hpos).1.symm
    · split
      · next hj => rw [hj, hc]
      · rfl
    · rw [hfollows]
      exact life_done k

theorem speak (hev : ev.type = .text) (hallows : e.Allows ev) :
    Kept opened (e.push ev).1 (frames ++ (e.push ev).2) (text ++ ev.text) := by
  rw [push_text hev]
  obtain ⟨l, hl⟩ := e.openMessage_marks ev.text
  exact ⟨h.message.speak (hallows.1 hev), h.calls.append hl⟩

theorem think (hev : ev.type = .thinking) :
    Kept opened (e.push ev).1 (frames ++ (e.push ev).2) text := by
  rw [push_thinking hev]
  refine ⟨h.message.append ?_ rfl ⟨rfl, rfl, rfl, rfl⟩, h.calls.think ev.text⟩
  exact marks_append_of_ne (l := [.delta]) rfl reasoningItem_ne.symm

theorem other (htext : ev.type ≠ .text)
    (hthinking : ev.type ≠ .thinking) (htool : ev.type.isTool = false) :
    Kept opened (e.push ev).1 (frames ++ (e.push ev).2) text := by
  obtain ⟨hframes, he, htools, hnext⟩ := e.push_other htext hthinking htool
  have hmark : (e.push ev).2.filterMap mark = [] :=
    filterMap_eq_nil_iff.mpr fun f hf => (hframes f hf).1
  have htexts : (e.push ev).2.filterMap messageText = [] :=
    filterMap_eq_nil_iff.mpr fun f hf => (hframes f hf).2
  have hsame : marks messageItem (frames ++ (e.push ev).2) = marks messageItem frames := by
    rw [marks_append, marks, marks, hmark]
    exact append_nil _
  refine ⟨h.message.append hsame htexts he, ?_⟩
  rw [htools, hnext]
  exact h.calls.append (l := []) hmark

/-- **One event** that fits in and is allowed. -/
theorem push (hfollows : Follows opened ev)
    (hallows : e.Allows ev) :
    Kept (openedBy opened ev) (e.push ev).1 (frames ++ (e.push ev).2) (text ++ ev.payload) := by
  unfold openedBy StreamEvent.payload
  cases hev : ev.type with
  | text => exact h.speak hev hallows
  | thinking => simpa using h.think hev
  | toolStart => simpa using h.toolStart hev (hfollows.1 hev) hallows
  | toolDelta => simpa using h.toolDelta hev (hfollows.2 (.inl hev))
  | toolEnd => simpa using h.toolEnd hev (hfollows.2 (.inr hev))
  | _ =>
    have hother : Kept opened (e.push ev).1 (frames ++ (e.push ev).2) text :=
      h.other (by simp [hev]) (by simp [hev]) (by rw [hev]; rfl)
    simpa using hother

omit h in
theorem initial : Kept (fun _ => false) {} [.created, .inProgress] "" where
  message := ⟨rfl, rfl, fun _ => ⟨rfl, rfl⟩, rfl, rfl⟩
  calls := {
    reasoning := by
      intro m hm
      cases hm
    positive := le_rfl
    known := by
      intro i c hc
      cases hc
    distinct := by
      intro i j c d hc
      cases hc
    others := fun _ _ _ _ => .inl rfl }

end Kept

/-! ### Complete streams -/

/-- What is said of an item when everything is done. -/
def Finished (l : List Mark) : Prop := (∀ m ∈ l, m = .delta) ∨ ∃ k, l = life k true

namespace Finished

variable {l before after : List Mark}

theorem done (h : Finished l) (hl : l = before ++ Mark.added :: after) : after.count .done = 1 := by
  rcases h with hdelta | ⟨k, rfl⟩
  · exact absurd (hdelta .added (by simp [hl])) (by decide)
  · cases before with
    | nil =>
      obtain ⟨-, rfl⟩ := cons.inj hl
      simp [count_replicate]
    | cons m before =>
      -- there is no second `added`
      have hmem : Mark.added ∈ replicate k Mark.delta ++ [Mark.done] := by
        have htail := (cons.inj hl).2
        rw [if_pos rfl] at htail
        simp [htail]
      simp at hmem

theorem delta (h : Finished l) (hl : l = before ++ Mark.done :: after) : Mark.delta ∉ after := by
  rcases h with hdelta | ⟨k, rfl⟩
  · exact absurd (hdelta .done (by simp [hl])) (by decide)
  · -- the mark `done` is the last
    rcases eq_nil_or_concat after with rfl | ⟨more, m, rfl⟩
    · exact not_mem_nil
    · have hlife : (Mark.added :: replicate k Mark.delta) ++ [Mark.done] =
          (before ++ Mark.done :: more) ++ [m] := by
        simpa [life] using hl
      have hmem : Mark.done ∈ .added :: replicate k Mark.delta := by
        rw [append_inj_left' hlife rfl]
        simp
      simp at hmem

end Finished

theorem complete_of_finished {text : String}
    (htext : join (frames.filterMap messageText) = text)
    (h : ∀ item, Finished (marks item frames)) : Complete frames text where
  text := htext
  done := fun item _ _ hmarks => (h item).done hmarks
  delta := fun item _ _ hmarks => (h item).delta hmarks

namespace Kept

variable {opened : ℤ → Bool} {e : ResponsesEmitter} {frames : List ResponsesFrame} {text : String}

theorem finished (h : CallsKept opened e.tools e.nextOutIdx frames) (hclosed : ∀ i, opened i = false)
    {item : Item} (hitem : item ≠ messageItem) : Finished (marks item frames) := by
  by_cases hreasoning : item = reasoningItem
  · subst hreasoning
    exact .inl h.reasoning
  · by_cases hcall : ∃ i c, e.tools.lookup i = some c ∧ c.item = item
    · obtain ⟨i, c, hc, rfl⟩ := hcall
      obtain ⟨-, -, k, hmarks⟩ := h.known i c hc
      rw [hclosed i] at hmarks
      exact .inr ⟨k, hmarks⟩
    · have hnone : ∀ i c, e.tools.lookup i = some c → c.item ≠ item :=
        fun i c hc heq => hcall ⟨i, c, hc, heq⟩
      rcases h.others item hitem hreasoning hnone with hmarks | ⟨-, k, hmarks⟩
      · exact .inl (by simp [hmarks])
      · exact .inr ⟨k, hmarks⟩

/-- **The end**: when no group is under way, the stream is complete. -/
theorem finish (h : Kept opened e frames text) (hclosed : ∀ i, opened i = false) :
    Complete (frames ++ e.finish.2) text := by
  obtain ⟨hmessage, hdone⟩ := h.message.close
  obtain ⟨-, -, l, hl⟩ := e.closeMessage_calls
  have hcalls : CallsKept opened e.tools e.nextOutIdx (frames ++ e.closeMessage.2) :=
    h.calls.append hl
  obtain ⟨status, u, hfinish⟩ : ∃ status u, e.finish.2 =
      e.closeMessage.2 ++ [ResponsesFrame.completed status u] := by
    unfold ResponsesEmitter.finish ResponsesEmitter.closeMessage
    rw [h.message.unfinished]
    simp only [Bool.false_eq_true, if_false]
    split <;> exact ⟨_, _, rfl⟩
  have hmarks : ∀ item, marks item (frames ++ e.finish.2) =
      marks item (frames ++ e.closeMessage.2) := by
    intro item
    rw [hfinish, ← List.append_assoc, marks_append]
    exact append_nil _
  -- what is said of the message, and the texts that are done
  obtain ⟨hlife, htext⟩ : Finished (marks messageItem (frames ++ e.closeMessage.2)) ∧
      String.join ((frames ++ e.finish.2).filterMap messageText) = text := by
    have hsaid := hmessage.message
    rw [hfinish, ← List.append_assoc, List.filterMap_append, hmessage.texts]
    cases hopen : e.closeMessage.1.msgOpen with
    | false =>
      obtain ⟨rfl, hnot⟩ := hmessage.silent hopen
      rw [hopen] at hsaid
      rw [show marks messageItem (frames ++ e.closeMessage.2) = [] from hsaid, hnot]
      exact ⟨.inl fun m hm => absurd hm not_mem_nil, rfl⟩
    | true =>
      rw [hopen, if_pos rfl, hdone hopen] at hsaid
      rw [hdone hopen]
      refine ⟨.inr hsaid, ?_⟩
      show join [text] = text
      rw [join_cons, join_nil, append_empty]
  refine complete_of_finished htext fun item => ?_
  rw [hmarks]
  by_cases hitem : item = messageItem
  · rw [hitem]
    exact hlife
  · exact finished hcalls hclosed hitem

end Kept

/-! ### Streams that are not complete -/

section

variable {opened : ℤ → Bool} {e : ResponsesEmitter} {ev : StreamEvent} {i : ℤ} {c : ResponsesCall}
  {frames more : List ResponsesFrame} {text said : String}

theorem ResponsesEmitter.push_lookup (hfollows : Follows opened ev) (hi : opened i = true)
    (hc : e.tools.lookup i = some c) :
    ev.type = .toolEnd ∧ ev.toolIndex = i ∨
      openedBy opened ev i = true ∧
        ∃ c', (e.push ev).1.tools.lookup i = some c' ∧ c'.item = c.item := by
  by_cases hend : ev.type = .toolEnd ∧ ev.toolIndex = i
  · exact .inl hend
  refine .inr ?_
  unfold openedBy
  cases hev : ev.type with
  | toolStart =>
    have hne : i ≠ ev.toolIndex := by
      rintro rfl
      rw [hfollows.1 hev] at hi
      cases hi
    refine ⟨by simpa [update_of_ne hne] using hi, c, ?_, rfl⟩
    rw [push_toolStart hev]
    split
    · show ((e.closeMessage.1.tools).insert ev.toolIndex _).lookup i = some c
      rw [Map.lookup_insert, if_neg hne, e.closeMessage_calls.1, hc]
    · exact hc
  | toolEnd =>
    have hne : i ≠ ev.toolIndex := fun heq => hend ⟨hev, heq.symm⟩
    refine ⟨by simpa [update_of_ne hne] using hi, c, ?_, rfl⟩
    rcases push_toolEnd hev with ⟨-, hpush⟩ | ⟨d, -, hpush⟩ <;> rw [hpush] <;> exact hc
  | toolDelta =>
    refine ⟨by simpa using hi, ?_⟩
    rcases push_toolDelta hev with hpush | ⟨d, hd, hpush⟩
    · rw [hpush]
      exact ⟨c, hc, rfl⟩
    · rw [hpush]
      by_cases heq : i = ev.toolIndex
      · rw [← heq, hc] at hd
        cases hd
        exact ⟨{ c with arguments := c.arguments ++ ev.argsDelta },
          by rw [Map.lookup_insert, if_pos heq], rfl⟩
      · exact ⟨c, by rw [Map.lookup_insert, if_neg heq, hc], rfl⟩
  | text =>
    rw [push_text hev]
    exact ⟨by simpa using hi, c, hc, rfl⟩
  | thinking =>
    rw [push_thinking hev]
    exact ⟨by simpa using hi, c, hc, rfl⟩
  | _ =>
    have htools : (e.push ev).1.tools = e.tools :=
      (push_other (by simp [hev]) (by simp [hev]) (by rw [hev]; rfl)).2.2.1
    exact ⟨by simpa using hi, c, by rw [htools, hc], rfl⟩

theorem done_of_opened (hgrouped : Grouped opened evs) (hi : opened i = true)
    (hc : e.tools.lookup i = some c) : .done ∈ marks c.item (e.frames evs) := by
  induction evs generalizing opened e c with
  | nil =>
    rw [hgrouped i] at hi
    cases hi
  | cons ev evs ih =>
    obtain ⟨hfollows, hrest⟩ := hgrouped
    rw [frames, marks_append, mem_append]
    rcases e.push_lookup hfollows hi hc with ⟨hev, rfl⟩ | ⟨hi', c', hc', hitem⟩
    · rcases push_toolEnd hev with ⟨hnone, -⟩ | ⟨d, hd, hpush⟩
      · rw [hc] at hnone
        cases hnone
      · rw [hc] at hd
        cases hd
        have hcallDone : [argumentsDone c.outputIndex c.callID c.name c.arguments,
            .callDone c.outputIndex c.callID c.name c.arguments].filterMap mark =
            [Mark.done].map fun m => (c.item, m) := rfl
        rw [hpush, marks_eq hcallDone, if_pos rfl]
        exact .inl (mem_singleton.mpr rfl)
    · rw [← hitem]
      exact .inr (ih hrest hi' hc')

theorem Kept.not_complete_of_text (h : Kept opened e frames text) (hev : ev.type = .text)
    (hdone : e.msgDone = true) :
    ¬ Complete (frames ++ ((e.push ev).2 ++ more)) said := by
  intro hcomplete
  have hopen : e.msgOpen = true := by
    by_contra hclosed
    have hnot := (h.message.silent (by simpa using hclosed)).2
    rw [hdone] at hnot
    cases hnot
  have hlife := h.message.message
  rw [hopen, if_pos rfl, hdone] at hlife
  obtain ⟨k, hmarks⟩ := hlife
  have hpush : (e.push ev).2 = [.textDelta ev.text] := by
    rw [push_text hev, openMessage, hopen]
    rfl
  refine hcomplete.delta messageItem (.added :: replicate k .delta)
    (.delta :: marks messageItem more) ?_ (mem_cons_self ..)
  rw [hpush, marks_append, marks_append, hmarks, marks_eq (l := [.delta]) rfl, if_pos rfl]
  simp [life]

theorem Kept.not_complete_of_refused (h : Kept opened e frames text) (hev : ev.type = .toolStart)
    (hgrouped : Grouped opened (ev :: evs)) (hrefused : e.refuses ev ≠ none)
    (hc : e.tools.lookup ev.toolIndex = some c) :
    ¬ Complete (frames ++ e.frames (ev :: evs)) said := by
  intro hcomplete
  obtain ⟨hfollows, hrest⟩ := hgrouped
  obtain ⟨-, -, k, hmarks⟩ := h.calls.known _ c hc
  rw [hfollows.1 hev] at hmarks
  have hpush : e.push ev = (e, []) := by
    rw [push_toolStart hev, if_neg hrefused]
  have hopened : openedBy opened ev ev.toolIndex = true := by
    unfold openedBy
    rw [if_pos hev, update_self]
  have hdone : .done ∈ marks c.item (e.frames evs) := done_of_opened hrest hopened hc
  -- the item is done twice
  have hcount := hcomplete.done c.item [] (replicate k Mark.delta ++ Mark.done ::
    marks c.item (e.frames evs)) (by
      rw [marks_append, hmarks, ResponsesEmitter.frames, hpush]
      simp [life])
  have hpos : 0 < (marks c.item (e.frames evs)).count .done := count_pos_iff.mpr hdone
  rw [count_append, count_cons_self] at hcount
  omega

theorem Kept.complete_iff (h : Kept opened e frames text) (hgrouped : Grouped opened evs) :
    Complete (frames ++ e.frames evs) (text ++ textOf evs) ↔
      Guarded (fun e ev => (e.push ev).1) ResponsesEmitter.Allows e evs := by
  induction evs generalizing opened e frames text with
  | nil =>
    refine ⟨fun _ => trivial, fun _ => ?_⟩
    show Complete _ (text ++ "")
    rw [append_empty]
    exact h.finish hgrouped
  | cons ev evs ih =>
    rw [guarded_cons]
    by_cases hallows : e.Allows ev
    · have hrest := ih (h.push hgrouped.1 hallows) hgrouped.2
      rw [List.append_assoc, String.append_assoc] at hrest
      rw [and_iff_right hallows, ← hrest, ResponsesEmitter.frames, textOf, List.map_cons,
        join_cons]
      rfl
    · refine iff_of_false (fun hcomplete => ?_) fun hall => hallows hall.1
      rcases not_and_or.mp hallows with htext | hstart
      · obtain ⟨hev, hdone⟩ := Classical.not_imp.mp htext
        exact h.not_complete_of_text hev (by simpa using hdone) hcomplete
      · obtain ⟨hev, hrefused⟩ := Classical.not_imp.mp hstart
        obtain ⟨hrefused, hsome⟩ := Classical.not_imp.mp hrefused
        obtain ⟨c, hc⟩ := Option.ne_none_iff_exists'.mp hsome
        exact h.not_complete_of_refused hev hgrouped hrefused hc hcomplete

end

/-- **A Responses stream loses no text, and every item that is added is done once with no delta
behind**, exactly when no text comes once the message is done and no start is refused at an index
that a call has had. -/
theorem complete_iff_allowed (evs : List StreamEvent) (hgrouped : Grouped (fun _ => false) evs) :
    Complete (ResponsesEmitter.transcript evs) (textOf evs) ↔
      Guarded (fun e ev => (e.push ev).1) ResponsesEmitter.Allows {} evs := by
  have h := Kept.initial.complete_iff hgrouped
  exact h

/-- A text, a call, and an end. -/
def spokenThenCalled : List StreamEvent :=
  [{ type := .text, text := "a" },
    { type := .toolStart, toolIndex := 0, toolID := "x", toolName := "f" },
    { type := .toolEnd, toolIndex := 0 }]

/-- A text that comes before the calls is complete. -/
theorem complete_iff_allowed_spokenThenCalled :
    Complete (ResponsesEmitter.transcript spokenThenCalled) "a" := by
  have hgrouped : Grouped (fun _ => false) spokenThenCalled := by
    refine ⟨⟨by decide, by decide⟩, ⟨by decide, by decide⟩, ⟨by decide, by decide⟩, fun i => ?_⟩
    simp [openedBy]
  refine (complete_iff_allowed spokenThenCalled hgrouped).mpr ⟨⟨?_, ?_⟩, ⟨?_, ?_⟩, ⟨?_, ?_⟩, trivial⟩
    <;> decide

/-- The same, and a text behind. -/
def spokenAgain : List StreamEvent := spokenThenCalled ++ [{ type := .text, text := "b" }]

/-- **A text behind a call is lost**: it is a delta of a message that is done, and no message that
is done contains it. -/
theorem text_behind_call_lost :
    Grouped (fun _ => false) spokenAgain ∧ textOf spokenAgain = "ab" ∧
      (ResponsesEmitter.transcript spokenAgain).filterMap ResponsesFrame.messageText = ["a"] ∧
      marks messageItem (ResponsesEmitter.transcript spokenAgain) =
        [.added, .delta, .done, .delta] ∧
      ¬ Complete (ResponsesEmitter.transcript spokenAgain) (textOf spokenAgain) := by
  have hmarks : marks messageItem (transcript spokenAgain) =
      [Mark.added, .delta] ++ Mark.done :: [.delta] := by decide +kernel
  refine ⟨⟨⟨by decide, by decide⟩, ⟨by decide, by decide⟩, ⟨by decide, by decide⟩,
    ⟨by decide, by decide⟩, fun i => ?_⟩, by decide +kernel, by decide +kernel, hmarks,
    fun hcomplete => ?_⟩
  · simp [openedBy]
  · exact hcomplete.delta _ _ _ hmarks (mem_singleton.mpr rfl)

end NexaRoute.Canonical
