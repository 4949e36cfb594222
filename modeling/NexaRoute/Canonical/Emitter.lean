import NexaRoute.Canonical.Stream
import NexaRoute.Go.Map

/-!
# Client stream emitters

`internal/protocol/canonical/stream.go` and `gemini_stream.go`, the writing side: an emitter turns
canonical events into the frames of a client's dialect. What an emitter does with an event is its
new state and the frames it writes, in order; a frame is written only while no write has failed.
The fields that every frame of a stream repeats (ids, model, sequence numbers) are left out.

## Main definitions

* `Client` — the emitters of the four dialects, with `emit` and `finish`
-/

namespace NexaRoute.Canonical

open Go
open Router (toLower)

/-- The bounds of the stream path. -/
def maxStreamTools : ℕ := 128

@[inherit_doc maxStreamTools]
def maxStreamToolIndex : ℤ := 4096

@[inherit_doc maxStreamTools]
def maxStreamToolName : ℕ := 1024

@[inherit_doc maxStreamTools]
def maxStreamArgsDelta : ℕ := 2 ^ 20

/-- The metadata of a tool call an emitter refuses. -/
def toolStartTooLarge (ev : StreamEvent) : Bool :=
  ev.toolIndex < 0 || maxStreamToolIndex < ev.toolIndex || maxStreamToolName < len ev.toolName

/-- The arguments of a tool call an emitter refuses. -/
def toolDeltaTooLarge (ev : StreamEvent) : Bool :=
  ev.toolIndex < 0 || maxStreamToolIndex < ev.toolIndex || maxStreamArgsDelta < len ev.argsDelta

/-! ### Anthropic -/

inductive AnthropicBlock
  | text
  | thinking
  | toolUse (id name : String)
  deriving DecidableEq, Repr

inductive AnthropicDelta
  | text (text : String)
  | thinking (thinking : String)
  | inputJSON (partialJSON : String)
  deriving DecidableEq, Repr

/-- The usage of `message_delta`; an absent count is not sent. -/
structure AnthropicFrameUsage where
  outputTokens : ℤ
  inputTokens : Option ℤ
  cacheReadTokens : Option ℤ
  cacheCreationTokens : Option ℤ
  deriving DecidableEq, Repr

inductive AnthropicFrame
  | messageStart
  | ping
  | blockStart (index : ℤ) (block : AnthropicBlock)
  | blockDelta (index : ℤ) (delta : AnthropicDelta)
  | blockStop (index : ℤ)
  | messageDelta (stop : StopReason) (usage : AnthropicFrameUsage)
  | messageStop
  | error (type message : String)
  deriving DecidableEq, Repr

/-- The usage of the last frame. -/
def Usage.anthropic (u : Usage) (seen : Bool) : AnthropicFrameUsage where
  outputTokens := u.outputTokens
  inputTokens := if seen ∨ 0 < u.inputTokens then some u.inputTokens else none
  cacheReadTokens := if 0 < u.cacheReadTokens then some u.cacheReadTokens else none
  cacheCreationTokens := if 0 < u.cacheWriteTokens then some u.cacheWriteTokens else none

structure AnthropicEmitter where
  blocks : Map ℤ ℤ := ∅
  nextIndex : ℤ := 0
  textOpen : Bool := false
  textIndex : ℤ := -1
  thinkOpen : Bool := false
  thinkIndex : ℤ := -1
  openBlocks : Map ℤ Bool := ∅
  usage : Usage := {}
  usageSeen : Bool := false
  stopReason : StopReason := .unset
  finished : Bool := false

def mapErrorType (code : String) : String :=
  let c := toLower code
  if c = "overloaded_error" ∨ c = "rate_limit_error" ∨ c = "invalid_request_error" ∨
      c = "authentication_error" then c
  else "api_error"

namespace AnthropicEmitter

def openBlock (e : AnthropicEmitter) (index : ℤ) (block : AnthropicBlock) :
    AnthropicEmitter × List AnthropicFrame :=
  ({ e with openBlocks := e.openBlocks.insert index true }, [.blockStart index block])

def closeBlock (e : AnthropicEmitter) (index : ℤ) : AnthropicEmitter × List AnthropicFrame :=
  if (e.openBlocks.lookup index).getD false then
    ({ e with openBlocks := e.openBlocks.insert index false }, [.blockStop index])
  else (e, [])

/-- Close the thinking block, if there is one. -/
def closeThinking (e : AnthropicEmitter) : AnthropicEmitter × List AnthropicFrame :=
  if e.thinkOpen then
    let (e, frames) := e.closeBlock e.thinkIndex
    ({ e with thinkOpen := false, thinkIndex := -1 }, frames)
  else (e, [])

/-- Close the text block, if there is one. -/
def closeText (e : AnthropicEmitter) : AnthropicEmitter × List AnthropicFrame :=
  if e.textOpen then
    let (e, frames) := e.closeBlock e.textIndex
    ({ e with textOpen := false, textIndex := -1 }, frames)
  else (e, [])

/-- A count that is kept when a new one is not positive. -/
def merged (old new : ℤ) : ℤ := if 0 < new then new else old

/-- The usage a start event brings. -/
def observeStart (e : AnthropicEmitter) (u : Usage) : AnthropicEmitter :=
  { e with
    usage := { e.usage with
      inputTokens := merged e.usage.inputTokens u.inputTokens
      cacheReadTokens := merged e.usage.cacheReadTokens u.cacheReadTokens
      cacheWriteTokens := merged e.usage.cacheWriteTokens u.cacheWriteTokens }
    usageSeen := e.usageSeen || 0 < u.inputTokens || 0 < u.cacheReadTokens ||
      0 < u.cacheWriteTokens }

/-- The usage a usage event brings. -/
def observeUsage (e : AnthropicEmitter) (u : Usage) : AnthropicEmitter :=
  { e with
    usage := { e.usage with
      inputTokens := merged e.usage.inputTokens u.inputTokens
      outputTokens := merged e.usage.outputTokens u.outputTokens
      cacheReadTokens := merged e.usage.cacheReadTokens u.cacheReadTokens
      cacheWriteTokens := merged e.usage.cacheWriteTokens u.cacheWriteTokens }
    usageSeen := true }

/-- The start of a tool call: a block of its own. -/
def startTool (e : AnthropicEmitter) (toolIndex : ℤ) (toolID toolName : String) :
    AnthropicEmitter × List AnthropicFrame :=
  let (e, closedThinking) := e.closeThinking
  let (e, closedText) := e.closeText
  let idx := e.nextIndex
  let id := if toolID = "" then "toolu_" ++ toString idx else toolID
  let e := { e with nextIndex := idx + 1, blocks := e.blocks.insert toolIndex idx }
  let (e, opened) := e.openBlock idx (.toolUse id toolName)
  (e, closedThinking ++ closedText ++ opened)

def emit (e : AnthropicEmitter) (ev : StreamEvent) : AnthropicEmitter × List AnthropicFrame :=
  match ev.type with
  | .start =>
    match ev.usage with
    | none => (e, [])
    | some u => (e.observeStart u, [])
  | .text =>
    if e.textOpen then (e, [.blockDelta e.textIndex (.text ev.text)])
    else
      let (e, closed) := e.closeThinking
      let e := { e with textOpen := true, textIndex := e.nextIndex }
      let (e, opened) := e.openBlock e.textIndex .text
      let e := { e with nextIndex := e.nextIndex + 1 }
      (e, closed ++ opened ++ [.blockDelta e.textIndex (.text ev.text)])
  | .thinking =>
    if e.thinkOpen then (e, [.blockDelta e.thinkIndex (.thinking ev.text)])
    else
      let (e, closed) := e.closeText
      let e := { e with thinkOpen := true, thinkIndex := e.nextIndex }
      let (e, opened) := e.openBlock e.thinkIndex .thinking
      let e := { e with nextIndex := e.nextIndex + 1 }
      (e, closed ++ opened ++ [.blockDelta e.thinkIndex (.thinking ev.text)])
  | .toolStart => e.startTool ev.toolIndex ev.toolID ev.toolName
  | .toolDelta =>
    match e.blocks.lookup ev.toolIndex with
    | some idx => (e, [.blockDelta idx (.inputJSON ev.argsDelta)])
    | none =>
      let (e, started) := e.startTool ev.toolIndex "" ev.toolName
      let idx := (e.blocks.lookup ev.toolIndex).getD 0
      (e, started ++ [.blockDelta idx (.inputJSON ev.argsDelta)])
  | .toolEnd =>
    match e.blocks.lookup ev.toolIndex with
    | some idx => e.closeBlock idx
    | none => (e, [])
  | .usage =>
    match ev.usage with
    | none => (e, [])
    | some u => (e.observeUsage u, [])
  | .stop => (if ev.stopReason = .unset then e else { e with stopReason := ev.stopReason }, [])
  | .error => (e, [.error (mapErrorType ev.errorCode) ev.errorMsg])

def stillOpen (e : AnthropicEmitter) : List ℤ :=
  (e.openBlocks.entries.filter fun b => b.2).map (·.1)

def finish (e : AnthropicEmitter) : AnthropicEmitter × List AnthropicFrame :=
  if e.finished then (e, [])
  else
    let e := { e with finished := true }
    let (e, closedThinking) := e.closeThinking
    let (e, closedText) := e.closeText
    let closedTools := e.stillOpen.map AnthropicFrame.blockStop
    let e := { e with openBlocks := e.openBlocks.mapVals fun _ _ => false }
    let stop := if e.stopReason = .unset then .endTurn else e.stopReason
    (e, closedThinking ++ closedText ++ closedTools ++
      [.messageDelta stop (e.usage.anthropic e.usageSeen), .messageStop])

end AnthropicEmitter

/-! ### OpenAI Chat Completions -/

inductive OpenAIFrame
  | role
  | content (text : String)
  | reasoningContent (text : String)
  | toolStart (index : ℤ) (id name : String)
  | toolArguments (index : ℤ) (arguments : String)
  | final (finishReason : String) (usage : Option Usage)
  | done
  | error (message type : String)
  deriving DecidableEq, Repr

structure OpenAIEmitter where
  emittedAny : Bool := false
  finishReason : String := ""
  usage : Option Usage := none
  finished : Bool := false

def openAIFinish : StopReason → String
  | .toolUse => "tool_calls"
  | .maxTokens => "length"
  | .refusal => "content_filter"
  | _ => "stop"

/-- The id of a call that came without one. -/
def callID (toolID : String) (toolIndex : ℤ) : String :=
  if toolID = "" then "call_" ++ toString toolIndex else toolID

namespace OpenAIEmitter

def emit (e : OpenAIEmitter) (ev : StreamEvent) :
    Except String (OpenAIEmitter × List OpenAIFrame) :=
  match ev.type with
  | .start => .ok (e, [.role])
  | .text => .ok ({ e with emittedAny := true }, [.content ev.text])
  | .thinking => .ok (e, [.reasoningContent ev.text])
  | .toolStart =>
    if toolStartTooLarge ev then .error "stream tool metadata exceeds safe limit"
    else .ok ({ e with emittedAny := true },
      [.toolStart ev.toolIndex (callID ev.toolID ev.toolIndex) ev.toolName])
  | .toolDelta =>
    if toolDeltaTooLarge ev then .error "stream tool delta exceeds safe limit"
    else .ok ({ e with emittedAny := true }, [.toolArguments ev.toolIndex ev.argsDelta])
  | .toolEnd => .ok (e, [])
  | .usage => .ok ({ e with usage := ev.usage }, [])
  | .stop => .ok ({ e with finishReason := openAIFinish ev.stopReason }, [])
  | .error => .ok (e, [.error ev.errorMsg ev.errorCode])

def finish (e : OpenAIEmitter) : OpenAIEmitter × List OpenAIFrame :=
  if e.finished then (e, [])
  else ({ e with finished := true },
    (if e.emittedAny then [] else [.role]) ++ [.final e.finishReason e.usage, .done])

end OpenAIEmitter

/-! ### OpenAI Responses -/

inductive ResponsesFrame
  | created
  | inProgress
  | textDelta (delta : String)
  | reasoningDelta (delta : String)
  | callAdded (outputIndex : ℤ) (callID name : String)
  | argumentsDelta (outputIndex : ℤ) (callID delta : String)
  | argumentsDone (outputIndex : ℤ) (callID name arguments : String)
  | callDone (outputIndex : ℤ) (callID name arguments : String)
  | messageAdded
  | partAdded
  | textDone (text : String)
  | partDone (text : String)
  | messageDone (text : String)
  | completed (status : String) (usage : Usage)
  | failed (code message : String)
  deriving DecidableEq, Repr

/-- A call the emitter has announced. -/
structure ResponsesCall where
  callID : String
  outputIndex : ℤ
  name : String
  arguments : String

/-- `responsesEmitter`. The four maps of the source that are written together are one. -/
structure ResponsesEmitter where
  tools : Map ℤ ResponsesCall := ∅
  nextOutIdx : ℤ := 1
  usage : Option Usage := none
  stop : StopReason := .unset
  msgOpen : Bool := false
  msgDone : Bool := false
  msgText : String := ""
  finished : Bool := false

namespace ResponsesEmitter

def observeUsage (e : ResponsesEmitter) : Option Usage → ResponsesEmitter
  | none => e
  | some u =>
    let old := e.usage.getD {}
    { e with usage := some { old with
        inputTokens := max old.inputTokens u.inputTokens
        outputTokens := max old.outputTokens u.outputTokens
        cacheReadTokens := max old.cacheReadTokens u.cacheReadTokens
        reasoningTokens := max old.reasoningTokens u.reasoningTokens } }

def openMessage (e : ResponsesEmitter) : ResponsesEmitter × List ResponsesFrame :=
  if e.msgOpen then (e, [])
  else ({ e with msgOpen := true }, [.messageAdded, .partAdded])

def closeMessage (e : ResponsesEmitter) : ResponsesEmitter × List ResponsesFrame :=
  if !e.msgOpen || e.msgDone then (e, [])
  else ({ e with msgDone := true },
    [.textDone e.msgText, .partDone e.msgText, .messageDone e.msgText])

/-- Whether `Emit` refuses the start of a tool call. -/
def refuses (e : ResponsesEmitter) (ev : StreamEvent) : Option String :=
  if toolStartTooLarge ev then some "stream tool metadata exceeds safe limit"
  else if (e.tools.lookup ev.toolIndex).isNone ∧ maxStreamTools ≤ e.tools.len then
    some ("stream exceeds safe tool count " ++ toString maxStreamTools)
  else none

/-- The start of a tool call: an output item of its own. -/
def startTool (e : ResponsesEmitter) (ev : StreamEvent) : ResponsesEmitter × List ResponsesFrame :=
  let (e, closed) := e.closeMessage
  let id := callID ev.toolID ev.toolIndex
  let outIdx := e.nextOutIdx
  ({ e with
      nextOutIdx := outIdx + 1
      tools := e.tools.insert ev.toolIndex ⟨id, outIdx, ev.toolName, ""⟩ },
    closed ++ [.callAdded outIdx id ev.toolName])

def emit (e : ResponsesEmitter) (ev : StreamEvent) :
    Except String (ResponsesEmitter × List ResponsesFrame) :=
  match ev.type with
  | .start => .ok (e.observeUsage ev.usage, [])
  | .text =>
    let (e, opened) := e.openMessage
    .ok ({ e with msgText := e.msgText ++ ev.text }, opened ++ [.textDelta ev.text])
  | .thinking => .ok (e, [.reasoningDelta ev.text])
  | .toolStart =>
    match e.refuses ev with
    | some err => .error err
    | none => .ok (e.startTool ev)
  | .toolDelta =>
    if toolDeltaTooLarge ev then .error "stream tool delta exceeds safe limit"
    else match e.tools.lookup ev.toolIndex with
      | none => .error "stream tool delta arrived before tool start"
      | some c =>
        .ok ({ e with tools :=
            e.tools.insert ev.toolIndex { c with arguments := c.arguments ++ ev.argsDelta } },
          [.argumentsDelta c.outputIndex c.callID ev.argsDelta])
  | .toolEnd =>
    match e.tools.lookup ev.toolIndex with
    | none => .error "stream tool end arrived before tool start"
    | some c => .ok (e, [.argumentsDone c.outputIndex c.callID c.name c.arguments,
        .callDone c.outputIndex c.callID c.name c.arguments])
  | .usage => .ok (e.observeUsage ev.usage, [])
  | .stop => .ok ({ e with stop := ev.stopReason }, [])
  | .error => .ok (e, [.failed ev.errorCode ev.errorMsg])

def finish (e : ResponsesEmitter) : ResponsesEmitter × List ResponsesFrame :=
  if e.finished then (e, [])
  else
    let (e, closed) := { e with finished := true }.closeMessage
    let status := if e.stop = .maxTokens ∨ e.stop = .refusal then "incomplete" else "completed"
    (e, closed ++ [.completed status (e.usage.getD {})])

end ResponsesEmitter

/-! ### Gemini -/

inductive GeminiFrame
  | text (text : String)
  | thought (text : String)
  | functionCall (name args : String)
  | final (finishReason : String) (usage : Option Usage)
  deriving DecidableEq, Repr

structure GeminiEmitter where
  stopReason : StopReason := .unset
  stopSeen : Bool := false
  usage : Usage := {}
  usageSeen : Bool := false
  toolArgs : Map ℤ String := ∅
  toolNames : Map ℤ String := ∅
  finished : Bool := false

/-- Whether a text decodes into a `map[string]any`. -/
def isObject (args : String) : Bool :=
  match parseJSON (bytes args) with
  | none => false
  | some doc => decide (doc.depth ≤ maxNestingDepth) && Kind.object.fits doc

/-- The arguments of a function call: those that were given, or none. -/
def objectText (args : String) : String :=
  if trimSpace args = "" then emptyObject else trimSpace args

def stopReasonToGeminiFinish : StopReason → String
  | .maxTokens => "MAX_TOKENS"
  | .refusal => "SAFETY"
  | _ => "STOP"

namespace GeminiEmitter

/-- The usage of an event replaces the usage so far. -/
def observeUsage (e : GeminiEmitter) : Option Usage → GeminiEmitter
  | none => e
  | some u => { e with usage := u, usageSeen := true }

def emit (e : GeminiEmitter) (ev : StreamEvent) : Except String (GeminiEmitter × List GeminiFrame) :=
  match ev.type with
  | .start => .ok (e.observeUsage ev.usage, [])
  | .text => .ok (e, if ev.text = "" then [] else [.text ev.text])
  | .thinking => .ok (e, if ev.text = "" then [] else [.thought ev.text])
  | .toolStart =>
    if toolStartTooLarge ev then .error "stream tool metadata exceeds safe limit"
    else if (e.toolArgs.lookup ev.toolIndex).isNone ∧ maxStreamTools ≤ e.toolArgs.len then
      .error ("stream exceeds safe tool count " ++ toString maxStreamTools)
    else .ok ({ e with
        toolArgs := match e.toolArgs.lookup ev.toolIndex with
          | some _ => e.toolArgs
          | none => e.toolArgs.insert ev.toolIndex ""
        toolNames := if ev.toolName = "" then e.toolNames
          else e.toolNames.insert ev.toolIndex ev.toolName }, [])
  | .toolDelta =>
    match e.toolArgs.lookup ev.toolIndex with
    | none => .error "stream tool delta arrived before tool start"
    | some b =>
      if ev.argsFinal ∧ b ≠ "" then .ok (e, [])
      else .ok ({ e with toolArgs := e.toolArgs.insert ev.toolIndex (b ++ ev.argsDelta) }, [])
  | .toolEnd =>
    match e.toolArgs.lookup ev.toolIndex with
    | none => .error "stream tool end arrived before tool start"
    | some b =>
      if isObject (objectText b) then
        .ok ({ e with
            toolArgs := e.toolArgs.erase ev.toolIndex
            toolNames := e.toolNames.erase ev.toolIndex },
          [.functionCall ((e.toolNames.lookup ev.toolIndex).getD "") (objectText b)])
      else .error "stream tool arguments must be a JSON object"
  | .usage => .ok (e.observeUsage ev.usage, [])
  | .stop => .ok ({ e with stopReason := ev.stopReason, stopSeen := true }, [])
  -- the dialect has no error frame: the client sees a stream that breaks off
  | .error => .ok (e, [])

def finish (e : GeminiEmitter) : GeminiEmitter × List GeminiFrame :=
  if e.finished then (e, [])
  else
    let reason := if !e.stopSeen || e.stopReason = .unset then .endTurn else e.stopReason
    ({ e with finished := true },
      [.final (stopReasonToGeminiFinish reason)
        (if e.usageSeen ∧ (0 < e.usage.inputTokens ∨ 0 < e.usage.outputTokens) then some e.usage
        else none)])

end GeminiEmitter

/-! ### Clients -/

inductive ClientProtocol
  | anthropic
  | openAIChat
  | openAIResponses
  | gemini
  deriving DecidableEq, Repr

/-- A frame of some dialect. -/
inductive ClientFrame
  | anthropic (f : AnthropicFrame)
  | openAI (f : OpenAIFrame)
  | responses (f : ResponsesFrame)
  | gemini (f : GeminiFrame)
  deriving DecidableEq, Repr

/-- The emitter of some dialect. -/
inductive Emitter
  | anthropic (e : AnthropicEmitter)
  | openAI (e : OpenAIEmitter)
  | responses (e : ResponsesEmitter)
  | gemini (e : GeminiEmitter)

/-- `NewStreamEmitter`, with what the constructor writes. -/
def newStreamEmitter : ClientProtocol → Emitter × List ClientFrame
  | .anthropic => (.anthropic {}, [.anthropic .messageStart, .anthropic .ping])
  | .openAIChat => (.openAI {}, [])
  | .openAIResponses => (.responses {}, [.responses .created, .responses .inProgress])
  | .gemini => (.gemini {}, [])

/-- What an emitter makes of an event. -/
def Emitter.emit : Emitter → StreamEvent → Except String (Emitter × List ClientFrame)
  | .anthropic e, ev => .ok (.anthropic (e.emit ev).1, (e.emit ev).2.map .anthropic)
  | .openAI e, ev => (e.emit ev).map fun r => (.openAI r.1, r.2.map .openAI)
  | .responses e, ev => (e.emit ev).map fun r => (.responses r.1, r.2.map .responses)
  | .gemini e, ev => (e.emit ev).map fun r => (.gemini r.1, r.2.map .gemini)

/-- What an emitter adds at the end. -/
def Emitter.finish : Emitter → Emitter × List ClientFrame
  | .anthropic e => (.anthropic e.finish.1, e.finish.2.map .anthropic)
  | .openAI e => (.openAI e.finish.1, e.finish.2.map .openAI)
  | .responses e => (.responses e.finish.1, e.finish.2.map .responses)
  | .gemini e => (.gemini e.finish.1, e.finish.2.map .gemini)

/-- The connection to a client: what was written, the error of the first write that failed, and the
write that will fail. -/
structure Writer where
  out : List ClientFrame := []
  writeErr : Option String := none
  failsAt : Option (ℕ × String) := none

namespace Writer

/-- Write a frame, unless a write has failed. -/
def write (w : Writer) (f : ClientFrame) : Writer :=
  match w.writeErr, w.failsAt with
  | some _, _ => w
  | none, none => { w with out := w.out ++ [f] }
  | none, some (n, err) =>
    if w.out.length = n then { w with writeErr := some err } else { w with out := w.out ++ [f] }

/-- Write frames in order. -/
def writeAll (w : Writer) (frames : List ClientFrame) : Writer := frames.foldl write w

/-- Whether something was written, or was to be. -/
def touched (w : Writer) : Bool := !w.out.isEmpty || w.writeErr.isSome

end Writer

/-- An emitter and its connection. -/
structure Client where
  emitter : Emitter
  writer : Writer

namespace Client

/-- `NewStreamEmitter`. -/
def new (protocol : ClientProtocol) (w : Writer) : Client :=
  ⟨(newStreamEmitter protocol).1, w.writeAll (newStreamEmitter protocol).2⟩

def emit (c : Client) (ev : StreamEvent) : Client × Option String :=
  match c.writer.writeErr with
  | some err => (c, some err)
  | none =>
    match c.emitter.emit ev with
    | .error err => (c, some err)
    | .ok (emitter, frames) =>
      let w := c.writer.writeAll frames
      (⟨emitter, w⟩, w.writeErr)

def finish (c : Client) : Client × Option String :=
  match c.writer.writeErr with
  | some err => (c, some err)
  | none =>
    let w := c.writer.writeAll c.emitter.finish.2
    (⟨c.emitter.finish.1, w⟩, w.writeErr)

end Client

/-! ### What is written -/

namespace Writer

variable {w : Writer} {frames : List ClientFrame}

theorem writeErr_writeAll_of_some {err : String} (h : w.writeErr = some err) :
    (w.writeAll frames).writeErr = some err := by
  induction frames generalizing w with
  | nil => exact h
  | cons f frames ih =>
    refine ih ?_
    unfold write
    simp only [h]

theorem out_writeAll (h : (w.writeAll frames).writeErr = none) :
    (w.writeAll frames).out = w.out ++ frames := by
  induction frames generalizing w with
  | nil => exact (List.append_nil _).symm
  | cons f frames ih =>
    have hf : (w.write f).writeErr = none := by
      cases hw : (w.write f).writeErr with
      | none => rfl
      | some err =>
        rw [writeAll, List.foldl_cons] at h
        have hkept : ((w.write f).writeAll frames).writeErr = some err :=
          writeErr_writeAll_of_some hw
        rw [writeAll, h] at hkept
        cases hkept
    have hout : (w.write f).out = w.out ++ [f] := by
      cases hw : w.writeErr with
      | some err =>
        rw [write, hw] at hf
        exact absurd (hw.symm.trans hf) (by simp)
      | none =>
        cases hfail : w.failsAt with
        | none => simp [write, hw, hfail]
        | some fail =>
          simp only [write, hw, hfail] at hf ⊢
          split at hf
          · cases hf
          · next hn => rw [if_neg hn]
    have hrest : ((w.write f).writeAll frames).out = (w.write f).out ++ frames := ih h
    exact hrest.trans (by rw [hout]; simp)

end Writer

namespace Client

variable {c c' : Client} {ev : StreamEvent}

/-- **What an event writes**, when `Emit` returns no error. -/
theorem out_of_emit (h : c.emit ev = (c', none)) :
    c.writer.writeErr = none ∧ ∃ frames, c.emitter.emit ev = .ok (c'.emitter, frames) ∧
      c'.writer.out = c.writer.out ++ frames := by
  unfold emit at h
  split at h
  · cases h
  · next hw =>
    split at h
    · cases h
    · next emitter frames hemit =>
      obtain ⟨hc, herr⟩ := Prod.mk.inj h
      subst hc
      exact ⟨hw, frames, hemit, Writer.out_writeAll herr⟩

theorem out_of_finish (h : c.finish = (c', none)) :
    c.writer.writeErr = none ∧ c'.writer.out = c.writer.out ++ c.emitter.finish.2 := by
  unfold finish at h
  split at h
  · cases h
  · next hw =>
    obtain ⟨hc, herr⟩ := Prod.mk.inj h
    subst hc
    exact ⟨hw, Writer.out_writeAll herr⟩

end Client

end NexaRoute.Canonical
