import NexaRoute.Canonical.Emitter
import NexaRoute.Machine

/-!
# The stream pump

`canonicalStreamPump` of `internal/httpapi/canonical_path.go` reads the events of an upstream and
hands them to the emitter of a client. Tool calls are held back until they are complete: their
start and the fragments of their arguments are buffered by index, and a call is emitted when its end
comes, or the end of the stream. The checks of a complete call (`validation.go`) are a parameter.

The loop ends early in several ways, all of which return an error; `Except` stops it, with the
state that was reached.

## Main definitions

* `PumpConfig`, `Pump` — what the loop is given, and its variables
* `Pump.handleEvent`, `Pump.handleFrame` — the body of the loop
* `canonicalStreamPump`, `pumpUpstream` — the loop over the frames of a stream, and its end

## Main results

* `Pump.Rule.run` — the rule for what holds of the client all along the loop
-/

namespace NexaRoute.Canonical

open Go Machine

/-- How a body ends: cleanly, or with an error of the reader. -/
inductive Ending
  | eof
  | failed (err : String)
  deriving DecidableEq, Repr

/-! ### The pump -/

/-- What the pump is given. `validate` is `ValidateResponseBlocks` for one call, by name and
arguments; `failoverAware` is whether the writer tells if it is committed, and `committed` what it
tells before the pump writes; `writer` is the connection. -/
structure PumpConfig where
  kind : UpstreamKind
  client : ClientProtocol
  validate : String → String → Option String
  failoverAware : Bool
  committed : Bool
  writer : Writer

/-- The start of a call that is held back. -/
structure PendingTool where
  toolIndex : ℤ
  toolID : String
  toolName : String

def PendingTool.event (t : PendingTool) : StreamEvent :=
  { type := .toolStart, toolIndex := t.toolIndex, toolID := t.toolID, toolName := t.toolName }

/-- The variables of the pump. `emitted` is not one of them: it lists the events that the emitter
has accepted. -/
structure Pump where
  client : Option Client := none
  emitted : List StreamEvent := []
  terminal : Bool := false
  usage : Usage := {}
  usageSeen : Bool := false
  anthropicToolBlocks : Map ℤ Bool := ∅
  assembledArgs : Map ℤ String := ∅
  toolNames : Map ℤ String := ∅
  pendingToolStarts : Map ℤ PendingTool := ∅
  pendingToolOrder : List ℤ := []

/-- The end of the loop before its time: the state, and the error that is returned. -/
abbrev Stopped := Except (Pump × String) Pump

def EventType.isTool : EventType → Bool
  | .toolStart | .toolDelta | .toolEnd => true
  | _ => false

namespace Pump

variable (cfg : PumpConfig)

def ensureEmitter (st : Pump) : Client := st.client.getD (Client.new cfg.client cfg.writer)

/-- Hand an event to the emitter. -/
def emit (st : Pump) (ev : StreamEvent) : Stopped :=
  match (st.ensureEmitter cfg).emit ev with
  | (c, none) => .ok { st with client := some c, emitted := st.emitted ++ [ev] }
  | (c, some err) => .error ({ st with client := some c }, err)

def emitTerminalError (st : Pump) (code msg : String) : Pump :=
  let ev : StreamEvent := { type := .error, errorCode := code, errorMsg := msg }
  match st.client with
  | some c =>
    if c.writer.touched || cfg.committed || !cfg.failoverAware then
      { st with client := some (c.emit ev).1 }
    else st
  | none =>
    if cfg.failoverAware then st
    else { st with client := some ((Client.new cfg.client cfg.writer).emit ev).1 }

/-- End the loop with an error that the client may be told. -/
def fail (st : Pump) (code msg err : String) : Stopped := .error (st.emitTerminalError cfg code msg, err)

/-- The arguments of a call so far. -/
def argsOf (st : Pump) (index : ℤ) : String := (st.assembledArgs.lookup index).getD ""

/-- The name of a call so far. -/
def nameOf (st : Pump) (index : ℤ) : String := (st.toolNames.lookup index).getD ""

def ensurePendingTool (st : Pump) (ev : StreamEvent) : Pump :=
  let i := ev.toolIndex
  { st with
    pendingToolStarts := st.pendingToolStarts.insertNew i ⟨i, ev.toolID, ev.toolName⟩
    pendingToolOrder := if (st.pendingToolStarts.lookup i).isSome then st.pendingToolOrder
      else st.pendingToolOrder ++ [i]
    assembledArgs := st.assembledArgs.insertNew i ""
    toolNames := if ev.toolName = "" then st.toolNames else st.toolNames.insert i ev.toolName }

/-- A fragment of the arguments. The complete arguments count only where no fragment came. -/
def appendArgs (st : Pump) (ev : StreamEvent) : Stopped :=
  let i := ev.toolIndex
  if ev.argsFinal ∧ st.argsOf i ≠ "" then .ok st
  else if 2 ^ 20 < len (st.argsOf i) + len ev.argsDelta then
    let kind := cfg.kind.name
    let msg := "tool=" ++ st.nameOf i ++ " field=arguments expected=object actual=too_large stage=" ++
      kind ++ "_to_canonical protocol=" ++ kind ++ " streaming=true provider=" ++ kind ++
      ": args exceed 1MB limit"
    st.fail cfg "invalid_request_error" msg msg
  else .ok { st with assembledArgs := st.assembledArgs.insert i (st.argsOf i ++ ev.argsDelta) }

/-- The arguments of a call, in one event. -/
def emitArgs (st : Pump) (i : ℤ) (name args : String) : Stopped :=
  if args = "" then .ok st
  else st.emit cfg { type := .toolDelta, toolIndex := i, toolName := name, argsDelta := args }

def emitValidatedTool (st : Pump) (i : ℤ) : Stopped :=
  match st.pendingToolStarts.lookup i with
  | none => .ok st
  | some start => do
    let name := st.nameOf i
    let args := st.argsOf i
    let st ← st.emit cfg { start with toolName := name }.event
    let st ← st.emitArgs cfg i name args
    let st ← st.emit cfg { type := .toolEnd, toolIndex := i, toolName := name }
    .ok { st with
      pendingToolStarts := st.pendingToolStarts.erase i
      assembledArgs := st.assembledArgs.erase i
      toolNames := st.toolNames.erase i }

/-- Check a call that is complete, and emit it. -/
def completeTool (st : Pump) (i : ℤ) : Stopped :=
  match cfg.validate (st.nameOf i) (st.argsOf i) with
  | some err => st.fail cfg "invalid_request_error" err err
  | none => st.emitValidatedTool cfg i

/-- Complete a call at the end of the stream, if it is still held back. -/
def flushTool (st : Pump) (i : ℤ) : Stopped :=
  match st.pendingToolStarts.lookup i with
  | none => .ok st
  | some _ => st.completeTool cfg i

/-- The usage an event reports. -/
def observe (st : Pump) (ev : StreamEvent) : Pump :=
  match ev.usage with
  | none => st
  | some u =>
    { st with
      usage := { st.usage with
        inputTokens := max st.usage.inputTokens u.inputTokens
        outputTokens := max st.usage.outputTokens u.outputTokens
        cacheReadTokens := max st.usage.cacheReadTokens u.cacheReadTokens
        cacheWriteTokens := max st.usage.cacheWriteTokens u.cacheWriteTokens }
      usageSeen := st.usageSeen || 0 < u.inputTokens || 0 < u.outputTokens }

/-- The tool blocks of an Anthropic stream: the end of a block counts only if a tool call began
there. -/
def gateBlock (st : Pump) (ev : StreamEvent) : Option Pump :=
  if cfg.kind = .anthropic then
    match ev.type with
    | .toolStart =>
      some { st with anthropicToolBlocks := st.anthropicToolBlocks.insert ev.toolIndex true }
    | .toolEnd =>
      if (st.anthropicToolBlocks.lookup ev.toolIndex).getD false then
        some { st with anthropicToolBlocks := st.anthropicToolBlocks.erase ev.toolIndex }
      else none
    | _ => some st
  else some st

/-- What the pump does with an event it takes. -/
def takeEvent (st : Pump) (ev : StreamEvent) : Stopped :=
  match ev.type with
  | .toolStart => .ok ((st.ensurePendingTool ev).observe ev)
  | .toolDelta => do
    let st ← (st.ensurePendingTool ev).appendArgs cfg ev
    .ok (st.observe ev)
  | .toolEnd => do
    let st ← st.completeTool cfg ev.toolIndex
    .ok (st.observe ev)
  | .stop => do
    let st ← st.pendingToolOrder.foldlM (flushTool cfg) st
    emit cfg { st.observe ev with terminal := true } ev
  | _ => (st.observe ev).emit cfg ev

/-- The body of the loop over the events of a frame; `frameTerminal` is whether the stream had ended
before the frame. -/
def handleEvent (frameTerminal : Bool) (st : Pump) (ev : StreamEvent) : Stopped :=
  if ev.type = .error then
    .error (st.emitTerminalError cfg ev.errorCode ev.errorMsg, "upstream stream error: " ++ ev.errorMsg)
  else if cfg.kind = .anthropic ∧ ev.type = .stop ∧ st.terminal then .ok st
  else if frameTerminal ∧ ev.type.isTool then .ok st
  else match st.gateBlock cfg ev with
    | none => .ok st
    | some st => st.takeEvent cfg ev

/-- The body of the loop over the frames. -/
def handleFrame (st : Pump) : Decoded → Stopped
  | .error err => st.fail cfg "" ("upstream stream protocol violation: " ++ err) err
  | .ok (evs, ends) =>
    evs.foldlM (handleEvent cfg st.terminal) { st with terminal := st.terminal || ends }

end Pump

/-- What the pump leaves: its variables, the error it returns, and the usage it reports. -/
structure PumpResult where
  pump : Pump
  err : Option String
  billed : Option Usage := none

/-- What was written to the client. -/
def PumpResult.out (r : PumpResult) : List ClientFrame :=
  match r.pump.client with
  | none => []
  | some c => c.writer.out

/-- `canonicalStreamPump`, from what the decoder makes of the frames. -/
def canonicalStreamPump (cfg : PumpConfig) (frames : List Decoded) (ending : Ending) : PumpResult :=
  match frames.foldlM (Pump.handleFrame cfg) {} with
  | .error (st, err) => ⟨st, some err, none⟩
  | .ok st =>
    match ending with
    | .failed err =>
      ⟨if st.terminal then st
        else st.emitTerminalError cfg "" ("upstream stream read failed: " ++ err), some err, none⟩
    | .eof =>
      if st.terminal then
        let (c, err) := (st.ensureEmitter cfg).finish
        ⟨{ st with client := some c }, err,
          if err.isNone ∧ st.usageSeen then some st.usage else none⟩
      else ⟨st.emitTerminalError cfg "" "upstream stream ended before completion",
        some "unexpected EOF", none⟩

/-- The pump on the payloads of an upstream, configured for its kind. -/
def pumpUpstream (cfg : PumpConfig) (u : Upstream) (ending : Ending) : PumpResult :=
  canonicalStreamPump { cfg with kind := u.kind } u.decoded ending

/-! ### What the loop preserves -/

/-- What is to be shown of the client and of the events it was handed, `P` while the loop goes on and
`Q` where it stops: an event keeps it, or stops the loop, and the loop may end with an error. -/
structure Pump.Rule (cfg : PumpConfig) (P : Pump → Prop) (Q : Pump × String → Prop) : Prop where
  keep : ∀ st st' : Pump, P st → st'.client = st.client → st'.emitted = st.emitted → P st'
  emit : ∀ (st : Pump) (ev : StreamEvent), P st → ev.type ≠ .error → Ensures P Q (st.emit cfg ev)
  fail : ∀ (st : Pump) (code msg err : String), P st → Q (st.emitTerminalError cfg code msg, err)

namespace Pump.Rule

variable {cfg : PumpConfig} {P : Pump → Prop} {Q : Pump × String → Prop} {st : Pump}
  {ev : StreamEvent}

variable (r : Rule cfg P Q)

include r

section

variable (h : P st)

include h

theorem observe : P (st.observe ev) := by
  refine r.keep st _ h ?_ ?_ <;>
  · unfold Pump.observe
    split <;> rfl

theorem emitValidatedTool (i : ℤ) : Ensures P Q (st.emitValidatedTool cfg i) := by
  unfold Pump.emitValidatedTool
  split
  · exact h
  · refine (r.emit _ _ h (by simp [PendingTool.event])).bind fun st₁ h₁ => ?_
    have hargs : Ensures P Q (st₁.emitArgs cfg i (st.nameOf i) (st.argsOf i)) := by
      unfold emitArgs
      split
      · exact h₁
      · exact r.emit _ _ h₁ (by simp)
    refine hargs.bind fun st₂ h₂ => (r.emit _ _ h₂ (by simp)).bind fun st₃ h₃ => ?_
    exact r.keep st₃ _ h₃ rfl rfl

theorem completeTool (i : ℤ) : Ensures P Q (st.completeTool cfg i) := by
  unfold Pump.completeTool
  split
  · exact r.fail st _ _ _ h
  · exact r.emitValidatedTool h i

theorem flushTool (i : ℤ) : Ensures P Q (st.flushTool cfg i) := by
  unfold Pump.flushTool
  split
  · exact h
  · exact r.completeTool h i

theorem appendArgs : Ensures P Q (st.appendArgs cfg ev) := by
  unfold Pump.appendArgs
  simp only
  split
  · exact h
  · split
    · exact r.fail st _ _ _ h
    · exact r.keep st _ h rfl rfl

theorem takeEvent (hev : ev.type ≠ .error) : Ensures P Q (st.takeEvent cfg ev) := by
  have hpending : P (st.ensurePendingTool ev) := r.keep st _ h rfl rfl
  unfold Pump.takeEvent
  split
  · exact r.observe hpending
  · exact (r.appendArgs hpending).bind fun st₁ h₁ => r.observe h₁
  · exact (r.completeTool h _).bind fun st₁ h₁ => r.observe h₁
  · refine (Ensures.foldlM (fun _ i h => r.flushTool h i) h).bind fun st₁ h₁ => ?_
    exact r.emit _ _ (r.keep (st₁.observe ev) _ (r.observe h₁) rfl rfl) hev
  · exact r.emit _ _ (r.observe h) hev

theorem handleEvent (frameTerminal : Bool) (ev : StreamEvent) :
    Ensures P Q (st.handleEvent cfg frameTerminal ev) := by
  have hgate : ∀ st₁, st.gateBlock cfg ev = some st₁ → P st₁ := by
    intro st₁ hst
    unfold Pump.gateBlock at hst
    refine r.keep st st₁ h ?_ ?_ <;>
    · split at hst
      · split at hst
        · cases hst; rfl
        · split at hst
          · cases hst; rfl
          · cases hst
        · cases hst; rfl
      · cases hst; rfl
  unfold Pump.handleEvent
  split
  · exact r.fail st _ _ _ h
  next hev =>
  split
  · exact h
  split
  · exact h
  split
  · exact h
  next st₁ hst => exact r.takeEvent (hgate st₁ hst) hev

theorem handleFrame (d : Decoded) : Ensures P Q (st.handleFrame cfg d) := by
  unfold Pump.handleFrame
  split
  · exact r.fail st _ _ _ h
  · exact Ensures.foldlM (fun _ ev h => r.handleEvent h _ ev) (r.keep st _ h rfl rfl)

end

/-- **The rule of the loop.** -/
theorem run (h : P {}) (frames : List Decoded) :
    Ensures P Q (frames.foldlM (Pump.handleFrame cfg) {}) :=
  Ensures.foldlM (fun _ d h => r.handleFrame h d) h

end Pump.Rule

end NexaRoute.Canonical
