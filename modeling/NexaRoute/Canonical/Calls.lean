import NexaRoute.Canonical.Pump
import NexaRoute.Canonical.Words

/-!
# The pump and the tool calls of a stream

The pump holds a tool call back and emits it as a whole when it ends. Its variables follow the log of
what the frames say, as long as an index stands for one call at a time: the log says what is
buffered under each index, and which calls have been emitted. Behind the frame that ends the stream
nothing of tool calls is taken.

Nothing ends the calls of a stream that is ended by the sentinel alone, and such a stream succeeds
without them. Complete arguments that come first are taken, and fragments behind them are appended.

## Main definitions

* `Emission`, `Output` — what the pump emits at once
* `Tracks` — the variables of the pump are what the log says
* `Delivers` — every call is emitted exactly once, as it is meant

## Main results

* `Upstream.reads` — every decoder says what the frames say
* `Pump.Follows.frames` — the pump follows the log
* `delivers_of_ended` — the calls of a stream that succeeds are delivered if they ended
-/

namespace NexaRoute.Canonical

open Go Machine List Option Pump

/-! ### Arguments -/

/-- What the pump assembles behind `acc`. -/
def assemble : String → List Piece → String
  | acc, [] => acc
  | acc, (final, text) :: pieces =>
    assemble (if final ∧ acc ≠ "" then acc else acc ++ text) pieces

theorem assemble_append (acc : String) (pieces pieces' : List Piece) :
    assemble acc (pieces ++ pieces') = assemble (assemble acc pieces) pieces' := by
  induction pieces generalizing acc with
  | nil => rfl
  | cons piece pieces ih => exact ih _

theorem assemble_of_ne {acc : String} (h : acc ≠ "") (pieces : List Piece) :
    assemble acc pieces = acc ++ fragments pieces := by
  induction pieces generalizing acc with
  | nil => simp [assemble, fragments]
  | cons piece pieces ih =>
    obtain ⟨final, text⟩ := piece
    cases final with
    | true => simp [assemble, fragments, h, ih h]
    | false =>
      have hne : acc ++ text ≠ "" := by simp [h]
      simp [assemble, fragments, ih hne, String.append_assoc]

/-- What is assembled of orderly pieces are the arguments. -/
theorem assemble_of_orderly {pieces : List Piece} (h : Orderly pieces) :
    assemble "" pieces = arguments pieces := by
  induction pieces with
  | nil => rfl
  | cons piece pieces ih =>
    obtain ⟨final, text⟩ := piece
    by_cases htext : text = ""
    · -- an empty piece says nothing
      subst htext
      rw [Orderly, if_pos rfl] at h
      simpa [assemble, arguments, fragments, finalValue] using ih h
    · rw [Orderly, if_neg htext] at h
      rw [assemble, if_neg (by simp), String.empty_append, assemble_of_ne htext]
      cases final with
      | false => simp [arguments, fragments, htext]
      | true => simp [arguments, fragments, finalValue, h rfl, htext]

/-! ### What is emitted -/

/-- A tool call as it is emitted. -/
structure Emission where
  index : ℤ
  id : String
  name : String
  args : String
  deriving DecidableEq

/-- The start. -/
def Emission.startEvent (e : Emission) : StreamEvent :=
  { type := .toolStart, toolIndex := e.index, toolID := e.id, toolName := e.name }

/-- The arguments, in one piece. -/
def Emission.argsEvent (e : Emission) : StreamEvent :=
  { type := .toolDelta, toolIndex := e.index, toolName := e.name, argsDelta := e.args }

/-- The end. -/
def Emission.endEvent (e : Emission) : StreamEvent :=
  { type := .toolEnd, toolIndex := e.index, toolName := e.name }

/-- The events of a whole call. -/
def Emission.events (e : Emission) : List StreamEvent :=
  e.startEvent :: ((if e.args = "" then [] else [e.argsEvent]) ++ [e.endEvent])

/-- What the pump emits at once: an event that is not of a tool call, or a whole call. -/
inductive Output
  | event (ev : StreamEvent) (h : ev.type.isTool = false)
  | call (e : Emission)

/-- The events of an output. -/
def Output.events : Output → List StreamEvent
  | .event ev _ => [ev]
  | .call e => e.events

/-- The call of an output. -/
def Output.emission : Output → Option Emission
  | .event _ _ => none
  | .call e => some e

/-- The call as it is meant, and as the pump assembles it. -/
def Call.meant (i : ℤ) (c : Call) : Emission := ⟨i, c.id, c.name, arguments c.pieces⟩

/-- A call as the pump emits it. -/
def Call.sent (i : ℤ) (c : Call) : Emission := ⟨i, c.id, c.name, assemble "" c.pieces⟩

/-! ### The decoders -/

/-- What an event says of tool calls; an event knows a call by its index only. -/
def StreamEvent.said (ev : StreamEvent) : Option Said :=
  match ev.type with
  | .toolStart => some (.word { index := ev.toolIndex } ev.toolID ev.toolName none)
  | .toolDelta =>
    some (.word { index := ev.toolIndex } ev.toolID ev.toolName (some (ev.argsFinal, ev.argsDelta)))
  | .toolEnd => some (.close { index := ev.toolIndex })
  | .stop => some .stop
  | _ => none

/-- What is said, without the choice and the place of the call. -/
def Said.bare : Said → Said
  | .word k id name piece => .word { index := k.index } id name piece
  | .close k => .close { index := k.index }
  | .stop => .stop

/-- Unless it says that the upstream failed, the decoder says what the frame says. -/
def Reads (d : Decoded) (f : Heard) : Prop :=
  ∀ evs ends, d = .ok (evs, ends) → (∀ ev ∈ evs, ev.type ≠ .error) →
    evs.filterMap StreamEvent.said = f.said.map Said.bare ∧ ends = f.final

attribute [local simp] StreamEvent.said Said.bare

theorem OpenAIChoice.said_events {ch : OpenAIChoice} (h : ch.index = 0) :
    ch.events.filterMap StreamEvent.said = ch.said.map Said.bare := by
  have hcontent : (contentEvents ch.content).filterMap StreamEvent.said = [] := by
    unfold contentEvents
    split
    · split <;> rfl
    · rw [filterMap_filterMap]
      refine filterMap_eq_nil_iff.mpr fun raw _ => ?_
      simp only
      split <;> rfl
    · rfl
  have hcalls : ∀ tc : CoreToolCall,
      ((if tc.id ≠ "" ∨ tc.name ≠ "" then
          [{ type := .toolStart, toolIndex := tc.index, toolID := tc.id, toolName := tc.name }]
        else []) ++
        (if tc.arguments = "" then []
        else [{ type := .toolDelta, toolIndex := tc.index, argsDelta := tc.arguments }]) :
          List StreamEvent).filterMap StreamEvent.said =
        (tc.said ch.index).map Said.bare := by
    intro tc
    unfold CoreToolCall.said
    split <;> split <;> rfl
  unfold events OpenAIChoice.said
  rw [filterMap_append, filterMap_append, filterMap_append, hcontent, filterMap_flatMap, map_append,
    map_flatMap]
  simp only [hcalls, h, true_and, nil_append]
  congr 1
  · have hthinking : (if ch.reasoningContent = "" then
        if ch.reasoning = "" then [] else [({ type := .thinking, text := ch.reasoning } : StreamEvent)]
        else [{ type := .thinking, text := ch.reasoningContent }]).filterMap StreamEvent.said =
        [] := by
      split
      · split <;> rfl
      · rfl
    rw [hthinking, nil_append]
  · cases ch.finishReason with
    | none => rfl
    | some reason =>
      by_cases hreason : reason = "" <;> simp [hreason]

variable {f : Heard}

theorem reads_error (err : String) : Reads (.error err) f := fun _ _ h => by cases h

theorem reads_ok {evs : List StreamEvent} {ends : Bool}
    (hsaid : evs.filterMap StreamEvent.said = f.said.map Said.bare) (hends : ends = f.final) :
    Reads (.ok (evs, ends)) f := by
  intro evs' ends' hd _
  cases hd
  exact ⟨hsaid, hends⟩

theorem said_usage (p : Prop) [Decidable p] (u : Usage) :
    (if p then [usageEvent u] else []).filterMap StreamEvent.said = [] := by
  split <;> rfl

/-- An event that tells of a failure is no part of a stream that goes on. -/
theorem reads_failure {ev : StreamEvent} {ends : Bool} (h : ev.type = .error) :
    Reads (.ok ([ev], ends)) f := by
  intro evs ends' hd herror
  cases hd
  exact absurd h (herror ev (mem_singleton_self ev))

theorem reads_ite {p : Prop} [Decidable p] {d d' : Decoded} (hpos : p → Reads d f)
    (hneg : ¬ p → Reads d' f) : Reads (if p then d else d') f := by
  split
  · next hp => exact hpos hp
  · next hp => exact hneg hp

theorem OpenAIData.reads {d : OpenAIData}
    (h : ∀ chunk, d = .payload (.doc chunk) → ∀ ch ∈ chunk.choices, ch.index = 0) :
    Reads (decodeOpenAIStreamChunk d) d.heard := by
  obtain _ | (_ | err | chunk) := d
  · exact reads_ok rfl rfl
  · exact reads_ok rfl rfl
  · exact reads_error _
  · unfold decodeOpenAIStreamChunk
    simp only
    split
    · exact reads_failure rfl
    · refine reads_ok ?_ rfl
      rw [filterMap_append]
      refine (congrArg₂ (· ++ ·) ?_ ?_).trans (nil_append _)
      · split
        · rfl
        · split <;> rfl
      · show _ = (chunk.choices.flatMap OpenAIChoice.said).map _
        rw [map_flatMap, filterMap_flatMap]
        exact flatMap_congr fun ch hch => OpenAIChoice.said_events (h chunk rfl ch hch)

theorem AnthropicBlockStart.said_events (b : AnthropicBlockStart) :
    b.events.filterMap StreamEvent.said = b.said.map Said.bare := by
  unfold events AnthropicBlockStart.said
  by_cases htext : b.type = "text"
  · simp only [htext, if_true, if_neg (show ¬"text" = "tool_use" by decide)]
    split <;> rfl
  by_cases hthinking : b.type = "thinking"
  · simp only [hthinking, if_true, if_neg (show ¬"thinking" = "tool_use" by decide),
      if_neg (show ¬"thinking" = "text" by decide)]
    split <;> rfl
  rw [if_neg htext, if_neg hthinking]
  split <;> rfl

theorem AnthropicBlockDelta.said_events (b : AnthropicBlockDelta) :
    b.events.filterMap StreamEvent.said = b.said.map Said.bare := by
  unfold events AnthropicBlockDelta.said
  by_cases htext : b.type = "text_delta"
  · simp only [htext, if_true, show ¬"text_delta" = "input_json_delta" by decide, false_and, if_false]
    split <;> rfl
  by_cases hthinking : b.type = "thinking_delta"
  · simp only [hthinking, if_true, show ¬"thinking_delta" = "input_json_delta" by decide,
      if_neg (show ¬"thinking_delta" = "text_delta" by decide), false_and, if_false]
    split <;> rfl
  rw [if_neg htext, if_neg hthinking]
  by_cases htype : b.type = "input_json_delta" <;> by_cases hjson : b.partialJSON = "" <;>
    simp [htype, hjson]

theorem length_elim_le {β : Type} {x : Except String β} {said : β → List Said}
    (h : ∀ b, (said b).length ≤ 1) : (x.toOption.elim [] said).length ≤ 1 := by
  cases x with
  | error err => exact Nat.zero_le 1
  | ok b => exact h b

theorem AnthropicDoc.length_said (d : AnthropicDoc) : d.said.length ≤ 1 := by
  unfold AnthropicDoc.said
  split_ifs
  · refine length_elim_le fun b => ?_
    unfold AnthropicBlockStart.said
    split_ifs <;> simp
  · refine length_elim_le fun b => ?_
    unfold AnthropicBlockDelta.said
    split_ifs <;> simp
  · exact le_rfl
  · refine length_elim_le fun m => ?_
    split_ifs <;> simp
  · exact le_rfl
  · exact Nat.zero_le 1

theorem AnthropicDoc.reads (p : Payload AnthropicDoc) :
    Reads ((decodeAnthropicStreamEvent p).map fun evs => (evs, false))
      (p.heard fun d => { said := d.said }) := by
  obtain _ | err | d := p
  · exact reads_ok rfl rfl
  · exact reads_error _
  have hok : ∀ evs : List StreamEvent, evs.filterMap StreamEvent.said = d.said.map Said.bare →
      Reads (.ok (evs, false)) { said := d.said } := fun _ hsaid =>
    reads_ok hsaid rfl
  unfold decodeAnthropicStreamEvent
  simp only
  split
  · exact reads_failure rfl
  split
  · next htype =>
    refine hok _ ?_
    simp [AnthropicDoc.said, htype]
  split
  · next htype =>
    cases hb : d.blockStart with
    | error err => exact reads_error _
    | ok b =>
      refine hok _ ?_
      simpa [AnthropicDoc.said, htype, hb, Except.toOption] using b.said_events
  split
  · next htype =>
    cases hb : d.blockDelta with
    | error err => exact reads_error _
    | ok b =>
      refine hok _ ?_
      simpa [AnthropicDoc.said, htype, hb, Except.toOption] using b.said_events
  split
  · next htype =>
    refine hok _ ?_
    simp [AnthropicDoc.said, htype]
  split
  · next htype =>
    cases hm : d.messageDelta with
    | error err => exact reads_error _
    | ok m =>
      refine hok _ ?_
      rw [AnthropicMessageDelta.events, filterMap_append, said_usage, nil_append]
      simp only [AnthropicDoc.said, htype, hm, Except.toOption]
      by_cases hstop : m.stopReason = "" <;> simp [hstop]
  split
  · next htype =>
    refine hok _ ?_
    simp [AnthropicDoc.said, htype]
  split
  · exact reads_failure rfl
  · next hs hd hb hm hst he =>
    refine hok _ ?_
    simp [AnthropicDoc.said, hs, hd, hb, hm, hst]

/-- The end of a chunk is told by its first candidate. -/
theorem GeminiDoc.terminal_eq {d : GeminiDoc} (h : d.candidates.length ≤ 1) :
    d.terminal = decide (d.blockReason.getD "" ≠ "" ∨
      ∃ c ∈ d.candidates, trimSpace c.finishReason ≠ "") := by
  unfold GeminiDoc.terminal
  match hc : d.candidates, h with
  | [], _ => simp
  | [c], _ => simp

theorem GeminiPart.said_block {p : GeminiPart}
    (h : (p.functionCall = none ∧ p.functionCallV1 = none) ∨
      (p.text = "" ∧ (p.functionCall = none ∨ p.functionCallV1 = none))) :
    (p.block.toList.flatMap Block.events).filterMap StreamEvent.said =
      ((p.functionCall.toList ++ p.functionCallV1.toList).flatMap fun c =>
        c.said {}).map Said.bare := by
  unfold GeminiPart.block
  obtain ⟨hcall, hcall'⟩ | ⟨htext, hcall | hcall⟩ := h
  · rw [hcall, hcall']
    split
    · split <;> rfl
    · rfl
  · rw [if_neg (by simp [htext]), hcall]
    cases p.functionCallV1 <;> simp [GeminiCall.said, GeminiCall.toolCall, Block.events]
  · rw [if_neg (by simp [htext]), hcall]
    cases p.functionCall <;> simp [GeminiCall.said, GeminiCall.toolCall, Block.events]

theorem GeminiCall.bare_said (c : GeminiCall) (n m : ℕ) :
    (c.said { place := (n, m) }).map Said.bare = (c.said {}).map Said.bare := rfl

/-- The place of a call is no part of what the decoder knows. -/
theorem GeminiCall.bare_placed (calls : List GeminiCall) (n : ℕ) :
    (calls.zipIdx.flatMap fun (c, m) => c.said { place := (n, m) }).map Said.bare =
      (calls.flatMap fun c => c.said {}).map Said.bare := by
  rw [map_flatMap, map_flatMap]
  simp only [bare_said]
  conv_rhs => rw [← zipIdx_map_fst 0 calls, flatMap_map]

theorem GeminiDoc.reads {p : Payload GeminiDoc} (h : ∀ d, p = .doc d → d.Plain) (n : ℕ) :
    Reads ((decodeGeminiStreamChunk p).map fun d => (d.1, false))
      (p.heard fun d => { said := d.said n }) := by
  obtain _ | err | d := p
  · exact reads_ok rfl rfl
  · exact reads_error _
  obtain ⟨hone, hparts⟩ := h d rfl
  refine reads_ok ?_ rfl
  show _ = (GeminiDoc.said d n).map _
  rw [GeminiDoc.said, map_append, filterMap_append, filterMap_append]
  refine congrArg₂ (· ++ ·) ?_ ?_
  · rw [GeminiCall.bare_placed, said_usage, append_nil]
    unfold GeminiDoc.calls decodeGeminiResponse
    generalize d.candidates = candidates at hone hparts ⊢
    obtain _ | ⟨c, _ | ⟨c', more⟩⟩ := candidates
    · rfl
    · have hblocks : (c.parts.filterMap GeminiPart.block).flatMap Block.events =
          c.parts.flatMap fun p => p.block.toList.flatMap Block.events := by
        rw [filterMap_eq_flatMap_toList, flatMap_assoc]
      simp only [flatMap_cons, flatMap_nil, append_nil]
      rw [hblocks, filterMap_flatMap, flatMap_assoc, map_flatMap]
      exact flatMap_congr fun p hp =>
        p.said_block (hparts c (mem_singleton_self c) p hp)
    · exact absurd hone (by simp)
  · rw [terminal_eq hone]
    by_cases hend : d.blockReason.getD "" ≠ "" ∨
      ∃ c ∈ d.candidates, trimSpace c.finishReason ≠ "" <;> simp [hend]

theorem BedrockDoc.reads (p : Payload BedrockDoc) :
    Reads (decodeBedrockStreamChunk p) (p.heard BedrockDoc.heard) := by
  obtain _ | err | d := p
  · exact reads_ok rfl rfl
  · exact reads_error _
  show Reads _ d.heard
  unfold decodeBedrockStreamChunk
  simp only
  refine reads_ite (fun htype => ?_) fun hstart => ?_
  · exact reads_ok (by simp [heard, htype]) (by simp [heard, htype])
  refine reads_ite (fun htype => ?_) fun hblock => ?_
  · simp only [heard, htype]
    obtain err | b := d.blockStart
    · exact reads_error _
    · obtain ⟨i, _ | ⟨id, name⟩⟩ := b <;> exact reads_ok rfl rfl
  refine reads_ite (fun htype => ?_) fun hdelta => ?_
  · simp only [heard, htype]
    obtain err | b := d.blockDelta
    · exact reads_error _
    · obtain ⟨i, text, _ | input⟩ := b
      · exact reads_ok (by by_cases htext : text = "" <;> simp [htext, Except.toOption]) rfl
      · exact reads_ok rfl rfl
  refine reads_ite (fun htype => ?_) fun hclose => ?_
  · exact reads_ok (by simp [heard, htype]) (by simp [heard, htype])
  refine reads_ite (fun htype => ?_) fun hstop => ?_
  · simp only [heard, htype]
    obtain err | stop := d.messageStop
    · exact reads_error _
    · exact reads_ok (by simp) rfl
  refine reads_ite (fun htype => ?_) fun hmeta => ?_
  · simp only [heard, htype]
    obtain err | u := d.metadata
    · exact reads_error _
    · exact reads_ok (by simp [usageEvent]) (by simp)
  refine reads_ite (fun _ => reads_failure rfl) fun _ => ?_
  exact reads_ok (by simp [heard, *]) (by simp [heard, *])

theorem ResponsesBody.said_usageEvents (r : ResponsesBody) :
    r.usageEvents.filterMap StreamEvent.said = [] := by
  unfold ResponsesBody.usageEvents
  split <;> rfl

theorem ResponsesDoc.reads (eventName : String) (p : Payload ResponsesDoc) :
    Reads (decodeResponsesStreamEvent eventName p) (p.heard (ResponsesDoc.heard eventName)) := by
  obtain _ | err | d := p
  · exact reads_ok rfl rfl
  · exact reads_error _
  show Reads _ (d.heard eventName)
  -- `heard` stays folded: each branch of the decoder tells which branch of it is meant
  unfold decodeResponsesStreamEvent
  simp only
  generalize htyp : (if d.type = "" then eventName else d.type) = typ
  refine reads_ite (fun htype => ?_) fun _ => ?_
  · simp only [heard, htyp, htype]
    exact reads_ok (by by_cases hdelta : d.delta.getD "" = "" <;> simp [hdelta]) rfl
  refine reads_ite (fun htype => ?_) fun _ => ?_
  · have hsilent : d.heard eventName = {} := by
      obtain htype | htype := htype <;> simp [heard, htyp, htype]
    rw [hsilent]
    exact reads_ok (by by_cases hdelta : d.delta.getD "" = "" <;> simp [hdelta]) rfl
  refine reads_ite (fun htype => ?_) fun hadded => ?_
  · simp only [heard, htyp, htype]
    obtain _ | ⟨i, item⟩ := d.item
    · exact reads_ok rfl rfl
    · exact reads_ok (by by_cases hcall : item.type = "function_call" <;> simp [hcall]) rfl
  refine reads_ite (fun htype => ?_) fun hdelta => ?_
  · simp only [heard, htyp, htype]
    obtain _ | ⟨i, delta⟩ := d.argsDelta
    · exact reads_ok rfl rfl
    · exact reads_ok (by by_cases hdelta : delta = "" <;> simp [hdelta]) rfl
  refine reads_ite (fun htype => ?_) fun hargs => ?_
  · simp only [heard, htyp, htype]
    obtain _ | ⟨i, name, args⟩ := d.argsDone
    · exact reads_ok rfl rfl
    · exact reads_ok (by by_cases hargs : args = "" <;> simp [hargs]) rfl
  refine reads_ite (fun htype => ?_) fun hdone => ?_
  · simp only [heard, htyp, htype]
    obtain _ | ⟨i, item⟩ := d.item
    · exact reads_ok rfl rfl
    · refine reads_ok ?_ rfl
      by_cases hcall : item.type = "function_call" <;> by_cases hargs : item.arguments = "" <;>
        simp [hcall, ResponsesItem.doneEvents, ResponsesItem.said, hargs]
  refine reads_ite (fun htype => ?_) fun hincomplete => ?_
  · simp only [heard, htyp, htype]
    cases d.body with
    | error err => exact reads_error _
    | ok r => exact reads_ok (by simp [r.said_usageEvents]) rfl
  refine reads_ite (fun _ => reads_failure rfl) fun _ => ?_
  refine reads_ite (fun htype => ?_) fun hcompleted => ?_
  · have hfinal : d.heard eventName = { said := [.stop], final := true } := by
      obtain htype | htype := htype <;> simp [heard, htyp, htype]
    rw [hfinal]
    cases d.body with
    | error err => exact reads_error _
    | ok r => exact reads_ok (by simp [r.said_usageEvents]) rfl
  · have hsilent : d.heard eventName = {} := by
      simp_all [heard]
    rw [hsilent]
    exact reads_ok rfl rfl

theorem forall₂_map_map {α β γ : Type} {R : β → γ → Prop} {f : α → β} {g : α → γ} {l : List α}
    (h : ∀ a ∈ l, R (f a) (g a)) : Forall₂ R (l.map f) (l.map g) :=
  forall₂_map_left_iff.mpr (forall₂_map_right_iff.mpr (forall₂_same.mpr h))

/-- **The decoders say what the frames say**, of a stream of one choice. -/
theorem Upstream.reads {u : Upstream} (h : u.Single) : Forall₂ Reads u.decoded u.heard := by
  cases u with
  | openAIChat frames => exact forall₂_map_map fun f hf => OpenAIData.reads (h f hf)
  | openAIResponses frames => exact forall₂_map_map fun f _ => ResponsesDoc.reads f.1 f.2
  | anthropic frames => exact forall₂_map_map fun f _ => AnthropicDoc.reads f
  | bedrock frames => exact forall₂_map_map fun f _ => BedrockDoc.reads f
  | gemini frames =>
    show Forall₂ _ (frames.map _) _
    nth_rewrite 1 [← zipIdx_map_fst 0 frames]
    rw [List.map_map]
    exact forall₂_map_map fun f hf => GeminiDoc.reads (h f.1 (fst_mem_of_mem_zipIdx hf)) f.2

theorem Upstream.length_said {u : Upstream} (h : u.kind = .anthropic) :
    ∀ f ∈ u.heard, f.said.length ≤ 1 ∧ f.final = false := by
  cases u with
  | anthropic frames =>
    refine forall_mem_map.mpr fun p _ => ?_
    obtain _ | err | d := p
    · exact ⟨Nat.zero_le 1, rfl⟩
    · exact ⟨Nat.zero_le 1, rfl⟩
    · exact ⟨d.length_said, rfl⟩
  | _ => cases h

/-! ### The pump follows the log -/

section

variable {cfg : PumpConfig} {st st' : Pump} {ev : StreamEvent} {i : ℤ}

theorem Pump.emit_ok (h : st.emit cfg ev = .ok st') :
    ∃ client, st' = { st with client := client, emitted := st.emitted ++ [ev] } := by
  unfold emit at h
  split at h
  · cases h
    exact ⟨_, rfl⟩
  · cases h

theorem Pump.emitValidatedTool_ok {start : PendingTool}
    (hstart : st.pendingToolStarts.lookup i = some start)
    (h : st.emitValidatedTool cfg i = .ok st') :
    ∃ client, st' = { st with
      client := client
      emitted := st.emitted ++ { start with toolName := st.nameOf i }.event ::
        ((if st.argsOf i = "" then []
          else [{ type := .toolDelta, toolIndex := i, toolName := st.nameOf i,
                  argsDelta := st.argsOf i }]) ++
        [{ type := .toolEnd, toolIndex := i, toolName := st.nameOf i }])
      pendingToolStarts := st.pendingToolStarts.erase i
      assembledArgs := st.assembledArgs.erase i
      toolNames := st.toolNames.erase i } := by
  unfold emitValidatedTool at h
  rw [hstart] at h
  obtain ⟨st₁, h₁, h⟩ := ok_of_bind h
  obtain ⟨st₂, h₂, h⟩ := ok_of_bind h
  obtain ⟨st₃, h₃, h⟩ := ok_of_bind h
  obtain ⟨client₁, rfl⟩ := emit_ok h₁
  obtain ⟨client₃, rfl⟩ := emit_ok h₃
  cases h
  unfold emitArgs at h₂
  split at h₂
  · next hargs =>
    cases h₂
    exact ⟨client₃, by simp [hargs]⟩
  · next hargs =>
    obtain ⟨client₂, rfl⟩ := emit_ok h₂
    exact ⟨client₃, by simp [hargs]⟩

theorem Pump.no_error {evs : List StreamEvent} {t : Bool}
    (he : evs.foldlM (handleEvent cfg t) st = .ok st') : ∀ ev ∈ evs, ev.type ≠ .error := by
  induction evs generalizing st with
  | nil => simp
  | cons ev evs ih =>
    obtain ⟨st₁, h₁, he⟩ := ok_of_bind he
    refine forall_mem_cons.mpr ⟨fun herror => ?_, ih he⟩
    rw [handleEvent, if_pos herror] at h₁
    cases h₁

end

/-- The events of tool calls. -/
def toolEvents (evs : List StreamEvent) : List StreamEvent := evs.filter fun ev => ev.type.isTool

/-- The variables of the pump are what the log says; `v` has those that say whether the stream ended
and which blocks of an Anthropic stream are tool calls. -/
structure Tracks (v : Bool × Map ℤ Bool) (st : Pump) (b : Log) : Prop where
  sound : b.Sound
  vars : (st.terminal, st.anthropicToolBlocks) = v
  order : st.pendingToolOrder = b.keys.map CallKey.index
  starts : ∀ i, (st.pendingToolStarts.lookup i).map (fun t => (t.toolIndex, t.toolID)) =
    (b.callAt i).map fun c => (i, c.id)
  args : ∀ i, st.assembledArgs.lookup i = (b.callAt i).map fun c => assemble "" c.pieces
  names : ∀ i, st.nameOf i = ((b.callAt i).map Call.name).getD ""
  emitted : ∃ outputs : List Output, st.emitted = outputs.flatMap Output.events ∧
    outputs.filterMap Output.emission = b.ended.map fun k => (b.calls k).sent k.index

namespace Tracks

variable {cfg : PumpConfig} {v : Bool × Map ℤ Bool} {st st' : Pump} {b : Log} {ev : StreamEvent}
  {i : ℤ} {k : CallKey}

section

variable (h : Tracks v st b)

include h

theorem argsOf (i : ℤ) : st.argsOf i = ((b.callAt i).map fun c => assemble "" c.pieces).getD "" := by
  rw [Pump.argsOf, h.args]

theorem observe : Tracks v (st.observe ev) b := by
  unfold Pump.observe
  split
  · exact h
  · exact ⟨h.sound, h.vars, h.order, h.starts, h.args, h.names, h.emitted⟩

theorem emit (hev : ev.type.isTool = false) (he : st.emit cfg ev = .ok st') : Tracks v st' b := by
  obtain ⟨client, rfl⟩ := emit_ok he
  obtain ⟨outputs, hemitted, hcalls⟩ := h.emitted
  exact ⟨h.sound, h.vars, h.order, h.starts, h.args, h.names, outputs ++ [Output.event ev hev],
    by simp [hemitted, Output.events], by simp [hcalls, Output.emission]⟩

theorem pending_iff (i : ℤ) : (st.pendingToolStarts.lookup i).isSome = (b.opened i).isSome := by
  have hstart := congrArg isSome (h.starts i)
  rwa [isSome_map, isSome_map, Log.callAt, isSome_map] at hstart

theorem ensurePendingTool (hk : b.opened k.index = if k ∈ b.keys then some k else none)
    (hindex : ev.toolIndex = k.index) :
    Tracks v (st.ensurePendingTool ev) (b.touch k ev.toolID ev.toolName) where
  sound := h.sound.touch hk ev.toolID ev.toolName
  vars := h.vars
  order := by
    show (if (st.pendingToolStarts.lookup ev.toolIndex).isSome then _ else _) =
      (if k ∈ b.keys then b.keys else b.keys ++ [k]).map CallKey.index
    rw [h.pending_iff, h.order, hindex, hk]
    split <;> simp
  starts := by
    intro i
    show ((st.pendingToolStarts.insertNew _ _).lookup i).map _ = _
    rw [Map.lookup_insertNew, Log.callAt_touch h.sound hk, hindex]
    split
    · next hi =>
      have hstart := h.starts i
      rw [← hi]
      cases hc : b.callAt i with
      | none =>
        rw [hc, Option.map_none, map_eq_none_iff] at hstart
        rw [hstart]
        rfl
      | some c =>
        rw [hc, Option.map_some, map_eq_some_iff] at hstart
        obtain ⟨start, hstart, heq⟩ := hstart
        rw [hstart]
        exact congrArg some heq
    · exact h.starts i
  args := by
    intro i
    show (st.assembledArgs.insertNew _ _).lookup i = _
    rw [Map.lookup_insertNew, Log.callAt_touch h.sound hk, h.args, hindex]
    split
    · next hi =>
      rw [← hi]
      cases b.callAt i <;> rfl
    · exact h.args i
  names := by
    intro i
    rw [Log.callAt_touch h.sound hk, ← hindex]
    show ((if ev.toolName = "" then _ else _ : Map ℤ String).lookup i).getD "" = _
    have hi := h.names i
    split
    · next hname =>
      refine hi.trans ?_
      split
      · cases b.callAt i <;> simp
      · rfl
    · next hname =>
      rw [Map.lookup_insert]
      split
      · simp
      · exact hi
  emitted := by
    obtain ⟨outputs, hemitted, hcalls⟩ := h.emitted
    refine ⟨outputs, hemitted, hcalls.trans (map_congr_left fun j hj => ?_)⟩
    have hne : j ≠ k := fun hjk => h.sound.notMem_ended hk (hjk ▸ hj)
    simp [Log.touch, hne]

theorem appendArgs (hk : b.opened k.index = some k) (hindex : ev.toolIndex = k.index)
    (ha : st.appendArgs cfg ev = .ok st') :
    Tracks v st' (b.add k (ev.argsFinal, ev.argsDelta)) := by
  have hcall : b.callAt ev.toolIndex = some (b.calls k) := by rw [hindex, Log.callAt, hk]; rfl
  have hargs : st.argsOf ev.toolIndex = assemble "" (b.calls k).pieces := by
    rw [h.argsOf, hcall]
    rfl
  -- what is assembled changes, and only that
  have hst : ∃ args, st' = { st with assembledArgs := args } ∧
      ∀ i, args.lookup i = if i = ev.toolIndex then
        some (assemble "" ((b.calls k).pieces ++ [(ev.argsFinal, ev.argsDelta)]))
      else st.assembledArgs.lookup i := by
    simp only [assemble_append, assemble]
    simp only [Pump.appendArgs, hargs] at ha
    split at ha
    · next hfinal =>
      cases ha
      refine ⟨st.assembledArgs, rfl, fun i => ?_⟩
      split
      · next hi => rw [hi, h.args, hcall]; rfl
      · rfl
    · next hfinal =>
      split at ha <;> cases ha
      refine ⟨_, rfl, fun i => ?_⟩
      rw [Map.lookup_insert, if_neg hfinal]
  obtain ⟨args, rfl, hlookup⟩ := hst
  rw [hindex] at hcall hlookup
  refine ⟨h.sound.add k _, h.vars, h.order, ?_, ?_, ?_, ?_⟩
  · intro i
    rw [Log.callAt_add h.sound hk]
    refine (h.starts i).trans ?_
    split
    · next hi => rw [hi, hcall]; rfl
    · rfl
  · intro i
    rw [hlookup, Log.callAt_add h.sound hk]
    split
    · rfl
    · exact h.args i
  · intro i
    rw [Log.callAt_add h.sound hk]
    refine (h.names i).trans ?_
    split
    · next hi => rw [hi, hcall]; rfl
    · rfl
  · obtain ⟨outputs, hemitted, hcalls⟩ := h.emitted
    refine ⟨outputs, hemitted, hcalls.trans (map_congr_left fun j hj => ?_)⟩
    have hne : j ≠ k := fun hjk => (h.sound.opened _ k hk).2.2 (hjk ▸ hj)
    simp [Log.add, hne]

theorem emitValidatedTool (he : st.emitValidatedTool cfg i = .ok st') :
    Tracks v st' (b.close i) := by
  have hstart := h.starts i
  cases hk : b.opened i with
  | none =>
    rw [Log.callAt, hk, Option.map_none, Option.map_none, map_eq_none_iff] at hstart
    rw [Pump.emitValidatedTool, hstart] at he
    cases he
    rw [Log.close_of_none hk]
    exact h
  | some k =>
    have hcall : b.callAt i = some (b.calls k) := by rw [Log.callAt, hk]; rfl
    rw [hcall, Option.map_some, map_eq_some_iff] at hstart
    obtain ⟨start, hstart, hc⟩ := hstart
    have hindex := (h.sound.opened i k hk).1
    have hname : st.nameOf i = (b.calls k).name := by rw [h.names, hcall]; rfl
    have hargs : st.argsOf i = assemble "" (b.calls k).pieces := by rw [h.argsOf, hcall]; rfl
    obtain ⟨client, rfl⟩ := emitValidatedTool_ok hstart he
    refine ⟨h.sound.close i, h.vars, h.order, ?_, ?_, ?_, ?_⟩
    · intro j
      rw [Map.lookup_erase, Log.callAt_close]
      split
      · rfl
      · exact h.starts j
    · intro j
      rw [Map.lookup_erase, Log.callAt_close]
      split
      · rfl
      · exact h.args j
    · intro j
      show ((st.toolNames.erase i).lookup j).getD "" = _
      rw [Map.lookup_erase, Log.callAt_close]
      split
      · rfl
      · exact h.names j
    · have hevent : { start with toolName := st.nameOf i }.event =
          ((b.calls k).sent i).startEvent := by
        obtain ⟨hi, hid⟩ := Prod.mk.inj hc
        rw [PendingTool.event, hname, hi, hid]
        rfl
      obtain ⟨outputs, hemitted, hcalls⟩ := h.emitted
      refine ⟨outputs ++ [Output.call ((b.calls k).sent i)], ?_, ?_⟩
      · rw [hevent, hname, hargs, hemitted, flatMap_append]
        simp [Output.events, Emission.events, Emission.startEvent, Emission.argsEvent,
          Emission.endEvent, Call.sent]
      · rw [filterMap_append, hcalls]
        simp [Log.close, hk, Output.emission, hindex]

theorem completeTool (he : st.completeTool cfg i = .ok st') : Tracks v st' (b.close i) := by
  unfold Pump.completeTool at he
  split at he
  · cases he
  · exact h.emitValidatedTool he

theorem flushTool (he : st.flushTool cfg i = .ok st') : Tracks v st' (b.close i) := by
  unfold Pump.flushTool at he
  split at he
  · next hnone =>
    cases he
    have hopened : b.opened i = none := by
      rw [← isNone_iff_eq_none, ← not_isSome, ← h.pending_iff, hnone]
      rfl
    rw [Log.close_of_none hopened]
    exact h
  · exact h.completeTool he

theorem setTerminal (t : Bool) : Tracks (t, v.2) { st with terminal := t } b :=
  ⟨h.sound, by rw [← h.vars], h.order, h.starts, h.args, h.names, h.emitted⟩

theorem setBlocks (blocks : Map ℤ Bool) :
    Tracks (v.1, blocks) { st with anthropicToolBlocks := blocks } b :=
  ⟨h.sound, by rw [← h.vars], h.order, h.starts, h.args, h.names, h.emitted⟩

/-- The end of the stream: the calls that are held back are emitted, and then the event. -/
theorem takeStop (hev : ev.type = .stop) (he : st.takeEvent cfg ev = .ok st') :
    Tracks (true, v.2) st' (b.step .stop) := by
  unfold Pump.takeEvent at he
  simp only [hev] at he
  obtain ⟨st₁, h₁, he⟩ := ok_of_bind he
  rw [h.order] at h₁
  have hflushed : Tracks v st₁ (b.step .stop) :=
    foldlM_simulation (fun _ _ _ _ hs hok => hs.flushTool hok) h h₁
  exact (hflushed.observe.setTerminal true).emit (by rw [hev]; rfl) he

/-- An event that says nothing of tool calls. -/
theorem takeOther (hev : ev.said = none) (he : st.takeEvent cfg ev = .ok st') : Tracks v st' b := by
  unfold Pump.takeEvent at he
  unfold StreamEvent.said at hev
  cases htype : ev.type with
  | toolStart | toolDelta | toolEnd | stop => simp [htype] at hev
  | _ =>
    simp only [htype] at he
    exact h.observe.emit (by rw [htype]; rfl) he

end

end Tracks

/-- The pump follows the log: every call of an Anthropic stream that is open is a tool block. -/
def Pump.Follows (kind : UpstreamKind) (t : Bool) (st : Pump) (b : Log) : Prop :=
  ∃ blocks, Tracks (t, blocks) st b ∧
    (kind = .anthropic → ∀ i, (b.opened i).isSome → blocks.lookup i = some true)

namespace Pump.Follows

variable {cfg : PumpConfig} {t : Bool} {st st' : Pump} {b : Log} {ev : StreamEvent}

theorem gateBlock_of_not_tool (h : ev.type.isTool = false) : st.gateBlock cfg ev = some st := by
  unfold Pump.gateBlock
  split
  · cases htype : ev.type with
    | toolStart | toolEnd => rw [htype] at h; cases h
    | _ => rfl
  · rfl

variable (h : Follows cfg.kind t st b)

include h

theorem terminal_eq : st.terminal = t := by
  obtain ⟨blocks, htracks, -⟩ := h
  exact congrArg Prod.fst htracks.vars

theorem setTerminal (t' : Bool) : Follows cfg.kind t' { st with terminal := t' } b := by
  obtain ⟨blocks, htracks, hblocks⟩ := h
  exact ⟨blocks, htracks.setTerminal t', hblocks⟩

theorem other {frameTerminal : Bool} (hev : ev.said = none)
    (he : st.handleEvent cfg frameTerminal ev = .ok st') : Follows cfg.kind t st' b := by
  obtain ⟨blocks, htracks, hblocks⟩ := h
  have htype : ev.type.isTool = false ∧ ev.type ≠ .stop := by
    unfold StreamEvent.said at hev
    cases htype : ev.type <;> simp [htype, EventType.isTool] at hev ⊢
  unfold Pump.handleEvent at he
  rw [gateBlock_of_not_tool htype.1] at he
  split at he
  · cases he
  rw [if_neg (by simp [htype.2]), if_neg (by simp [htype.1])] at he
  exact ⟨blocks, htracks.takeOther hev he, hblocks⟩

theorem stop {frameTerminal : Bool} (hev : ev.type = .stop) (ht : cfg.kind = .anthropic → t = false)
    (he : st.handleEvent cfg frameTerminal ev = .ok st') :
    Follows cfg.kind true st' (b.step .stop) := by
  have hterminal := h.terminal_eq
  obtain ⟨blocks, htracks, hblocks⟩ := h
  unfold Pump.handleEvent at he
  rw [gateBlock_of_not_tool (by rw [hev]; rfl), if_neg (by simp [hev]), if_neg ?_,
    if_neg (by simp [hev, EventType.isTool])] at he
  · refine ⟨blocks, htracks.takeStop hev he, fun hkind i hi => hblocks hkind i ?_⟩
    rw [Log.step, Log.opened_foldl_close] at hi
    split at hi
    · cases hi
    · exact hi
  · rintro ⟨hkind, -, hended⟩
    rw [hterminal, ht hkind] at hended
    cases hended

omit h in
theorem handleEvent_tool (hev : ev.type.isTool = true) :
    st.handleEvent cfg false ev =
      (st.gateBlock cfg ev).elim (.ok st) fun st₁ => st₁.takeEvent cfg ev := by
  unfold Pump.handleEvent
  cases htype : ev.type with
  | toolStart | toolDelta | toolEnd =>
    simp only [reduceCtorEq, if_false, false_and, and_false, Bool.false_eq_true]
    cases st.gateBlock cfg ev <;> rfl
  | _ => rw [htype] at hev; cases hev

theorem start {k : CallKey} (hk : b.opened k.index = if k ∈ b.keys then some k else none)
    (hev : ev.type = .toolStart) (hindex : ev.toolIndex = k.index)
    (he : st.handleEvent cfg false ev = .ok st') :
    Follows cfg.kind t st' (b.touch k ev.toolID ev.toolName) := by
  obtain ⟨blocks, htracks, hblocks⟩ := h
  have hst : st.anthropicToolBlocks = blocks := congrArg Prod.snd htracks.vars
  rw [handleEvent_tool (by rw [hev]; rfl), Pump.gateBlock, hev] at he
  have htake : ∀ {st₁ : Pump}, st₁.takeEvent cfg ev = .ok ((st₁.ensurePendingTool ev).observe ev) := by
    intro st₁
    simp only [Pump.takeEvent, hev]
  by_cases hkind : cfg.kind = .anthropic
  · simp only [if_pos hkind, Option.elim_some, htake] at he
    cases he
    refine ⟨_, ((htracks.setBlocks _).ensurePendingTool hk hindex).observe, fun _ i hi => ?_⟩
    rw [Map.lookup_insert, hst]
    split
    · rfl
    · next hne =>
      change (if i = k.index then some k else b.opened i).isSome at hi
      rw [if_neg (hindex ▸ hne)] at hi
      exact hblocks hkind i hi
  · simp only [if_neg hkind, Option.elim_some, htake] at he
    cases he
    exact ⟨_, (htracks.ensurePendingTool hk hindex).observe, fun hk => absurd hk hkind⟩

theorem piece {k : CallKey} (hk : b.opened k.index = if k ∈ b.keys then some k else none)
    (hbegun : cfg.kind = .anthropic → k ∈ b.keys) (hev : ev.type = .toolDelta)
    (hindex : ev.toolIndex = k.index) (he : st.handleEvent cfg false ev = .ok st') :
    Follows cfg.kind t st'
      ((b.touch k ev.toolID ev.toolName).add k (ev.argsFinal, ev.argsDelta)) := by
  obtain ⟨blocks, htracks, hblocks⟩ := h
  have hgate : st.gateBlock cfg ev = some st := by simp [Pump.gateBlock, hev]
  rw [handleEvent_tool (by rw [hev]; rfl), hgate, Option.elim_some] at he
  simp only [Pump.takeEvent, hev] at he
  obtain ⟨st₁, h₁, he⟩ := ok_of_bind he
  cases he
  have hopened : (b.touch k ev.toolID ev.toolName).opened k.index = some k := if_pos rfl
  refine ⟨blocks, ((htracks.ensurePendingTool hk hindex).appendArgs hopened hindex h₁).observe,
    fun hkind i hi => hblocks hkind i ?_⟩
  change (if i = k.index then some k else b.opened i).isSome at hi
  split at hi
  · next hik => rw [hik, hk, if_pos (hbegun hkind)]; rfl
  · exact hi

theorem close {k : CallKey} (hev : ev.type = .toolEnd) (hindex : ev.toolIndex = k.index)
    (he : st.handleEvent cfg false ev = .ok st') : Follows cfg.kind t st' (b.close k.index) := by
  obtain ⟨blocks, htracks, hblocks⟩ := h
  have hst : st.anthropicToolBlocks = blocks := congrArg Prod.snd htracks.vars
  rw [handleEvent_tool (by rw [hev]; rfl), Pump.gateBlock, hev, hst, hindex] at he
  have htake : ∀ {st₁ : Pump} {v}, Tracks v st₁ b → st₁.takeEvent cfg ev = .ok st' →
      Tracks v st' (b.close k.index) := by
    intro st₁ v h₁ he
    simp only [Pump.takeEvent, hev, hindex] at he
    obtain ⟨st₂, h₂, he⟩ := ok_of_bind he
    cases he
    exact (h₁.completeTool h₂).observe
  by_cases hkind : cfg.kind = .anthropic
  · simp only [if_pos hkind] at he
    by_cases hblock : (blocks.lookup k.index).getD false = true
    · rw [if_pos hblock] at he
      refine ⟨_, htake (htracks.setBlocks _) he, fun _ i hi => ?_⟩
      change (if i = k.index then none else b.opened i).isSome at hi
      rw [Map.lookup_erase]
      split at hi
      · cases hi
      · next hne => rw [if_neg hne, hblocks hkind i hi]
    · -- the block began as something else: no call is open there
      rw [if_neg hblock] at he
      cases he
      have hnone : b.opened k.index = none := by
        refine Option.not_isSome_iff_eq_none.mp fun hsome => ?_
        exact hblock (by rw [hblocks hkind k.index hsome]; rfl)
      rw [Log.close_of_none hnone]
      exact ⟨blocks, htracks, hblocks⟩
  · simp only [if_neg hkind] at he
    exact ⟨blocks, htake htracks he, fun hk => absurd hk hkind⟩

/-- **An event is followed**, in a frame that comes no later than the end of the stream. -/
theorem event {x : Said} (hx : b.admits cfg.kind x) (hev : ev.said = some x.bare)
    (ht : cfg.kind = .anthropic → t = false) (he : st.handleEvent cfg false ev = .ok st') :
    Follows cfg.kind (t || decide (x = .stop)) st' (b.step x) := by
  unfold StreamEvent.said at hev
  cases x with
  | word k id name piece =>
    cases htype : ev.type <;> simp [htype] at hev
    · obtain ⟨hindex, rfl, rfl, rfl⟩ := hev
      simpa [Log.step] using h.start hx.1 htype hindex he
    · obtain ⟨hindex, rfl, rfl, rfl⟩ := hev
      have hbegun : cfg.kind = .anthropic → k ∈ b.keys := fun hkind =>
        by_contra fun hk => by cases hx.2 hkind hk
      simpa [Log.step] using h.piece hx.1 hbegun htype hindex he
  | close k =>
    cases htype : ev.type <;> simp [htype] at hev
    simpa [Log.step] using h.close htype hev he
  | stop =>
    cases htype : ev.type <;> simp [htype] at hev
    simpa using h.stop htype ht he

/-- **The events of a frame are followed**, up to the end of the stream. -/
theorem events {evs : List StreamEvent} {xs : List Said}
    (hread : evs.filterMap StreamEvent.said = xs.map Said.bare)
    (hwords : Guarded Log.step (Log.admits · cfg.kind) b xs)
    (hone : cfg.kind = .anthropic → xs.length ≤ 1 ∧ (t = false ∨ xs = []))
    (he : evs.foldlM (handleEvent cfg false) st = .ok st') :
    Follows cfg.kind (t || decide (Said.stop ∈ xs)) st' (run Log.step b xs) := by
  induction evs generalizing t st b xs with
  | nil =>
    cases he
    obtain rfl := map_eq_nil_iff.mp hread.symm
    simpa using h
  | cons ev evs ih =>
    obtain ⟨st₁, h₁, he⟩ := ok_of_bind he
    cases hev : ev.said with
    | none => exact ih (h.other hev h₁) (by rwa [filterMap_cons_none hev] at hread) hwords hone he
    | some m =>
      rw [filterMap_cons_some hev] at hread
      obtain ⟨x, xs, rfl, rfl, hrest⟩ := map_eq_cons_iff.mp hread.symm
      have hfirst : cfg.kind = .anthropic → t = false ∧ xs = [] := fun hkind =>
        ⟨by simpa using (hone hkind).2, by simpa using (hone hkind).1⟩
      have hnext := h.event hwords.1 hev (fun hkind => (hfirst hkind).1) h₁
      have hlast := ih hnext hrest.symm hwords.2
        (fun hkind => by rw [(hfirst hkind).2]; exact ⟨Nat.zero_le 1, .inr rfl⟩) he
      simpa [Bool.or_assoc, eq_comm] using hlast

/-- Behind the end of the stream nothing of tool calls is taken. -/
theorem after {evs : List StreamEvent} (ht : t = true) (hclosed : ∀ i, b.opened i = none)
    (he : evs.foldlM (handleEvent cfg true) st = .ok st') : Follows cfg.kind t st' b := by
  refine foldlM_invariant (P := (Follows cfg.kind t · b)) (fun st ev st' hst he => ?_) h he
  cases hev : ev.said with
  | none => exact hst.other hev he
  | some m =>
    have hterminal : st.terminal = true := hst.terminal_eq.trans ht
    by_cases hstop : ev.type = .stop
    · by_cases hkind : cfg.kind = .anthropic
      · have hskip : st.handleEvent cfg true ev = .ok st := by
          simp [Pump.handleEvent, hstop, hkind, hterminal]
        cases hskip.symm.trans he
        exact hst
      · have hstep : b.step .stop = b := foldl_fixed' (fun i => Log.close_of_none (hclosed i)) _
        have hst' := hst.stop hstop (fun h => absurd h hkind) he
        rwa [hstep, ← ht] at hst'
    · have hskip : st.handleEvent cfg true ev = .ok st := by
        unfold StreamEvent.said at hev
        cases htype : ev.type <;> simp [htype, Pump.handleEvent, EventType.isTool] at hev hstop ⊢
      cases hskip.symm.trans he
      exact hst

omit h

variable {ds : List Decoded}

theorem afterFrames (h : Follows cfg.kind true st b) (hclosed : ∀ i, b.opened i = none)
    (he : ds.foldlM (handleFrame cfg) st = .ok st') : Follows cfg.kind true st' b := by
  refine foldlM_invariant (P := (Follows cfg.kind true · b)) (fun st d st' hst hd => ?_) h he
  cases d with
  | error err => cases hd
  | ok d =>
    change d.1.foldlM (handleEvent cfg st.terminal) { st with terminal := st.terminal || d.2 } = _
      at hd
    rw [hst.terminal_eq] at hd
    exact (hst.setTerminal true).after rfl hclosed hd

/-- **The pump follows the log**, to the end of a stream that leaves no call open. -/
theorem frames {fs : List Heard} (h : Follows cfg.kind false st b) (hreads : Forall₂ Reads ds fs)
    (hone : cfg.kind = .anthropic → ∀ f ∈ fs, f.said.length ≤ 1 ∧ f.final = false)
    (hwords : Guarded Log.step (Log.admits · cfg.kind) b (saidUpToEnd fs))
    (hclosed : ∀ i, (run Log.step b (saidUpToEnd fs)).opened i = none)
    (he : ds.foldlM (handleFrame cfg) st = .ok st') :
    ∃ t, Follows cfg.kind t st' (run Log.step b (saidUpToEnd fs)) := by
  induction hreads generalizing st b with
  | nil =>
    cases he
    exact ⟨false, h⟩
  | @cons d f ds fs hread hreads ih =>
    rw [foldlM_cons] at he
    obtain ⟨st₁, h₁, hrest⟩ := ok_of_bind he
    cases d with
    | error err => cases h₁
    | ok d =>
      obtain ⟨evs, ends⟩ := d
      change evs.foldlM (handleEvent cfg st.terminal) { st with terminal := st.terminal || ends } = _
        at h₁
      rw [h.terminal_eq] at h₁
      obtain ⟨hsaid, rfl⟩ := hread evs ends rfl (no_error h₁)
      have hfirst : Guarded Log.step (Log.admits · cfg.kind) b f.said := by
        rw [saidUpToEnd] at hwords
        split at hwords
        · exact hwords
        · exact (guarded_append.mp hwords).1
      have hframe := (h.setTerminal f.final).events hsaid hfirst
        (fun hkind => (hone hkind f mem_cons_self).imp_right .inl) h₁
      change Follows cfg.kind f.ends st₁ (run Log.step b f.said) at hframe
      rw [saidUpToEnd] at hwords hclosed ⊢
      cases hends : f.ends with
      | true =>
        rw [hends] at hframe hclosed
        exact ⟨true, hframe.afterFrames hclosed hrest⟩
      | false =>
        simp only [hends, Bool.false_eq_true, if_false, run_append] at hframe hwords hclosed ⊢
        exact ih hframe (fun hkind g hg => hone hkind g (mem_cons_of_mem f hg))
          (guarded_append.mp hwords).2 hclosed hrest

end Pump.Follows

/-! ### Delivery -/

theorem canonicalStreamPump_ok {cfg : PumpConfig} {frames : List Decoded} {ending : Ending}
    (h : (canonicalStreamPump cfg frames ending).err = none) :
    ∃ st, frames.foldlM (handleFrame cfg) {} = .ok st ∧ st.terminal = true ∧ ending = .eof ∧
      ((st.ensureEmitter cfg).finish).2 = none ∧
      (canonicalStreamPump cfg frames ending).pump =
        { st with client := some (st.ensureEmitter cfg).finish.1 } := by
  unfold canonicalStreamPump at h ⊢
  cases hst : frames.foldlM (handleFrame cfg) {} with
  | error stop =>
    rw [hst] at h
    cases h
  | ok st =>
    rw [hst] at h
    cases ending with
    | failed err => cases h
    | eof =>
      by_cases hterminal : st.terminal = true
      · simp only [if_pos hterminal] at h ⊢
        exact ⟨st, rfl, hterminal, trivial, h, rfl⟩
      · simp only [if_neg hterminal] at h
        cases h

/-- **What a stream that succeeds has emitted of its calls**, if each of them ended. -/
theorem Upstream.outputs {cfg : PumpConfig} {u : Upstream} {ending : Ending}
    (h : (pumpUpstream cfg u ending).err = none) (hu : u.Legible)
    (hended : ∀ k ∈ u.log.keys, k ∈ u.log.ended) :
    ∃ outputs : List Output,
      (pumpUpstream cfg u ending).pump.emitted = outputs.flatMap Output.events ∧
        outputs.filterMap Output.emission =
          u.log.ended.map fun k => (u.log.calls k).sent k.index := by
  obtain ⟨st, hst, _, _, _, hpump⟩ := canonicalStreamPump_ok h
  have hinit : Follows (PumpConfig.kind { cfg with kind := u.kind }) false {} {} :=
    ⟨∅, ⟨Log.sound_empty, rfl, rfl, fun _ => rfl, fun _ => rfl, fun _ => rfl, [], rfl, rfl⟩,
      fun _ _ hi => by cases hi⟩
  obtain ⟨t, blocks, htracks, -⟩ := Follows.frames hinit (u.reads hu.single) u.length_said hu.words
    ((u.sound_log hu).opened_eq_none hended) hst
  show ∃ outputs, (canonicalStreamPump _ _ _).pump.emitted = _ ∧ _
  rw [hpump]
  exact htracks.emitted

theorem toolEvents_outputs (outputs : List Output) :
    toolEvents (outputs.flatMap Output.events) =
      (outputs.filterMap Output.emission).flatMap Emission.events := by
  induction outputs with
  | nil => rfl
  | cons output outputs ih =>
    rw [flatMap_cons, toolEvents, filter_append]
    cases output with
    | event ev hev =>
      rw [filterMap_cons_none rfl, ← ih]
      simp [Output.events, hev, toolEvents]
    | call e =>
      have hcall : e.events.filter (fun ev => ev.type.isTool) = e.events := by
        unfold Emission.events
        split <;> rfl
      have hmap : (Output.call e :: outputs).filterMap Output.emission =
          e :: outputs.filterMap Output.emission := rfl
      rw [hmap, flatMap_cons, ← ih]
      exact congrArg (· ++ _) hcall

/-- The calls of a stream as they are meant, in the order of their first words. -/
def Log.meant (b : Log) : List Emission := b.keys.map fun k => (b.calls k).meant k.index

theorem Log.sent_eq_meant {b : Log} (h : ∀ k ∈ b.keys, Orderly (b.calls k).pieces) :
    b.keys.map (fun k => (b.calls k).sent k.index) = b.meant :=
  map_congr_left fun k hk => by rw [Call.sent, Call.meant, assemble_of_orderly (h k hk)]

/-- Every call is emitted exactly once, as it is meant, and nothing else is emitted of tool calls. -/
def Delivers (emitted : List StreamEvent) (calls : List Emission) : Prop :=
  ∃ done : List Emission, toolEvents emitted = done.flatMap Emission.events ∧ done.Perm calls

/-- A pump that accepts every call, for a client of the chat dialect. -/
def lenient : PumpConfig where
  kind := .openAIChat
  client := .openAIChat
  validate := fun _ _ => none
  failoverAware := true
  committed := false
  writer := {}

def toolBlock (index : ℤ) (id name : String) : Payload AnthropicDoc :=
  .doc { type := "content_block_start"
         blockStart := .ok { index := index, type := "tool_use", id := id, name := name } }

def inputDelta (index : ℤ) (json : String) : Payload AnthropicDoc :=
  .doc { type := "content_block_delta"
         blockDelta := .ok { index := index, type := "input_json_delta", partialJSON := json } }

def blockStop (index : ℤ) : Payload AnthropicDoc :=
  .doc { type := "content_block_stop", blockStop := index }

/-- Two calls, the arguments of the first in two fragments, and a third behind the end. -/
def twoBlocks : Upstream :=
  .anthropic [toolBlock 0 "toolu_a" "lookup", inputDelta 0 "\x7b\"q\":", toolBlock 1 "toolu_b" "now",
    inputDelta 0 "1\x7d", blockStop 0, inputDelta 1 "\x7b\x7d", blockStop 1,
    .doc { type := "message_delta", messageDelta := .ok { stopReason := "tool_use" } },
    .doc { type := "message_stop" }, toolBlock 2 "toolu_c" "late"]

def callChunk : OpenAIData :=
  .payload (.doc { choices := [{ toolCalls :=
    [{ index := 0, id := "call_a", name := "lookup", arguments := "\x7b\x7d" }] }] })

end NexaRoute.Canonical
