import NexaRoute.Canonical.Calls
import NexaRoute.Keyed
import Mathlib

/-!
# What a client makes of the tool calls

A client puts the frames of a tool call together by the key of its dialect: the index of the call in
the chat dialect, the index of the content block, or the index of the output item; in the Gemini
dialect a call is one part. The pump hands every call to the emitter as a whole, so what a client
reconstructs depends on the keys alone: block and output indices are fresh for every call, but the
chat dialect passes the index of the upstream on, and the decoder of Gemini streams leaves it zero
for every call. The ids that the chat and the Responses emitter make up contain the same index.

## Main results

* `reconstructs_of_ended` — when a client has the calls of the upstream
-/

namespace NexaRoute.Canonical

open Go Machine List Emitter AnthropicEmitter ResponsesEmitter ClientFrame ClientProtocol
  OpenAIEmitter GeminiEmitter

variable {cfg : PumpConfig} {ev : StreamEvent} {frames' : List ClientFrame} {N : Shown → Prop}
  {fresh : Prop} {n : ℤ} {c : Emission} {frames : List ClientFrame} {e' : Emitter}

/-! ### What is written -/

/-- An event, with what was written before it. -/
def Emitter.step (s : Emitter × List ClientFrame) (ev : StreamEvent) :
    Except String (Emitter × List ClientFrame) :=
  (s.1.emit ev).map fun r => (r.1, s.2 ++ r.2)

/-- What an emitter has written after events. -/
def Emitter.emitAll (s : Emitter × List ClientFrame) (evs : List StreamEvent) :
    Except String (Emitter × List ClientFrame) :=
  evs.foldlM Emitter.step s

/-- The events of the pump are those of its emitter. -/
structure Wrote (cfg : PumpConfig) (st : Pump) : Prop where
  none : st.client = .none → st.emitted = []
  some : ∀ c, st.client = .some c → ∃ frames,
    Emitter.emitAll (newStreamEmitter cfg.client) st.emitted = .ok (c.emitter, frames) ∧
      c.writer.out = cfg.writer.out ++ frames

theorem Wrote.ensured {st : Pump} (h : Wrote cfg st)
    (hw : (st.ensureEmitter cfg).writer.writeErr = .none) :
    ∃ frames, emitAll (newStreamEmitter cfg.client) st.emitted =
        .ok ((st.ensureEmitter cfg).emitter, frames) ∧
      (st.ensureEmitter cfg).writer.out = cfg.writer.out ++ frames := by
  cases hclient : st.client with
  | some c =>
    have hensure : st.ensureEmitter cfg = c := by rw [Pump.ensureEmitter, hclient]; rfl
    rw [hensure]
    exact h.some c hclient
  | none =>
    have hensure : st.ensureEmitter cfg = Client.new cfg.client cfg.writer := by
      rw [Pump.ensureEmitter, hclient]; rfl
    rw [hensure] at hw ⊢
    rw [h.none hclient]
    exact ⟨(newStreamEmitter cfg.client).2, rfl, Writer.out_writeAll hw⟩

theorem Wrote.emit {st st' : Pump} (h : Wrote cfg st) (he : st.emit cfg ev = .ok st') :
    Wrote cfg st' := by
  unfold Pump.emit at he
  split at he
  · next c hc =>
    cases he
    refine ⟨fun hnone => (by cases hnone), fun c' hc' => ?_⟩
    cases hc'
    obtain ⟨hw, frames, hemit, hout⟩ := Client.out_of_emit hc
    obtain ⟨before, hall, hwritten⟩ := h.ensured hw
    refine ⟨before ++ frames, ?_, by rw [hout, hwritten, append_assoc]⟩
    rw [emitAll, foldlM_append]
    show emitAll _ _ >>= _ = _
    rw [hall]
    show foldlM step _ [ev] = _
    rw [foldlM_cons, step, hemit]
    rfl
  · cases he

theorem Wrote.rule (cfg : PumpConfig) : Pump.Rule cfg (Wrote cfg) fun _ => True where
  keep := by
    intro st st' h hclient hemitted
    refine ⟨fun hnone => ?_, fun c hc => ?_⟩
    · rw [hemitted]
      exact h.none (hclient ▸ hnone)
    · rw [hemitted]
      exact h.some c (hclient ▸ hc)
  emit := by
    intro st ev h _
    cases he : st.emit cfg ev with
    | ok st' => exact h.emit he
    | error stop => trivial
  fail := fun _ _ _ _ _ => trivial

/-- What the pump has written, behind what was there before. -/
def PumpResult.written (cfg : PumpConfig) (r : PumpResult) : List ClientFrame :=
  r.out.drop cfg.writer.out.length

/-- **What a stream that succeeds has written**: the frames of its events, and the end. -/
theorem written_eq {u : Upstream} {ending : Ending} (h : (pumpUpstream cfg u ending).err = none) :
    ∃ e frames, emitAll (newStreamEmitter cfg.client)
        (pumpUpstream cfg u ending).pump.emitted = .ok (e, frames) ∧
      (pumpUpstream cfg u ending).written cfg = frames ++ e.finish.2 := by
  obtain ⟨st, hst, _, _, hfinish, hpump⟩ := canonicalStreamPump_ok h
  have hwrote : Wrote { cfg with kind := u.kind } st := by
    have hrun := (Wrote.rule { cfg with kind := u.kind }).run
      ⟨fun _ => rfl, fun c hc => by cases hc⟩ u.decoded
    rwa [hst] at hrun
  have hc : (st.ensureEmitter { cfg with kind := u.kind }).finish =
      ((st.ensureEmitter { cfg with kind := u.kind }).finish.1, none) := Prod.ext rfl hfinish
  obtain ⟨hw, hout⟩ := Client.out_of_finish hc
  obtain ⟨frames, hall, hwritten⟩ := hwrote.ensured hw
  refine ⟨(st.ensureEmitter { cfg with kind := u.kind }).emitter, frames, ?_, ?_⟩
  · show emitAll _ (canonicalStreamPump _ _ _).pump.emitted = _
    rw [hpump]
    exact hall
  · show (canonicalStreamPump _ _ _).out.drop _ = _
    rw [PumpResult.out, hpump]
    show drop _ (Client.finish _).1.writer.out = _
    rw [hout, hwritten, append_assoc, drop_left]

/-! ### Reconstruction -/

/-- What a client knows of a call: the key of its dialect, and what came under it. -/
structure SeenCall where
  key : ℤ
  id : String := ""
  name : String := ""
  args : String := ""
  deriving DecidableEq

/-- A client appends what comes under a key. -/
def SeenCall.join (s t : SeenCall) : SeenCall :=
  { s with id := s.id ++ t.id, name := s.name ++ t.name, args := s.args ++ t.args }

/-- What a frame says of a call. -/
def ClientFrame.piece : ClientFrame → Option SeenCall
  | .openAI (.toolStart index id name) => some { key := index, id := id, name := name }
  | .openAI (.toolArguments index args) => some { key := index, args := args }
  | .anthropic (.blockStart index (.toolUse id name)) =>
    some { key := index, id := id, name := name }
  | .anthropic (.blockDelta index (.inputJSON args)) => some { key := index, args := args }
  | .responses (.callAdded index id name) => some { key := index, id := id, name := name }
  | .responses (.argumentsDelta index _ args) => some { key := index, args := args }
  | _ => none

/-- The part of a function call. -/
def ClientFrame.part : ClientFrame → Option (String × String)
  | .gemini (.functionCall name args) => some (name, args)
  | _ => none

/-- The names and arguments of the calls a client reconstructs. -/
def reconstruct : ClientProtocol → List ClientFrame → List (String × String)
  | .gemini, frames => frames.filterMap ClientFrame.part
  | _, frames =>
    (Keyed.collect SeenCall.key SeenCall.join (frames.filterMap ClientFrame.piece)).map
      fun s => (s.name, s.args)

/-- The id of a call, where a frame begins one. -/
def ClientFrame.startID : ClientFrame → Option String
  | .openAI (.toolStart _ id _) => some id
  | .anthropic (.blockStart _ (.toolUse id _)) => some id
  | .responses (.callAdded _ id _) => some id
  | _ => none

/-- The id of a call, where an event begins one. -/
def StreamEvent.startID (ev : StreamEvent) : Option String :=
  if ev.type = .toolStart then some ev.toolID else none

/-- The ids that calls were given which came without one: every start that is accepted is one start
of a frame, in the same order. -/
def assignedIDs (frames : List ClientFrame) (emitted : List StreamEvent) : List String :=
  ((frames.filterMap ClientFrame.startID).zip (emitted.filterMap StreamEvent.startID)).filterMap
    fun ids => if ids.2 = "" then some ids.1 else none

/-- What a client shows of arguments: a function call has an object. -/
def ClientProtocol.shown : ClientProtocol → String → String
  | .gemini, args => objectText args
  | _, args => args

/-- The client has the calls with their names and arguments in order, and the ids that were made up
are distinct. -/
structure Reconstructs (client : ClientProtocol) (frames : List ClientFrame)
    (emitted : List StreamEvent) (calls : List Emission) : Prop where
  calls : reconstruct client frames = calls.map fun c => (c.name, client.shown c.args)
  ids : (assignedIDs frames emitted).Nodup

/-! ### What an emission becomes -/

/-- A call as its frames give it. -/
structure Shown where
  key : ℤ
  id : String
  call : Emission

open Shown

def Shown.pieces (s : Shown) : List SeenCall :=
  { key := s.key, id := s.id, name := s.call.name } ::
    if s.call.args = "" then [] else [{ key := s.key, args := s.call.args }]

/-- Frames that show calls. -/
structure Shows (frames : List ClientFrame) (shown : List Shown) : Prop where
  pieces : frames.filterMap ClientFrame.piece = shown.flatMap Shown.pieces
  ids : frames.filterMap ClientFrame.startID = shown.map Shown.id

theorem Shows.append {shown shown' : List Shown}
    (h : Shows frames shown) (h' : Shows frames' shown') :
    Shows (frames ++ frames') (shown ++ shown') :=
  ⟨by rw [filterMap_append, h.pieces, h'.pieces, flatMap_append],
    by rw [filterMap_append, h.ids, h'.ids, map_append]⟩

/-- A frame that says nothing of a call. -/
def ClientFrame.Plain (f : ClientFrame) : Prop := f.piece = none ∧ f.startID = none

attribute [local simp] ClientFrame.Plain ClientFrame.piece ClientFrame.startID

theorem shows_nil (h : ∀ f ∈ frames, f.Plain) : Shows frames [] :=
  ⟨filterMap_eq_nil_iff.mpr fun f hf => (h f hf).1,
    filterMap_eq_nil_iff.mpr fun f hf => (h f hf).2⟩

/-- Frames that show calls, named as `N` says; where keys are fresh they are taken from `n` on, and
`n'` is the next. -/
def ShownAs (N : Shown → Prop) (fresh : Prop) (n n' : ℤ) (frames : List ClientFrame)
    (calls : List Emission) : Prop :=
  ∃ shown : List Shown, Shows frames shown ∧ shown.map Shown.call = calls ∧ (∀ s ∈ shown, N s) ∧
    (fresh → n ≤ n' ∧ (∀ s ∈ shown, n ≤ s.key ∧ s.key < n') ∧
      (shown.map Shown.key).Pairwise (· < ·))

theorem ShownAs.append {m k : ℤ} {calls calls' : List Emission}
    (h : ShownAs N fresh n m frames calls) (h' : ShownAs N fresh m k frames' calls') :
    ShownAs N fresh n k (frames ++ frames') (calls ++ calls') := by
  obtain ⟨shown, hshows, hcalls, hnamed, hfresh⟩ := h
  obtain ⟨shown', hshows', hcalls', hnamed', hfresh'⟩ := h'
  refine ⟨shown ++ shown', hshows.append hshows', by rw [map_append, hcalls, hcalls'],
    forall_mem_append.mpr ⟨hnamed, hnamed'⟩, fun hf => ?_⟩
  obtain ⟨hle, hkeys, hsorted⟩ := hfresh hf
  obtain ⟨hle', hkeys', hsorted'⟩ := hfresh' hf
  refine ⟨hle.trans hle', forall_mem_append.mpr ⟨fun s hs => ?_, fun s hs => ?_⟩, ?_⟩
  · exact ⟨(hkeys s hs).1, (hkeys s hs).2.trans_le hle'⟩
  · exact ⟨hle.trans (hkeys' s hs).1, (hkeys' s hs).2⟩
  · rw [map_append, pairwise_append]
    refine ⟨hsorted, hsorted', forall_mem_map.mpr fun s hs => forall_mem_map.mpr fun s' hs' => ?_⟩
    exact (hkeys s hs).2.trans_le (hkeys' s' hs').1

theorem shownAs_nil {n' : ℤ} (h : ∀ f ∈ frames, f.Plain)
    (hn : fresh → n ≤ n') : ShownAs N fresh n n' frames [] :=
  ⟨[], shows_nil h, rfl, by simp, fun hf => ⟨hn hf, by simp, List.Pairwise.nil⟩⟩

theorem shownAs_one {n' : ℤ} {s : Shown} (h : Shows frames [s])
    (hs : N s) (hn : fresh → n ≤ s.key ∧ s.key < n') :
    ShownAs N fresh n n' frames [s.call] := by
  refine ⟨[s], h, rfl, by simpa using hs, fun hf => ⟨?_, ?_, pairwise_singleton _ _⟩⟩
  · exact (hn hf).1.trans (hn hf).2.le
  · simpa using hn hf

theorem filterMap_emission_cons (o : Output) (outputs : List Output) :
    (o :: outputs).filterMap Output.emission =
      o.emission.toList ++ outputs.filterMap Output.emission := by
  cases o <;> rfl

/-- An emitter that shows each output: `I` is what is known of its state, with the next key. -/
def ShowsEach (I : Emitter → ℤ → Prop) (N : Shown → Prop) (fresh : Prop) : Prop :=
  ∀ e n (o : Output) frames e' frames', I e n →
    Emitter.emitAll (e, frames) o.events = .ok (e', frames') →
    ∃ more n', I e' n' ∧ frames' = frames ++ more ∧ ShownAs N fresh n n' more o.emission.toList

/-- **The outputs of an emitter, one after the other.** -/
theorem ShowsEach.outputs {I : Emitter → ℤ → Prop} (hone : ShowsEach I N fresh) {e : Emitter}
    {outputs : List Output} (hI : I e n)
    (h : emitAll (e, frames) (outputs.flatMap Output.events) = .ok (e', frames')) :
    ∃ more n', I e' n' ∧ frames' = frames ++ more ∧
      ShownAs N fresh n n' more (outputs.filterMap Output.emission) := by
  induction outputs generalizing e n frames with
  | nil =>
    cases h
    exact ⟨[], n, hI, by simp, shownAs_nil (by simp) fun _ => le_rfl⟩
  | cons o outputs ih =>
    rw [flatMap_cons, emitAll, foldlM_append] at h
    obtain ⟨⟨e₁, frames₁⟩, h₁, h⟩ := ok_of_bind h
    obtain ⟨more₁, n₁, hI₁, rfl, hshown₁⟩ := hone e n o frames e₁ frames₁ hI h₁
    obtain ⟨more, n', hI', rfl, hshown⟩ := ih hI₁ h
    refine ⟨more₁ ++ more, n', hI', by rw [append_assoc], ?_⟩
    rw [filterMap_emission_cons]
    exact hshown₁.append hshown

/-! ### The chat dialect -/

theorem emitAll_cons {s r : Emitter × List ClientFrame} {evs : List StreamEvent}
    (h : emitAll s (ev :: evs) = .ok r) :
    ∃ e frames, s.1.emit ev = .ok (e, frames) ∧
      emitAll (e, s.2 ++ frames) evs = .ok r := by
  obtain ⟨s₁, h₁, h⟩ := ok_of_bind h
  unfold step at h₁
  cases hemit : s.1.emit ev with
  | error err =>
    rw [hemit] at h₁
    cases h₁
  | ok r₁ =>
    rw [hemit] at h₁
    cases h₁
    exact ⟨r₁.1, r₁.2, rfl, h⟩

theorem emitAll_call {e : Emitter} (h : emitAll (e, frames) c.events = .ok (e', frames')) :
    ∃ e₁ fs₁ e₂ fs₂ fs₃, e.emit c.startEvent = .ok (e₁, fs₁) ∧
      (c.args = "" ∧ e₂ = e₁ ∧ fs₂ = [] ∨ c.args ≠ "" ∧ e₁.emit c.argsEvent = .ok (e₂, fs₂)) ∧
      e₂.emit c.endEvent = .ok (e', fs₃) ∧ frames' = frames ++ (fs₁ ++ fs₂ ++ fs₃) := by
  obtain ⟨e₁, fs₁, hstart, h⟩ := emitAll_cons h
  by_cases hargs : c.args = ""
  · rw [if_pos hargs] at h
    obtain ⟨e₃, fs₃, hend, h⟩ := emitAll_cons h
    cases h
    exact ⟨e₁, fs₁, e₁, [], fs₃, hstart, .inl ⟨hargs, rfl, rfl⟩, hend, by simp⟩
  · rw [if_neg hargs] at h
    obtain ⟨e₂, fs₂, hdelta, h⟩ := emitAll_cons h
    obtain ⟨e₃, fs₃, hend, h⟩ := emitAll_cons h
    cases h
    exact ⟨e₁, fs₁, e₂, fs₂, fs₃, hstart, .inr ⟨hargs, hdelta⟩, hend, by simp⟩

/-- The arguments of a call, if there are any, are shown and keep what is known. -/
theorem args_shown {P : Emitter → Prop} {e₁ e₂ : Emitter} {fs₂ shown : List ClientFrame}
    (h : c.args = "" ∧ e₂ = e₁ ∧ fs₂ = [] ∨ c.args ≠ "" ∧ e₁.emit c.argsEvent = .ok (e₂, fs₂))
    (h₁ : P e₁) (hstep : ∀ e fs, e₁.emit c.argsEvent = .ok (e, fs) → P e ∧ fs = shown) :
    P e₂ ∧ fs₂ = if c.args = "" then [] else shown := by
  rcases h with ⟨hargs, rfl, rfl⟩ | ⟨hargs, hemit⟩
  · exact ⟨h₁, (if_pos hargs).symm⟩
  · rw [if_neg hargs]
    exact hstep e₂ fs₂ hemit

theorem shows_call {s : Shown} {closed fs₁ fs₂ fs₃ : List ClientFrame}
    (hclosed : ∀ f ∈ closed, f.Plain)
    (hstart : fs₁.filterMap piece = [{ key := s.key, id := s.id, name := s.call.name }])
    (hid : fs₁.filterMap startID = [s.id])
    (hargs : fs₂.filterMap piece =
      if s.call.args = "" then [] else [{ key := s.key, args := s.call.args }])
    (hplain : fs₂.filterMap startID = []) (hend : ∀ f ∈ fs₃, f.Plain) :
    Shows (closed ++ fs₁ ++ fs₂ ++ fs₃) [s] := by
  have hbefore := shows_nil hclosed
  have hrest := shows_nil hend
  constructor
  · simp only [filterMap_append, hbefore.pieces, hstart, hargs, hrest.pieces]
    simp [pieces]
  · simp only [filterMap_append, hbefore.ids, hid, hplain, hrest.ids]
    rfl

/-- What the chat emitter knows a call by. -/
def chatName (s : Shown) : Prop := s.key = s.call.index ∧ s.id = callID s.call.id s.call.index

theorem OpenAIEmitter.plain_of_emit {e e' : OpenAIEmitter} {frames : List OpenAIFrame}
    (hev : ev.type.isTool = false) (h : e.emit ev = .ok (e', frames)) :
    ∀ f ∈ frames, (openAI f).Plain := by
  unfold emit at h
  cases hty : ev.type with
  | toolStart | toolDelta | toolEnd => rw [hty] at hev; cases hev
  | _ =>
    rw [hty] at h
    cases h
    simp

theorem OpenAIEmitter.frames_of_call {e e' : OpenAIEmitter} {frames : List OpenAIFrame} :
    (e.emit c.startEvent = .ok (e', frames) →
        frames = [.toolStart c.index (callID c.id c.index) c.name]) ∧
      (e.emit c.argsEvent = .ok (e', frames) → frames = [.toolArguments c.index c.args]) := by
  refine ⟨fun h => ?_, fun h => ?_⟩
  · change (if toolStartTooLarge c.startEvent then Except.error _ else Except.ok _) = _ at h
    split at h <;> cases h
    rfl
  · change (if toolDeltaTooLarge c.argsEvent then Except.error _ else Except.ok _) = _ at h
    split at h <;> cases h
    rfl

theorem ok_of_wrapped {E F : Type} {wrap : E → Emitter} {frame : F → ClientFrame}
    {x : Except String (E × List F)}
    (h : (x.map fun r => (wrap r.1, r.2.map frame)) = .ok (e', frames)) :
    ∃ e₁ fs, x = .ok (e₁, fs) ∧ e' = wrap e₁ ∧ frames = fs.map frame := by
  obtain ⟨r, hr, heq⟩ := ok_of_map h
  cases heq
  exact ⟨r.1, r.2, hr, rfl, rfl⟩

theorem chat_showsEach : ShowsEach (fun e _ => ∃ e₁, e = .openAI e₁) chatName False := by
  rintro _ n o frames e' frames' ⟨e, rfl⟩ h
  cases o with
  | event ev hev =>
    obtain ⟨e₁, fs₁, hemit, h⟩ := emitAll_cons h
    cases h
    obtain ⟨e₂, fs, hfs, rfl, rfl⟩ := ok_of_wrapped hemit
    exact ⟨fs.map .openAI, n, ⟨e₂, rfl⟩, rfl, shownAs_nil
      (forall_mem_map.mpr (plain_of_emit hev hfs)) fun _ => le_rfl⟩
  | call c =>
    obtain ⟨e₁, fs₁, e₂, fs₂, fs₃, hstart, hargs, hend, rfl⟩ := emitAll_call h
    obtain ⟨e₁, gs₁, hgs₁, rfl, rfl⟩ := ok_of_wrapped hstart
    obtain rfl := frames_of_call.1 hgs₁
    obtain ⟨⟨e₃, rfl⟩, rfl⟩ := args_shown (P := fun e => ∃ e₃, e = .openAI e₃) hargs ⟨e₁, rfl⟩
      fun e fs hemit => by
        obtain ⟨e₃, gs₂, hgs₂, rfl, rfl⟩ := ok_of_wrapped hemit
        obtain rfl := frames_of_call.2 hgs₂
        exact ⟨⟨e₃, rfl⟩, rfl⟩
    cases hend
    refine ⟨_, n, ⟨_, rfl⟩, rfl, ?_⟩
    refine shownAs_one (s := ⟨c.index, callID c.id c.index, c⟩) ?_ ⟨rfl, rfl⟩ fun hf => hf.elim
    exact shows_call (forall_mem_nil _) rfl rfl (by split <;> rfl) (by split <;> rfl) (by simp)

/-! ### The Anthropic dialect -/

namespace AnthropicEmitter

/-- Closing blocks: the keys stay, and the frames say nothing of calls. -/
structure Closes (e : AnthropicEmitter) (r : AnthropicEmitter × List AnthropicFrame) : Prop where
  nextIndex : r.1.nextIndex = e.nextIndex
  blocks : r.1.blocks = e.blocks
  frames : ∀ f ∈ r.2, (ClientFrame.anthropic f).Plain

variable (e : AnthropicEmitter)

theorem closes_closeBlock (index : ℤ) : Closes e (e.closeBlock index) := by
  unfold closeBlock
  split <;> exact ⟨rfl, rfl, by simp⟩

theorem closes_closeThinking : Closes e e.closeThinking := by
  unfold closeThinking
  have h := closes_closeBlock e e.thinkIndex
  split
  · exact ⟨h.nextIndex, h.blocks, h.frames⟩
  · exact ⟨rfl, rfl, by simp⟩

theorem closes_closeText : Closes e e.closeText := by
  unfold closeText
  have h := closes_closeBlock e e.textIndex
  split
  · exact ⟨h.nextIndex, h.blocks, h.frames⟩
  · exact ⟨rfl, rfl, by simp⟩

/-- The id of a call, in a block. -/
def toolUseID (id : String) (index : ℤ) : String := if id = "" then "toolu_" ++ toString index else id

theorem startTool_spec (toolIndex : ℤ) (toolID toolName : String) :
    (e.startTool toolIndex toolID toolName).1.nextIndex = e.nextIndex + 1 ∧
      (e.startTool toolIndex toolID toolName).1.blocks.lookup toolIndex = some e.nextIndex ∧
      ∃ closed, (∀ f ∈ closed, (anthropic f).Plain) ∧
        (e.startTool toolIndex toolID toolName).2 =
          closed ++ [AnthropicFrame.blockStart e.nextIndex
            (.toolUse (toolUseID toolID e.nextIndex) toolName)] := by
  have hthinking := closes_closeThinking e
  have htext := closes_closeText e.closeThinking.1
  have hnext : e.closeThinking.1.closeText.1.nextIndex = e.nextIndex :=
    htext.nextIndex.trans hthinking.nextIndex
  refine ⟨congrArg (· + 1) hnext, ?_, e.closeThinking.2 ++ e.closeThinking.1.closeText.2, ?_, ?_⟩
  · show (e.closeThinking.1.closeText.1.blocks.insert toolIndex
      e.closeThinking.1.closeText.1.nextIndex).lookup toolIndex = _
    rw [hnext, Map.lookup_insert, if_pos rfl]
  · exact forall_mem_append.mpr ⟨hthinking.frames, htext.frames⟩
  · show e.closeThinking.2 ++ e.closeThinking.1.closeText.2 ++
      [AnthropicFrame.blockStart e.closeThinking.1.closeText.1.nextIndex
      (.toolUse (toolUseID toolID e.closeThinking.1.closeText.1.nextIndex) toolName)] = _
    rw [hnext]

variable {e : AnthropicEmitter}

theorem Closes.opened {r : AnthropicEmitter × List AnthropicFrame}
    (h : Closes e r) {f f' : AnthropicFrame} (hf : (anthropic f).Plain)
    (hf' : (anthropic f').Plain) :
    e.nextIndex ≤ r.1.nextIndex + 1 ∧ ∀ g ∈ r.2 ++ [f] ++ [f'], (anthropic g).Plain := by
  refine ⟨by rw [h.nextIndex]; omega, ?_⟩
  simp only [forall_mem_append, forall_mem_singleton]
  exact ⟨⟨h.frames, hf⟩, hf'⟩

theorem emit_other (hev : ev.type.isTool = false) :
    e.nextIndex ≤ (e.emit ev).1.nextIndex ∧ ∀ f ∈ (e.emit ev).2, (anthropic f).Plain := by
  unfold emit
  cases hty : ev.type with
  | toolStart | toolDelta | toolEnd => rw [hty] at hev; cases hev
  | start | usage =>
    cases ev.usage with
    | none | some u => exact ⟨le_rfl, by simp⟩
  | stop =>
    simp only
    split <;> exact ⟨le_rfl, by simp⟩
  | error => exact ⟨le_rfl, by simp⟩
  | text =>
    simp only
    split
    · exact ⟨le_rfl, by simp⟩
    · exact (closes_closeThinking e).opened ⟨rfl, rfl⟩ ⟨rfl, rfl⟩
  | thinking =>
    simp only
    split
    · exact ⟨le_rfl, by simp⟩
    · exact (closes_closeText e).opened ⟨rfl, rfl⟩ ⟨rfl, rfl⟩

theorem emit_args {index : ℤ} (h : e.blocks.lookup c.index = some index) :
    e.emit c.argsEvent = (e, [.blockDelta index (.inputJSON c.args)]) := by
  simp [emit, Emission.argsEvent, h]

theorem emit_end {index : ℤ} (h : e.blocks.lookup c.index = some index) :
    e.emit c.endEvent = e.closeBlock index := by
  simp [emit, Emission.endEvent, h]

end AnthropicEmitter

/-- What the Anthropic emitter knows a call by. -/
def blockName (s : Shown) : Prop := s.id = AnthropicEmitter.toolUseID s.call.id s.key

/-- The state of the Anthropic emitter. -/
def atBlock (e : Emitter) (n : ℤ) : Prop := ∃ e₁, e = .anthropic e₁ ∧ e₁.nextIndex = n

theorem Emitter.emit_anthropic (h : (anthropic e).emit ev = .ok (e', frames)) :
    e' = .anthropic (e.emit ev).1 ∧ frames = (e.emit ev).2.map .anthropic := by
  cases h
  exact ⟨rfl, rfl⟩

theorem blocks_showsEach : ShowsEach atBlock blockName True := by
  rintro _ n o frames e' frames' ⟨e, rfl, rfl⟩ h
  cases o with
  | event ev hev =>
    obtain ⟨e₁, fs₁, hemit, h⟩ := emitAll_cons h
    cases h
    obtain ⟨rfl, rfl⟩ := emit_anthropic hemit
    obtain ⟨hnext, hplain⟩ := e.emit_other hev
    exact ⟨_, _, ⟨_, rfl, rfl⟩, rfl, shownAs_nil (forall_mem_map.mpr hplain) fun _ => hnext⟩
  | call c =>
    obtain ⟨e₁, fs₁, e₂, fs₂, fs₃, hstart, hargs, hend, rfl⟩ := emitAll_call h
    obtain ⟨rfl, rfl⟩ := emit_anthropic hstart
    have hstarted : e.emit c.startEvent = e.startTool c.index c.id c.name := rfl
    rw [hstarted] at hargs ⊢
    obtain ⟨hnext, hblock, closed, hclosed, hframes⟩ := e.startTool_spec c.index c.id c.name
    -- the arguments come under the key of the start
    obtain ⟨rfl, rfl⟩ := args_shown (P := (· = .anthropic (e.startTool c.index c.id c.name).1))
      hargs rfl fun e₂ fs hemit => by
        obtain ⟨rfl, rfl⟩ := emit_anthropic hemit
        rw [emit_args hblock]
        exact ⟨rfl, rfl⟩
    obtain ⟨rfl, rfl⟩ := emit_anthropic hend
    rw [emit_end hblock]
    have hclose := closes_closeBlock (e.startTool c.index c.id c.name).1 e.nextIndex
    refine ⟨_, e.nextIndex + 1, ⟨_, rfl, hclose.nextIndex.trans hnext⟩, rfl, ?_⟩
    let s : Shown := ⟨e.nextIndex, toolUseID c.id e.nextIndex, c⟩
    rw [hframes, map_append]
    exact shownAs_one (s := s) (shows_call (forall_mem_map.mpr hclosed) rfl rfl (by split <;> rfl)
      (by split <;> rfl) (forall_mem_map.mpr hclose.frames)) rfl
      fun _ => ⟨le_rfl, by show e.nextIndex < _; omega⟩

/-! ### The Responses dialect -/

namespace ResponsesEmitter

variable {e e' : ResponsesEmitter} {frames : List ResponsesFrame}

theorem closeMessage_spec (e : ResponsesEmitter) :
    e.closeMessage.1.nextOutIdx = e.nextOutIdx ∧
      ∀ f ∈ e.closeMessage.2, (responses f).Plain := by
  unfold closeMessage
  split <;> exact ⟨rfl, by simp⟩

theorem emit_other (hev : ev.type.isTool = false) (h : e.emit ev = .ok (e', frames)) :
    e'.nextOutIdx = e.nextOutIdx ∧ ∀ f ∈ frames, (responses f).Plain := by
  have husage : ∀ u, (e.observeUsage u).nextOutIdx = e.nextOutIdx := by
    intro u
    cases u <;> rfl
  unfold emit at h
  cases hty : ev.type with
  | toolStart | toolDelta | toolEnd => rw [hty] at hev; cases hev
  | text =>
    rw [hty] at h
    unfold openMessage at h
    cases hopen : e.msgOpen with
    | true =>
      simp only [hopen, if_true] at h
      cases h
      exact ⟨rfl, by simp⟩
    | false =>
      simp only [hopen, Bool.false_eq_true, if_false] at h
      cases h
      exact ⟨rfl, by simp⟩
  | start | usage =>
    rw [hty] at h
    cases h
    exact ⟨husage _, by simp⟩
  | _ =>
    rw [hty] at h
    cases h
    exact ⟨rfl, by simp⟩

theorem emit_toolStart (hev : ev.type = .toolStart) (h : e.emit ev = .ok (e', frames)) :
    (e', frames) = e.startTool ev := by
  unfold emit at h
  rw [hev] at h
  simp only at h
  split at h
  · cases h
  · exact (Except.ok.inj h).symm

theorem emit_toolDelta (hev : ev.type = .toolDelta) (h : e.emit ev = .ok (e', frames)) :
    ∃ c, e.tools.lookup ev.toolIndex = some c ∧
      e' = { e with tools :=
        e.tools.insert ev.toolIndex { c with arguments := c.arguments ++ ev.argsDelta } } ∧
      frames = [.argumentsDelta c.outputIndex c.callID ev.argsDelta] := by
  unfold emit at h
  rw [hev] at h
  simp only at h
  split at h
  · cases h
  · split at h
    · cases h
    · next c hc =>
      cases h
      exact ⟨c, hc, rfl, rfl⟩

theorem emit_toolEnd (hev : ev.type = .toolEnd) (h : e.emit ev = .ok (e', frames)) :
    ∃ c, e.tools.lookup ev.toolIndex = some c ∧ e' = e ∧
      frames = [.argumentsDone c.outputIndex c.callID c.name c.arguments,
        .callDone c.outputIndex c.callID c.name c.arguments] := by
  unfold emit at h
  rw [hev] at h
  simp only at h
  split at h
  · cases h
  · next c hc =>
    cases h
    exact ⟨c, hc, rfl, rfl⟩

theorem startTool_spec (e : ResponsesEmitter) (ev : StreamEvent) :
    (e.startTool ev).1.nextOutIdx = e.nextOutIdx + 1 ∧
      (e.startTool ev).1.tools.lookup ev.toolIndex =
        some ⟨callID ev.toolID ev.toolIndex, e.nextOutIdx, ev.toolName, ""⟩ ∧
      ∃ closed, (∀ f ∈ closed, (responses f).Plain) ∧ (e.startTool ev).2 =
        closed ++ [ResponsesFrame.callAdded e.nextOutIdx (callID ev.toolID ev.toolIndex)
          ev.toolName] := by
  obtain ⟨hnext, hclosed⟩ := closeMessage_spec e
  refine ⟨congrArg (· + 1) hnext, ?_, e.closeMessage.2, hclosed, ?_⟩
  · show (e.closeMessage.1.tools.insert ev.toolIndex ⟨_, e.closeMessage.1.nextOutIdx, _, _⟩).lookup
      ev.toolIndex = _
    rw [Map.lookup_insert, if_pos rfl, hnext]
  · show e.closeMessage.2 ++ [ResponsesFrame.callAdded e.closeMessage.1.nextOutIdx _ _] = _
    rw [hnext]

end ResponsesEmitter

/-- What the Responses emitter knows a call by. -/
def itemName (s : Shown) : Prop := s.id = callID s.call.id s.call.index

/-- The state of the Responses emitter. -/
def atItem (e : Emitter) (n : ℤ) : Prop := ∃ e₁, e = .responses e₁ ∧ e₁.nextOutIdx = n

theorem items_showsEach : ShowsEach atItem itemName True := by
  rintro _ n o frames e' frames' ⟨e, rfl, rfl⟩ h
  cases o with
  | event ev hev =>
    obtain ⟨e₁, fs₁, hemit, h⟩ := emitAll_cons h
    cases h
    obtain ⟨e₁, fs, hfs, rfl, rfl⟩ := ok_of_wrapped hemit
    obtain ⟨hnext, hplain⟩ := emit_other hev hfs
    exact ⟨_, _, ⟨e₁, rfl, rfl⟩, rfl, shownAs_nil (forall_mem_map.mpr hplain) fun _ => hnext.ge⟩
  | call c =>
    obtain ⟨e₁, fs₁, e₂, fs₂, fs₃, hstart, hargs, hend, rfl⟩ := emitAll_call h
    obtain ⟨e₁, gs₁, hgs₁, rfl, rfl⟩ := ok_of_wrapped hstart
    obtain ⟨hnext, hcall, closed, hclosed, hframes⟩ := e.startTool_spec c.startEvent
    have hstarted := emit_toolStart rfl hgs₁
    rw [← hstarted] at hnext hcall hframes
    change gs₁ = _ at hframes
    obtain ⟨⟨e₃, rfl, hnext₃⟩, rfl⟩ := args_shown (P := (atItem · (e.nextOutIdx + 1))) hargs
      ⟨e₁, rfl, hnext⟩ fun e₂ fs hemit => by
        obtain ⟨e₃, gs₂, hgs₂, rfl, rfl⟩ := ok_of_wrapped hemit
        obtain ⟨call, hlookup, rfl, rfl⟩ := emit_toolDelta rfl hgs₂
        obtain rfl := Option.some.inj (hcall.symm.trans hlookup)
        exact ⟨⟨_, rfl, hnext⟩, rfl⟩
    obtain ⟨e₄, gs₃, hgs₃, rfl, rfl⟩ := ok_of_wrapped hend
    obtain ⟨call, -, rfl, rfl⟩ := emit_toolEnd rfl hgs₃
    refine ⟨_, e.nextOutIdx + 1, ⟨_, rfl, hnext₃⟩, rfl, ?_⟩
    let s : Shown := ⟨e.nextOutIdx, callID c.id c.index, c⟩
    rw [hframes, map_append]
    exact shownAs_one (s := s) (shows_call (forall_mem_map.mpr hclosed) rfl rfl (by split <;> rfl)
      (by split <;> rfl) (by simp)) rfl fun _ => ⟨le_rfl, by show e.nextOutIdx < _; omega⟩

/-! ### The Gemini dialect -/

namespace GeminiEmitter

variable {e e' : GeminiEmitter} {frames : List GeminiFrame}

/-- No call is under way. -/
def Idle (e : GeminiEmitter) : Prop :=
  (∀ i, e.toolArgs.lookup i = none) ∧ ∀ i, e.toolNames.lookup i = none

theorem emit_other (hev : ev.type.isTool = false) (hidle : e.Idle)
    (h : e.emit ev = .ok (e', frames)) :
    e'.Idle ∧ ∀ f ∈ frames, (gemini f).part = none := by
  have husage : ∀ u, (e.observeUsage u).Idle := by
    intro u
    cases u <;> exact hidle
  unfold emit at h
  cases hty : ev.type with
  | toolStart | toolDelta | toolEnd => rw [hty] at hev; cases hev
  | text | thinking =>
    rw [hty] at h
    cases h
    refine ⟨hidle, ?_⟩
    split <;> simp [part]
  | start | usage =>
    rw [hty] at h
    cases h
    exact ⟨husage _, by simp⟩
  | _ =>
    rw [hty] at h
    cases h
    exact ⟨hidle, by simp⟩

/-- One call is under way, with these arguments. -/
def Busy (e : GeminiEmitter) (i : ℤ) (name args : String) : Prop :=
  (∀ j, e.toolArgs.lookup j = if j = i then some args else none) ∧
    ∀ j, e.toolNames.lookup j = if j = i ∧ name ≠ "" then some name else none

theorem emit_start (hidle : e.Idle) (h : e.emit c.startEvent = .ok (e', frames)) :
    e'.Busy c.index c.name "" ∧ frames = [] := by
  obtain ⟨hargs, hnames⟩ := hidle
  unfold emit at h
  simp only [Emission.startEvent, hargs] at h
  split at h
  · cases h
  split at h
  · cases h
  cases h
  refine ⟨⟨fun j => ?_, fun j => ?_⟩, rfl⟩
  · show (e.toolArgs.insert c.index "").lookup j = _
    rw [Map.lookup_insert, hargs]
  · show (if c.name = "" then _ else _ : Map ℤ String).lookup j = _
    by_cases hname : c.name = ""
    · rw [if_pos hname, hnames, if_neg fun h => h.2 hname]
    · rw [if_neg hname, Map.lookup_insert, hnames]
      exact if_congr (by simp [hname]) rfl rfl

theorem emit_args (hbusy : e.Busy c.index c.name "") (h : e.emit c.argsEvent = .ok (e', frames)) :
    e'.Busy c.index c.name c.args ∧ frames = [] := by
  obtain ⟨hargs, hnames⟩ := hbusy
  have hlookup : e.toolArgs.lookup c.index = some "" := by rw [hargs, if_pos rfl]
  unfold emit at h
  simp only [Emission.argsEvent, hlookup] at h
  cases h
  refine ⟨⟨fun j => ?_, hnames⟩, rfl⟩
  show (e.toolArgs.insert c.index ("" ++ c.args)).lookup j = _
  rw [Map.lookup_insert, hargs, String.empty_append]
  split <;> rfl

theorem emit_end {args : String} (hbusy : e.Busy c.index c.name args)
    (h : e.emit c.endEvent = .ok (e', frames)) :
    e'.Idle ∧ frames = [.functionCall c.name (objectText args)] := by
  obtain ⟨hargs, hnames⟩ := hbusy
  have hlookup : e.toolArgs.lookup c.index = some args := by rw [hargs, if_pos rfl]
  have hname : (e.toolNames.lookup c.index).getD "" = c.name := by
    rw [hnames]
    by_cases hname : c.name = "" <;> simp [hname]
  unfold emit at h
  simp only [Emission.endEvent, hlookup, hname] at h
  by_cases hobject : isObject (objectText args) = true
  · rw [if_pos hobject] at h
    cases h
    refine ⟨⟨fun j => ?_, fun j => ?_⟩, rfl⟩
    · rw [Map.lookup_erase, hargs]
      split <;> rfl
    · rw [Map.lookup_erase, hnames]
      split
      · rfl
      · next hj => rw [if_neg fun h => hj h.1]
  · rw [if_neg hobject] at h
    cases h

end GeminiEmitter

theorem parts_output {e : GeminiEmitter} {o : Output}
    (hidle : e.Idle) (h : emitAll (.gemini e, frames) o.events = .ok (e', frames')) :
    ∃ (e₁ : GeminiEmitter) (more : List GeminiFrame), e' = .gemini e₁ ∧ e₁.Idle ∧
      frames' = frames ++ more.map .gemini ∧
      (more.map ClientFrame.gemini).filterMap ClientFrame.part =
        o.emission.toList.map fun c => (c.name, objectText c.args) := by
  cases o with
  | event ev hev =>
    obtain ⟨e₁, fs₁, hemit, h⟩ := emitAll_cons h
    cases h
    obtain ⟨e₁, fs, hfs, rfl, rfl⟩ := ok_of_wrapped hemit
    obtain ⟨hidle₁, hparts⟩ := emit_other hev hidle hfs
    refine ⟨e₁, fs, rfl, hidle₁, rfl, ?_⟩
    rw [filterMap_map]
    exact filterMap_eq_nil_iff.mpr hparts
  | call c =>
    obtain ⟨e₁, fs₁, e₂, fs₂, fs₃, hstart, hargs, hend, rfl⟩ := emitAll_call h
    obtain ⟨e₁, gs₁, hgs₁, rfl, rfl⟩ := ok_of_wrapped hstart
    obtain ⟨hbusy, rfl⟩ := emit_start hidle hgs₁
    have hdelta : ∃ e₃ : GeminiEmitter, e₂ = .gemini e₃ ∧ e₃.Busy c.index c.name c.args ∧
        fs₂ = [] := by
      rcases hargs with ⟨hargs, rfl, rfl⟩ | ⟨hargs, hdelta⟩
      · exact ⟨e₁, rfl, by rwa [hargs], rfl⟩
      · obtain ⟨e₃, gs₂, hgs₂, rfl, rfl⟩ := ok_of_wrapped hdelta
        obtain ⟨hbusy₃, rfl⟩ := emit_args hbusy hgs₂
        exact ⟨e₃, rfl, hbusy₃, rfl⟩
    obtain ⟨e₃, rfl, hbusy₃, rfl⟩ := hdelta
    obtain ⟨e₄, gs₃, hgs₃, rfl, rfl⟩ := ok_of_wrapped hend
    obtain ⟨hidle₄, rfl⟩ := emit_end hbusy₃ hgs₃
    exact ⟨e₄, [.functionCall c.name (objectText c.args)], rfl, hidle₄, rfl, rfl⟩

/-- **The parts of a Gemini stream**: one for each call. -/
theorem parts_outputs {e : GeminiEmitter} {outputs : List Output} (hidle : e.Idle)
    (h : emitAll (.gemini e, frames) (outputs.flatMap Output.events) = .ok (e', frames')) :
    (∃ e₁, e' = .gemini e₁) ∧ ∃ more : List GeminiFrame, frames' = frames ++ more.map .gemini ∧
      (more.map ClientFrame.gemini).filterMap ClientFrame.part =
        (outputs.filterMap Output.emission).map fun c => (c.name, objectText c.args) := by
  induction outputs generalizing e frames with
  | nil =>
    cases h
    exact ⟨⟨e, rfl⟩, [], by simp, rfl⟩
  | cons o outputs ih =>
    rw [flatMap_cons, emitAll, foldlM_append] at h
    obtain ⟨⟨e₁, frames₁⟩, h₁, h⟩ := ok_of_bind h
    obtain ⟨e₁, more₁, rfl, hidle₁, rfl, hparts₁⟩ := parts_output hidle h₁
    obtain ⟨hgemini, more, rfl, hparts⟩ := ih hidle₁ h
    rw [filterMap_emission_cons]
    refine ⟨hgemini, more₁ ++ more, by rw [map_append, append_assoc], ?_⟩
    rw [map_append, filterMap_append, hparts₁, hparts, map_append]

/-! ### What is seen in the end -/

theorem plain_new (client : ClientProtocol) : ∀ f ∈ (newStreamEmitter client).2, f.Plain := by
  cases client <;>
  simp [newStreamEmitter]

theorem plain_finish (e : Emitter) : ∀ f ∈ e.finish.2, f.Plain := by
  cases e with
  | anthropic e =>
    refine forall_mem_map.mpr ?_
    unfold AnthropicEmitter.finish
    split
    · simp
    · have hthinking := closes_closeThinking { e with finished := true }
      have htext := closes_closeText { e with finished := true }.closeThinking.1
      simp only [forall_mem_append, forall_mem_map]
      exact ⟨⟨⟨hthinking.frames, htext.frames⟩, fun _ _ => ⟨rfl, rfl⟩⟩, by simp⟩
  | openAI e =>
    refine forall_mem_map.mpr ?_
    unfold OpenAIEmitter.finish
    split
    · simp
    · split <;> simp
  | responses e =>
    refine forall_mem_map.mpr ?_
    unfold ResponsesEmitter.finish
    split
    · simp
    · have hclosed := (closeMessage_spec { e with finished := true }).2
      exact forall_mem_append.mpr ⟨hclosed, by simp⟩
  | gemini e =>
    exact forall_mem_map.mpr fun _ _ => ⟨rfl, rfl⟩

theorem shown_outputs {I : Emitter → ℤ → Prop} (hone : ShowsEach I N fresh)
    {client : ClientProtocol} {e : Emitter} {outputs : List Output}
    (hI : I (newStreamEmitter client).1 n)
    (h : emitAll (newStreamEmitter client) (outputs.flatMap Output.events) =
      .ok (e, frames)) :
    ∃ shown, Shows (frames ++ e.finish.2) shown ∧
      shown.map call = outputs.filterMap Output.emission ∧ (∀ s ∈ shown, N s) ∧
      (fresh → (shown.map key).Nodup) := by
  change emitAll ((newStreamEmitter client).1, (newStreamEmitter client).2) _ = _ at h
  obtain ⟨more, n', _, rfl, shown, hshows, hcalls, hnamed, hfresh⟩ := hone.outputs hI h
  have hall := ((shows_nil (plain_new client)).append hshows).append (shows_nil (plain_finish e))
  refine ⟨shown, by simpa using hall, hcalls, hnamed, fun hf => ?_⟩
  exact (hfresh hf).2.2.imp fun h => h.ne

theorem startIDs_outputs (outputs : List Output) :
    (outputs.flatMap Output.events).filterMap StreamEvent.startID =
      (outputs.filterMap Output.emission).map Emission.id := by
  induction outputs with
  | nil => rfl
  | cons o outputs ih =>
    rw [flatMap_cons, filterMap_append, ih, filterMap_emission_cons, map_append]
    cases o with
    | event ev hev =>
      have hne : ev.type ≠ .toolStart := fun h => by rw [h] at hev; cases hev
      simp [Output.events, Output.emission, StreamEvent.startID, hne]
    | call c =>
      by_cases hargs : c.args = "" <;>
      simp [Output.events, Output.emission, Emission.events, StreamEvent.startID,
        Emission.startEvent, Emission.argsEvent, Emission.endEvent]

theorem assignedIDs_eq {shown : List Shown} {outputs : List Output} (h : Shows frames shown)
    (hcalls : shown.map call = outputs.filterMap Output.emission) :
    assignedIDs frames (outputs.flatMap Output.events) =
      (shown.filter fun s => s.call.id = "").map Shown.id := by
  rw [assignedIDs, h.ids, startIDs_outputs, ← hcalls, map_map, zip_map',
    filterMap_map]
  clear h hcalls
  induction shown with
  | nil => rfl
  | cons s shown ih =>
    by_cases hid : s.call.id = ""
    · simpa [hid] using ih
    · simpa [hid] using ih

theorem collect_shown {shown : List Shown} (h : (shown.map key).Nodup) :
    Keyed.collect SeenCall.key SeenCall.join (shown.flatMap pieces) =
      shown.map fun s => ⟨s.key, s.id, s.call.name, s.call.args⟩ := by
  let group (s : Shown) : SeenCall × List SeenCall :=
    ({ key := s.key, id := s.id, name := s.call.name },
      if s.call.args = "" then [] else [{ key := s.key, args := s.call.args }])
  have hmerge : ∀ s t, SeenCall.key (SeenCall.join s t) = SeenCall.key s := fun _ _ => rfl
  have hgroup : ∀ g ∈ shown.map group, ∀ t ∈ g.2, SeenCall.key t = SeenCall.key g.1 := by
    intro g hg
    obtain ⟨s, _, rfl⟩ := mem_map.mp hg
    by_cases hargs : s.call.args = "" <;> simp [group]
  have hdistinct : ((shown.map group).map fun g => SeenCall.key g.1).Nodup := by
    rw [map_map]
    exact h
  have hcollect := Keyed.collect_groups hmerge (shown.map group) hgroup hdistinct
  rw [flatMap_map, map_map] at hcollect
  refine hcollect.trans (map_congr_left fun s _ => ?_)
  by_cases hargs : s.call.args = "" <;> simp [group, hargs, SeenCall.join]

/-! ### Which calls are told apart -/

/-- What tells the calls of a stream apart for a client: the indices of the upstream for the chat
dialect, and for the ids that the Responses dialect makes up of them. -/
def ClientProtocol.KeysDistinct : ClientProtocol → List Emission → Prop
  | .openAIChat, calls => (calls.map Emission.index).Nodup
  | .openAIResponses, calls => ((calls.filter fun c => c.id = "").map Emission.index).Nodup
  | .anthropic, _ | .gemini, _ => True

section Dialects

variable {client : ClientProtocol} {shown : List Shown} {calls : List Emission}

/-- A client that reconstructs calls by key has them all, if their keys are distinct. -/
theorem reconstruct_keyed (hclient : client ≠ .gemini) (hshows : Shows frames shown)
    (hcalls : shown.map call = calls) (hkeys : (shown.map key).Nodup) :
    reconstruct client frames = calls.map fun c => (c.name, client.shown c.args) := by
  have hcollect : reconstruct client frames =
      (Keyed.collect SeenCall.key SeenCall.join (shown.flatMap pieces)).map
        fun s => (s.name, s.args) := by
    rw [← hshows.pieces]
    cases client with
    | gemini => exact absurd rfl hclient
    | _ => rfl
  have hshown : ∀ args, client.shown args = args := by
    intro args
    cases client with
    | gemini => exact absurd rfl hclient
    | _ => rfl
  rw [hcollect, collect_shown hkeys, map_map, ← hcalls, map_map]
  exact map_congr_left fun s _ => by simp [hshown]

/-- Ids that are made up of distinct numbers are distinct. -/
theorem nodup_madeUp {text : String} {number : Shown → ℤ}
    (h : ∀ s ∈ shown, s.call.id = "" → s.id = text ++ toString (number s))
    (hnumbers : ((shown.filter fun s => s.call.id = "").map number).Nodup) :
    ((shown.filter fun s => s.call.id = "").map Shown.id).Nodup := by
  have hids : (shown.filter fun s => s.call.id = "").map Shown.id =
      ((shown.filter fun s => s.call.id = "").map number).map fun i => text ++ toString i := by
    rw [map_map]
    refine map_congr_left fun s hs => ?_
    obtain ⟨hs, hempty⟩ := mem_filter.mp hs
    exact h s hs (by simpa using hempty)
  rw [hids]
  exact hnumbers.map fun i j hij => Int.repr_injective ((String.append_right_inj text).mp hij)

theorem nodup_callIDs (hcalls : shown.map call = calls)
    (hid : ∀ s ∈ shown, s.id = callID s.call.id s.call.index)
    (hindices : ((calls.filter fun c => c.id = "").map Emission.index).Nodup) :
    ((shown.filter fun s => s.call.id = "").map Shown.id).Nodup := by
  have hmade : ∀ s ∈ shown, s.call.id = "" → s.id = "call_" ++ toString s.call.index :=
    fun s hs hempty => (hid s hs).trans (if_pos hempty)
  refine nodup_madeUp hmade ?_
  rw [← hcalls, filter_map, map_map] at hindices
  exact hindices

variable {outputs : List Output} {e : Emitter}
  (hcalls : outputs.filterMap Output.emission = calls)

include hcalls

theorem anthropic_reconstructs
    (hall : emitAll (newStreamEmitter .anthropic) (outputs.flatMap Output.events) =
      .ok (e, frames)) :
    Reconstructs .anthropic (frames ++ e.finish.2) (outputs.flatMap Output.events) calls := by
  obtain ⟨shown, hshows, hshown, hnamed, hfresh⟩ :=
    shown_outputs blocks_showsEach ⟨{}, rfl, rfl⟩ hall
  have hkeys := hfresh trivial
  refine ⟨reconstruct_keyed (by simp) hshows (hshown.trans hcalls) hkeys, ?_⟩
  -- the ids are made up of the keys
  rw [assignedIDs_eq hshows hshown]
  exact nodup_madeUp (fun s hs hempty => (hnamed s hs).trans (if_pos hempty))
    (hkeys.sublist (filter_sublist.map _))

theorem chat_reconstructs (hdistinct : (calls.map Emission.index).Nodup)
    (hall : emitAll (newStreamEmitter .openAIChat) (outputs.flatMap Output.events) =
      .ok (e, frames)) :
    Reconstructs .openAIChat (frames ++ e.finish.2) (outputs.flatMap Output.events) calls := by
  obtain ⟨shown, hshows, hshown, hnamed, -⟩ := shown_outputs chat_showsEach (n := 0) ⟨{}, rfl⟩ hall
  have hsent := hshown.trans hcalls
  -- the keys are the indices of the upstream
  have hkeys : (shown.map key).Nodup := by
    rw [← hsent, map_map] at hdistinct
    rwa [map_congr_left fun s hs => (hnamed s hs).1]
  refine ⟨reconstruct_keyed (by simp) hshows hsent hkeys, ?_⟩
  rw [assignedIDs_eq hshows hshown]
  exact nodup_callIDs hsent (fun s hs => (hnamed s hs).2)
    (hdistinct.sublist (filter_sublist.map _))

theorem responses_reconstructs
    (hdistinct : ((calls.filter fun c => c.id = "").map Emission.index).Nodup)
    (hall : emitAll (newStreamEmitter .openAIResponses) (outputs.flatMap Output.events) =
      .ok (e, frames)) :
    Reconstructs .openAIResponses (frames ++ e.finish.2) (outputs.flatMap Output.events) calls := by
  obtain ⟨shown, hshows, hshown, hnamed, hfresh⟩ :=
    shown_outputs items_showsEach ⟨{}, rfl, rfl⟩ hall
  have hsent := hshown.trans hcalls
  refine ⟨reconstruct_keyed (by simp) hshows hsent (hfresh trivial), ?_⟩
  rw [assignedIDs_eq hshows hshown]
  exact nodup_callIDs hsent hnamed hdistinct

theorem gemini_reconstructs
    (hall : emitAll (newStreamEmitter .gemini) (outputs.flatMap Output.events) =
      .ok (e, frames)) :
    Reconstructs .gemini (frames ++ e.finish.2) (outputs.flatMap Output.events) calls := by
  have hidle : GeminiEmitter.Idle {} := ⟨fun _ => rfl, fun _ => rfl⟩
  obtain ⟨⟨e₁, rfl⟩, more, rfl, hparts⟩ := parts_outputs hidle hall
  have hfinish : ((gemini e₁).finish.2).filterMap part = [] := by
    show (e₁.finish.2.map ClientFrame.gemini).filterMap _ = _
    unfold GeminiEmitter.finish
    split <;> rfl
  constructor
  · show ([] ++ more.map ClientFrame.gemini ++ (gemini e₁).finish.2).filterMap _ = _
    rw [filterMap_append, hfinish, nil_append, hparts, hcalls, append_nil]
    rfl
  · -- a part has no id
    have hnone : ([] ++ more.map ClientFrame.gemini ++ (gemini e₁).finish.2).filterMap
        startID = [] := by
      show ([] ++ more.map ClientFrame.gemini ++ e₁.finish.2.map ClientFrame.gemini).filterMap _ =
        _
      rw [nil_append, ← map_append, filterMap_map]
      exact filterMap_eq_nil_iff.mpr fun _ _ => rfl
    rw [assignedIDs, hnone]
    exact nodup_nil

end Dialects

/-- Two function calls without arguments in one chunk. -/
def twoCalls : Upstream :=
  .gemini [.doc { candidates := [{
    parts := [{ functionCall := some { name := "lookup" } },
      { functionCall := some { name := "store" } }]
    finishReason := "STOP" }] }]

/-- The pump for a client of the Anthropic dialect. -/
def lenientBlocks : PumpConfig := { lenient with client := .anthropic }

end NexaRoute.Canonical
