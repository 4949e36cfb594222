import NexaRoute.Canonical.Stream
import NexaRoute.Machine

/-!
# What the frames of an upstream say of tool calls

An upstream sends its tool calls in pieces. Each dialect has its own frames for that, and what a
frame says is read here from the frame itself, without the decoders of the gateway: a word of a call
(its beginning, or a piece of its arguments), the end of a call, or the end of the stream. A call is
known by its `CallKey`. Words count up to and including the first frame that ends the stream.

`Log` is what the words add up to: the calls in the order of their first words, what was said of each
of them, which call an index stands for, and the order in which the calls ended.

## Main definitions

* `Said`, `Upstream.heard`, `Upstream.said` — what the frames say
* `Log`, `Log.step`, `Upstream.log` — the calls of a stream
* `arguments` — the arguments of a call, of the pieces that were sent
* `Upstream.Legible` — an index stands for one call at a time

## Main results

* `Log.Sound.step` — what holds of every log
* `Upstream.sound_log`
-/

namespace NexaRoute.Canonical

open Go Machine List

/-! ### Arguments -/

/-- A piece of the arguments of a call: whether it is the complete arguments, and its text. -/
abbrev Piece := Bool × String

def fragments : List Piece → String
  | [] => ""
  | (final, text) :: pieces => (if final then "" else text) ++ fragments pieces

/-- The complete arguments among pieces: the first that are not empty. -/
def finalValue : List Piece → String
  | [] => ""
  | (final, text) :: pieces => if final ∧ text ≠ "" then text else finalValue pieces

/-- The arguments of a call: its fragments, or the complete arguments if there are none. -/
def arguments (pieces : List Piece) : String :=
  if fragments pieces = "" then finalValue pieces else fragments pieces

/-- Where complete arguments come first, no fragment follows. -/
def Orderly : List Piece → Prop
  | [] => True
  | (final, text) :: pieces =>
    if text = "" then Orderly pieces else final = true → fragments pieces = ""

instance decidableOrderly : DecidablePred Orderly
  | [] => .isTrue trivial
  | (_, text) :: pieces =>
    have := decidableOrderly pieces
    inferInstanceAs (Decidable (if text = "" then _ else _))

/-! ### Words -/

/-- A call of an upstream: the index it is addressed by, the choice it belongs to, and, for the
function calls of Gemini, which have no index, the frame and the place there. -/
structure CallKey where
  index : ℤ := 0
  choice : ℤ := 0
  place : ℕ × ℕ := (0, 0)
  deriving DecidableEq

/-- What is said of calls. -/
inductive Said
  | word (key : CallKey) (id name : String) (piece : Option Piece)
  | close (key : CallKey)
  | stop
  deriving DecidableEq

/-- What a frame says, in order, and whether it ends the stream of itself. -/
structure Heard where
  said : List Said := []
  final : Bool := false

def Heard.ends (f : Heard) : Bool := f.final || decide (Said.stop ∈ f.said)

/-- What is said up to and including the first frame that ends the stream. -/
def saidUpToEnd : List Heard → List Said
  | [] => []
  | f :: fs => if f.ends then f.said else f.said ++ saidUpToEnd fs

/-! ### The dialects -/

def CoreToolCall.said (choice : ℤ) (tc : CoreToolCall) : List Said :=
  (if tc.id ≠ "" ∨ tc.name ≠ "" then [.word ⟨tc.index, choice, 0, 0⟩ tc.id tc.name none] else []) ++
    if tc.arguments = "" then []
    else [.word ⟨tc.index, choice, 0, 0⟩ "" "" (some (false, tc.arguments))]

/-- A choice of a chat chunk. The stream ends with its first choice. -/
def OpenAIChoice.said (ch : OpenAIChoice) : List Said :=
  ch.toolCalls.flatMap (CoreToolCall.said ch.index) ++
    if ch.index = 0 ∧ ch.finishReason.getD "" ≠ "" then [.stop] else []

def OpenAIData.heard : OpenAIData → Heard
  | .done => { final := true }
  | .payload (.doc chunk) => { said := chunk.choices.flatMap OpenAIChoice.said }
  | .payload _ => {}

def AnthropicBlockStart.said (b : AnthropicBlockStart) : List Said :=
  if b.type = "tool_use" then [.word { index := b.index } b.id b.name none] else []

def AnthropicBlockDelta.said (b : AnthropicBlockDelta) : List Said :=
  if b.type = "input_json_delta" ∧ b.partialJSON ≠ "" then
    [.word { index := b.index } "" "" (some (false, b.partialJSON))]
  else []

def AnthropicDoc.said (d : AnthropicDoc) : List Said :=
  if d.type = "content_block_start" then d.blockStart.toOption.elim [] AnthropicBlockStart.said
  else if d.type = "content_block_delta" then d.blockDelta.toOption.elim [] AnthropicBlockDelta.said
  else if d.type = "content_block_stop" then [.close { index := d.blockStop }]
  else if d.type = "message_delta" then
    d.messageDelta.toOption.elim [] fun m => if m.stopReason = "" then [] else [.stop]
  else if d.type = "message_stop" then [.stop]
  else []

/-- The function calls of a chunk, of all its candidates. -/
def GeminiDoc.calls (d : GeminiDoc) : List GeminiCall :=
  d.candidates.flatMap fun c =>
    c.parts.flatMap fun p => p.functionCall.toList ++ p.functionCallV1.toList

/-- A function call comes at once; without arguments they are an empty object. -/
def GeminiCall.said (c : GeminiCall) (key : CallKey) : List Said :=
  [.word key "" c.name none,
    .word key "" "" (some (false, if trimSpace c.args = "" then emptyObject else c.args)),
    .close key]

def GeminiDoc.said (d : GeminiDoc) (frame : ℕ) : List Said :=
  (d.calls.zipIdx.flatMap fun (c, n) => c.said { place := (frame, n) }) ++
    if d.blockReason.getD "" ≠ "" ∨ ∃ c ∈ d.candidates, trimSpace c.finishReason ≠ "" then [.stop]
    else []

/-- A Bedrock stream: the end of a block does not say of what, and the calls end with the message. -/
def BedrockDoc.heard (d : BedrockDoc) : Heard :=
  if d.eventType = "contentBlockStart" then
    { said := d.blockStart.toOption.elim [] fun b =>
        b.toolUse.toList.map fun (id, name) => .word { index := b.index } id name none }
  else if d.eventType = "contentBlockDelta" then
    { said := d.blockDelta.toOption.elim [] fun b =>
        b.toolUse.toList.map fun input => .word { index := b.index } "" "" (some (false, input)) }
  else if d.eventType = "messageStop" then { said := [.stop], final := true }
  else {}

/-- A finished output item has the complete arguments, and is the end of its call. -/
def ResponsesItem.said (index : ℤ) (item : ResponsesItem) : List Said :=
  (if item.arguments = "" then []
  else [.word { index := index } item.callID item.name (some (true, item.arguments))]) ++
    [.close { index := index }]

def ResponsesDoc.heard (eventName : String) (d : ResponsesDoc) : Heard :=
  let typ := if d.type = "" then eventName else d.type
  if typ = "response.output_item.added" then
    { said := d.item.elim [] fun (i, item) =>
        if item.type = "function_call" then [.word { index := i } item.callID item.name none]
        else [] }
  else if typ = "response.function_call_arguments.delta" then
    { said := d.argsDelta.elim [] fun (i, delta) =>
        if delta = "" then [] else [.word { index := i } "" "" (some (false, delta))] }
  else if typ = "response.function_call_arguments.done" then
    { said := d.argsDone.elim [] fun (i, name, args) =>
        if args = "" then [] else [.word { index := i } "" name (some (true, args))] }
  else if typ = "response.output_item.done" then
    { said := d.item.elim [] fun (i, item) =>
        if item.type = "function_call" then item.said i else [] }
  else if typ = "response.incomplete" ∨ typ = "response.completed" ∨ typ = "response.done" then
    { said := [.stop], final := true }
  else {}

def Payload.heard {α : Type} (read : α → Heard) : Payload α → Heard
  | .doc d => read d
  | _ => {}

/-- What each frame of an upstream says. -/
def Upstream.heard : Upstream → List Heard
  | .openAIChat frames => frames.map OpenAIData.heard
  | .openAIResponses frames => frames.map fun f => f.2.heard (ResponsesDoc.heard f.1)
  | .anthropic frames => frames.map (Payload.heard fun d => { said := d.said })
  | .gemini frames => frames.zipIdx.map fun f => f.1.heard fun d => { said := d.said f.2 }
  | .bedrock frames => frames.map (Payload.heard BedrockDoc.heard)

def Upstream.said (u : Upstream) : List Said := saidUpToEnd u.heard

/-! ### The calls of a stream -/

/-- What was said of a call: the id of its first word, its last name, and the pieces. -/
structure Call where
  id : String := ""
  name : String := ""
  pieces : List Piece := []
  deriving DecidableEq

/-- The calls in the order of their first words, what was said of each, the call that an index
stands for, and the calls that ended, in the order of their ends. -/
structure Log where
  keys : List CallKey := []
  calls : CallKey → Call := fun _ => {}
  opened : ℤ → Option CallKey := fun _ => none
  ended : List CallKey := []

namespace Log

variable (b : Log)

def touch (k : CallKey) (id name : String) : Log :=
  let c : Call := if k ∈ b.keys then b.calls k else { id := id }
  { b with
    keys := if k ∈ b.keys then b.keys else b.keys ++ [k]
    calls := fun j => if j = k then { c with name := if name = "" then c.name else name }
      else b.calls j
    opened := fun i => if i = k.index then some k else b.opened i }

def add (k : CallKey) (piece : Piece) : Log :=
  { b with
    calls := fun j => if j = k then { b.calls k with pieces := (b.calls k).pieces ++ [piece] }
      else b.calls j }

/-- The end of the call that an index stands for, if it stands for one. -/
def close (i : ℤ) : Log :=
  { b with
    opened := fun j => if j = i then none else b.opened j
    ended := b.ended ++ (b.opened i).toList }

/-- The end of the stream is the end of the calls that are open, in the order in which their indices
came up. -/
def step : Said → Log
  | .word k id name none => b.touch k id name
  | .word k id name (some piece) => (b.touch k id name).add k piece
  | .close k => b.close k.index
  | .stop => (b.keys.map CallKey.index).foldl close b

/-- The first word of a call finds its index free, and the others find it open there. An Anthropic
call begins with its block. -/
def admits (kind : UpstreamKind) : Said → Prop
  | .word k _ _ piece => b.opened k.index = (if k ∈ b.keys then some k else none) ∧
      (kind = .anthropic → k ∉ b.keys → piece = none)
  | .close _ | .stop => True

instance (kind : UpstreamKind) : ∀ x, Decidable (b.admits kind x)
  | .word _ _ _ _ => inferInstanceAs (Decidable (_ ∧ (_ → _ → _)))
  | .close _ | .stop => isTrue trivial

/-- The call that is open at an index. -/
def callAt (i : ℤ) : Option Call := (b.opened i).map b.calls

end Log

/-- The log of a whole stream. -/
def Upstream.log (u : Upstream) : Log := run Log.step {} u.said

/-- A Gemini chunk with one candidate, whose function calls are parts of their own. -/
def GeminiDoc.Plain (d : GeminiDoc) : Prop :=
  d.candidates.length ≤ 1 ∧ ∀ c ∈ d.candidates, ∀ p ∈ c.parts,
    (p.functionCall = none ∧ p.functionCallV1 = none) ∨
      (p.text = "" ∧ (p.functionCall = none ∨ p.functionCallV1 = none))

instance (d : GeminiDoc) : Decidable d.Plain := inferInstanceAs (Decidable (_ ∧ _))

/-- One choice, or one candidate. -/
def Upstream.Single : Upstream → Prop
  | .openAIChat frames => ∀ f ∈ frames, ∀ chunk, f = .payload (.doc chunk) →
      ∀ ch ∈ chunk.choices, ch.index = 0
  | .gemini frames => ∀ f ∈ frames, ∀ d, f = .doc d → d.Plain
  | _ => True

/-- A stream of one choice in which an index stands for one call at a time. -/
structure Upstream.Legible (u : Upstream) : Prop where
  single : u.Single
  words : Guarded Log.step (Log.admits · u.kind) {} u.said

/-! ### What holds of every log -/

/-- What holds of every log. -/
structure Log.Sound (b : Log) : Prop where
  keys : b.keys.Nodup
  ended : b.ended.Nodup
  begun : ∀ k ∈ b.ended, k ∈ b.keys
  opened : ∀ i k, b.opened i = some k → k.index = i ∧ k ∈ b.keys ∧ k ∉ b.ended

namespace Log

variable {b : Log} {k : CallKey} {i : ℤ} {kind : UpstreamKind}

theorem Sound.notMem_ended (h : b.Sound)
    (hk : b.opened k.index = if k ∈ b.keys then some k else none) : k ∉ b.ended := by
  by_cases hkeys : k ∈ b.keys
  · rw [if_pos hkeys] at hk
    exact (h.opened _ k hk).2.2
  · exact fun hended => hkeys (h.begun k hended)

theorem Sound.touch (h : b.Sound) (hk : b.opened k.index = if k ∈ b.keys then some k else none)
    (id name : String) : (b.touch k id name).Sound := by
  have hkeys : ∀ j, j ∈ (b.touch k id name).keys ↔ j = k ∨ j ∈ b.keys := by
    intro j
    by_cases hmem : k ∈ b.keys
    · simp only [Log.touch, if_pos hmem]
      exact ⟨.inr, fun hj => hj.elim (fun heq => heq ▸ hmem) fun hj => hj⟩
    · simp [Log.touch, hmem, or_comm]
  refine ⟨?_, h.ended, fun j hj => (hkeys j).mpr (.inr (h.begun j hj)), fun i j hj => ?_⟩
  · show (if k ∈ b.keys then b.keys else b.keys ++ [k]).Nodup
    split
    · exact h.keys
    · next hmem => exact h.keys.append (nodup_singleton k) (by simpa using hmem)
  · change (if i = k.index then some k else b.opened i) = some j at hj
    split at hj
    · next hi =>
      cases hj
      exact ⟨hi.symm, (hkeys k).mpr (.inl rfl), h.notMem_ended hk⟩
    · obtain ⟨hi, hmem, hended⟩ := h.opened i j hj
      exact ⟨hi, (hkeys j).mpr (.inr hmem), hended⟩

theorem Sound.add (h : b.Sound) (k : CallKey) (piece : Piece) : (b.add k piece).Sound :=
  ⟨h.keys, h.ended, h.begun, h.opened⟩

theorem Sound.close (h : b.Sound) (i : ℤ) : (b.close i).Sound := by
  refine ⟨h.keys, ?_, ?_, fun j k hk => ?_⟩
  · show (b.ended ++ (b.opened i).toList).Nodup
    cases hi : b.opened i with
    | none => simpa using h.ended
    | some k => exact h.ended.append (nodup_singleton k) (by simpa using (h.opened i k hi).2.2)
  · intro k hk
    obtain hk | hk := mem_append.mp hk
    · exact h.begun k hk
    · exact (h.opened i k (Option.mem_toList.mp hk)).2.1
  · change (if j = i then none else b.opened j) = some k at hk
    split at hk
    · cases hk
    · next hji =>
      obtain ⟨hindex, hkeys, hended⟩ := h.opened j k hk
      refine ⟨hindex, hkeys, fun hmem => ?_⟩
      obtain hmem | hmem := mem_append.mp hmem
      · exact hended hmem
      · exact hji (hindex.symm.trans (h.opened i k (Option.mem_toList.mp hmem)).1)

theorem Sound.step (h : b.Sound) {x : Said} (hx : b.admits kind x) : (b.step x).Sound := by
  cases x with
  | word k id name piece =>
    cases piece with
    | none => exact h.touch hx.1 id name
    | some piece => exact (h.touch hx.1 id name).add k piece
  | close k => exact h.close k.index
  | stop => exact run_invariant (fun _ i h => h.close i) h

theorem callAt_touch (h : b.Sound) (hk : b.opened k.index = if k ∈ b.keys then some k else none)
    (id name : String) (i : ℤ) : (b.touch k id name).callAt i =
      if i = k.index then
        let c := (b.callAt i).getD { id := id }
        some { c with name := if name = "" then c.name else name }
      else b.callAt i := by
  show (if i = k.index then some k else b.opened i).map _ = _
  split
  · next hi =>
    subst hi
    by_cases hmem : k ∈ b.keys
    · rw [if_pos hmem] at hk
      simp [touch, callAt, hk, hmem]
    · rw [if_neg hmem] at hk
      simp [touch, callAt, hk, hmem]
  · next hi =>
    refine Option.map_congr fun j hj => if_neg ?_
    rintro rfl
    exact hi (h.opened i j hj).1.symm

theorem callAt_add (h : b.Sound) (hk : b.opened k.index = some k) (piece : Piece) (i : ℤ) :
    (b.add k piece).callAt i = if i = k.index then
        some { b.calls k with pieces := (b.calls k).pieces ++ [piece] }
      else b.callAt i := by
  show (b.opened i).map _ = _
  split
  · next hi =>
    rw [hi, hk]
    simp [add]
  · next hi =>
    refine Option.map_congr fun j hj => if_neg ?_
    rintro rfl
    exact hi (h.opened i j hj).1.symm

theorem callAt_close (i j : ℤ) : (b.close i).callAt j = if j = i then none else b.callAt j := by
  show (if j = i then none else b.opened j).map _ = _
  split <;> rfl

theorem close_of_none (h : b.opened i = none) : b.close i = b := by
  have hopened : (fun j => if j = i then none else b.opened j) = b.opened := by
    funext j
    split
    · next hj => rw [hj, h]
    · rfl
  simp only [close, hopened, h, Option.toList_none, append_nil]

theorem opened_foldl_close (is : List ℤ) (b : Log) (i : ℤ) :
    (is.foldl close b).opened i = if i ∈ is then none else b.opened i := by
  induction is generalizing b with
  | nil => simp
  | cons j is ih =>
    rw [foldl_cons, ih]
    by_cases hi : i ∈ is
    · simp [hi]
    · by_cases hij : i = j <;> simp [close, hi, hij]

/-- Calls that ended leave nothing open. -/
theorem Sound.opened_eq_none (h : b.Sound) (hended : ∀ k ∈ b.keys, k ∈ b.ended) (i : ℤ) :
    b.opened i = none := by
  refine Option.eq_none_iff_forall_not_mem.mpr fun k hk => ?_
  obtain ⟨-, hkeys, hnot⟩ := h.opened i k hk
  exact hnot (hended k hkeys)

end Log

theorem Log.sound_empty : Log.Sound {} where
  keys := nodup_nil
  ended := nodup_nil
  begun := by simp
  opened := by simp

theorem Upstream.sound_log {u : Upstream} (h : u.Legible) : u.log.Sound :=
  run_induction (fun _ _ hs hx => hs.step hx) Log.sound_empty h.words

end NexaRoute.Canonical
