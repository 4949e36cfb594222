import NexaRoute.Cache.Semantic
import NexaRoute.Httpapi.Wire
import NexaRoute.Machine

/-!
# Answers from the semantic cache

`internal/httpapi/cache_wiring_semantic.go`: a complete answer is stored under the embedding of the
prompt, and a later request of the same scope whose prompt is similar enough is answered with it.
The prompt is a projection of the body: the texts of the messages, each behind its role. What the
projection leaves out (images, the top-level system prompt, the response format, the limits, stop
sequences and reasoning settings) takes no part in a lookup, and two conversations may have the same
texts with other borders between the messages.

The embedding and the digest of a scope are parameters; nothing is assumed of them but that they are
functions.

## Main results

* `hits_agree` — hits on plain requests are sound
-/

namespace NexaRoute.Httpapi

open Go Cache Machine List Option

variable {q : CacheRequest} {now : Time}

/-! ### The prompt -/

/-- A field of type `json.RawMessage` after decoding. -/
def rawField (name : String) (members : List (String × Json)) : Option Json :=
  members.foldl (fun v m => if fieldNamed name m.1 then some m.2 else v) none

def membersOf : Json → List (String × Json)
  | .obj members => members
  | _ => []

/-- A part of a message: a text, or something the projection does not read. -/
inductive ContentPart
  | text (s : String)
  | other (v : Json)

def ContentPart.text? : ContentPart → Option String
  | .text s => some s
  | .other _ => none

/-- The part of a content block; a text block without text is nothing. -/
def blockPart (block : Json) : Option ContentPart :=
  let typ := stringField "type" (membersOf block)
  let text := stringField "text" (membersOf block)
  if typ = "text" ∨ typ = "input_text" then
    if text = "" then none else some (.text text)
  else some (.other block)

/-- The content blocks of a message, as the projection decodes them. -/
def contentBlocks : Kind := .slice (.struct [("type", .string), ("text", .string)])

def contentParts : Option Json → List ContentPart
  | none => []
  | some .null => []
  | some (.str s) => if s = "" then [] else [.text s]
  | some (.arr blocks) =>
    if contentBlocks.fits (.arr blocks) then blocks.filterMap blockPart else [.other (.arr blocks)]
  | some v => [.other v]

/-- A message, with the members that carry the calls of tools in a chat; the projection does not read
these. -/
@[ext]
structure Turn where
  role : String
  parts : List ContentPart
  toolCalls : Option Json
  toolCallID : Option Json

/-- The request type of the projection. -/
def promptRequest : Kind :=
  .struct [("messages", .slice (.struct [("role", .string), ("content", .raw)]))]

/-- The members of a body that is an object or nothing, as long as the messages decode. -/
def promptMembers (raw : List UInt8) : Option (List (String × Json)) :=
  ((parseJSON raw).filter fun doc =>
    decide (doc.depth ≤ maxNestingDepth) && promptRequest.fits doc).map membersOf

def itemsOf : Option Json → List Json
  | some (.arr items) => items
  | _ => []

/-- The messages of a body. -/
def turns (raw : List UInt8) : List Turn :=
  (itemsOf (rawField "messages" ((promptMembers raw).getD []))).map fun m =>
    { role := stringField "role" (membersOf m)
      parts := contentParts (rawField "content" (membersOf m))
      toolCalls := rawField "tool_calls" (membersOf m)
      toolCallID := rawField "tool_call_id" (membersOf m) }

/-- The lines of a message: each of its texts, behind its role. -/
def Turn.lines (t : Turn) : List Char :=
  (t.parts.filterMap ContentPart.text?).flatMap fun s =>
    t.role.toList ++ ':' :: ' ' :: (s.toList ++ ['\n'])

/-- The prompt before it is trimmed. -/
def promptLines (ts : List Turn) : List Char := ts.flatMap Turn.lines

def semanticPromptText (raw : List UInt8) : Option String :=
  if promptMembers raw = none ∨ turns raw = [] then none
  else
    let text := trimSpace (String.ofList (promptLines (turns raw)))
    if text = "" ∨ 32768 < len text then none else some text

/-! ### Requests -/

structure ScopeContext where
  path : String
  model : String
  clientKeyDigest : String
  forwardedHeaders : List (String × List String)
  deriving DecidableEq, Repr

/-- A request, as the handlers hand it to the cache. -/
structure CacheRequest where
  raw : List UInt8
  context : ScopeContext
  stream : Bool := false
  hasTools : Bool := false
  temperature : Option ℚ := none
  topP : Option ℚ := none
  noCache : Bool := false
  requireNoTraining : Bool := false

/-- The settings of the cache. -/
structure SemanticConfig where
  enabled : Bool := true
  maxBodyBytes : ℕ

/-- The surroundings: the embedding, the digest of a scope, and the bounds of the cache. -/
structure SemanticEnv where
  embedText : String → Option Vec
  digest : ScopeContext → String
  bounds : SemanticBounds

structure SemanticContext where
  scope : String
  vector : Vec
  requireNoTrain : Bool

/-- The requests whose answers are complete and deterministic, and that do not refuse the cache. -/
def CacheRequest.cacheable (q : CacheRequest) : Bool :=
  !q.stream && !q.hasTools && !q.noCache && q.temperature.all (· == 0) && q.topP.all (· == 1)

def semanticPrepare (env : SemanticEnv) (cfg : SemanticConfig) (q : CacheRequest) :
    Option SemanticContext := do
  if cfg.enabled && q.cacheable && decide (q.raw.length ≤ cfg.maxBodyBytes) then
    let text ← semanticPromptText q.raw
    let vector ← env.embedText text
    if vector = [] then none
    else
      some
        { scope := env.digest q.context
          vector := vector
          requireNoTrain := q.requireNoTraining }
  else none

/-! ### The gateway -/

/-- A request that went to an upstream. -/
structure Dispatched where
  request : CacheRequest
  prepared : SemanticContext
  generation : ℕ

/-- The state of the gateway, as far as the cache depends on it. -/
structure Gateway where
  cfg : SemanticConfig
  cache : SemanticCache CacheRequest := {}
  generation : ℕ := 0
  dispatched : List Dispatched := []

/-- What happens: a request comes, an upstream answers one that was dispatched, or the
configuration is swapped. -/
inductive GatewayEvent
  | request (q : CacheRequest) (now : Time)
  | answer (i : ℕ) (now : Time) (status : ℕ) (body : List UInt8) (trainsOnData : String)
  | reload (cfg : SemanticConfig)

/-- `semanticServe`: the cache behind the lookup, and the entry that answers. -/
def Gateway.semanticServe (env : SemanticEnv) (g : Gateway) (sc : SemanticContext) (now : Time) :
    SemanticCache CacheRequest × Option (SemanticEntry CacheRequest) :=
  if sc.scope = "" then (g.cache, none)
  else g.cache.lookup env.bounds now sc.scope sc.vector sc.requireNoTrain

def Gateway.semanticStore (env : SemanticEnv) (g : Gateway) (d : Dispatched) (now : Time)
    (status : ℕ) (body : List UInt8) (trainsOnData : String) : Gateway :=
  if status = 200 ∧ body ≠ [] ∧ g.cfg.enabled ∧ d.generation = g.generation then
    { g with
      cache := g.cache.store env.bounds
        { body := body
          createdAt := now
          vector := d.prepared.vector
          scope := d.prepared.scope
          trainsOnData := trainsOnData
          noTraining := d.prepared.requireNoTrain
          origin := d.request } }
  else g

/-- A request comes: it is answered from the cache, or dispatched. -/
def Gateway.receive (env : SemanticEnv) (g : Gateway) (q : CacheRequest) (now : Time) : Gateway :=
  match semanticPrepare env g.cfg q with
  | none => g
  | some sc =>
    match g.semanticServe env sc now with
    | (cache, some _) => { g with cache := cache }
    | (cache, none) =>
      { g with
        cache := cache
        dispatched := g.dispatched ++
          [{ request := q, prepared := sc, generation := g.generation }] }

def Gateway.step (env : SemanticEnv) (g : Gateway) : GatewayEvent → Gateway
  | .request q now => g.receive env q now
  | .answer i now status body trainsOnData =>
    match g.dispatched[i]? with
    | none => g
    | some d => g.semanticStore env d now status body trainsOnData
  | .reload cfg =>
    { g with cfg := cfg, cache := g.cache.invalidate, generation := g.generation + 1 }

/-- The entry that answers a request. -/
def Gateway.served (env : SemanticEnv) (g : Gateway) (q : CacheRequest) (now : Time) :
    Option (SemanticEntry CacheRequest) :=
  (semanticPrepare env g.cfg q).bind fun sc => (g.semanticServe env sc now).2

/-! ### What a body asks for -/

/-- The top-level fields of the two dialects that determine an answer besides the messages: the
system prompt, the response format, the limits, stop sequences and reasoning settings. -/
def settingNames : List String :=
  ["system", "response_format", "max_tokens", "max_completion_tokens", "stop", "stop_sequences",
    "reasoning", "reasoning_effort", "thinking"]

def settings (raw : List UInt8) : List (Option Json) :=
  settingNames.map fun name => rawField name ((promptMembers raw).getD [])

/-- Two bodies ask for the same answer. -/
structure Agree (raw raw' : List UInt8) : Prop where
  turns : turns raw = turns raw'
  settings : settings raw = settings raw'

/-- A text that is one line, with no white space around it. -/
def OneLine (s : String) : Prop := s ≠ "" ∧ trimSpace s = s ∧ '\n' ∉ s.toList

/-- The parts of a message are a line of text. -/
def OneText (parts : List ContentPart) : Prop := ∃ s, parts = [.text s] ∧ OneLine s

/-- A message of one line, without calls of tools. -/
def PlainTurn (t : Turn) : Prop :=
  t.role ∈ ["system", "developer", "user", "assistant", "tool"] ∧ OneText t.parts ∧
    t.toolCalls = none ∧ t.toolCallID = none

instance (s : String) : Decidable (OneLine s) := inferInstanceAs (Decidable (_ ∧ _ ∧ _))

instance decidableOneText : ∀ parts : List ContentPart, Decidable (OneText parts)
  | [.text s] =>
    decidable_of_iff (OneLine s)
      ⟨fun h => ⟨s, rfl, h⟩, by rintro ⟨s', hs, hl⟩; cases hs; exact hl⟩
  | [] => isFalse (by rintro ⟨s, hs, -⟩; cases hs)
  | .other _ :: _ => isFalse (by rintro ⟨s, hs, -⟩; cases hs)
  | .text _ :: _ :: _ => isFalse (by rintro ⟨s, hs, -⟩; cases hs)

instance (t : Turn) : Decidable (PlainTurn t) := inferInstanceAs (Decidable (_ ∧ _ ∧ _ ∧ _))

/-- A body whose messages are lines of text and whose settings are the ones of its scope. -/
structure Plain (σ : ScopeContext → List (Option Json)) (q : CacheRequest) : Prop where
  turns : ∀ t ∈ turns q.raw, PlainTurn t
  settings : settings q.raw = σ q.context

/-! ### The prompt of plain messages -/

theorem rdropWhile_eq_self_of_trim {p : Char → Bool} {l : List Char}
    (h : (l.dropWhile p).rdropWhile p = l) : l.rdropWhile p = l := by
  have hlen : l.length ≤ (l.dropWhile p).length := by
    conv_lhs => rw [← h]
    exact ( rdropWhile_prefix p _).length_le
  have hdrop : l.dropWhile p = l := (dropWhile_suffix p).eq_of_length_le hlen
  rwa [hdrop] at h

theorem rdropWhile_line {s : String} (hs : OneLine s) (before : List Char) :
    (before ++ (s.toList ++ ['\n'])).rdropWhile isSpace = before ++ s.toList := by
  have hline : s.toList.rdropWhile isSpace = s.toList := by
    apply rdropWhile_eq_self_of_trim
    rw [← toList_trimSpace, hs.2.1]
  have hne : s.toList.rdropWhile isSpace ≠ [] := by
    rw [hline]
    exact fun h => hs.1 (String.toList_eq_nil_iff.mp h)
  rw [← append_assoc, rdropWhile_concat, if_pos (by decide), rdropWhile_append_of_ne hne,
    hline]

theorem role_shape : ∀ role ∈ ["system", "developer", "user", "assistant", "tool"],
    (∃ c l, role.toList = c :: l ∧ isSpace c = false) ∧ ':' ∉ role.toList := by
  intro role h
  simp only [mem_cons, not_mem_nil, or_false] at h
  rcases h with rfl | rfl | rfl | rfl | rfl <;> exact ⟨⟨_, _, rfl, by decide⟩, by decide⟩

theorem PlainTurn.lines_eq {t : Turn} {s : String} (hs : t.parts = [.text s]) :
    t.lines = t.role.toList ++ ':' :: ' ' :: (s.toList ++ ['\n']) := by
  simp [Turn.lines, hs, ContentPart.text?]

theorem promptLines_cons (t : Turn) (ts : List Turn) :
    promptLines (t :: ts) = t.lines ++ promptLines ts := rfl

theorem trim_promptLines {ts : List Turn} (hne : ts ≠ []) (h : ∀ t ∈ ts, PlainTurn t) :
    (trimSpace (String.ofList (promptLines ts))).toList ++ ['\n'] = promptLines ts := by
  have hfront : (promptLines ts).dropWhile isSpace = promptLines ts := by
    cases ts with
    | nil => exact absurd rfl hne
    | cons t ts =>
      obtain ⟨hrole, ⟨s, hs, -⟩, -⟩ := h t mem_cons_self
      obtain ⟨⟨c, l, hc, hspace⟩, -⟩ := role_shape _ hrole
      rw [promptLines_cons, PlainTurn.lines_eq hs, hc]
      simp [hspace]
  rw [toList_trimSpace, String.toList_ofList, hfront]
  obtain ⟨init, t, rfl⟩ := (eq_nil_or_concat' ts).resolve_left hne
  obtain ⟨-, ⟨s, hs, hline⟩, -⟩ := h t (by simp)
  have hlast : promptLines (init ++ [t]) =
      (promptLines init ++ (t.role.toList ++ [':', ' '])) ++ (s.toList ++ ['\n']) := by
    simp [promptLines, PlainTurn.lines_eq hs]
  rw [hlast, rdropWhile_line hline, append_assoc]

theorem promptLines_injective {ts : List Turn} : ∀ {ts' : List Turn}, (∀ t ∈ ts, PlainTurn t) →
    (∀ t ∈ ts', PlainTurn t) → promptLines ts = promptLines ts' → ts = ts' := by
  have hcons : ∀ {t : Turn} {ts : List Turn}, PlainTurn t → promptLines (t :: ts) ≠ [] := by
    rintro t ts ⟨-, ⟨s, hs, -⟩, -⟩ he
    rw [promptLines_cons, PlainTurn.lines_eq hs] at he
    simp at he
  induction ts with
  | nil =>
    intro ts' _ h' he
    cases ts' with
    | nil => rfl
    | cons t' ts' => exact absurd he.symm (hcons (h' t' mem_cons_self))
  | cons t ts ih =>
    intro ts' h h' he
    cases ts' with
    | nil => exact absurd he (hcons (h t mem_cons_self))
    | cons t' ts' =>
      obtain ⟨hrole, ⟨s, hs, -, -, hbreak⟩, hcalls, hid⟩ := h t mem_cons_self
      obtain ⟨hrole', ⟨s', hs', -, -, hbreak'⟩, hcalls', hid'⟩ := h' t' mem_cons_self
      rw [promptLines_cons, promptLines_cons, PlainTurn.lines_eq hs, PlainTurn.lines_eq hs'] at he
      simp only [append_assoc, cons_append, nil_append] at he
      obtain ⟨hr, he⟩ := append_cons_inj (role_shape _ hrole).2 (role_shape _ hrole').2 he
      obtain ⟨hl, he⟩ := append_cons_inj hbreak hbreak' (cons.inj he).2
      have ht : t = t' := by
        have hparts : t.parts = t'.parts := by rw [hs, hs', String.toList_injective hl]
        exact Turn.ext (String.toList_injective hr) hparts (hcalls.trans hcalls'.symm)
          (hid.trans hid'.symm)
      rw [ht, ih (fun u hu => h u (mem_cons_of_mem _ hu))
        (fun u hu => h' u (mem_cons_of_mem _ hu)) he]

theorem semanticPromptText_eq_some {raw : List UInt8} {text : String}
    (h : semanticPromptText raw = some text) :
    turns raw ≠ [] ∧ text = trimSpace (String.ofList (promptLines (turns raw))) := by
  simp only [semanticPromptText] at h
  split at h
  · cases h
  · next hne =>
    split at h
    · cases h
    · exact ⟨fun he => hne (.inr he), (some.inj h).symm⟩

theorem turns_eq_of_promptText_eq {raw raw' : List UInt8} {text : String}
    (hplain : ∀ t ∈ turns raw, PlainTurn t) (hplain' : ∀ t ∈ turns raw', PlainTurn t)
    (h : semanticPromptText raw = some text) (h' : semanticPromptText raw' = some text) :
    turns raw = turns raw' := by
  obtain ⟨hne, htext⟩ := semanticPromptText_eq_some h
  obtain ⟨hne', htext'⟩ := semanticPromptText_eq_some h'
  apply promptLines_injective hplain hplain'
  rw [← trim_promptLines hne hplain, ← trim_promptLines hne' hplain', ← htext, ← htext']

/-! ### Hits -/

def GatewayEvent.request? : GatewayEvent → Option CacheRequest
  | .request q _ => some q
  | _ => none

def requests (events : List GatewayEvent) : List CacheRequest :=
  events.filterMap GatewayEvent.request?

/-- What is dispatched and what is stored came as a cacheable request. -/
structure Gateway.From (came : CacheRequest → Prop) (g : Gateway) : Prop where
  dispatched : ∀ d ∈ g.dispatched, came d.request
  entries : ∀ e ∈ g.cache.entries, came e.origin

theorem prepared_cacheable {env : SemanticEnv} {cfg : SemanticConfig} {sc : SemanticContext}
    (h : semanticPrepare env cfg q = some sc) :
    q.cacheable = true ∧ ∃ text, semanticPromptText q.raw = some text := by
  unfold semanticPrepare at h
  split at h
  · next hq =>
    simp only [Bool.and_eq_true] at hq
    obtain ⟨text, htext, -⟩ := bind_eq_some_iff.mp h
    exact ⟨hq.1.2, text, htext⟩
  · cases h

section

variable {came : CacheRequest → Prop} {env : SemanticEnv} {g : Gateway}

theorem mem_semanticServe {sc : SemanticContext} {cache : SemanticCache CacheRequest}
    {o : Option (SemanticEntry CacheRequest)} (hserve : g.semanticServe env sc now = (cache, o))
    {e : SemanticEntry CacheRequest} (h : e ∈ cache.entries) : e ∈ g.cache.entries := by
  unfold Gateway.semanticServe at hserve
  split at hserve
  · cases hserve
    exact h
  · rw [← (Prod.mk.inj hserve).1] at h
    exact mem_lookup_entries h

theorem Gateway.From.receive (h : g.From came) (hq : q.cacheable = true → came q) :
    (g.receive env q now).From came := by
  unfold Gateway.receive
  split
  · exact h
  · next sc hsc =>
    split
    · next cache e hserve =>
      exact ⟨h.dispatched, fun d hd => h.entries d (mem_semanticServe hserve hd)⟩
    · next cache hserve =>
      constructor
      · intro d hd
        rcases mem_append.mp hd with hd | hd
        · exact h.dispatched d hd
        · obtain rfl := mem_singleton.mp hd
          exact hq (prepared_cacheable hsc).1
      · intro d hd
        exact h.entries d (mem_semanticServe hserve hd)

theorem Gateway.From.step (h : g.From came) {ev : GatewayEvent}
    (hev : ∀ q ∈ ev.request?, q.cacheable = true → came q) : (g.step env ev).From came := by
  cases ev with
  | request q now => exact h.receive (hev q rfl)
  | reload cfg => exact ⟨h.dispatched, by simp [Gateway.step, SemanticCache.invalidate]⟩
  | answer i now status body trainsOnData =>
    simp only [Gateway.step]
    split
    · exact h
    · next d hd =>
      have hcame := h.dispatched d (mem_of_getElem? hd)
      unfold Gateway.semanticStore
      split
      · refine ⟨h.dispatched, fun e he => ?_⟩
        rcases mem_store he with he | ⟨he, -⟩
        · exact h.entries e he
        · rw [he]
          exact hcame
      · exact h

theorem Gateway.From.run {events : List GatewayEvent} (h : g.From came)
    (hall : ∀ q ∈ requests events, q.cacheable = true → came q) :
    (run (Gateway.step env) g events).From came := by
  induction events generalizing g with
  | nil => exact h
  | cons ev events ih =>
    refine ih (h.step fun q hq => hall q ?_) fun q hq => hall q ?_
    · exact mem_filterMap.mpr ⟨ev, mem_cons_self, hq⟩
    · obtain ⟨ev', hev', hq⟩ := mem_filterMap.mp hq
      exact mem_filterMap.mpr ⟨ev', mem_cons_of_mem _ hev', hq⟩

end

theorem mem_of_served {env : SemanticEnv} {g : Gateway} {e : SemanticEntry CacheRequest}
    (h : g.served env q now = some e) :
    e ∈ g.cache.entries ∧ q.cacheable = true ∧ ∃ text, semanticPromptText q.raw = some text := by
  obtain ⟨sc, hsc, h⟩ := bind_eq_some_iff.mp h
  refine ⟨?_, prepared_cacheable hsc⟩
  unfold Gateway.semanticServe at h
  split at h
  · cases h
  · exact (mem_of_lookup h).1

/-- In every history whose cacheable requests are lines of text with the settings of their scope, a
request that is answered with what was stored for an identical prompt of the same scope agrees with
the request it was stored for on everything that determines the answer. -/
theorem hits_agree (env : SemanticEnv) (cfg : SemanticConfig)
    (σ : ScopeContext → List (Option Json)) (events : List GatewayEvent) (q : CacheRequest)
    (now : Time) (e : SemanticEntry CacheRequest)
    (hplain : ∀ p ∈ requests events ++ [q], p.cacheable = true → Plain σ p)
    (hserved : (run (Gateway.step env) { cfg := cfg } events).served env q now = some e)
    (hcontext : e.origin.context = q.context)
    (htext : semanticPromptText e.origin.raw = semanticPromptText q.raw) :
    Agree e.origin.raw q.raw := by
  have hinit : Gateway.From (Plain σ) { cfg := cfg } := ⟨by simp, by simp⟩
  have hfrom : Gateway.From (Plain σ) (run (Gateway.step env) { cfg := cfg } events) :=
    hinit.run fun p hp => hplain p (mem_append_left _ hp)
  obtain ⟨hmem, hcacheable, text, hq⟩ := mem_of_served hserved
  have hplainq := hplain q (by simp) hcacheable
  have hplaine := hfrom.entries e hmem
  refine ⟨turns_eq_of_promptText_eq hplaine.turns hplainq.turns (htext.trans hq) hq, ?_⟩
  rw [hplaine.settings, hplainq.settings, hcontext]

/-! ### Histories -/

/-- One embedding for all texts, and one scope. -/
def flatEmbedding : SemanticEnv where
  embedText := fun _ => some [1]
  digest := fun _ => "scope"
  bounds := { ttl := 300, threshold := 19 / 20, maxEntries := 4, maxBytes := 1000 }

def requestOf (raw : String) : CacheRequest where
  raw := bytes raw
  context := { path := "/v1/messages", model := "m", clientKeyDigest := "", forwardedHeaders := [] }

/-- A request is answered by an upstream. -/
def answered (q : CacheRequest) : List GatewayEvent :=
  [.request q 0, .answer 0 1 200 (bytes "it rains") "no"]

def gatewayBehind (q : CacheRequest) : Gateway :=
  run (Gateway.step flatEmbedding) { cfg := { maxBodyBytes := 1000 } } (answered q)

theorem semanticPrepare_requestOf {raw : String} (htext : semanticPromptText (bytes raw) ≠ none)
    (hlen : (bytes raw).length ≤ 1000) :
    semanticPrepare flatEmbedding { maxBodyBytes := 1000 } (requestOf raw) =
      some { scope := "scope", vector := [1], requireNoTrain := false } := by
  obtain ⟨text, htext⟩ := ne_none_iff_exists'.mp htext
  simp [semanticPrepare, requestOf, CacheRequest.cacheable, flatEmbedding, htext, hlen]

theorem served_requestOf {raw raw' : String} (htext : semanticPromptText (bytes raw) ≠ none)
    (htext' : semanticPromptText (bytes raw') ≠ none) (hlen : (bytes raw).length ≤ 1000)
    (hlen' : (bytes raw').length ≤ 1000) :
    ((gatewayBehind (requestOf raw)).served flatEmbedding (requestOf raw') 2).map (·.origin) =
      some (requestOf raw) := by
  have hbody : bytes "it rains" ≠ [] ∧
      ¬flatEmbedding.bounds.maxBytes < (bytes "it rains").length := by decide +kernel
  have hcos : flatEmbedding.bounds.threshold ^ 2 ≤ cosineSquare [1] [1] ∧
      0 < cosineSquare [1] [1] := by decide +kernel
  have hlive : (1 : Time) ≤ flatEmbedding.bounds.ttl := by decide +kernel
  simp only [Gateway.served, gatewayBehind, answered, run, foldl, Gateway.step,
    Gateway.receive, semanticPrepare_requestOf htext hlen]
  simp [Gateway.semanticServe, SemanticCache.lookup, maxVectorDim, Gateway.semanticStore,
    SemanticCache.store, SemanticCache.evict, hbody, semanticPrepare_requestOf htext' hlen', better,
    SemanticEntry.eligible, hcos, hlive]

/-- What a request is served with, if anything. -/
def originRaw (q q' : CacheRequest) : Option (List UInt8) :=
  ((gatewayBehind q).served flatEmbedding q' 2).map (·.origin.raw)

def asText : CacheRequest :=
  requestOf "\x7b\"messages\":[\x7b\"role\":\"user\",\"content\":\"rain?\"\x7d]\x7d"

/-- The same question as a text block. -/
def asBlock : CacheRequest :=
  requestOf ("\x7b\"messages\":[\x7b\"role\":\"user\",\"content\":" ++
    "[\x7b\"type\":\"text\",\"text\":\"rain?\"\x7d]\x7d]\x7d")

theorem promptText_asText : semanticPromptText asText.raw = some "user: rain?" := by decide +kernel

theorem promptText_asBlock : semanticPromptText asBlock.raw = some "user: rain?" := by
  decide +kernel

theorem hits_agree_asBlock :
    ∃ e, (gatewayBehind asText).served flatEmbedding asBlock 2 = some e ∧
      e.origin.raw = asText.raw ∧ Agree e.origin.raw asBlock.raw := by
  have heval : ((gatewayBehind asText).served flatEmbedding asBlock 2).map (·.origin) =
      some asText := by
    refine served_requestOf (promptText_asText.trans_ne (some_ne_none _))
      (promptText_asBlock.trans_ne (some_ne_none _)) ?_ ?_
    all_goals decide +kernel
  obtain ⟨e, he, horigin⟩ := map_eq_some_iff.mp heval
  have hraw : e.origin.raw = asText.raw := by rw [horigin]
  have hcontext : e.origin.context = asBlock.context := by rw [horigin]; rfl
  refine ⟨e, he, hraw, hits_agree flatEmbedding { maxBodyBytes := 1000 }
    (fun _ => replicate 9 none) (answered asText) asBlock 2 e ?_ he hcontext ?_⟩
  · intro p hp _
    have hsettings : ∀ q ∈ [asText, asBlock], (settings q.raw).all isNone = true := by
      decide +kernel
    have hturns : ∀ q ∈ [asText, asBlock], ∀ t ∈ turns q.raw, PlainTurn t := by decide +kernel
    have hp : p ∈ [asText, asBlock] := hp
    refine ⟨hturns p hp, eq_replicate_iff.mpr ⟨rfl, fun v hv => ?_⟩⟩
    exact isNone_iff_eq_none.mp (all_eq_true.mp (hsettings p hp) v hv)
  · rw [hraw, promptText_asText, promptText_asBlock]

/-- A question about a picture, with settings. -/
def aboutPicture : CacheRequest :=
  requestOf ("\x7b\"messages\":[\x7b\"role\":\"user\",\"content\":" ++
    "[\x7b\"type\":\"text\",\"text\":\"rain?\"\x7d," ++
    "\x7b\"type\":\"image_url\",\"image_url\":\"sky.png\"\x7d]\x7d]," ++
    "\"system\":\"answer in French\",\"response_format\":\x7b\"type\":\"json_object\"\x7d," ++
    "\"max_tokens\":5,\"stop\":[\".\"],\"reasoning_effort\":\"high\"\x7d")

/-- A question about a picture, with settings, is answered with what was stored for the bare
question: the prompts are identical, and neither the parts nor the settings agree. -/
theorem picture_answered_without_it :
    originRaw asText aboutPicture = some asText.raw ∧
    aboutPicture.context = asText.context ∧
    semanticPromptText asText.raw = semanticPromptText aboutPicture.raw ∧
    (turns asText.raw).map (·.parts.length) = [1] ∧
    (turns aboutPicture.raw).map (·.parts.length) = [2] ∧
    (settings asText.raw).map Option.isSome = List.replicate 9 false ∧
    (settings aboutPicture.raw).map Option.isSome =
      [true, true, true, false, true, false, false, true, false] ∧
    ¬ Agree asText.raw aboutPicture.raw := by
  obtain ⟨hparts, hsettings⟩ : (turns asText.raw).map (·.parts.length) = [1] ∧
      (settings asText.raw).map Option.isSome = List.replicate 9 false := by decide +kernel
  obtain ⟨hparts', hsettings', hprompt⟩ : (turns aboutPicture.raw).map (·.parts.length) = [2] ∧
      (settings aboutPicture.raw).map Option.isSome =
        [true, true, true, false, true, false, false, true, false] ∧
      semanticPromptText aboutPicture.raw = some "user: rain?" := by decide +kernel
  have hserved : ((gatewayBehind asText).served flatEmbedding aboutPicture 2).map (·.origin) =
      some asText := by
    refine served_requestOf (promptText_asText.trans_ne (some_ne_none _))
      (hprompt.trans_ne (some_ne_none _)) ?_ ?_
    all_goals decide +kernel
  have hraw : originRaw asText aboutPicture = some asText.raw := by
    obtain ⟨e, he, horigin⟩ := map_eq_some_iff.mp hserved
    rw [originRaw, he, map_some, horigin]
  refine ⟨hraw, rfl, promptText_asText.trans hprompt.symm, hparts, hparts', hsettings, hsettings',
    fun h => ?_⟩
  rw [h.turns, hparts'] at hparts
  simp at hparts

end NexaRoute.Httpapi
