import NexaRoute.Httpapi.Budget

/-!
# Chat completions

`openAIChat` from admission to the first dispatch, with the calls it makes on the budget ledger. A
request that the gateway answers itself costs nothing upstream, and its hold is to be released; an
open hold is committed in full when the row of its key is looked at a quarter of an hour later.

What the handler asks other components for is in `Surroundings`: the health of the deployments, the
order of the candidates, task intelligence, the two caches, and whether an attempt is dispatched.

## Main results

* `unsent_uncharged_iff` — when a request that is not sent is not charged
-/

namespace NexaRoute.Httpapi

open Go Router Usage Machine

/-! ### The handler -/

/-- How the handler ends. -/
inductive Exit
  | refused (refusal : Refusal)
  | unroutable (e : RouteError)
  | privacyUnavailable
  | noDeployment
  | cacheHit
  | semanticHit
  | undispatched
  | dispatched
  deriving DecidableEq, Repr

/-- What other components tell the handler. -/
structure Surroundings where
  health : Health
  strategy : Strategy
  promote : Strategy
  requirement : Requirement
  applyTaskIntel : List Deployment → List Deployment
  isPrivacyUnavailable : Bool
  cacheServe : List Deployment → Bool
  semanticServe : List Deployment → Bool
  dispatches : List Deployment → Bool

/-- `budgetRelease`: the hold of the request, if there is one. -/
def budgetRelease : Option (String × UInt64) → List Call
  | none => []
  | some (keyID, id) => [.release keyID id]

/-- The candidates, without the provider type if it leaves none. -/
def chatCandidates (cfg : Config) (s : Surroundings) (req : Requirement) :
    Except RouteError (List Deployment) :=
  match candidatesForRequirement cfg s.health s.strategy s.promote req "openai" with
  | .error e => .error e
  | .ok found =>
    if found.isEmpty && req.providerType != "" then
      match candidatesForRequirement cfg s.health s.strategy s.promote
          { req with providerType := "" } "openai" with
      | .ok relaxed => .ok relaxed
      | .error _ => .ok found
    else .ok found

/-- `openAIChat` after admission: how it ends, and its calls on the ledger until then. -/
def openAIChat (cfg : Config) (s : Surroundings) (hold : Option (String × UInt64))
    (body : List UInt8) : Exit × List Call :=
  match decodeRequest .chatCompletions body with
  | .error refusal => (.refused refusal, [])
  | .ok model =>
    match chatCandidates cfg s { s.requirement with model := model } with
    | .error e => (.unroutable e, budgetRelease hold)
    | .ok found =>
      let found := s.applyTaskIntel found
      if found.isEmpty then
        if s.isPrivacyUnavailable then (.privacyUnavailable, budgetRelease hold)
        else (.noDeployment, budgetRelease hold)
      else if s.cacheServe found then (.cacheHit, budgetRelease hold)
      else if s.semanticServe found then (.semanticHit, budgetRelease hold)
      -- The deferred release: every candidate was skipped.
      else if !s.dispatches found then (.undispatched, budgetRelease hold)
      else (.dispatched, [])

/-- A body the handler takes: of the size and the types of a request, with a model and messages, and
not too complex. -/
def Complete (ingress : Ingress) (body : List UInt8) : Prop :=
  ∃ members, readJSON ingress.request body = .ok members ∧
    trimSpace (stringField "model" members) ≠ "" ∧ sliceLength "messages" members ≠ 0 ∧
    tooComplex members = false

theorem complete_iff {ingress : Ingress} {body : List UInt8} :
    Complete ingress body ↔ ∃ model, decodeRequest ingress body = .ok model := by
  unfold Complete decodeRequest
  cases readJSON ingress.request body with
  | error refusal => simp
  | ok members =>
    by_cases hincomplete : trimSpace (stringField "model" members) = "" ∨
        sliceLength "messages" members = 0
    · simp only [if_pos hincomplete]
      simp only [reduceCtorEq, exists_false, iff_false]
      rintro ⟨_, h, hmodel, hmessages, -⟩
      cases h
      exact hincomplete.elim hmodel hmessages
    · rw [not_or] at hincomplete
      cases htoo : tooComplex members <;> simp [htoo, hincomplete.1, hincomplete.2]

variable {cfg : Config} {s : Surroundings} {hold : Option (String × UInt64)} {body : List UInt8}

/-- **The exits.** A request that is not dispatched is released, unless its body is refused. -/
theorem openAIChat_calls (hexit : (openAIChat cfg s hold body).1 ≠ .dispatched) :
    (Complete .chatCompletions body → (openAIChat cfg s hold body).2 = budgetRelease hold) ∧
      (¬Complete .chatCompletions body → (openAIChat cfg s hold body).2 = []) := by
  rw [complete_iff]
  unfold openAIChat at hexit ⊢
  cases hdecode : decodeRequest .chatCompletions body with
  | error refusal => simp
  | ok model =>
    refine ⟨fun _ => ?_, fun h => absurd ⟨model, rfl⟩ h⟩
    simp only [hdecode] at hexit ⊢
    cases hfound : chatCandidates cfg s { s.requirement with model := model } with
    | error e => rfl
    | ok found =>
      simp only [hfound] at hexit ⊢
      split_ifs at hexit ⊢
      all_goals first | rfl | exact absurd rfl hexit

/-! ### The headline -/

/-- For each request of a key that is admitted with a hold, each sequence of calls by other requests
before the handler ends, and each end without a dispatch: the committed spend of the key never grows
by the hold, whatever other requests do before the counter comes round, if and only if the body is
complete and none of the earlier calls looked at the row of the key a quarter of an hour after
admission. -/
theorem unsent_uncharged_iff (cfg : Config) (s : Surroundings) (key : VirtualKey)
    (ledger ledger' : BudgetLedger) (r : Request) (id : UInt64) (limit : String → ℚ)
    (earlier : List Call)
    (haccept : budgetAdmit cfg key ledger r = (ledger', .ok (some id)))
    (hearlier : ∀ call ∈ earlier, call.Foreign key.id id)
    (hroom : Room ledger'.seq (earlier.length + 2))
    (hexit : (openAIChat cfg s (some (key.id, id)) r.body).1 ≠ .dispatched) :
    (∀ later : List Call, (∀ call ∈ later, call.Foreign key.id id) →
      Room ledger'.seq (earlier.length + 1 + later.length) →
      Uncharged limit key.id id ledger'
        (earlier ++ (openAIChat cfg s (some (key.id, id)) r.body).2 ++ later)) ↔
    Complete .chatCompletions r.body ∧
      ∀ call ∈ earlier, ∀ t ∈ call.looks limit key.id, t - r.now < budgetReservationTTL := by
  obtain ⟨hkey, est, hest, hpos⟩ := exists_est_of_budgetAdmit haccept
  obtain ⟨hhold, hstands⟩ := stands_of_budgetAdmit hkey hest hpos haccept
  obtain ⟨hid, heq⟩ := Option.ite_none_left_eq_some.mp hhold.symm
  cases heq
  have hroomEarlier : Room ledger'.seq earlier.length := hroom.mono (Nat.le_add_right _ 2)
  obtain ⟨hreleased, hkept⟩ := openAIChat_calls hexit
  have htimely : ∀ call : Call,
      (call.looks limit key.id).any (BudgetReservation.stale ⟨est, r.now⟩) = false ↔
        ∀ t ∈ call.looks limit key.id, t - r.now < budgetReservationTTL := by
    intro call
    cases call.looks limit key.id <;> simp [BudgetReservation.stale]
  simp only [← htimely]
  constructor
  · intro h
    -- A look at the row when the hold is stale charges it, unless it is gone by then.
    have hsnapshot := h [.snapshot key.id (r.now + budgetReservationTTL)] (by simp [Call.Foreign])
      hroom
    rw [Uncharged, List.append_assoc, guarded_append,
      ← Uncharged, hstands.uncharged_some_iff hid hpos hroomEarlier hearlier] at hsnapshot
    refine ⟨?_, hsnapshot.1⟩
    by_contra hincomplete
    have hstill := hstands.run_some hroomEarlier hearlier hsnapshot.1
    rw [hkept hincomplete, List.nil_append, ← Uncharged,
      hstill.uncharged_some_iff hid hpos] at hsnapshot
    · simp [Call.looks, Call.key, Call.looksAt, BudgetReservation.stale] at hsnapshot
    · exact (hroom.mono (Nat.le_succ _)).run
    · simp [Call.Foreign]
  · rintro ⟨hcomplete, htimely⟩ later hlater hroomLater
    rw [Uncharged, List.append_assoc, guarded_append, hreleased hcomplete]
    refine ⟨(hstands.uncharged_some_iff hid hpos hroomEarlier hearlier).mpr htimely, ?_⟩
    have hstill := hstands.run_some hroomEarlier hearlier htimely
    rw [Nat.add_assoc, Nat.add_comm 1] at hroomLater
    refine ⟨commits_release, (hstill.release hid).uncharged_none hid ?_ hlater⟩
    exact hroomLater.run.step seq_step

/-- A deployment for every request, and an answer in the cache. -/
def cachedSurroundings : Surroundings where
  health := .good
  strategy := Strategy.asFound
  promote := Strategy.asFound
  requirement := .plain ""
  applyTaskIntel := id
  isPrivacyUnavailable := false
  cacheServe := fun _ => true
  semanticServe := fun _ => false
  dispatches := fun _ => true

/-- A request for the model `m`. -/
def completeRequest : Request where
  body := bytes "\x7b\"model\":\"m\",\"messages\":[\x7b\"role\":\"user\"\x7d]\x7d"
  contentLength := -1
  now := 0

/-- The request is answered from the cache, after the key was looked at a minute later. -/
theorem completeRequest_uncharged :
    (openAIChat soleModelConfig cachedSurroundings (some ("key-1", 1)) completeRequest.body).1 =
        .cacheHit ∧
      ∀ later : List Call, (∀ call ∈ later, call.Foreign "key-1" 1) →
        Room 1 (2 + later.length) →
        Uncharged (fun _ => 1) "key-1" 1
          (budgetAdmit soleModelConfig (budgetKey 1) .new completeRequest).1
          ([.snapshot "key-1" (60 * second)] ++ [.release "key-1" 1] ++ later) := by
  have hexit : (openAIChat soleModelConfig cachedSurroundings (some ("key-1", 1))
      completeRequest.body) = (.cacheHit, [.release "key-1" 1]) := by decide +kernel
  have haccept : (budgetAdmit soleModelConfig (budgetKey 1) .new completeRequest).2 =
      .ok (some 1) := by decide +kernel
  have hcomplete : Complete .chatCompletions completeRequest.body :=
    complete_iff.mpr ⟨"m", by decide +kernel⟩
  have hseq : (budgetAdmit soleModelConfig (budgetKey 1) .new completeRequest).1.seq = 1 := by
    decide +kernel
  have hroom : Room (budgetAdmit soleModelConfig (budgetKey 1) .new completeRequest).1.seq 3 := by
    rw [hseq]
    decide
  have h := unsent_uncharged_iff soleModelConfig cachedSurroundings (budgetKey 1) .new _
    completeRequest 1 (fun _ => 1) [.snapshot "key-1" (60 * second)] (Prod.ext rfl haccept)
    (by decide) hroom (by rw [show (budgetKey 1).id = "key-1" from rfl, hexit]; decide)
  rw [hseq] at h
  exact ⟨by rw [hexit], h.mpr ⟨hcomplete, by decide⟩⟩

def requestWithoutMessages : Request where
  body := bytes "\x7b\"model\":\"m\"\x7d"
  contentLength := -1
  now := 0

/-- The request is refused, nothing is called, and a quarter of an hour later its hold is
committed. -/
theorem requestWithoutMessages_charged :
    (budgetAdmit soleModelConfig (budgetKey 1) .new requestWithoutMessages).2 = .ok (some 1) ∧
      openAIChat soleModelConfig cachedSurroundings (some ("key-1", 1))
        requestWithoutMessages.body = (.refused .incomplete, []) ∧
      ((budgetAdmit soleModelConfig (budgetKey 1) .new requestWithoutMessages).1.snapshot "key-1"
        (900 * second)).2 = (4099 / 100000, 0) := by
  decide +kernel

end NexaRoute.Httpapi
