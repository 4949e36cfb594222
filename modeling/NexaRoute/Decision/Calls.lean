import NexaRoute.Decision.Routes

/-!
# The calls of the decision plane

What `decide` does beside its result: it calls providers, and it tells the provider state how each
call of an external provider went. `decideLog` is the sequence of both, along the branches of
`Decide` and of `ChainExecutor.Execute`. Each call is observed once, with one exception: a single
provider that panics is counted in the recover handler and again behind it.

## Main results

* `decideLog_observed_iff` — when every call is observed once
* `callees_decide` — the calls of the log are those of `decide`
-/

namespace NexaRoute.Decision

variable {δ : Type}

/-- A call of `Decide`, or a `RecordSuccess` or `RecordFailure`. -/
inductive Event
  | called (id : String)
  | success (id : String)
  | failure (id : String)
  deriving DecidableEq, Repr

def Event.isCall : Event → Bool
  | .called _ => true
  | _ => false

def Event.observes (id : String) : Event → Bool
  | .called _ => false
  | .success i => i = id
  | .failure i => i = id

/-- What is recorded of an answer that came in time. -/
def Verdict.observed (id : String) : Verdict → Event
  | .accepted _ => .success id
  | _ => .failure id

section Log

variable (registry : String → Option Provider) (candidates : List (Candidate δ))
  (constraints : PrimarySelectionConstraints) (maxCalls : ℤ) (env : ℕ → Consultation)

/-- The call of a step. Only external providers have a state; a ranking is a failure here. -/
def callStepLog (name : String) (provider : Provider) (c : Consultation) : List Event :=
  .called provider.id ::
    if isExternal name then
      [if c.after = .deadlineExceeded ∨ c.stepAfter = .deadlineExceeded then .failure provider.id
        else if (c.answer.result provider).action = .rank then .failure provider.id
        else (judge candidates constraints provider c.answer).observed provider.id]
    else []

def executeStepsLog : ℕ → ℕ → List String → List Event
  | _, _, [] => []
  | index, used, name :: names =>
    let c := env index
    if c.before ≠ .live then []
    else if maxCalls ≤ used then []
    else match registry name with
      | none => executeStepsLog (index + 1) used names
      | some provider =>
        if c.unavailable then executeStepsLog (index + 1) used names
        else if isExternal name && c.cooldown then executeStepsLog (index + 1) used names
        else callStepLog candidates constraints name provider c ++
          match callStep candidates constraints index name provider c with
          | .next _ => executeStepsLog (index + 1) (used + 1) names
          | _ => []

/-- The bound on the calls of a chain. -/
def callBound (chain : ChainConfig) : ℤ :=
  if maxCalls ≤ 0 then min 8 (max 1 (chain.steps.length : ℤ)) else maxCalls

def executeLog (chain : ChainConfig) : List Event :=
  match forcedFirst candidates constraints.forcedPrimaryID with
  | some _ => []
  | none =>
    executeStepsLog registry candidates constraints (callBound maxCalls chain) env 0 0 chain.steps

end Log

section Log

variable (registry : String → Option Provider) (cfg : Config) (env : ℕ → Consultation)
  (req : DecisionRequest δ)

/-- The call of a single provider; the recover handler records on its own. -/
def consultLog (provider : Provider) (c : Consultation) : List Event :=
  if isExternal provider.id && c.cooldown then []
  else if c.unavailable then []
  else .called provider.id ::
    if isExternal provider.id then
      (match c.answer with
        | .panicked => [.failure provider.id]
        | .returned _ _ => []) ++
      [if c.after = .deadlineExceeded then .failure provider.id
        else (judge req.candidates
          (computePrimaryConstraints req.candidates req.pinnedCandidateID) provider
          c.answer).observed provider.id]
    else []

def decideLog : List Event :=
  let constraints := computePrimaryConstraints req.candidates req.pinnedCandidateID
  match req.candidates with
  | [] => []
  | [_] => []
  | _ =>
    match cfg.mode with
    | .off => []
    | .hybrid =>
      match (if cfg.chain = "" then none else cfg.chains cfg.chain) with
      | none => []
      | some chain =>
        executeLog registry req.candidates constraints (chainCalls cfg req chain) env chain
    | .single =>
      if singleCalls cfg req ≤ 0 then []
      else match registry cfg.provider with
        | none => []
        | some provider =>
          match forcedFirst req.candidates constraints.forcedPrimaryID with
          | some _ => []
          | none => consultLog req provider (env 0)

end Log

/-! ### The calls in the trace -/

/-- The provider that is called. -/
def Event.callee : Event → Option String
  | .called id => some id
  | _ => none

/-- The providers that the steps of a trace called. -/
def callees (steps : List ChainStepTrace) : List String :=
  (steps.filter (·.called)).map (·.providerID)

def StepEnd.trace : StepEnd → ChainStepTrace
  | .decided _ trace => trace
  | .outOfTime _ trace => trace
  | .next trace => trace

section Trace

variable (candidates : List (Candidate δ)) (constraints : PrimarySelectionConstraints)

theorem callees_callStep (index : ℕ) (name : String) (provider : Provider) (c : Consultation) :
    callees [(callStep candidates constraints index name provider c).trace] = [name] := by
  unfold callStep
  split
  · split <;> rfl
  · cases judge candidates constraints provider c.answer with
    | accepted r =>
      simp only
      split <;> rfl
    | _ => rfl

theorem callees_append (steps steps' : List ChainStepTrace) :
    callees (steps ++ steps') = callees steps ++ callees steps' := by simp [callees]

theorem callees_skipped (index : ℕ) (names : List String) : callees (skipped index names) = [] := by
  have hskipped : ∀ s ∈ skipped index names, ¬s.called = true := by
    intro s hs
    obtain ⟨_, _, rfl⟩ := List.mem_map.mp hs
    exact nofun
  rw [callees, List.filter_eq_nil_iff.mpr hskipped]
  rfl

theorem callees_callStepLog (name : String) (provider : Provider) (c : Consultation) :
    (callStepLog candidates constraints name provider c).filterMap Event.callee = [provider.id] := by
  unfold callStepLog
  split
  · split_ifs
    · rfl
    · rfl
    · cases judge candidates constraints provider c.answer <;> rfl
  · rfl

/-- The log of a chain has the calls that its trace reports. -/
theorem callees_executeSteps {registry : String → Option Provider}
    (hreg : ∀ name provider, registry name = some provider → provider.id = name)
    (maxCalls : ℤ) (env : ℕ → Consultation) (chainID : String) (index : ℕ) (trace : ChainTrace)
    (names : List String) :
    callees (executeSteps registry candidates constraints maxCalls env chainID index trace
        names).trace.steps =
      callees trace.steps ++ (executeStepsLog registry candidates constraints maxCalls env index
        trace.callsUsed names).filterMap Event.callee := by
  induction names generalizing index trace with
  | nil => exact (List.append_nil _).symm
  | cons name names ih =>
    rw [executeSteps, executeStepsLog]
    split
    · rw [callees_append]
      rfl
    split
    · rw [callees_append, callees_skipped]
      rfl
    cases hprovider : registry name with
    | none => exact (ih ..).trans (by simp [callees])
    | some provider =>
    dsimp only
    split
    · exact (ih ..).trans (by simp [callees])
    split
    · exact (ih ..).trans (by simp [callees])
    have hstep := callees_callStep candidates constraints index name provider (env index)
    rw [List.filterMap_append, callees_callStepLog, hreg name provider hprovider, ← hstep]
    cases callStep candidates constraints index name provider (env index) with
    | next step => exact (ih ..).trans (by rw [callees_append, List.append_assoc]; rfl)
    | outOfTime id step => exact (callees_append ..).trans (by simp [StepEnd.trace])
    | decided r step => exact (callees_append ..).trans (by simp [StepEnd.trace])

end Trace

/-- In hybrid mode the log has the calls that the trace of the decision reports. -/
theorem callees_decide {registry : String → Option Provider}
    (hreg : ∀ name provider, registry name = some provider → provider.id = name) {cfg : Config}
    (hmode : cfg.mode = .hybrid) (env : ℕ → Consultation) {req : DecisionRequest δ}
    (hlen : 2 ≤ req.candidates.length) :
    (decide registry cfg env req).trace.chainTrace.map (callees ·.steps) =
      some ((decideLog registry cfg env req).filterMap Event.callee) := by
  rw [(decide_long registry cfg env req hlen).2.1 hmode, decideLog]
  split
  · next hnil => simp [hnil] at hlen
  · next hone => simp [hone] at hlen
  rw [hmode, decideChain]
  generalize (if cfg.chain = "" then none else cfg.chains cfg.chain) = chain
  cases chain with
  | none => rfl
  | some chain =>
    simp only [execute, executeLog]
    cases forcedFirst req.candidates
      (computePrimaryConstraints req.candidates req.pinnedCandidateID).forcedPrimaryID with
    | some ordered => rfl
    | none => exact congrArg some (callees_executeSteps _ _ hreg ..)

/-! ### Observations -/

/-- Each call of an external provider is observed once, behind the call, and nothing else is. -/
inductive Observed : List Event → Prop
  | nil : Observed []
  | external {id : String} {e : Event} {rest : List Event} (hid : isExternal id = true)
      (he : e.observes id = true) (hrest : Observed rest) : Observed (.called id :: e :: rest)
  | internal {id : String} {rest : List Event} (hid : isExternal id = false)
      (hrest : Observed rest) : Observed (.called id :: rest)

theorem Observed.isCall {e : Event} {rest : List Event} (h : Observed (e :: rest)) :
    e.isCall = true := by
  cases h <;> rfl

theorem Verdict.observes_observed (v : Verdict) (id : String) :
    (v.observed id).observes id = true := by
  cases v <;> simp [Verdict.observed, Event.observes]

theorem executeStepsLog_observed {registry : String → Option Provider}
    (hreg : ∀ name provider, registry name = some provider → provider.id = name)
    (candidates : List (Candidate δ)) (constraints : PrimarySelectionConstraints) (maxCalls : ℤ)
    (env : ℕ → Consultation) (index used : ℕ) (names : List String) :
    Observed (executeStepsLog registry candidates constraints maxCalls env index used names) := by
  induction names generalizing index used with
  | nil => exact .nil
  | cons name names ih =>
    rw [executeStepsLog]
    split
    · exact .nil
    split
    · exact .nil
    cases hprovider : registry name with
    | none => exact ih ..
    | some provider =>
    obtain rfl := hreg name provider hprovider
    dsimp only
    split
    · exact ih ..
    split
    · exact ih ..
    have hrest : Observed (match callStep candidates constraints index provider.id provider
        (env index) with
        | .next _ => executeStepsLog registry candidates constraints maxCalls env (index + 1)
          (used + 1) names
        | _ => []) := by
      split
      · exact ih ..
      · exact .nil
    rw [callStepLog]
    split
    · next hid =>
      refine .external hid ?_ hrest
      split_ifs
      · simp [Event.observes]
      · simp [Event.observes]
      · exact Verdict.observes_observed ..
    · next hid => exact .internal (by simpa using hid) hrest

/-- The calls of a provider that is not cooling down and is available. -/
theorem consultLog_observed_iff (req : DecisionRequest δ) (provider : Provider) (c : Consultation) :
    Observed (consultLog req provider c) ↔
      ((isExternal provider.id && c.cooldown) = false → c.unavailable = false →
        isExternal provider.id = true → c.answer ≠ .panicked) := by
  rw [consultLog]
  split
  · next hcool => exact iff_of_true .nil (by simp [hcool])
  next hwarm =>
  split
  · next hdown => exact iff_of_true .nil (by simp [hdown])
  next hup =>
  cases hid : isExternal provider.id with
  | false => exact iff_of_true (.internal hid .nil) (by simp)
  | true =>
    cases hanswer : c.answer with
    | panicked =>
      -- the recover handler's failure is followed by another observation
      refine iff_of_false (fun h => ?_) fun h => ?_
      · cases h with
        | internal hid' =>
          rw [hid] at hid'
          cases hid'
        | external _ _ hrest =>
          have hcall := hrest.isCall
          split at hcall <;> cases hcall
      · rw [hid] at hwarm
        exact h (by simpa using hwarm) (by simpa using hup) rfl rfl
    | returned r failed =>
      refine iff_of_true (.external hid ?_ .nil) (by simp)
      split
      · simp [Event.observes]
      · exact Verdict.observes_observed ..

/-- **Every call of an external provider is observed exactly once**, in every mode and whatever the
provider does, unless the single provider is asked and panics. -/
theorem decideLog_observed_iff (registry : String → Option Provider)
    (hreg : ∀ name provider, registry name = some provider → provider.id = name) (cfg : Config)
    (env : ℕ → Consultation) (req : DecisionRequest δ) :
    Observed (decideLog registry cfg env req) ↔
      ∀ provider, Asked registry cfg env req provider → isExternal provider.id = true →
        (env 0).answer ≠ .panicked := by
  have hfew : req.candidates.length < 2 →
      ∀ provider, ¬Asked registry cfg env req provider := fun hlen _ h => by
    have := h.several
    omega
  have hother : cfg.mode ≠ .single →
      ∀ provider, ¬Asked registry cfg env req provider := fun hmode _ h => hmode h.mode
  rw [decideLog]
  split
  · next hnil => exact iff_of_true .nil fun p h => absurd h (hfew (by simp [hnil]) p)
  · next c hone => exact iff_of_true .nil fun p h => absurd h (hfew (by simp [hone]) p)
  next hnil hone =>
  cases hmode : cfg.mode with
  | off => exact iff_of_true .nil fun p h => absurd h (hother (by simp [hmode]) p)
  | hybrid =>
    refine iff_of_true ?_ fun p h => absurd h (hother (by simp [hmode]) p)
    simp only
    split
    · exact .nil
    rw [executeLog]
    split
    · exact .nil
    · exact executeStepsLog_observed hreg ..
  | single =>
    simp only
    split
    · next hbudget =>
      exact iff_of_true .nil fun p h => absurd h.budget (by omega)
    next hbudget =>
    cases hprovider : registry cfg.provider with
    | none =>
      refine iff_of_true .nil fun p h => ?_
      cases h.known.symm.trans hprovider
    | some provider =>
      simp only
      split
      · next hforced =>
        refine iff_of_true .nil fun p h => ?_
        cases (forcedFirst_of_not_pinned h.unpinned).symm.trans hforced
      · next hforced =>
        have hlen : 2 ≤ req.candidates.length := by
          rcases hc : req.candidates with _ | ⟨c, _ | ⟨c', rest⟩⟩
          · exact absurd hc hnil
          · exact absurd hc (hone c)
          · simp
        rw [consultLog_observed_iff]
        constructor
        · intro h p hasked
          obtain rfl : provider = p := Option.some.inj (hprovider.symm.trans hasked.known)
          exact h hasked.warm hasked.healthy
        · intro h hwarm hup
          exact h provider ⟨hmode, hlen, by omega, hprovider, pinned_of_forcedFirst hforced, hwarm,
            hup⟩

/-- A panic of the single provider counts as two failures. -/
theorem panic_counted_twice :
    decideLog soleProvider soleConfig (fun _ => { answer := .panicked }) twoRoutes =
        [.called "jev", .failure "jev", .failure "jev"] ∧
      ¬ Observed (decideLog soleProvider soleConfig (fun _ => { answer := .panicked }) twoRoutes) := by
  have hlog : decideLog soleProvider soleConfig (fun _ => { answer := .panicked }) twoRoutes =
      [.called "jev", .failure "jev", .failure "jev"] := by decide
  refine ⟨hlog, fun h => ?_⟩
  cases h with
  | external _ _ hrest => cases hrest.isCall
  | internal _ hrest => cases hrest.isCall

/-- A ranking in time is one success. -/
theorem ranking_observed :
    decideLog soleProvider soleConfig (fun _ => ranksB) twoRoutes = [.called "jev", .success "jev"] ∧
      Observed (decideLog soleProvider soleConfig (fun _ => ranksB) twoRoutes) :=
  ⟨by decide, (decideLog_observed_iff soleProvider (by simp +contextual [soleProvider])
    soleConfig _ twoRoutes).mpr fun _ _ _ => by simp [ranksB]⟩

end NexaRoute.Decision
