import Mathlib.Algebra.Order.Ring.Unbundled.Rat
import NexaRoute.Go.Text
import NexaRoute.Keyed

/-!
# The decision plane

`internal/decision`: before a request is sent, decision providers may propose another order of the
eligible candidates. `decide` consults one provider, or a chain of them, within a budget; it
validates what they propose, checks a selection against the candidates that may come first, and
falls back to the order it was given.

What a provider does is not known: `Consultation` is everything the environment may answer while a
provider is consulted (its health, a cool-down, the contexts, a panic, any result). When a context
ends is left to the environment, so the computation of the timeouts is left out, and so are
measured durations, metrics and the error texts kept for debugging.

## Main definitions

* `decide` — the whole decision, by mode
-/

namespace NexaRoute.Decision

open Go

/-! ### Requests and results -/

/-- `ReasonCode`: the canonical codes, and any other text. -/
inductive ReasonCode
  | existingOrderPreserved
  | localPassThrough
  | abstained
  | timeout
  | providerError
  | providerPanic
  | invalidResult
  | budgetExceeded
  | offMode
  | eligibleSetPreserved
  | normalizationApplied
  | validationFailed
  | singleCandidate
  | emptyEligible
  | providerUnhealthy
  | affinityPreserved
  | poolBoundaryEnforced
  | priorityGuardrail
  | policyScored
  | policySelectFirst
  | taskAwareWeights
  | minDeltaNotMet
  | contextGuardrail
  | externalSelected
  | externalAbstained
  | externalTimeout
  | externalHTTPError
  | externalInvalidResponse
  | externalUnknownCandidate
  | externalRequestTooLarge
  | externalResponseTooLarge
  | externalProviderUnavailable
  | primaryConstraintViolation
  | chainSelected
  | chainExhausted
  | chainBudgetExhausted
  | chainDeadlineExhausted
  | chainStepAbstained
  | chainStepFailed
  | decisionProviderCooldown
  | other (text : String)
  deriving DecidableEq, Repr

/-- `IsValidReasonCode`. -/
def ReasonCode.isValid : ReasonCode → Bool
  | .other _ => false
  | _ => true

/-- The bounds of a result. -/
def maxReasonCodes : ℕ := 8

@[inherit_doc maxReasonCodes]
def maxReasonCodeLen : ℕ := 64

@[inherit_doc maxReasonCodes]
def maxSelectedIDLen : ℕ := 512

@[inherit_doc maxReasonCodes]
def maxProviderIDLen : ℕ := 128

@[inherit_doc maxReasonCodes]
def maxRankedIDs : ℕ := 4096

/-- Whether a code is longer than a code may be; no canonical code is. -/
def ReasonCode.tooLong : ReasonCode → Bool
  | .other text => maxReasonCodeLen < len text
  | _ => false

/-- `Action`; a provider may return any text. -/
inductive Action
  | select
  | rank
  | abstain
  | other (text : String)
  deriving DecidableEq, Repr

/-- `ValidAction`. -/
def Action.isValid : Action → Bool
  | .other _ => false
  | _ => true

/-- A `float64`. -/
inductive Confidence
  | nan
  | infinite
  | finite (value : ℚ)
  deriving DecidableEq, Repr

/-- `Candidate`. Everything that only providers read is `data`. -/
structure Candidate (δ : Type) where
  id : String
  poolOrdinal : ℤ
  priority : ℤ
  data : δ
  deriving DecidableEq, Repr

structure Budget where
  timeout : ℤ := 0
  maxProviderCalls : ℤ := 0

def Budget.isZero (b : Budget) : Bool := b.timeout == 0 && b.maxProviderCalls == 0

structure DecisionRequest (δ : Type) where
  candidates : List (Candidate δ)
  pinnedCandidateID : String := ""
  budget : Budget := {}

structure DecisionResult where
  action : Action
  selectedID : String := ""
  rankedIDs : List String := []
  confidence : Confidence := .finite 0
  reasonCodes : List ReasonCode := []
  providerID : String := ""
  abstained : Bool := false
  deriving DecidableEq, Repr

variable {δ : Type}

/-! ### Validation -/

/-- The errors of `ValidateResult`. -/
inductive ValidationError
  | emptyEligible
  | invalidAction (action : Action)
  | confidenceNotFinite
  | confidenceOutOfBounds (value : ℚ)
  | selectedIDTooLong
  | providerIDTooLong
  | tooManyReasonCodes (count : ℕ)
  | reasonCodeTooLong (code : ReasonCode)
  | reasonCodeInvalid (code : ReasonCode)
  | tooManyRanked (count bound : ℕ)
  | selectWithoutID
  | selectWithRanking
  | unknownCandidate (id : String)
  | rankWithSelected
  | rankWithoutIDs
  | rankedIDTooLong
  | duplicateID (id : String)
  | abstainWithSelected
  | abstainWithRanking
  deriving DecidableEq, Repr

def checkReasonCodes (codes : List ReasonCode) : Option ValidationError :=
  codes.findSome? fun rc =>
    if rc.tooLong then some (.reasonCodeTooLong rc)
    else if rc.isValid then none
    else some (.reasonCodeInvalid rc)

/-- What is wrong with the ids of a ranking, behind those that were seen. -/
def checkRanked (eligible : List (Candidate δ)) : List String → List String → Option ValidationError
  | _, [] => none
  | seen, id :: ids =>
    if maxSelectedIDLen < len id then some .rankedIDTooLong
    else if id ∉ eligible.map Candidate.id then some (.unknownCandidate id)
    else if id ∈ seen then some (.duplicateID id)
    else checkRanked eligible (id :: seen) ids

/-- The part of `ValidateResult` that depends on the action. -/
def checkAction (eligible : List (Candidate δ)) (result : DecisionResult) : Option ValidationError :=
  match result.action with
  | .select =>
    if result.selectedID = "" then some .selectWithoutID
    else if result.rankedIDs ≠ [] then some .selectWithRanking
    else if result.selectedID ∉ eligible.map Candidate.id then
      some (.unknownCandidate result.selectedID)
    else none
  | .rank =>
    if result.selectedID ≠ "" then some .rankWithSelected
    else if result.rankedIDs = [] then some .rankWithoutIDs
    else checkRanked eligible [] result.rankedIDs
  | .abstain =>
    if result.selectedID ≠ "" then some .abstainWithSelected
    else if result.rankedIDs ≠ [] then some .abstainWithRanking
    else none
  | .other _ => none

def checkConfidence : Confidence → Option ValidationError
  | .nan => some .confidenceNotFinite
  | .infinite => some .confidenceNotFinite
  | .finite value => if value < 0 ∨ 1 < value then some (.confidenceOutOfBounds value) else none

/-- What is wrong with the sizes of a result. -/
def checkBounds (eligible : List (Candidate δ)) (result : DecisionResult) : Option ValidationError :=
  if maxSelectedIDLen < len result.selectedID then some .selectedIDTooLong
  else if maxProviderIDLen < len result.providerID then some .providerIDTooLong
  else if maxReasonCodes < result.reasonCodes.length then
    some (.tooManyReasonCodes result.reasonCodes.length)
  else checkReasonCodes result.reasonCodes <|>
    if maxRankedIDs < result.rankedIDs.length then
      some (.tooManyRanked result.rankedIDs.length maxRankedIDs)
    else if eligible.length < result.rankedIDs.length then
      some (.tooManyRanked result.rankedIDs.length eligible.length)
    else none

/-- `ValidateResult`, with no error as `none`. -/
def validateResult (eligible : List (Candidate δ)) (result : DecisionResult) :
    Option ValidationError :=
  if eligible = [] then some .emptyEligible
  else if !result.action.isValid then some (.invalidAction result.action)
  else checkConfidence result.confidence <|> checkBounds eligible result <|>
    checkAction eligible result

/-! ### Orders -/

/-- The candidate a map from ids holds: the last one with the id. -/
def byID (eligible : List (Candidate δ)) (id : String) : Option (Candidate δ) :=
  eligible.reverse.find? fun c => c.id == id

/-- The candidates of a ranking, in its order; an id counts once. -/
def ranked (eligible : List (Candidate δ)) : List String → List String → List (Candidate δ)
  | _, [] => []
  | seen, id :: ids =>
    if id ∈ seen then ranked eligible seen ids
    else (byID eligible id).toList ++ ranked eligible (id :: seen) ids

/-- An order, whether it was applied, and why. -/
structure Normalized (δ : Type) where
  ordered : List (Candidate δ)
  applied : Bool
  reason : ReasonCode

def normalizeResult (eligible : List (Candidate δ)) (result : DecisionResult) : Normalized δ :=
  if eligible = [] then ⟨[], false, .emptyEligible⟩
  else match result.action with
    | .abstain => ⟨eligible, false, .abstained⟩
    | .select =>
      if result.selectedID = "" then ⟨eligible, false, .invalidResult⟩
      else match byID eligible result.selectedID with
        | none => ⟨eligible, false, .invalidResult⟩
        | some sel =>
          ⟨sel :: eligible.filter (fun c => c.id ≠ result.selectedID), true, .eligibleSetPreserved⟩
    | .rank =>
      if result.rankedIDs = [] then ⟨eligible, false, .abstained⟩
      else
        let omitted := eligible.filter fun c => c.id ∉ result.rankedIDs
        ⟨ranked eligible [] result.rankedIDs ++ omitted, true,
          if omitted.isEmpty then .eligibleSetPreserved else .normalizationApplied⟩
    | .other _ => ⟨eligible, false, .abstained⟩

/-! ### Primary constraints -/

structure PrimarySelectionConstraints where
  allowedPrimaryIDs : List String := []
  forcedPrimaryID : String := ""
  reasonCodes : List ReasonCode := []
  minOrdinal : ℤ := 0
  minPriority : ℤ := 0

/-- The least value of a field. -/
def least (field : Candidate δ → ℤ) (first : Candidate δ) (rest : List (Candidate δ)) : ℤ :=
  rest.foldl (fun m c => if field c < m then field c else m) (field first)

def earliestPool : List (Candidate δ) → List (Candidate δ)
  | [] => []
  | first :: rest =>
    (first :: rest).filter fun c => c.poolOrdinal = least Candidate.poolOrdinal first rest

/-- The candidates of the lowest priority value. -/
def lowestPriority : List (Candidate δ) → List (Candidate δ)
  | [] => []
  | first :: rest =>
    (first :: rest).filter fun c => c.priority = least Candidate.priority first rest

/-- The candidate a pin stands for: it counts only inside the earliest pool. -/
def pinned (candidates : List (Candidate δ)) (pinnedID : String) : Option (Candidate δ) :=
  if pinnedID = "" then none else (earliestPool candidates).find? fun c => c.id == pinnedID

def computePrimaryConstraints (candidates : List (Candidate δ)) (pinnedID : String) :
    PrimarySelectionConstraints :=
  match candidates with
  | [] => {}
  | first :: rest =>
    let bandPool := earliestPool candidates
    let reasonCodes :=
      if bandPool.length < candidates.length then [ReasonCode.poolBoundaryEnforced] else []
    let minOrdinal := least Candidate.poolOrdinal first rest
    match pinned candidates pinnedID with
    | some c =>
      { allowedPrimaryIDs := [pinnedID]
        forcedPrimaryID := pinnedID
        reasonCodes := .affinityPreserved :: reasonCodes
        minOrdinal
        minPriority := c.priority }
    | none =>
      let band := lowestPriority bandPool
      { allowedPrimaryIDs := band.map Candidate.id
        reasonCodes := reasonCodes ++
          if band.length < bandPool.length then [.priorityGuardrail] else []
        minOrdinal
        minPriority := (band.head?.map Candidate.priority).getD 0 }

def PrimarySelectionConstraints.isAllowedPrimary (p : PrimarySelectionConstraints) (id : String) :
    Bool := p.allowedPrimaryIDs.contains id

/-- The forced candidate first, if it is there. -/
def forcedFirst (candidates : List (Candidate δ)) (forcedID : String) :
    Option (List (Candidate δ)) :=
  if forcedID = "" then none
  else (candidates.find? fun c => c.id == forcedID).map fun c =>
    c :: candidates.filter fun c => c.id ≠ forcedID

/-! ### Consulting a provider -/

/-- What of a provider does not change. -/
structure Provider where
  id : String
  canRank : Bool
  canSelect : Bool

inductive Ctx
  | live
  | cancelled
  | deadlineExceeded
  deriving DecidableEq, Repr

/-- `provider.Decide`: a panic, or a result with or without an error. -/
inductive Answer
  | panicked
  | returned (result : DecisionResult) (failed : Bool)

/-- What the environment answers while a provider is consulted: the context before, the health of the
provider and its cool-down, the answer, and the contexts of the chain and of the step behind it. -/
structure Consultation where
  before : Ctx := .live
  unavailable : Bool := false
  cooldown : Bool := false
  answer : Answer
  after : Ctx := .live
  stepAfter : Ctx := .live
  later : Ctx := .live

/-- A result that keeps the order. -/
def abstention (providerID : String) (reasonCodes : List ReasonCode) (confidence : ℚ) :
    DecisionResult where
  action := .abstain
  abstained := true
  confidence := .finite confidence
  reasonCodes := reasonCodes
  providerID := providerID

/-- The result of a call, with the id of the provider filled in. -/
def Answer.result (provider : Provider) : Answer → DecisionResult
  | .panicked => abstention provider.id [.providerPanic, .existingOrderPreserved] 0
  | .returned r _ => if r.providerID = "" then { r with providerID := provider.id } else r

/-- Whether there is an error. -/
def Answer.failed : Answer → Bool
  | .panicked => true
  | .returned _ failed => failed

/-- What becomes of an answer that came in time. -/
inductive Verdict
  | failed
  | incapable
  | invalid (err : ValidationError)
  | primaryViolation
  | accepted (result : DecisionResult)

/-- The checks of an answer that came in time, in their order. -/
def judge (candidates : List (Candidate δ)) (constraints : PrimarySelectionConstraints)
    (provider : Provider) (answer : Answer) : Verdict :=
  let result := answer.result provider
  if answer.failed then .failed
  else if result.action = .rank ∧ provider.canRank = false then .incapable
  else if result.action = .select ∧ provider.canSelect = false then .incapable
  else match validateResult candidates result with
    | some err => .invalid err
    | none =>
      if result.action = .select ∧ constraints.isAllowedPrimary result.selectedID = false then
        .primaryViolation
      else .accepted result

/-- Whether a provider has cool-downs. -/
def isExternal (id : String) : Bool := id ≠ "local" && id ≠ "policy"

/-! ### Chains -/

/-- `providerType`. -/
inductive ProviderType
  | jev
  | policy
  | «local»
  deriving DecidableEq, Repr

@[inherit_doc ProviderType]
def providerType (id : String) : ProviderType :=
  if id = "local" then .local else if id = "policy" then .policy else .jev

inductive StepOutcome
  | selected
  | abstained
  | error
  | timeout
  | invalid
  | unavailable
  | cooldown
  | skippedBudget
  deriving DecidableEq, Repr

structure ChainStepTrace where
  index : ℕ
  providerID : String
  providerType : ProviderType
  outcome : StepOutcome
  action : Option Action := none
  called : Bool := false
  reasonCodes : List ReasonCode := []

inductive ChainOutcome
  | selected
  | exhausted
  | budgetExhausted
  | deadlineExhausted
  | affinityPreserved
  deriving DecidableEq, Repr

structure ChainTrace where
  chainID : String
  stepCount : ℕ
  callsUsed : ℕ := 0
  selectedProviderID : String := ""
  outcome : ChainOutcome := .exhausted
  steps : List ChainStepTrace := []

/-- `ChainConfig`; the timeouts of steps are left to the environment. -/
structure ChainConfig where
  id : String
  steps : List String

structure ChainDecision (δ : Type) where
  ordered : List (Candidate δ)
  result : DecisionResult
  trace : ChainTrace

/-- A reason is added to the codes, if it is not there. -/
def withReason (codes : List ReasonCode) (reason : ReasonCode) : List ReasonCode :=
  if reason ∈ codes then codes else codes ++ [reason]

/-- How a step ends: it decides, or the chain goes on. -/
inductive StepEnd
  | decided (result : DecisionResult) (trace : ChainStepTrace)
  | outOfTime (providerID : String) (trace : ChainStepTrace)
  | next (trace : ChainStepTrace)

/-- The step of a chain in which a provider is called. -/
def callStep (candidates : List (Candidate δ)) (constraints : PrimarySelectionConstraints)
    (index : ℕ) (name : String) (provider : Provider) (c : Consultation) : StepEnd :=
  let trace : ChainStepTrace :=
    { index, providerID := name, providerType := providerType name, outcome := .invalid,
      called := true }
  let result := c.answer.result provider
  if c.after = .deadlineExceeded ∨ c.stepAfter = .deadlineExceeded then
    let trace := { trace with
      outcome := .timeout
      action := some .abstain
      reasonCodes := [.timeout, .externalTimeout, .chainStepFailed] }
    if c.later = .live then .next trace else .outOfTime provider.id trace
  else match judge candidates constraints provider c.answer with
    | .failed => .next { trace with
        outcome := .error
        action := some (if result.action.isValid then result.action else .abstain)
        reasonCodes := [.providerError, .chainStepFailed] }
    | .incapable => .next { trace with
        action := some result.action
        reasonCodes := [.invalidResult, .validationFailed, .chainStepFailed] }
    | .invalid _ => .next { trace with
        action := some result.action
        reasonCodes := [.invalidResult, .validationFailed, .chainStepFailed] }
    | .primaryViolation => .next { trace with
        action := some result.action
        reasonCodes := [.primaryConstraintViolation, .invalidResult, .chainStepFailed] }
    | .accepted result =>
      match result.action with
      | .select => .decided
          { result with
            reasonCodes :=
              if ReasonCode.chainSelected ∈ result.reasonCodes then result.reasonCodes
              else (result.reasonCodes ++ [ReasonCode.chainSelected]).take maxReasonCodes }
          { trace with
            outcome := .selected
            action := some .select
            reasonCodes :=
              if result.reasonCodes = [] then [.chainSelected] else result.reasonCodes }
      | .abstain => .next { trace with
          outcome := .abstained
          action := some .abstain
          reasonCodes :=
            if result.reasonCodes.length < maxReasonCodes then
              withReason result.reasonCodes .chainStepAbstained
            else result.reasonCodes }
      -- a ranking is no result of a chain
      | _ => .next { trace with
          action := some .rank
          reasonCodes := [.invalidResult, .validationFailed, .chainStepFailed] }

/-- The steps of a chain that are left out when the calls are used up. -/
def skipped (index : ℕ) (names : List String) : List ChainStepTrace :=
  (names.zipIdx index).map fun s =>
    { index := s.2
      providerID := s.1
      providerType := providerType s.1
      outcome := .skippedBudget
      reasonCodes := [.budgetExceeded, .chainBudgetExhausted] }

section Chain

variable (registry : String → Option Provider) (candidates : List (Candidate δ))
  (constraints : PrimarySelectionConstraints) (maxCalls : ℤ) (env : ℕ → Consultation)

/-- The loop of `Execute` over the steps that are left. -/
def executeSteps (chainID : String) : ℕ → ChainTrace → List String → ChainDecision δ
  | _, trace, [] =>
    ⟨candidates, abstention chainID [.chainExhausted, .existingOrderPreserved] 0, trace⟩
  | index, trace, name :: names =>
    let c := env index
    let step : ChainStepTrace :=
      { index, providerID := name, providerType := providerType name, outcome := .unavailable }
    if c.before ≠ .live then
      ⟨candidates,
        abstention name [.timeout, .chainDeadlineExhausted, .existingOrderPreserved] 0,
        { trace with
          outcome := .deadlineExhausted
          steps := trace.steps ++ [{ step with
            outcome := .timeout, reasonCodes := [.timeout, .chainDeadlineExhausted] }] }⟩
    else if maxCalls ≤ trace.callsUsed then
      ⟨candidates,
        abstention name [.budgetExceeded, .chainBudgetExhausted, .existingOrderPreserved] 0,
        { trace with
          outcome := .budgetExhausted
          steps := trace.steps ++ skipped index (name :: names) }⟩
    else match registry name with
      | none => executeSteps chainID (index + 1) { trace with
          steps := trace.steps ++ [{ step with
            reasonCodes := [.providerUnhealthy, .externalProviderUnavailable] }] } names
      | some provider =>
        if c.unavailable then
          executeSteps chainID (index + 1) { trace with
            steps := trace.steps ++ [{ step with
              reasonCodes := [.providerUnhealthy, .externalProviderUnavailable] }] } names
        else if isExternal name && c.cooldown then
          executeSteps chainID (index + 1) { trace with
            steps := trace.steps ++ [{ step with
              outcome := .cooldown
              reasonCodes := [.decisionProviderCooldown, .externalProviderUnavailable] }] } names
        else
          let trace := { trace with callsUsed := trace.callsUsed + 1 }
          match callStep candidates constraints index name provider c with
          | .next step =>
            executeSteps chainID (index + 1) { trace with steps := trace.steps ++ [step] } names
          | .outOfTime providerID step =>
            ⟨candidates,
              abstention providerID [.timeout, .chainDeadlineExhausted, .existingOrderPreserved] 0,
              { trace with outcome := .deadlineExhausted, steps := trace.steps ++ [step] }⟩
          | .decided result step =>
            ⟨(normalizeResult candidates result).ordered, result, { trace with
              outcome := .selected
              selectedProviderID := provider.id
              steps := trace.steps ++ [step] }⟩

def execute (chain : ChainConfig) : ChainDecision δ :=
  let trace : ChainTrace := { chainID := chain.id, stepCount := chain.steps.length }
  match forcedFirst candidates constraints.forcedPrimaryID with
  | some ordered =>
    ⟨ordered,
      { action := .select
        selectedID := constraints.forcedPrimaryID
        confidence := .finite 1
        reasonCodes := [.affinityPreserved, .eligibleSetPreserved]
        providerID := chain.id },
      { trace with outcome := .affinityPreserved }⟩
  | none =>
    let maxCalls : ℤ :=
      if maxCalls ≤ 0 then min 8 (max 1 (chain.steps.length : ℤ)) else maxCalls
    executeSteps registry candidates constraints maxCalls env chain.id 0 trace chain.steps

end Chain

/-! ### The orchestrator -/

/-- The modes; every mode that is neither off nor hybrid consults one provider. -/
inductive Mode
  | off
  | single
  | hybrid
  deriving DecidableEq, Repr

/-- `DecisionConfig`, with its defaults filled in, and the chains. -/
structure Config where
  mode : Mode := .off
  provider : String := "local"
  chain : String := ""
  maxProviderCalls : ℤ := 0
  chains : String → Option ChainConfig := fun _ => none

structure DecisionTrace where
  mode : Mode
  providerID : String := ""
  candidateCount : ℕ
  action : Action := .abstain
  selectedID : String := ""
  reasonCodes : List ReasonCode := []
  fallbackUsed : Bool := false
  chainTrace : Option ChainTrace := none

/-- What `Decide` returns. -/
structure Decided (δ : Type) where
  ordered : List (Candidate δ)
  result : DecisionResult
  trace : DecisionTrace

/-- The order is kept, and the result says why. -/
def keepOrder (mode : Mode) (candidates : List (Candidate δ)) (result : DecisionResult)
    (fallbackUsed : Bool) (providerID : String) : Decided δ where
  ordered := candidates
  result := result
  trace :=
    { mode
      providerID
      candidateCount := candidates.length
      action := result.action
      reasonCodes := result.reasonCodes
      fallbackUsed }

section Decide

variable (registry : String → Option Provider) (cfg : Config) (env : ℕ → Consultation)
  (req : DecisionRequest δ)

/-- The calls a chain may make. -/
def chainCalls (chain : ChainConfig) : ℤ :=
  if req.budget.isZero then
    if cfg.maxProviderCalls = 0 then chain.steps.length else cfg.maxProviderCalls
  else
    let calls :=
      if 0 < cfg.maxProviderCalls ∧ req.budget.maxProviderCalls = 0 then cfg.maxProviderCalls
      else req.budget.maxProviderCalls
    if calls = 0 then chain.steps.length else calls

/-- The calls one provider may be asked for. -/
def singleCalls : ℤ :=
  if !req.budget.isZero then req.budget.maxProviderCalls
  else if 0 < cfg.maxProviderCalls then cfg.maxProviderCalls
  else 1

/-- `Decide` in hybrid mode. -/
def decideChain : Decided δ :=
  match (if cfg.chain = "" then none else cfg.chains cfg.chain) with
  | none =>
    let d := keepOrder .hybrid req.candidates
      (abstention cfg.chain [.providerError, .chainExhausted, .existingOrderPreserved] 0) true
      cfg.chain
    { d with trace := { d.trace with
        chainTrace := some { chainID := cfg.chain, stepCount := 0 } } }
  | some chain =>
    let d := execute registry req.candidates
      (computePrimaryConstraints req.candidates req.pinnedCandidateID) (chainCalls cfg req chain)
      env chain
    { ordered := d.ordered
      result := d.result
      trace :=
        { mode := .hybrid
          providerID :=
            if d.trace.selectedProviderID = "" then cfg.chain else d.trace.selectedProviderID
          candidateCount := req.candidates.length
          action := d.result.action
          selectedID := d.result.selectedID
          reasonCodes := d.result.reasonCodes
          fallbackUsed := d.trace.outcome ≠ .selected && d.trace.outcome ≠ .affinityPreserved
          chainTrace := some d.trace } }

/-- What one provider decides. -/
def consult (provider : Provider) (c : Consultation) : Decided δ :=
  let constraints := computePrimaryConstraints req.candidates req.pinnedCandidateID
  let keep (reasonCodes : List ReasonCode) : Decided δ :=
    keepOrder .single req.candidates (abstention provider.id reasonCodes 0) true provider.id
  if isExternal provider.id && c.cooldown then
    keep [.decisionProviderCooldown, .existingOrderPreserved]
  else if c.unavailable then keep [.providerUnhealthy, .existingOrderPreserved]
  else if c.after = .deadlineExceeded then keep [.timeout, .existingOrderPreserved]
  else match judge req.candidates constraints provider c.answer with
    | .failed =>
      let result := c.answer.result provider
      keepOrder .single req.candidates
        { result with
          action := if result.action.isValid then result.action else .abstain
          abstained := true
          reasonCodes :=
            if ReasonCode.providerError ∈ result.reasonCodes then result.reasonCodes
            else result.reasonCodes ++ [.providerError, .existingOrderPreserved] } true provider.id
    | .incapable => keep [.invalidResult, .validationFailed, .existingOrderPreserved]
    | .invalid _ => keep [.invalidResult, .validationFailed, .existingOrderPreserved]
    | .primaryViolation => keep [.primaryConstraintViolation, .existingOrderPreserved]
    | .accepted result =>
      let n := normalizeResult req.candidates result
      let result := { result with reasonCodes := withReason result.reasonCodes n.reason }
      { ordered := n.ordered
        result := result
        trace :=
          { mode := .single
            providerID := provider.id
            candidateCount := req.candidates.length
            action := result.action
            selectedID := if result.action = .select then result.selectedID else ""
            reasonCodes := result.reasonCodes
            fallbackUsed := !n.applied || n.reason = .normalizationApplied ||
              n.reason = .abstained } }

/-- `Decide` with one provider. -/
def decideSingle : Decided δ :=
  if singleCalls cfg req ≤ 0 then
    keepOrder .single req.candidates
      (abstention cfg.provider [.budgetExceeded, .existingOrderPreserved] 0) true cfg.provider
  else match registry cfg.provider with
    | none =>
      keepOrder .single req.candidates
        (abstention cfg.provider [.providerError, .existingOrderPreserved] 0) true cfg.provider
    | some provider =>
      let constraints := computePrimaryConstraints req.candidates req.pinnedCandidateID
      match forcedFirst req.candidates constraints.forcedPrimaryID with
      | some ordered =>
        { ordered
          result :=
            { action := .select
              selectedID := constraints.forcedPrimaryID
              confidence := .finite 1
              reasonCodes := [.affinityPreserved, .eligibleSetPreserved]
              providerID := provider.id }
          trace :=
            { mode := .single
              providerID := provider.id
              candidateCount := req.candidates.length
              action := .select
              selectedID := constraints.forcedPrimaryID
              reasonCodes := [.affinityPreserved, .eligibleSetPreserved]
              chainTrace := some
                { chainID := "", stepCount := 0, outcome := .affinityPreserved } } }
      | none => consult req provider (env 0)

def decide : Decided δ :=
  match req.candidates with
  | [] =>
    keepOrder cfg.mode [] (abstention "none" [.emptyEligible, .existingOrderPreserved] 0) true "none"
  | [c] =>
    keepOrder cfg.mode [c] (abstention "none" [.singleCandidate, .existingOrderPreserved] 1) false
      "none"
  | _ =>
    match cfg.mode with
    | .off =>
      keepOrder .off req.candidates (abstention "off" [.offMode, .existingOrderPreserved] 1) false
        "off"
    | .hybrid => decideChain registry cfg env req
    | .single => decideSingle registry cfg env req

end Decide

end NexaRoute.Decision
