import NexaRoute.Router.Config

/-!
# The router

`Reload` makes a deployment of every enabled model of an enabled provider and indexes it under its
identifier, its model, the identifier of its model and its aliases. `Candidates` looks a request's
model up in that index, drops the deployments that cannot serve the request, and orders the rest.

Health is whatever the health manager says, and the orders in which candidates are tried are any
permutations: which deployments are offered depends on neither scores nor sessions.

## Main definitions

* `candidates` — the deployments offered for a request
-/

namespace NexaRoute.Router

open Go

structure Deployment where
  id : String
  providerID : String
  providerType : String
  model : String
  aliases : List String
  contextWindow : ℤ
  capabilities : Capabilities
  trainsOnData : String
  deriving DecidableEq, Repr

/-- A deployment with the keys it is indexed under. -/
structure Indexed where
  deployment : Deployment
  keys : List String
  deriving DecidableEq, Repr

/-- `unicode.ToLower`, for the letters that become letters of ASCII. -/
def lowerRune (c : Char) : Char :=
  if c.toNat == 0x130 then 'i' else if c.toNat == 0x212A then 'k' else c.toLower

/-- `strings.ToLower`, as far as the result is compared with ASCII text. -/
def toLower (s : String) : String := String.ofList (s.toList.map lowerRune)

def deploymentOf (p : ProviderConfig) (m : ModelConfig) : Deployment where
  id := p.id ++ "/" ++ m.id
  providerID := p.id
  providerType := p.type
  model := m.model
  aliases := m.aliases
  contextWindow := m.contextWindow
  capabilities := m.capabilities
  trainsOnData :=
    let trains := toLower (trimSpace p.trainsOnData)
    if trains = "" then "unknown" else trains

/-- The enabled models of enabled providers, in order. -/
def enabledModels (cfg : Config) : List (ProviderConfig × ModelConfig) :=
  cfg.providers.flatMap fun p =>
    if p.enabled then (p.models.filter (·.enabled)).map fun m => (p, m) else []

/-- `Reload`: every deployment, and the keys it is indexed under. A key is never empty. -/
def reload (cfg : Config) : List Indexed :=
  (enabledModels cfg).map fun pm =>
    let d := deploymentOf pm.1 pm.2
    ⟨d, ([d.id, d.model, pm.2.id] ++ d.aliases).filter (· != "")⟩

/-- Every deployment. -/
def all (cfg : Config) : List Deployment := (reload cfg).map (·.deployment)

/-- The deployments indexed under a key. -/
def byModel (cfg : Config) (key : String) : List Deployment :=
  ((reload cfg).filter (·.keys.contains key)).map (·.deployment)

/-- The names that ask for any deployment. -/
def anyModel (model : String) : Bool := model == "" || model == "auto" || model == "claude-auto"

def hasSuffix (s suffix : String) : Bool := suffix.toList.isSuffixOf s.toList

def matchesModel (d : Deployment) (model : String) : Bool :=
  anyModel model || d.id == model || d.model == model || d.aliases.contains model ||
    hasSuffix d.id ("/" ++ model)

/-! ### Requirements -/

structure Requirement where
  model : String
  tools : Bool
  vision : Bool
  streaming : Bool
  reasoning : Bool
  structuredOutput : Bool
  parallelTools : Bool
  providerType : String
  minContextWindow : ℤ
  requireNoTraining : Bool
  deriving DecidableEq, Repr

/-- A request for a model that demands nothing else. -/
def Requirement.plain (model : String) : Requirement :=
  ⟨model, false, false, false, false, false, false, "", 0, false⟩

def Requirement.scopes (req : Requirement) : List String :=
  (if req.tools then ["tools"] else []) ++ (if req.vision then ["vision"] else []) ++
    (if req.streaming then ["streaming"] else []) ++
    (if req.reasoning then ["reasoning"] else []) ++
    (if req.structuredOutput then ["structured_output"] else []) ++
    (if req.parallelTools then ["parallel_tools"] else [])

/-- The status of a deployment. A record that no verdict has reached yet has none: `unset`. -/
inductive Status
  | unset
  | unknown
  | healthy
  | degraded
  | halfOpen
  | cooldown
  | retired
  deriving DecidableEq, Repr

/-- The answers of the health manager: for a provider, and for a deployment under scopes its status
and whether the scopes are ready. -/
structure Health where
  providerAvailable : String → Bool
  getWithScopes : String → List String → Status × Bool

def Health.good : Health := ⟨fun _ => true, fun _ _ => (.healthy, true)⟩

/-- Why a deployment is not a candidate. -/
inductive Exclusion
  | modelMismatch
  | providerType
  | privacyNoTraining
  | providerCircuit
  | contextWindow
  | missingTools
  | missingVision
  | missingStreaming
  | missingReasoning
  | conformanceStructuredOutput
  | conformanceParallelTools
  | conformanceReasoning
  | retired
  | notReady
  | capabilityScopeNotReady
  | cooldown
  deriving DecidableEq, Repr

/-- The dialects the conformance manifest marks unsupported, for a dimension a request may need. -/
def unsupportedStructuredOutput (dialect : String) : Bool := dialect == "bedrock"

/-- See `unsupportedStructuredOutput`. -/
def unsupportedParallelTools (dialect : String) : Bool :=
  dialect == "gemini" || dialect == "bedrock"

/-- See `unsupportedStructuredOutput`. -/
def unsupportedReasoning (dialect : String) : Bool := dialect == "bedrock"

def satisfiesNoTraining (trainsOnData : String) : Bool := toLower (trimSpace trainsOnData) == "no"

def isReadyStrategy (s : String) : Bool :=
  s == "ready_mesh" || s == "ready_queue" || s == "cost_aware"

/-- `evaluateDeployment`: the reason to leave a deployment out, if there is one. -/
def evaluateDeployment (cfg : Config) (health : Health) (req : Requirement) (ignoreModel : Bool)
    (d : Deployment) : Option Exclusion :=
  if !ignoreModel && !matchesModel d req.model then some .modelMismatch
  else if req.providerType ≠ "" ∧ d.providerType ≠ req.providerType then some .providerType
  else if req.requireNoTraining && !satisfiesNoTraining d.trainsOnData then some .privacyNoTraining
  else if !health.providerAvailable d.providerID then some .providerCircuit
  else if req.minContextWindow > 0 ∧ d.contextWindow > 0 ∧
      d.contextWindow < req.minContextWindow then
    some .contextWindow
  else if req.tools && !d.capabilities.tools then some .missingTools
  else if req.vision && !d.capabilities.vision then some .missingVision
  else if req.streaming && !d.capabilities.streaming then some .missingStreaming
  else if req.reasoning && !d.capabilities.reasoning then some .missingReasoning
  else if req.structuredOutput && unsupportedStructuredOutput d.providerType then
    some .conformanceStructuredOutput
  else if req.parallelTools && unsupportedParallelTools d.providerType then
    some .conformanceParallelTools
  else if req.reasoning && unsupportedReasoning d.providerType then some .conformanceReasoning
  else
    let scopes := if cfg.strategy == "ready_mesh" || cfg.strategy == "cost_aware" then req.scopes
      else []
    let (status, scopesReady) := health.getWithScopes d.id scopes
    if status = .retired then some .retired
    else if isReadyStrategy cfg.strategy then
      if status ≠ .healthy then some .notReady
      else if cfg.strategy == "ready_mesh" && !scopesReady then some .capabilityScopeNotReady
      else none
    else if status = .cooldown then some .cooldown
    else none

/-- Whether a deployment is a candidate. -/
def eligible (cfg : Config) (health : Health) (req : Requirement) (ignoreModel : Bool)
    (d : Deployment) : Bool :=
  (evaluateDeployment cfg health req ignoreModel d).isNone

/-! ### Candidates -/

/-- An order in which candidates are tried. -/
structure Strategy where
  order : Requirement → List Deployment → List Deployment
  perm : ∀ req l, (order req l).Perm l

/-- The order the router found. -/
def Strategy.asFound : Strategy := ⟨fun _ l => l, fun _ l => .refl l⟩

/-- Whether the router knows a model. -/
def known (cfg : Config) (model : String) : Bool := anyModel model || !(byModel cfg model).isEmpty

def candidates (cfg : Config) (health : Health) (strategy : Strategy) (req : Requirement) :
    List Deployment :=
  let source := if anyModel req.model then all cfg else byModel cfg req.model
  let out := source.filter (eligible cfg health req false)
  let out := if out.isEmpty && !known cfg req.model && cfg.fallbackOnUnknownModel then
      (all cfg).filter (eligible cfg health req true)
    else out
  if out.length ≤ 1 then out else strategy.order req out

end NexaRoute.Router
