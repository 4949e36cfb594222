import NexaRoute.Go.Parse
import Mathlib.Data.List.Sort
import Mathlib.Algebra.Order.Ring.Rat

/-!
# Configuration and prices

The parts of the configuration that routing and pricing read, and the price book: versions of
rates with the time from which they hold. Rates are exact rationals per million tokens.

## Main definitions

* `PriceBook.resolveFor`, `estimate` — prices
-/

namespace NexaRoute.Router

open Go

structure Capabilities where
  streaming : Bool
  tools : Bool
  vision : Bool
  reasoning : Bool
  deriving DecidableEq, Repr

structure ModelConfig where
  id : String
  model : String
  aliases : List String
  enabled : Bool
  contextWindow : ℤ
  inputCostPerMTok : ℚ
  outputCostPerMTok : ℚ
  capabilities : Capabilities
  deriving DecidableEq, Repr

structure ProviderConfig where
  id : String
  type : String
  trainsOnData : String
  enabled : Bool
  models : List ModelConfig
  deriving DecidableEq, Repr

/-- The rates of a deployment that the admission estimate uses. -/
structure PriceEntry where
  inputPerMTok : ℚ
  outputPerMTok : ℚ
  deriving DecidableEq, Repr

structure PriceVersionConfig where
  version : String
  effectiveFrom : String
  prices : List (String × PriceEntry)
  deriving DecidableEq, Repr

/-- A virtual endpoint. One that does not say so is enabled. -/
structure VirtualEndpointConfig where
  id : String
  enabled : Option Bool
  publicModel : String
  routeProfile : String
  protocols : List String
  deriving DecidableEq, Repr

structure RouteProfileConfig where
  id : String
  candidatePool : String
  fallbackChain : String
  deriving DecidableEq, Repr

structure CandidatePoolConfig where
  id : String
  mode : String
  deployments : List String
  deriving DecidableEq, Repr

structure FallbackChainConfig where
  id : String
  pools : List String
  deriving DecidableEq, Repr

structure Config where
  providers : List ProviderConfig
  priceVersions : List PriceVersionConfig
  strategy : String
  fallbackOnUnknownModel : Bool
  virtualEndpoints : List VirtualEndpointConfig
  routeProfiles : List RouteProfileConfig
  candidatePools : List CandidatePoolConfig
  fallbackChains : List FallbackChainConfig
  deriving DecidableEq, Repr

def VirtualEndpointConfig.isEnabled (ve : VirtualEndpointConfig) : Bool := ve.enabled.getD true

/-! ### Prices -/

structure PriceVersion where
  name : String
  effectiveFrom : Time
  prices : List (String × PriceEntry)

/-- The order of versions: by time, then by name. -/
def PriceVersion.notAfter (v w : PriceVersion) : Prop :=
  v.effectiveFrom < w.effectiveFrom ∨ v.effectiveFrom = w.effectiveFrom ∧ v.name ≤ w.name

instance : DecidableRel PriceVersion.notAfter := fun _ _ =>
  inferInstanceAs (Decidable (_ ∨ _ ∧ _))

/-- The versions in ascending order. -/
def PriceBook := List PriceVersion

/-- `FromConfig`. A version whose time cannot be read is left out. -/
def PriceBook.fromConfig (cfg : Config) : PriceBook :=
  (cfg.priceVersions.filterMap fun v =>
    (parseRFC3339 v.effectiveFrom).map fun t => ⟨v.version, t, v.prices⟩).insertionSort
      PriceVersion.notAfter

/-- `Resolve`: the rates of the latest version in force that prices the deployment. -/
def PriceBook.resolve (book : PriceBook) (deploymentID : String) (at' : Time) :
    Option PriceEntry :=
  book.reverse.findSome? fun v =>
    if v.effectiveFrom > at' then none
    else (v.prices.find? (·.1 == deploymentID)).map (·.2)

/-- `ResolveFor`: the book, then the model's own rates, then nothing. -/
def PriceBook.resolveFor (book : PriceBook) (cfg : Config) (deploymentID : String) (at' : Time) :
    PriceEntry :=
  match book.resolve deploymentID at' with
  | some entry => entry
  | none =>
    (cfg.providers.findSome? fun p =>
      (p.models.find? fun m => p.id ++ "/" ++ m.id == deploymentID).map fun m =>
        ⟨m.inputCostPerMTok, m.outputCostPerMTok⟩).getD ⟨0, 0⟩

/-- `Estimate`: input and output at the headline rates, where a negative rate counts as none. -/
def estimate (entry : PriceEntry) (estInputTokens maxOutputTokens : ℤ) : ℚ :=
  ((max estInputTokens 0 : ℤ) * max entry.inputPerMTok 0 +
    (max maxOutputTokens 0 : ℤ) * max entry.outputPerMTok 0) / 1000000

end NexaRoute.Router
