import NexaRoute.Go.Time
import Mathlib.Data.Rat.Floor
import Mathlib.Data.List.Sort

/-!
# Windows and the gate

The evidence of a policy version is a window of counters and of the latest latencies; the gate
compares the window of the candidate with that of the incumbent and decides to promote, to roll back
or to wait. Rates and latencies are exact rationals.

## Main definitions

* `evaluateGate` — the decision on two windows
-/

namespace NexaRoute.Autopilot

open Go

/-! ### Samples and windows -/

inductive ErrorClass
  | none
  | serverError
  | rateLimit
  | authError
  | timeout
  | transportError
  | noEligible
  | clientError
  deriving DecidableEq, Repr

/-- The outcome of one request, as far as windows read it. -/
structure Sample where
  success : Bool
  errorClass : ErrorClass
  failover : Bool
  stratum : String
  noEligible : Bool
  hasNoEligibleSignal : Bool
  budgetAnomaly : Bool
  hasBudgetAnomalySignal : Bool
  latencyMS : ℚ
  ttftMS : ℚ
  hasTTFT : Bool
  deriving DecidableEq, Repr

structure Counts where
  requests : ℕ := 0
  successes : ℕ := 0
  errors : ℕ := 0
  serverErrors : ℕ := 0
  rateLimits : ℕ := 0
  authErrors : ℕ := 0
  timeouts : ℕ := 0
  transportErrors : ℕ := 0
  noEligible : ℕ := 0
  noEligibleObserved : ℕ := 0
  failovers : ℕ := 0
  budgetAnomalies : ℕ := 0
  budgetAnomaliesObserved : ℕ := 0
  latencyMS : List ℚ := []
  ttftMS : List ℚ := []
  deriving DecidableEq, Repr

/-- A window, with the counters of its strata. A stratum is observed without its label, so it has no
strata of its own. -/
structure Window extends Counts where
  strata : List (String × Counts) := []
  deriving DecidableEq, Repr

def maxLatencySamples : ℕ := 4096

def appendBounded (dst : List ℚ) (v : ℚ) : List ℚ :=
  if dst.length ≥ maxLatencySamples then dst.tail ++ [v] else dst ++ [v]

/-- One more where a condition holds. -/
def bump (b : Bool) (n : ℕ) : ℕ := if b then n + 1 else n

/-- `observe`, but for the strata. -/
def Counts.observe (w : Counts) (s : Sample) : Counts where
  requests := w.requests + 1
  successes := bump s.success w.successes
  errors := bump (!s.success) w.errors
  serverErrors := bump (!s.success && s.errorClass == .serverError) w.serverErrors
  rateLimits := bump (!s.success && s.errorClass == .rateLimit) w.rateLimits
  authErrors := bump (!s.success && s.errorClass == .authError) w.authErrors
  timeouts := bump (!s.success && s.errorClass == .timeout) w.timeouts
  transportErrors := bump (!s.success && s.errorClass == .transportError) w.transportErrors
  failovers := bump s.failover w.failovers
  noEligibleObserved := bump s.hasNoEligibleSignal w.noEligibleObserved
  noEligible := bump (s.hasNoEligibleSignal && s.noEligible) w.noEligible
  budgetAnomaliesObserved := bump s.hasBudgetAnomalySignal w.budgetAnomaliesObserved
  budgetAnomalies := bump (s.hasBudgetAnomalySignal && s.budgetAnomaly) w.budgetAnomalies
  latencyMS := if s.latencyMS > 0 then appendBounded w.latencyMS s.latencyMS else w.latencyMS
  ttftMS := if s.hasTTFT && s.ttftMS > 0 then appendBounded w.ttftMS s.ttftMS else w.ttftMS

def maxStrata : ℕ := 16

/-- Observe into a stratum, which is made if it is not there. -/
def observeInto (label : String) (s : Sample) (strata : List (String × Counts)) :
    List (String × Counts) :=
  if strata.any (·.1 == label) then
    strata.map fun e => if e.1 == label then (e.1, e.2.observe s) else e
  else strata ++ [(label, Counts.observe {} s)]

/-- `observeStratum`: with sixteen labels, a new one counts as `other`. -/
def observeStratum (s : Sample) (strata : List (String × Counts)) : List (String × Counts) :=
  if strata.any (·.1 == s.stratum) || strata.length < maxStrata then
    observeInto s.stratum s strata
  else observeInto "other" s strata

def Window.observe (w : Window) (s : Sample) : Window where
  toCounts := w.toCounts.observe s
  strata := if s.stratum != "" then observeStratum s w.strata else w.strata

/-! ### Signals -/

/-- `percentile`, by nearest rank, for a share strictly between none and all. -/
def percentile (samples : List ℚ) (p : ℚ) : ℚ :=
  let sorted := samples.insertionSort (· ≤ ·)
  let idx := ⌊p * ((samples.length : ℚ) - 1) + 1 / 2⌋
  sorted.getD (min idx.toNat (samples.length - 1)) 0

/-- What the gate reads of a window. -/
structure Signals where
  counts : Counts
  errorRate : ℚ
  failoverRate : ℚ
  noEligibleRate : ℚ
  latencyP50MS : ℚ
  latencyP95MS : ℚ
  ttftCount : ℕ
  ttftP95MS : ℚ
  deriving DecidableEq, Repr

/-- `snapshot`, but for the strata. -/
def Counts.snapshot (w : Counts) : Signals where
  counts := w
  errorRate := if w.requests > 0 then w.errors / w.requests else 0
  failoverRate := if w.requests > 0 then w.failovers / w.requests else 0
  noEligibleRate := if w.noEligibleObserved > 0 then w.noEligible / w.noEligibleObserved else 0
  latencyP50MS := percentile w.latencyMS (1 / 2)
  latencyP95MS := percentile w.latencyMS (19 / 20)
  ttftCount := w.ttftMS.length
  ttftP95MS := percentile w.ttftMS (19 / 20)

/-! ### The gate -/

structure GateConfig where
  minSamples : ℤ
  minPromoteSamples : ℤ
  maxErrorRate : ℚ
  maxErrorRateDelta : ℚ
  maxFailoverRate : ℚ
  maxNoEligibleRate : ℚ
  maxBudgetAnomalies : ℤ
  maxLatencyP95MS : ℚ
  maxTTFTP95MS : ℚ
  deriving DecidableEq, Repr

def defaultGateConfig : GateConfig where
  minSamples := 20
  minPromoteSamples := 100
  maxErrorRate := 1 / 5
  maxErrorRateDelta := 3 / 20
  maxFailoverRate := 1 / 2
  maxNoEligibleRate := 1 / 10
  maxBudgetAnomalies := 0
  maxLatencyP95MS := 0
  maxTTFTP95MS := 0

/-- A setting that is not positive falls back. -/
def orDefault {α : Type*} [Zero α] [LE α] [DecidableLE α] (v d : α) : α := if v ≤ 0 then d else v

def GateConfig.withDefaults (g : GateConfig) : GateConfig where
  minSamples := orDefault g.minSamples defaultGateConfig.minSamples
  minPromoteSamples := max (orDefault g.minPromoteSamples defaultGateConfig.minPromoteSamples)
    (orDefault g.minSamples defaultGateConfig.minSamples)
  maxErrorRate := orDefault g.maxErrorRate defaultGateConfig.maxErrorRate
  maxErrorRateDelta := orDefault g.maxErrorRateDelta defaultGateConfig.maxErrorRateDelta
  maxFailoverRate := orDefault g.maxFailoverRate defaultGateConfig.maxFailoverRate
  maxNoEligibleRate := orDefault g.maxNoEligibleRate defaultGateConfig.maxNoEligibleRate
  maxBudgetAnomalies := max g.maxBudgetAnomalies 0
  maxLatencyP95MS := max g.maxLatencyP95MS 0
  maxTTFTP95MS := max g.maxTTFTP95MS 0

theorem orDefault_orDefault {α : Type*} [Zero α] [LinearOrder α] {v d : α} (hd : 0 < d) :
    orDefault (orDefault v d) d = orDefault v d := by
  unfold orDefault
  by_cases hv : v ≤ 0
  · rw [if_pos hv, if_neg (not_le.mpr hd)]
  · rw [if_neg hv, if_neg hv]

theorem GateConfig.minPromoteSamples_withDefaults (g : GateConfig) :
    g.withDefaults.withDefaults.minPromoteSamples = g.withDefaults.minPromoteSamples := by
  show max (orDefault (max (orDefault g.minPromoteSamples 100) (orDefault g.minSamples 20)) 100)
    (orDefault (orDefault g.minSamples 20) 20) =
      max (orDefault g.minPromoteSamples 100) (orDefault g.minSamples 20)
  have hpos : 0 < orDefault g.minSamples 20 := by
    unfold orDefault
    split <;> omega
  rw [orDefault_orDefault (by norm_num), orDefault, if_neg (by omega), max_assoc, max_self]

inductive Verdict
  | hold
  | promote
  | rollback
  deriving DecidableEq, Repr

/-- Why the gate decides as it does. -/
inductive Reason
  | insufficientSamples (requests : ℕ) (minimum : ℤ)
  | errorRate (rate limit : ℚ)
  | errorRateRegression (delta limit : ℚ)
  | failoverRate (rate limit : ℚ)
  | noEligibleRate (rate limit : ℚ)
  | budgetAnomalies (count : ℕ) (limit : ℤ)
  | latencyP95 (value limit : ℚ)
  | ttftP95 (value limit : ℚ)
  | awaitingPromotionSamples (requests : ℕ) (minimum : ℤ)
  | noEligibleCoverage (observed requests : ℕ)
  | budgetAnomalyCoverage (observed requests : ℕ)
  | ttftCoverage
  | gatesSatisfied
  deriving DecidableEq, Repr

/-- The nearest integer, and of two the even one. -/
def roundHalfEven (q : ℚ) : ℤ :=
  if q - ⌊q⌋ < 1 / 2 then ⌊q⌋
  else if q - ⌊q⌋ > 1 / 2 then ⌊q⌋ + 1
  else ⌊q⌋ + ⌊q⌋ % 2

/-- A number with a fixed count of decimals, as `%.4f` prints it. -/
def fixed (decimals : ℕ) (q : ℚ) : String :=
  let n := (roundHalfEven (|q| * 10 ^ decimals)).toNat
  (if q < 0 then "-" else "") ++ toString (n / 10 ^ decimals) ++ "." ++
    String.ofList (pad decimals (n % 10 ^ decimals))

def Reason.message : Reason → String
  | .insufficientSamples n m => "insufficient_samples:" ++ toString n ++ "<" ++ toString m
  | .errorRate r m => "error_rate:" ++ fixed 4 r ++ ">" ++ fixed 4 m
  | .errorRateRegression r m => "error_rate_regression:" ++ fixed 4 r ++ ">" ++ fixed 4 m
  | .failoverRate r m => "failover_rate:" ++ fixed 4 r ++ ">" ++ fixed 4 m
  | .noEligibleRate r m => "no_eligible_rate:" ++ fixed 4 r ++ ">" ++ fixed 4 m
  | .budgetAnomalies n m => "budget_anomalies:" ++ toString n ++ ">" ++ toString m
  | .latencyP95 v m => "latency_p95_ms:" ++ fixed 1 v ++ ">" ++ fixed 1 m
  | .ttftP95 v m => "ttft_p95_ms:" ++ fixed 1 v ++ ">" ++ fixed 1 m
  | .awaitingPromotionSamples n m =>
    "awaiting_promotion_samples:" ++ toString n ++ "<" ++ toString m
  | .noEligibleCoverage n m =>
    "insufficient_no_eligible_signal_coverage:" ++ toString n ++ "<" ++ toString m
  | .budgetAnomalyCoverage n m =>
    "insufficient_budget_anomaly_signal_coverage:" ++ toString n ++ "<" ++ toString m
  | .ttftCoverage => "insufficient_ttft_signal_coverage:0"
  | .gatesSatisfied => "gates_satisfied"

/-- The verdict on a candidate, with its reasons. -/
structure GateResult where
  verdict : Verdict
  reasons : List Reason
  signals : Signals
  deriving DecidableEq, Repr

/-- The reasons to roll back. -/
def violations (candidate incumbent : Signals) (cfg : GateConfig) : List Reason :=
  let delta := candidate.errorRate - incumbent.errorRate
  (if candidate.errorRate > cfg.maxErrorRate then
    [Reason.errorRate candidate.errorRate cfg.maxErrorRate] else []) ++
  (if incumbent.counts.requests ≥ cfg.minSamples ∧ delta > cfg.maxErrorRateDelta then
    [Reason.errorRateRegression delta cfg.maxErrorRateDelta] else []) ++
  (if candidate.failoverRate > cfg.maxFailoverRate then
    [Reason.failoverRate candidate.failoverRate cfg.maxFailoverRate] else []) ++
  (if candidate.counts.noEligibleObserved > 0 ∧
      candidate.noEligibleRate > cfg.maxNoEligibleRate then
    [Reason.noEligibleRate candidate.noEligibleRate cfg.maxNoEligibleRate] else []) ++
  (if candidate.counts.budgetAnomaliesObserved > 0 ∧
      candidate.counts.budgetAnomalies > cfg.maxBudgetAnomalies then
    [Reason.budgetAnomalies candidate.counts.budgetAnomalies cfg.maxBudgetAnomalies] else []) ++
  (if cfg.maxLatencyP95MS > 0 ∧ candidate.latencyP95MS > cfg.maxLatencyP95MS then
    [Reason.latencyP95 candidate.latencyP95MS cfg.maxLatencyP95MS] else []) ++
  (if cfg.maxTTFTP95MS > 0 ∧ candidate.ttftP95MS > cfg.maxTTFTP95MS then
    [Reason.ttftP95 candidate.ttftP95MS cfg.maxTTFTP95MS] else [])

def evaluateGate (candidate incumbent : Signals) (config : GateConfig) : GateResult :=
  let cfg := config.withDefaults
  let n := candidate.counts.requests
  if n < cfg.minSamples then ⟨.hold, [.insufficientSamples n cfg.minSamples], candidate⟩
  else if violations candidate incumbent cfg ≠ [] then
    ⟨.rollback, violations candidate incumbent cfg, candidate⟩
  else if n < cfg.minPromoteSamples then
    ⟨.hold, [.awaitingPromotionSamples n cfg.minPromoteSamples], candidate⟩
  -- A signal that is missing is no observation of zero.
  else if candidate.counts.noEligibleObserved < n then
    ⟨.hold, [.noEligibleCoverage candidate.counts.noEligibleObserved n], candidate⟩
  else if candidate.counts.budgetAnomaliesObserved < n then
    ⟨.hold, [.budgetAnomalyCoverage candidate.counts.budgetAnomaliesObserved n], candidate⟩
  else if cfg.maxTTFTP95MS > 0 ∧ candidate.ttftCount = 0 then
    ⟨.hold, [.ttftCoverage], candidate⟩
  else ⟨.promote, [.gatesSatisfied], candidate⟩

theorem minPromoteSamples_le_of_promote {candidate incumbent : Signals} {config : GateConfig}
    (h : (evaluateGate candidate incumbent config).verdict = .promote) :
    config.withDefaults.minPromoteSamples ≤ candidate.counts.requests := by
  unfold evaluateGate at h
  by_contra hfew
  rw [not_le] at hfew
  simp only [hfew, if_true] at h
  split_ifs at h

end NexaRoute.Autopilot
