import NexaRoute.Go.Map
import NexaRoute.Router.Candidates

/-!
# The health manager

The manager keeps a record for every deployment it has heard of and one for every provider. Each
observation rewrites one record; reading a record first ends a cooldown that has run out.

Every call is atomic, as the manager's lock makes it. A call reads the clock up to twice, so it comes
with two readings. Counters are integers and averages are rationals.

## Main definitions

* `Manager.step` — the 29 methods
-/

namespace NexaRoute.Health

open Go
open Router (Status)

/-! ### Records -/

structure ScopeState where
  status : Status := .unset
  successes : ℤ := 0
  failures : ℤ := 0
  consecutiveFailures : ℤ := 0
  lastChecked : Time := zeroTime
  lastSuccess : Time := zeroTime
  lastFailure : Time := zeroTime
  lastError : String := ""
  cooldownUntil : Time := zeroTime

structure ProviderState where
  provider : String := ""
  status : Status := .unset
  evidence : ℤ := 0
  lastChecked : Time := zeroTime
  lastSuccess : Time := zeroTime
  lastFailure : Time := zeroTime
  lastError : String := ""
  cooldownUntil : Time := zeroTime

structure State where
  deployment : String := ""
  status : Status := .unset
  successes : ℤ := 0
  failures : ℤ := 0
  consecutiveFailures : ℤ := 0
  ewmaLatencyMS : ℚ := 0
  ewmaTTFTMS : ℚ := 0
  ewmaFailureRate : ℚ := 0
  lastChecked : Time := zeroTime
  lastSuccess : Time := zeroTime
  lastFailure : Time := zeroTime
  lastError : String := ""
  lastErrorClass : String := ""
  cooldownUntil : Time := zeroTime
  nextRetryAt : Time := zeroTime
  recoveryFailures : ℤ := 0
  recoverySuccesses : ℤ := 0
  lastProbeDurationMS : ℤ := 0
  scopes : Map String ScopeState := ∅

def latencyHistogramBoundsMS : List ℚ :=
  [5, 10, 25, 50, 100, 250, 500, 1000, 2000, 4000, 8000, 16000, 32000, 64000]

structure Histogram where
  buckets : List ℕ := []
  sumMS : ℚ := 0
  count : ℕ := 0

/-- `Observe`: the first bucket whose bound is not exceeded counts one more. -/
def Histogram.observe (h : Histogram) (ms : ℚ) : Histogram :=
  let ms := if ms < 0 then 0 else ms
  let buckets := if h.buckets.isEmpty then List.replicate (latencyHistogramBoundsMS.length + 1) 0
    else h.buckets
  let i := latencyHistogramBoundsMS.findIdx (ms ≤ ·)
  { buckets := buckets.modify i (· + 1), sumMS := h.sumMS + ms, count := h.count + 1 }

structure DeploymentHistograms where
  latency : Histogram := {}
  ttft : Histogram := {}

structure Manager where
  threshold : ℤ
  cooldown : Duration
  scopeThreshold : ℤ
  scopeCooldown : Duration
  providerThreshold : ℤ
  providerWindow : Duration
  providerCooldown : Duration
  states : Map String State := ∅
  providers : Map String ProviderState := ∅
  providerEvidence : Map String (Map String Time) := ∅
  histograms : Map String DeploymentHistograms := ∅

def Manager.new (threshold : ℤ) (cooldown : Duration) : Manager where
  threshold := if threshold < 1 then 1 else threshold
  cooldown := if cooldown ≤ 0 then 3600 * second else cooldown
  scopeThreshold := 2
  scopeCooldown := 300 * second
  providerThreshold := 3
  providerWindow := 20 * second
  providerCooldown := 30 * second

namespace Manager

/-- `m.states[id]`. -/
def stateOf (m : Manager) (id : String) : State := (m.states.lookup id).getD {}

/-- `m.providers[id]`. -/
def providerOf (m : Manager) (id : String) : ProviderState := (m.providers.lookup id).getD {}

/-- `m.states[id] = s`. -/
def setState (m : Manager) (id : String) (s : State) : Manager :=
  { m with states := m.states.insert id s }

/-- `m.providers[id] = st`. -/
def setProvider (m : Manager) (id : String) (st : ProviderState) : Manager :=
  { m with providers := m.providers.insert id st }

/-- A change to the histograms of a deployment, which are made at first use. -/
def onHistograms (m : Manager) (id : String) (f : DeploymentHistograms → DeploymentHistograms) :
    Manager :=
  { m with histograms := m.histograms.insert id (f ((m.histograms.lookup id).getD {})) }

end Manager

/-! ### Deadlines -/

/-- A cooldown whose deadline is past. A zero deadline never passes. -/
def expired (status : Status) (cooldownUntil now : Time) : Bool :=
  status = .cooldown && cooldownUntil ≠ zeroTime && cooldownUntil < now

/-- A cooldown whose deadline is still to come. -/
def cooling (status : Status) (cooldownUntil now : Time) : Bool :=
  status = .cooldown && cooldownUntil ≠ zeroTime && now < cooldownUntil

def normalizeGlobal (s : State) (now : Time) : State :=
  if expired s.status s.cooldownUntil now then
    { s with
      status := .halfOpen
      consecutiveFailures := 0
      recoveryFailures := 0
      lastError := ""
      cooldownUntil := zeroTime }
  else s

/-- The change `normalizeScopes` makes to a scope. -/
def normalizeScope (now : Time) (st : ScopeState) : ScopeState :=
  if expired st.status st.cooldownUntil now then
    { st with status := .unknown, consecutiveFailures := 0, lastError := "",
              cooldownUntil := zeroTime }
  else st

def normalizeScopes (s : State) (now : Time) : State :=
  { s with scopes := s.scopes.mapVals fun _ st => normalizeScope now st }

def stateNeedsNormalization (s : State) (now : Time) : Bool :=
  expired s.status s.cooldownUntil now ||
    s.scopes.any fun _ st => expired st.status st.cooldownUntil now

def scopesReadyState (s : State) (scopes : List String) : Bool :=
  scopes.all fun scope => !((s.scopes.lookup scope).any (·.status = .cooldown))

def normalizeProviderState (st : ProviderState) (now : Time) : ProviderState :=
  if expired st.status st.cooldownUntil now then
    { st with status := .halfOpen, evidence := 0, lastError := "", cooldownUntil := zeroTime }
  else st

/-! ### Averages -/

/-- `d.Milliseconds()`. -/
def milliseconds (d : Duration) : ℤ := d.tdiv 1000000

def updateEWMA (s : State) (latency : Duration) : State :=
  let ms : ℚ := milliseconds latency
  if ms ≤ 0 then s
  else if s.ewmaLatencyMS = 0 then { s with ewmaLatencyMS := ms }
  else { s with ewmaLatencyMS := s.ewmaLatencyMS * (3 / 4) + ms * (1 / 4) }

def updateFailureEWMA (s : State) (failed : Bool) : State :=
  let sample : ℚ := if failed then 1 else 0
  if s.successes + s.failures ≤ 1 then { s with ewmaFailureRate := sample }
  else { s with ewmaFailureRate := s.ewmaFailureRate * (3 / 4) + sample * (1 / 4) }

section Averages

variable (s : State) (latency : Duration) (failed : Bool)

theorem updateEWMA_eq : ∃ x, updateEWMA s latency = { s with ewmaLatencyMS := x } := by
  simp only [updateEWMA]
  split_ifs
  · exact ⟨s.ewmaLatencyMS, rfl⟩
  · exact ⟨_, rfl⟩
  · exact ⟨_, rfl⟩

theorem updateFailureEWMA_eq :
    ∃ x, updateFailureEWMA s failed = { s with ewmaFailureRate := x } := by
  by_cases h : s.successes + s.failures ≤ 1
  · exact ⟨_, if_pos h⟩
  · exact ⟨_, if_neg h⟩

@[simp] theorem updateEWMA_status : (updateEWMA s latency).status = s.status := by
  rw [(updateEWMA_eq s latency).choose_spec]

@[simp] theorem updateEWMA_cooldownUntil :
    (updateEWMA s latency).cooldownUntil = s.cooldownUntil := by
  rw [(updateEWMA_eq s latency).choose_spec]

@[simp] theorem updateEWMA_consecutiveFailures :
    (updateEWMA s latency).consecutiveFailures = s.consecutiveFailures := by
  rw [(updateEWMA_eq s latency).choose_spec]

@[simp] theorem updateFailureEWMA_status : (updateFailureEWMA s failed).status = s.status := by
  rw [(updateFailureEWMA_eq s failed).choose_spec]

@[simp] theorem updateFailureEWMA_cooldownUntil :
    (updateFailureEWMA s failed).cooldownUntil = s.cooldownUntil := by
  rw [(updateFailureEWMA_eq s failed).choose_spec]

@[simp] theorem updateFailureEWMA_consecutiveFailures :
    (updateFailureEWMA s failed).consecutiveFailures = s.consecutiveFailures := by
  rw [(updateFailureEWMA_eq s failed).choose_spec]

end Averages

namespace Manager

/-! ### Reads -/

/-- `GetWithScopes`: the manager, the record and whether the scopes are ready. -/
def getWithScopes (m : Manager) (now : Time) (id : String) (scopes : List String) :
    Manager × State × Bool :=
  match m.states.lookup id with
  | none => (m, { deployment := id, status := .unknown }, true)
  | some s =>
    if !stateNeedsNormalization s now then (m, s, scopesReadyState s scopes)
    else
      let s := normalizeScopes (normalizeGlobal s now) now
      (m.setState id s, s, scopesReadyState s scopes)

def scopesReady (m : Manager) (now : Time) (id : String) (scopes : List String) : Manager × Bool :=
  if scopes.isEmpty then (m, true)
  else ((m.getWithScopes now id scopes).1, (m.getWithScopes now id scopes).2.2)

/-- `Snapshot`: the clock is read again when some record has to be written. -/
def snapshot (m : Manager) (now now' : Time) : Manager × Map String State :=
  if m.states.any fun _ s => stateNeedsNormalization s now then
    let states := m.states.mapVals fun _ s => normalizeScopes (normalizeGlobal s now') now'
    ({ m with states := states }, states)
  else (m, m.states)

/-! ### Observations of a deployment -/

def recordTTFT (m : Manager) (id : String) (ttft : Duration) : Manager :=
  let ms : ℚ := milliseconds ttft
  if ms ≤ 0 then m
  else
    let s := m.stateOf id
    let s := { s with
      deployment := id
      ewmaTTFTMS := if s.ewmaTTFTMS = 0 then ms else s.ewmaTTFTMS * (3 / 4) + ms * (1 / 4) }
    (m.setState id s).onHistograms id fun h => { h with ttft := h.ttft.observe ms }

def observeLatency (m : Manager) (id : String) (latency : Duration) : Manager :=
  m.onHistograms id fun h => { h with latency := h.latency.observe (milliseconds latency) }

def recordSuccess (m : Manager) (now : Time) (id : String) (latency : Duration) : Manager :=
  let s := m.stateOf id
  let s := { s with deployment := id, successes := s.successes + 1, lastChecked := now,
                    lastSuccess := now }
  let s := updateFailureEWMA (updateEWMA s latency) false
  let m := m.observeLatency id latency
  if s.status = .retired then m.setState id s
  else if cooling s.status s.cooldownUntil now then m.setState id s
  else
    m.setState id { s with
      consecutiveFailures := 0
      recoveryFailures := 0
      recoverySuccesses := 0
      status := .healthy
      lastError := ""
      lastErrorClass := ""
      cooldownUntil := zeroTime
      nextRetryAt := zeroTime
      lastProbeDurationMS := milliseconds latency }

/-- `RecordFailure`. The deadline of a new cooldown is counted from a second reading of the
clock. -/
def recordFailure (m : Manager) (now now' : Time) (id errMsg : String) (latency : Duration) :
    Manager :=
  let s := m.stateOf id
  let s := { s with deployment := id }
  if s.status = .retired then m.setState id s
  else
    let s := updateFailureEWMA { s with failures := s.failures + 1 } true
    let s := updateEWMA { s with consecutiveFailures := s.consecutiveFailures + 1,
                                 lastChecked := now, lastFailure := now,
                                 lastError := errMsg } latency
    let m := m.observeLatency id latency
    if cooling s.status s.cooldownUntil now then m.setState id s
    else if s.status = .halfOpen ∨ m.threshold ≤ s.consecutiveFailures then
      m.setState id { s with status := .cooldown, cooldownUntil := now' + m.cooldown }
    else m.setState id { s with status := .degraded, cooldownUntil := zeroTime }

def quarantine (m : Manager) (now : Time) (id reason : String) (latency : Duration) : Manager :=
  let s := m.stateOf id
  let s := { s with deployment := id }
  if s.status = .retired then m.setState id s
  else
    let s := updateFailureEWMA { s with failures := s.failures + 1 } true
    let s := { s with
      consecutiveFailures := s.consecutiveFailures + 1
      recoveryFailures := 0
      status := .degraded
      lastChecked := now
      lastFailure := now
      lastError := reason
      cooldownUntil := zeroTime }
    m.setState id (updateEWMA s latency)

def recordProbeFailure (m : Manager) (now : Time) (id reason errClass : String)
    (latency : Duration) : Manager :=
  let s := m.stateOf id
  let s := { s with deployment := id }
  if s.status = .retired then m.setState id s
  else
    let s := updateFailureEWMA { s with failures := s.failures + 1 } true
    let s := { s with
      consecutiveFailures := s.consecutiveFailures + 1
      recoveryFailures := s.recoveryFailures + 1
      status := .degraded
      lastChecked := now
      lastFailure := now
      lastError := reason
      lastErrorClass := if errClass ≠ "" then errClass else s.lastErrorClass
      cooldownUntil := zeroTime
      nextRetryAt := zeroTime
      lastProbeDurationMS := milliseconds latency }
    m.setState id (updateEWMA s latency)

def recordRecoveryFailure (m : Manager) (now : Time) (id reason : String) (latency : Duration) :
    Manager :=
  m.recordProbeFailure now id reason "" latency

def recordRecoverySuccess (m : Manager) (now : Time) (id : String) (latency : Duration) :
    Manager :=
  let s := m.stateOf id
  let s := { s with deployment := id }
  if s.status = .retired ∨ s.status = .healthy then m.setState id s
  else
    let s := { s with
      successes := s.successes + 1
      recoverySuccesses := s.recoverySuccesses + 1
      lastChecked := now
      lastSuccess := now
      lastProbeDurationMS := milliseconds latency }
    let s := updateFailureEWMA (updateEWMA s latency) false
    m.setState id { s with status := .halfOpen, lastError := "", lastErrorClass := "",
                           nextRetryAt := zeroTime }

def setNextRetry (m : Manager) (id : String) (retryAt : Time) : Manager :=
  let s := m.stateOf id
  if s.status = .retired then m.setState id s
  else m.setState id { s with deployment := id, nextRetryAt := retryAt }

def setErrorClass (m : Manager) (id errClass : String) : Manager :=
  if errClass = "" then m
  else
    let s := m.stateOf id
    if s.status = .retired then m.setState id s
    else m.setState id { s with deployment := id, lastErrorClass := errClass }

/-- The duration a cooldown is asked for, or the configured one. -/
def cooldownFor (m : Manager) (d : Duration) : Duration := if d ≤ 0 then m.cooldown else d

def enterCooldown (m : Manager) (now now' : Time) (id reason : String) (d : Duration) : Manager :=
  let s := m.stateOf id
  if s.status = .retired then m
  else
    m.setState id { s with
      deployment := id
      status := .cooldown
      lastChecked := now
      lastError := reason
      cooldownUntil := now' + m.cooldownFor d }

def forceCooldown (m : Manager) (now now' : Time) (id reason : String) (d : Duration) : Manager :=
  let s := m.stateOf id
  if s.status = .retired then m
  else
    let s := updateFailureEWMA { s with deployment := id, failures := s.failures + 1 } true
    m.setState id { s with
      consecutiveFailures := s.consecutiveFailures + 1
      status := .cooldown
      lastChecked := now
      lastFailure := now
      lastError := reason
      cooldownUntil := now' + m.cooldownFor d }

def retire (m : Manager) (now : Time) (id reason errorClass : String) : Manager :=
  let s := m.stateOf id
  m.setState id { s with
    deployment := id
    status := .retired
    failures := s.failures + 1
    consecutiveFailures := s.consecutiveFailures + 1
    lastChecked := now
    lastFailure := now
    lastError := reason
    lastErrorClass := errorClass
    cooldownUntil := zeroTime
    recoveryFailures := 0 }

/-- `ApplySharedCooldown`: the manager, and whether the record changed. -/
def applySharedCooldown (m : Manager) (now : Time) (id : String) (until_ : Time)
    (reason : String) : Manager × Bool :=
  if id = "" ∨ until_ = zeroTime then (m, false)
  else if until_ ≤ now then (m, false)
  else
    let s := m.stateOf id
    if s.status = .retired then (m, false)
    else if s.status = .cooldown ∧ until_ ≤ s.cooldownUntil then (m, false)
    else
      (m.setState id { s with deployment := id, status := .cooldown, lastChecked := now,
                              lastError := reason, cooldownUntil := until_ }, true)

def scopeSuccess (now : Time) (st : ScopeState) : ScopeState :=
  { st with status := .healthy, successes := st.successes + 1, consecutiveFailures := 0,
            lastChecked := now, lastSuccess := now, lastError := "", cooldownUntil := zeroTime }

def scopeFailure (m : Manager) (now : Time) (reason : String) (st : ScopeState) : ScopeState :=
  let st := { st with failures := st.failures + 1, consecutiveFailures := st.consecutiveFailures + 1,
                      lastChecked := now, lastFailure := now, lastError := reason }
  if m.scopeThreshold ≤ st.consecutiveFailures then
    { st with status := .cooldown, cooldownUntil := now + m.scopeCooldown }
  else { st with status := .degraded }

/-- The loop over the scopes of an observation, which passes over empty names. -/
def onScopes (f : ScopeState → ScopeState) (scopes : List String)
    (states : Map String ScopeState) : Map String ScopeState :=
  scopes.foldl (fun states scope =>
    if scope = "" then states
    else states.insert scope (f ((states.lookup scope).getD {}))) states

def recordScopeSuccess (m : Manager) (now : Time) (id : String) (scopes : List String) : Manager :=
  if scopes.isEmpty then m
  else
    let s := m.stateOf id
    m.setState id { s with deployment := id, scopes := onScopes (scopeSuccess now) scopes s.scopes }

def recordScopeFailure (m : Manager) (now : Time) (id : String) (scopes : List String)
    (reason : String) : Manager :=
  if scopes.isEmpty then m
  else
    let s := m.stateOf id
    m.setState id { s with
      deployment := id
      scopes := onScopes (m.scopeFailure now reason) scopes s.scopes }

def invalidate (m : Manager) (id : String) : Manager :=
  m.setState id { deployment := id, status := .unknown }

def retain (m : Manager) (valid : List String) : Manager :=
  { m with states := m.states.keep fun id _ => valid.contains id }

/-! ### Providers -/

/-- `ProviderAvailable`: the manager, and whether the provider may be used. -/
def providerAvailable (m : Manager) (now : Time) (id : String) : Manager × Bool :=
  if id = "" then (m, true)
  else match m.providers.lookup id with
    | none => (m, true)
    | some st =>
      if st.status ≠ .cooldown ∨ st.cooldownUntil = zeroTime ∨ now < st.cooldownUntil then
        (m, st.status ≠ .cooldown)
      else
        let st := normalizeProviderState st now
        (m.setProvider id st, st.status ≠ .cooldown)

/-- The deployment a failure counts for: the provider itself where none is named. -/
def evidenceID (providerID deploymentID : String) : String :=
  if deploymentID = "" then providerID else deploymentID

/-- The evidence against a provider once a failure is added: what is older than the window is
dropped. -/
def freshEvidence (m : Manager) (now : Time) (providerID deploymentID : String) :
    Map String Time :=
  (((m.providerEvidence.lookup providerID).getD ∅).keep fun _ failedAt =>
    !(m.providerWindow < now - failedAt)).insert (evidenceID providerID deploymentID) now

def recordProviderFailure (m : Manager) (now : Time) (providerID deploymentID reason : String) :
    Manager :=
  if providerID = "" then m
  else
    let st := normalizeProviderState (m.providerOf providerID) now
    let st := { st with provider := providerID, lastChecked := now, lastFailure := now,
                        lastError := reason }
    if cooling st.status st.cooldownUntil now then m.setProvider providerID st
    else if st.status = .halfOpen then
      let evidence := AList.singleton (evidenceID providerID deploymentID) now
      let st := { st with status := .cooldown, evidence := 1,
                          cooldownUntil := now + m.providerCooldown }
      let m := m.setProvider providerID st
      { m with providerEvidence := m.providerEvidence.insert providerID evidence }
    else
      let evidence := m.freshEvidence now providerID deploymentID
      let st := { st with evidence := evidence.len }
      let st := if m.providerThreshold ≤ st.evidence then
          { st with status := .cooldown, cooldownUntil := now + m.providerCooldown }
        else { st with status := .degraded, cooldownUntil := zeroTime }
      let m := { m with providerEvidence := m.providerEvidence.insert providerID evidence }
      m.setProvider providerID st

def recordProviderSuccess (m : Manager) (now : Time) (providerID : String) : Manager :=
  if providerID = "" then m
  else
    let st := { m.providerOf providerID with provider := providerID, lastChecked := now,
                                             lastSuccess := now }
    if cooling st.status st.cooldownUntil now then m.setProvider providerID st
    else
      let m := m.setProvider providerID { st with
        status := .healthy, evidence := 0, lastError := "", cooldownUntil := zeroTime }
      { m with providerEvidence := m.providerEvidence.erase providerID }

def providerSnapshot (m : Manager) (now : Time) : Manager × Map String ProviderState :=
  let providers := m.providers.mapVals fun _ st => normalizeProviderState st now
  ({ m with providers := providers }, providers)

def retainProviders (m : Manager) (valid : List String) : Manager :=
  { m with
    providers := m.providers.keep fun id _ => valid.contains id
    providerEvidence := m.providerEvidence.keep fun id _ =>
      valid.contains id || !(m.providers.lookup id).isSome }

def invalidateProvider (m : Manager) (id : String) : Manager :=
  if id = "" then m
  else { m with providers := m.providers.erase id,
                providerEvidence := m.providerEvidence.erase id }

/-! ### Configuration -/

def configureAdvanced (m : Manager) (threshold : ℤ) (cooldown : Duration) (scopeThreshold : ℤ)
    (scopeCooldown : Duration) : Manager :=
  { m with
    threshold := if threshold < 1 then 1 else threshold
    cooldown := if cooldown ≤ 0 then 3600 * second else cooldown
    scopeThreshold := if scopeThreshold < 1 then 2 else scopeThreshold
    scopeCooldown := if scopeCooldown ≤ 0 then 300 * second else scopeCooldown }

def configure (m : Manager) (threshold : ℤ) (cooldown : Duration) : Manager :=
  m.configureAdvanced threshold cooldown m.scopeThreshold m.scopeCooldown

def configureProviderIncidents (m : Manager) (threshold : ℤ) (window cooldown : Duration) :
    Manager :=
  { m with
    providerThreshold := if threshold < 2 then 2 else threshold
    providerWindow := if window ≤ 0 then 20 * second else window
    providerCooldown := if cooldown ≤ 0 then 30 * second else cooldown }

end Manager

/-! ### The manager as a machine -/

/-- A method with its arguments. -/
inductive Op
  | recordTTFT (id : String) (ttft : Duration)
  | recordSuccess (id : String) (latency : Duration)
  | recordFailure (id errMsg : String) (latency : Duration)
  | quarantine (id reason : String) (latency : Duration)
  | recordProbeFailure (id reason errClass : String) (latency : Duration)
  | recordRecoveryFailure (id reason : String) (latency : Duration)
  | recordRecoverySuccess (id : String) (latency : Duration)
  | setNextRetry (id : String) (retryAt : Time)
  | setErrorClass (id errClass : String)
  | enterCooldown (id reason : String) (d : Duration)
  | forceCooldown (id reason : String) (d : Duration)
  | retire (id reason errorClass : String)
  | applySharedCooldown (id : String) (until_ : Time) (reason : String)
  | recordScopeSuccess (id : String) (scopes : List String)
  | recordScopeFailure (id : String) (scopes : List String) (reason : String)
  | getWithScopes (id : String) (scopes : List String)
  | scopesReady (id : String) (scopes : List String)
  | snapshot
  | invalidate (id : String)
  | retain (valid : List String)
  | providerAvailable (id : String)
  | recordProviderFailure (providerID deploymentID reason : String)
  | recordProviderSuccess (providerID : String)
  | providerSnapshot
  | retainProviders (valid : List String)
  | invalidateProvider (id : String)
  | configure (threshold : ℤ) (cooldown : Duration)
  | configureAdvanced (threshold : ℤ) (cooldown : Duration) (scopeThreshold : ℤ)
      (scopeCooldown : Duration)
  | configureProviderIncidents (threshold : ℤ) (window cooldown : Duration)

/-- A call: a method and the readings of the clock it takes. -/
structure Call where
  op : Op
  now : Time
  now' : Time

def Manager.step (m : Manager) (c : Call) : Manager :=
  match c.op with
  | .recordTTFT id ttft => m.recordTTFT id ttft
  | .recordSuccess id latency => m.recordSuccess c.now id latency
  | .recordFailure id errMsg latency => m.recordFailure c.now c.now' id errMsg latency
  | .quarantine id reason latency => m.quarantine c.now id reason latency
  | .recordProbeFailure id reason errClass latency =>
    m.recordProbeFailure c.now id reason errClass latency
  | .recordRecoveryFailure id reason latency => m.recordRecoveryFailure c.now id reason latency
  | .recordRecoverySuccess id latency => m.recordRecoverySuccess c.now id latency
  | .setNextRetry id retryAt => m.setNextRetry id retryAt
  | .setErrorClass id errClass => m.setErrorClass id errClass
  | .enterCooldown id reason d => m.enterCooldown c.now c.now' id reason d
  | .forceCooldown id reason d => m.forceCooldown c.now c.now' id reason d
  | .retire id reason errorClass => m.retire c.now id reason errorClass
  | .applySharedCooldown id until_ reason => (m.applySharedCooldown c.now id until_ reason).1
  | .recordScopeSuccess id scopes => m.recordScopeSuccess c.now id scopes
  | .recordScopeFailure id scopes reason => m.recordScopeFailure c.now id scopes reason
  | .getWithScopes id scopes => (m.getWithScopes c.now id scopes).1
  | .scopesReady id scopes => (m.scopesReady c.now id scopes).1
  | .snapshot => (m.snapshot c.now c.now').1
  | .invalidate id => m.invalidate id
  | .retain valid => m.retain valid
  | .providerAvailable id => (m.providerAvailable c.now id).1
  | .recordProviderFailure providerID deploymentID reason =>
    m.recordProviderFailure c.now providerID deploymentID reason
  | .recordProviderSuccess providerID => m.recordProviderSuccess c.now providerID
  | .providerSnapshot => (m.providerSnapshot c.now).1
  | .retainProviders valid => m.retainProviders valid
  | .invalidateProvider id => m.invalidateProvider id
  | .configure threshold cooldown => m.configure threshold cooldown
  | .configureAdvanced threshold cooldown scopeThreshold scopeCooldown =>
    m.configureAdvanced threshold cooldown scopeThreshold scopeCooldown
  | .configureProviderIncidents threshold window cooldown =>
    m.configureProviderIncidents threshold window cooldown

end NexaRoute.Health
