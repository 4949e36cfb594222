import NexaRoute.Autopilot.Gate

/-!
# The controller

The life of a routing policy: a candidate is staged, serves a share of the requests, and is promoted
or withdrawn. A lease tells a request which policy version it runs under, and whether it is part of
the canary; its outcome is filed by that flag.

The clock, the histories of transitions and incidents and the operator's status are left out; no
operation reads them. The counters of leases and generations have 64 bits in the source and are
natural numbers here.

## Main definitions

* `Controller` — its methods, from `beginShadow` to `rollback`
-/

namespace NexaRoute.Autopilot

open Go

inductive State
  | draft
  | shadow
  | canary
  | promoted
  | rolledBack
  deriving DecidableEq, Repr

structure PolicyRef where
  id : String
  version : String
  deriving DecidableEq, Repr

def PolicyRef.string (p : PolicyRef) : String :=
  if p.version = "" then p.id else p.id ++ "@" ++ p.version

/-- The policy version a request started under. -/
structure Lease where
  id : ℕ
  policy : PolicyRef
  generation : ℕ
  canary : Bool
  deriving DecidableEq, Repr

structure Transition where
  source : State
  target : State
  policy : PolicyRef
  cause : String
  gate : GateResult
  deriving DecidableEq, Repr

structure Incident where
  kind : String
  cause : String
  policyID : String
  badVersion : String
  restoredVersion : String
  gate : GateResult
  message : String
  deriving DecidableEq, Repr

structure Controller where
  targetID : String
  cfg : GateConfig
  incumbent : PolicyRef
  candidate : PolicyRef
  hasCandidate : Bool
  state : State
  generation : ℕ
  canaryPercent : ℚ
  canaryMaxRequests : ℤ
  canaryServed : ℕ
  candidateWindow : Window
  incumbentWindow : Window
  leaseSeq : ℕ
  active : List Lease
  deriving DecidableEq, Repr

def Controller.new (target incumbent : PolicyRef) (cfg : GateConfig) : Controller where
  targetID := if target.id = "" then incumbent.id else target.id
  cfg := cfg.withDefaults
  incumbent := incumbent
  candidate := ⟨"", ""⟩
  hasCandidate := false
  state := .draft
  generation := 0
  canaryPercent := 0
  canaryMaxRequests := 0
  canaryServed := 0
  candidateWindow := {}
  incumbentWindow := {}
  leaseSeq := 0
  active := []

namespace Controller

/-! ### Staging -/

def beginShadow (c : Controller) (candidate : PolicyRef) : Controller :=
  { c with
    candidate := candidate
    hasCandidate := true
    state := .shadow
    canaryServed := 0
    candidateWindow := {} }

def clamp (v lo hi : ℚ) : ℚ := if v < lo then lo else if v > hi then hi else v

def startCanary (c : Controller) (candidate : PolicyRef) (percent : ℚ) (maxRequests : ℤ) :
    Except String Controller :=
  if candidate.id = "" then .error "candidate policy id is required"
  else if candidate.id = c.incumbent.id ∧ candidate.version = c.incumbent.version then
    .error ("candidate " ++ candidate.string ++ " is identical to the incumbent")
  else .ok { c with
    candidate := candidate
    hasCandidate := true
    state := .canary
    canaryPercent := clamp percent 0 100
    canaryMaxRequests := if maxRequests < 0 then 0 else maxRequests
    canaryServed := 0
    candidateWindow := {} }

/-! ### Selection -/

def fnv32a (bs : List UInt8) : UInt32 :=
  bs.foldl (fun h b => (h ^^^ b.toUInt32) * 16777619) 2166136261

/-- `shouldCanaryLocked`. -/
def shouldCanary (c : Controller) (requestKey : String) : Bool :=
  if c.canaryPercent ≥ 100 then true
  else if c.canaryPercent ≤ 0 then false
  else if requestKey = "" then (c.canaryServed : ℤ) % ⌊100 / c.canaryPercent + 1⌋ == 0
  else decide ((((fnv32a (bytes requestKey)).toNat % 100000 : ℕ) : ℚ) < c.canaryPercent * 1000)

/-- Whether a request is part of the canary. -/
def inCanary (c : Controller) (requestKey : String) : Bool :=
  c.state == .canary && c.hasCandidate &&
    !(decide (c.canaryMaxRequests > 0) && decide ((c.canaryServed : ℤ) ≥ c.canaryMaxRequests)) &&
    c.shouldCanary requestKey

/-- The lease that `Select` issues. -/
def lease (c : Controller) (requestKey : String) : Lease where
  id := c.leaseSeq + 1
  policy := if c.inCanary requestKey then c.candidate else c.incumbent
  generation := c.generation
  canary := c.inCanary requestKey

def select (c : Controller) (requestKey : String) : Controller × Lease :=
  ({ c with
      canaryServed := if c.inCanary requestKey then c.canaryServed + 1 else c.canaryServed
      leaseSeq := c.leaseSeq + 1
      active := c.lease requestKey :: c.active },
    c.lease requestKey)

def release (c : Controller) (l : Lease) : Controller :=
  { c with active := c.active.filter (·.id != l.id) }

/-! ### The gate -/

/-- `evaluateLocked`. -/
def evaluate (c : Controller) : GateResult :=
  evaluateGate c.candidateWindow.toCounts.snapshot c.incumbentWindow.toCounts.snapshot c.cfg

/-- What `rollbackLocked` leaves. -/
def withdraw (c : Controller) : Controller :=
  { c with
    generation := c.generation + 1
    state := .rolledBack
    hasCandidate := false
    canaryServed := 0
    candidateWindow := {} }

/-- The incident that `rollbackLocked` raises. -/
def incident (c : Controller) (cause : String) (res : GateResult) : Incident :=
  let reason := (res.reasons.head?.map Reason.message).getD "gate trip"
  { kind := cause
    cause := reason
    policyID := c.targetID
    badVersion := c.candidate.version
    restoredVersion := c.incumbent.version
    gate := res
    message := "policy " ++ c.targetID ++ " rolled back " ++ c.candidate.string ++ " → " ++
      c.incumbent.string ++ ": " ++ reason }

def rollback (c : Controller) (cause : String) : Controller × Option Incident :=
  if !c.hasCandidate then (c, none) else (c.withdraw, some (c.incident cause c.evaluate))

/-- `maybeAutoRollbackLocked`. -/
def maybeAutoRollback (c : Controller) : Controller :=
  if (c.candidateWindow.requests : ℤ) < c.cfg.minSamples then c
  else if c.evaluate.verdict = .rollback then c.withdraw
  else c

def promote (c : Controller) : Controller × Option Transition :=
  if c.state ≠ .canary ∨ c.hasCandidate = false then (c, none)
  else if c.evaluate.verdict ≠ .promote then (c, none)
  else
    ({ c with
        incumbent := c.candidate
        incumbentWindow := c.candidateWindow
        candidateWindow := {}
        hasCandidate := false
        canaryServed := 0
        generation := c.generation + 1
        state := .promoted },
      some ⟨c.state, .promoted, c.candidate, "gate_promoted", c.evaluate⟩)

/-! ### Outcomes -/

/-- File a sample with the candidate or with the incumbent. -/
def file (c : Controller) (canary : Bool) (s : Sample) : Controller :=
  if canary then { c with candidateWindow := c.candidateWindow.observe s }
  else { c with incumbentWindow := c.incumbentWindow.observe s }

/-- `Record`: the lease's own flag says where its outcome is filed. -/
def record (c : Controller) (l : Lease) (s : Sample) : Controller :=
  -- Neither the policy nor the generation of the lease is compared with the candidate's.
  let c := (c.release l).file l.canary s
  if c.state = .canary ∧ c.hasCandidate = true then c.maybeAutoRollback else c

/-- The sample of a request without an eligible candidate. -/
def noEligibleSample (stratum : String) : Sample where
  success := false
  errorClass := .noEligible
  failover := false
  stratum := stratum
  noEligible := true
  hasNoEligibleSignal := true
  budgetAnomaly := false
  hasBudgetAnomalySignal := false
  latencyMS := 0
  ttftMS := 0
  hasTTFT := false

def observeNoEligible (c : Controller) (requestKey stratum : String) : Controller :=
  if c.inCanary requestKey then (c.file true (noEligibleSample stratum)).maybeAutoRollback
  else c.file false (noEligibleSample stratum)

end Controller

end NexaRoute.Autopilot
