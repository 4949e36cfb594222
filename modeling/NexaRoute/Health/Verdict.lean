import NexaRoute.Health.Manager

/-!
# What a call does to the verdict about a deployment

Routing looks at two fields of a deployment's record: its status and the deadline of its cooldown.
This file says, once for every method, what becomes of the two. Everything else about a record is
bookkeeping, and the results about cooldowns and retirement use nothing but `verdict_step`.

## Main results

* `verdict_step` — what every call does to the verdict
-/

namespace NexaRoute.Health

open Go Manager State
open Router (Status)

/-- The fields that decide about a deployment. -/
structure Verdict where
  status : Status
  cooldownUntil : Time
  deriving DecidableEq

def State.verdict (s : State) : Verdict := ⟨s.status, s.cooldownUntil⟩

/-- Reading ends a cooldown that has run out. -/
def Verdict.normalize (v : Verdict) (now : Time) : Verdict :=
  if expired v.status v.cooldownUntil now then ⟨.halfOpen, zeroTime⟩ else v

/-- A verdict that retirement has made final, or the one an observation comes to. -/
def Verdict.unlessRetired (v w : Verdict) : Verdict := if v.status = .retired then v else w

/-- The same for an observation that an active cooldown keeps from counting. -/
def Verdict.unlessCooling (v : Verdict) (now : Time) (w : Verdict) : Verdict :=
  v.unlessRetired (if cooling v.status v.cooldownUntil now then v else w)

/-- The verdict about a deployment after a call. -/
def Call.verdict (c : Call) (m : Manager) (id : String) : Verdict :=
  let s := m.stateOf id
  let v := s.verdict
  match c.op with
  | .recordSuccess i _ => if id = i then v.unlessCooling c.now ⟨.healthy, zeroTime⟩ else v
  | .recordFailure i _ _ =>
    if id = i then v.unlessCooling c.now
      (if v.status = .halfOpen ∨ m.threshold ≤ s.consecutiveFailures + 1 then
        ⟨.cooldown, c.now' + m.cooldown⟩ else ⟨.degraded, zeroTime⟩)
    else v
  | .quarantine i _ _ | .recordProbeFailure i _ _ _ | .recordRecoveryFailure i _ _ =>
    if id = i then v.unlessRetired ⟨.degraded, zeroTime⟩ else v
  | .recordRecoverySuccess i _ =>
    if id = i then v.unlessRetired (if v.status = .healthy then v else ⟨.halfOpen, v.cooldownUntil⟩)
    else v
  | .enterCooldown i _ d | .forceCooldown i _ d =>
    if id = i then v.unlessRetired ⟨.cooldown, c.now' + m.cooldownFor d⟩ else v
  | .retire i _ _ => if id = i then ⟨.retired, zeroTime⟩ else v
  | .applySharedCooldown i until_ _ =>
    if id = i ∧ i ≠ "" ∧ until_ ≠ zeroTime ∧ c.now < until_ ∧
        ¬(v.status = .cooldown ∧ until_ ≤ v.cooldownUntil) then
      v.unlessRetired ⟨.cooldown, until_⟩
    else v
  | .getWithScopes i _ => if id = i then v.normalize c.now else v
  | .scopesReady i scopes => if id = i ∧ scopes ≠ [] then v.normalize c.now else v
  | .snapshot =>
    if m.states.any fun _ s => stateNeedsNormalization s c.now then v.normalize c.now' else v
  | .invalidate i => if id = i then ⟨.unknown, zeroTime⟩ else v
  | .retain valid => if valid.contains id then v else ⟨.unset, zeroTime⟩
  | _ => v

/-! ### Records after a write -/

namespace Manager

variable (m : Manager) (id i : String) (now now' : Time) (s : State) (latency : Duration)

theorem stateOf_setState : (m.setState i s).stateOf id = if id = i then s else m.stateOf id := by
  rw [stateOf, setState, Map.lookup_insert]
  split <;> rfl

@[simp] theorem stateOf_observeLatency :
    (m.observeLatency i latency).stateOf id = m.stateOf id := rfl

@[simp] theorem observeLatency_threshold :
    (m.observeLatency i latency).threshold = m.threshold := rfl

@[simp] theorem observeLatency_cooldown : (m.observeLatency i latency).cooldown = m.cooldown := rfl

theorem verdict_setState_same (h : s.verdict = (m.stateOf i).verdict) :
    ((m.setState i s).stateOf id).verdict = (m.stateOf id).verdict := by
  rw [stateOf_setState]
  split
  · next hid => rw [h, hid]
  · rfl

theorem verdict_setState :
    ((m.setState i s).stateOf id).verdict =
      if id = i then s.verdict else (m.stateOf id).verdict := by
  rw [stateOf_setState]
  split <;> rfl

end Manager

/-! ### Reads -/

theorem verdict_normalize (s : State) (now : Time) :
    (normalizeScopes (normalizeGlobal s now) now).verdict = s.verdict.normalize now := by
  by_cases h : expired s.status s.cooldownUntil now = true
  · simp [normalizeScopes, normalizeGlobal, verdict, Verdict.normalize, h]
  · simp [normalizeScopes, normalizeGlobal, verdict, Verdict.normalize, h]

theorem verdict_normalize_of_not_needed {s : State} {now : Time}
    (h : stateNeedsNormalization s now = false) : s.verdict.normalize now = s.verdict := by
  rw [stateNeedsNormalization, Bool.or_eq_false_iff] at h
  simp [Verdict.normalize, verdict, h.1]

theorem verdict_zero_normalize (now : Time) :
    ({} : State).verdict.normalize now = ({} : State).verdict := by
  simp [Verdict.normalize, verdict, expired]

section Reads

variable (m : Manager) (id i : String) (now now' : Time)

theorem verdict_getWithScopes (scopes : List String) :
    ((m.getWithScopes now i scopes).1.stateOf id).verdict =
      if id = i then (m.stateOf id).verdict.normalize now else (m.stateOf id).verdict := by
  cases hs : m.states.lookup i with
  | none =>
    have hzero : m.stateOf i = {} := by simp [stateOf, hs]
    simp only [getWithScopes, hs]
    split
    · next h => rw [h, hzero, verdict_zero_normalize]
    · rfl
  | some s =>
    have hsome : m.stateOf i = s := by simp [stateOf, hs]
    simp only [getWithScopes, hs]
    split
    · next hn =>
      split
      · next h => rw [h, hsome, verdict_normalize_of_not_needed (by simpa using hn)]
      · rfl
    · rw [verdict_setState, verdict_normalize]
      split
      · next h => rw [h, hsome]
      · rfl

theorem verdict_snapshot :
    ((m.snapshot now now').1.stateOf id).verdict =
      if m.states.any fun _ s => stateNeedsNormalization s now then
        (m.stateOf id).verdict.normalize now'
      else (m.stateOf id).verdict := by
  unfold snapshot
  split
  · simp only [stateOf, Map.lookup_mapVals]
    cases m.states.lookup id with
    | none => exact (verdict_zero_normalize now').symm
    | some s => exact verdict_normalize s now'
  · rfl

theorem verdict_retain (valid : List String) :
    ((m.retain valid).stateOf id).verdict =
      if valid.contains id then (m.stateOf id).verdict else ⟨.unset, zeroTime⟩ := by
  simp only [retain, stateOf, Map.lookup_keep]
  cases m.states.lookup id with
  | none =>
    split <;> rfl
  | some s =>
    by_cases h : valid.contains id = true
    · simp only [Option.filter_some, h, if_true]
    · simp only [Option.filter_some, h]
      rfl

end Reads

/-! ### Observations -/

section Observations

variable (m : Manager) (id i : String) (now now' : Time) (latency : Duration)

theorem verdict_recordSuccess :
    ((m.recordSuccess now i latency).stateOf id).verdict =
      if id = i then (m.stateOf id).verdict.unlessCooling now ⟨.healthy, zeroTime⟩
      else (m.stateOf id).verdict := by
  simp only [recordSuccess, updateFailureEWMA_status, updateEWMA_status,
    updateFailureEWMA_cooldownUntil, updateEWMA_cooldownUntil]
  by_cases hid : id = i
  · split_ifs with hr hc <;>
      simp_all [stateOf_setState, Verdict.unlessCooling, Verdict.unlessRetired,
        verdict]
  · split_ifs <;> simp [verdict_setState, hid]

theorem verdict_recordFailure (errMsg : String) :
    ((m.recordFailure now now' i errMsg latency).stateOf id).verdict =
      if id = i then (m.stateOf id).verdict.unlessCooling now
        (if (m.stateOf id).verdict.status = .halfOpen ∨
            m.threshold ≤ (m.stateOf id).consecutiveFailures + 1 then
          ⟨.cooldown, now' + m.cooldown⟩ else ⟨.degraded, zeroTime⟩)
      else (m.stateOf id).verdict := by
  simp only [recordFailure, updateFailureEWMA_status, updateEWMA_status,
    updateFailureEWMA_cooldownUntil, updateEWMA_cooldownUntil, updateEWMA_consecutiveFailures,
    updateFailureEWMA_consecutiveFailures, observeLatency_threshold]
  by_cases hid : id = i
  · subst hid
    by_cases hr : (m.stateOf id).status = .retired
    · simp [stateOf_setState, Verdict.unlessCooling, Verdict.unlessRetired, verdict, hr]
    · by_cases hc : cooling (m.stateOf id).status (m.stateOf id).cooldownUntil now = true
      · simp [stateOf_setState, Verdict.unlessCooling, Verdict.unlessRetired, verdict,
          hr, hc]
      · by_cases ht : (m.stateOf id).status = .halfOpen ∨
            m.threshold ≤ (m.stateOf id).consecutiveFailures + 1
        · simp [stateOf_setState, Verdict.unlessCooling, Verdict.unlessRetired,
            verdict, hr, hc, ht]
        · simp [stateOf_setState, Verdict.unlessCooling, Verdict.unlessRetired,
            verdict, hr, hc, ht]
  · split_ifs <;> simp [verdict_setState, hid]

theorem verdict_unlessRetired {m₁ : Manager} {s' : State} {w : Verdict}
    (hm : (m₁.stateOf id).verdict = (m.stateOf id).verdict) (hw : s'.verdict = w) :
    ((if (m.stateOf i).status = .retired then m₁ else m.setState i s').stateOf id).verdict =
      if id = i then (m.stateOf id).verdict.unlessRetired w else (m.stateOf id).verdict := by
  by_cases hid : id = i
  · split_ifs with hr <;> simp_all [stateOf_setState, Verdict.unlessRetired, verdict]
  · split_ifs <;> simp [verdict_setState, hid, hm]

theorem verdict_recordRecoverySuccess :
    ((m.recordRecoverySuccess now i latency).stateOf id).verdict =
      if id = i then (m.stateOf id).verdict.unlessRetired
        (if (m.stateOf id).verdict.status = .healthy then (m.stateOf id).verdict
          else ⟨.halfOpen, (m.stateOf id).verdict.cooldownUntil⟩)
      else (m.stateOf id).verdict := by
  simp only [recordRecoverySuccess]
  by_cases hid : id = i
  · split_ifs with hr <;>
      simp_all [stateOf_setState, Verdict.unlessRetired, verdict]
  · split_ifs <;> simp [verdict_setState, hid]

theorem verdict_applySharedCooldown (until_ : Time) (reason : String) :
    ((m.applySharedCooldown now i until_ reason).1.stateOf id).verdict =
      if id = i ∧ i ≠ "" ∧ until_ ≠ zeroTime ∧ now < until_ ∧
          ¬((m.stateOf id).verdict.status = .cooldown ∧
            until_ ≤ (m.stateOf id).verdict.cooldownUntil) then
        (m.stateOf id).verdict.unlessRetired ⟨.cooldown, until_⟩
      else (m.stateOf id).verdict := by
  unfold applySharedCooldown
  by_cases hid : id = i
  · subst hid
    by_cases hgate : id = "" ∨ until_ = zeroTime
    · rcases hgate with h | h <;> simp [h]
    · obtain ⟨hne, hz⟩ := not_or.mp hgate
      by_cases hpast : until_ ≤ now
      · simp [hpast]
      · simp only [hne, hz, hpast, not_le.mp hpast, Verdict.unlessRetired, verdict]
        split_ifs <;> simp_all [stateOf_setState]
  · simp only [hid, false_and, if_false]
    split_ifs <;> simp [verdict_setState, hid]

end Observations

/-! ### Calls that are about providers -/

section Providers

variable (m : Manager) (id i : String) (now : Time)

theorem states_providerAvailable : (m.providerAvailable now i).1.states = m.states := by
  unfold providerAvailable
  split
  · rfl
  · split
    · rfl
    · split <;> rfl

theorem states_recordProviderFailure (deploymentID reason : String) :
    (m.recordProviderFailure now i deploymentID reason).states = m.states := by
  unfold recordProviderFailure
  simp only
  split_ifs <;> rfl

theorem states_recordProviderSuccess : (m.recordProviderSuccess now i).states = m.states := by
  unfold recordProviderSuccess
  simp only
  split_ifs <;> rfl

theorem states_invalidateProvider : (m.invalidateProvider i).states = m.states := by
  unfold invalidateProvider
  split <;> rfl

theorem verdict_of_states {m' : Manager} (h : m'.states = m.states) :
    (m'.stateOf id).verdict = (m.stateOf id).verdict := by
  rw [stateOf, h, stateOf]

end Providers

/-- **The verdict after a call** is the one `Call.verdict` names. -/
theorem verdict_step (m : Manager) (c : Call) (id : String) :
    ((m.step c).stateOf id).verdict = c.verdict m id := by
  obtain ⟨op, now, now'⟩ := c
  cases op with
  | recordTTFT i ttft | setNextRetry i retryAt | setErrorClass i errClass
  | recordScopeSuccess i scopes | recordScopeFailure i scopes reason =>
    simp only [step, recordTTFT, setNextRetry, setErrorClass, recordScopeSuccess, recordScopeFailure]
    split_ifs <;> first | rfl | exact verdict_setState_same m id i _ rfl
  | recordSuccess i latency => exact verdict_recordSuccess m id i now latency
  | recordFailure i errMsg latency => exact verdict_recordFailure m id i now now' latency errMsg
  | quarantine i reason latency | recordProbeFailure i reason errClass latency
  | recordRecoveryFailure i reason latency =>
    have hm := verdict_setState_same m id i { m.stateOf i with deployment := i } rfl
    exact verdict_unlessRetired m id i hm (by simp [verdict])
  | recordRecoverySuccess i latency => exact verdict_recordRecoverySuccess m id i now latency
  | enterCooldown i reason d | forceCooldown i reason d =>
    exact verdict_unlessRetired m id i rfl (by simp [verdict])
  | retire i reason errorClass => exact verdict_setState m id i _
  | applySharedCooldown i until_ reason =>
    exact verdict_applySharedCooldown m id i now until_ reason
  | getWithScopes i scopes => exact verdict_getWithScopes m id i now scopes
  | scopesReady i scopes =>
    simp only [step, scopesReady, Call.verdict]
    cases scopes with
    | nil => simp
    | cons scope scopes => simp [verdict_getWithScopes]
  | snapshot => exact verdict_snapshot m id now now'
  | invalidate i => exact verdict_setState m id i _
  | retain valid => exact verdict_retain m id valid
  | providerAvailable i => exact verdict_of_states m id (states_providerAvailable m i now)
  | recordProviderFailure i deploymentID reason =>
    exact verdict_of_states m id (states_recordProviderFailure m i now deploymentID reason)
  | recordProviderSuccess i => exact verdict_of_states m id (states_recordProviderSuccess m i now)
  | providerSnapshot | retainProviders valid => rfl
  | invalidateProvider i => exact verdict_of_states m id (states_invalidateProvider m i)
  | configure threshold cooldown
  | configureAdvanced threshold cooldown scopeThreshold scopeCooldown
  | configureProviderIncidents threshold window cooldown => rfl

end NexaRoute.Health
