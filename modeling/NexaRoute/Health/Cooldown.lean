import NexaRoute.Machine
import NexaRoute.Health.Verdict

/-!
# Cooldowns

A deployment in cooldown is out of routing until its deadline. `RecordSuccess` and `RecordFailure`
leave an active cooldown alone, `ApplySharedCooldown` only extends one, and reads end it no earlier
than the deadline. The other observations ask nothing: a quarantine or a failed probe makes the
deployment degraded, a successful recovery probe makes it half open, and `EnterCooldown` and
`ForceCooldown` put their own deadline in the place of the one there was.

## Main results

* `coolsUntil_iff_respects` — when a cooldown lasts until its deadline
-/

namespace NexaRoute.Health

open Go Machine Call
open Router (Status)

/-- The call leaves the record of a deployment in place. -/
def Op.keeps (id : String) : Op → Prop
  | .invalidate i => i ≠ id
  | .retain valid => id ∈ valid
  | _ => True

/-- The call is an observation or a read: it neither retires the deployment nor drops its record. -/
def Op.observes (id : String) : Op → Prop
  | .retire i _ _ => i ≠ id
  | op => op.keeps id

/-- In cooldown, until `deadline` or later. -/
def CoolsUntil (deadline : Time) (v : Verdict) : Prop :=
  v.status = .cooldown ∧ deadline ≤ v.cooldownUntil

/-- The call leaves a deployment in cooldown until `deadline`. A cooldown without a deadline, whose
`cooldownUntil` is the zero time, is ended by a success, and by a failure unless that starts a
cooldown of its own. -/
def Respects (id : String) (deadline : Time) (m : Manager) (c : Call) : Prop :=
  match c.op with
  | .recordSuccess i _ => i = id → (m.stateOf id).cooldownUntil ≠ zeroTime
  | .recordFailure i _ _ => i = id → (m.stateOf id).cooldownUntil ≠ zeroTime ∨
      m.threshold ≤ (m.stateOf id).consecutiveFailures + 1 ∧ deadline ≤ c.now' + m.cooldown
  | .quarantine i _ _ | .recordProbeFailure i _ _ _ | .recordRecoveryFailure i _ _
  | .recordRecoverySuccess i _ => i ≠ id
  | .enterCooldown i _ d | .forceCooldown i _ d => i = id → deadline ≤ c.now' + m.cooldownFor d
  | _ => True

instance (id : String) (deadline : Time) (m : Manager) (c : Call) :
    Decidable (Respects id deadline m c) := by
  obtain ⟨op, now, now'⟩ := c
  cases op <;> dsimp only [Respects] <;> infer_instance

/-- The readings of the clock never go back. -/
def Ticks : Time → List Call → Prop
  | _, [] => True
  | t, c :: calls => t ≤ c.now ∧ c.now ≤ c.now' ∧ Ticks c.now' calls

variable {m : Manager} {c : Call} {id : String} {deadline now : Time} {v w : Verdict}

theorem Ticks.le {t : Time} {calls : List Call} (h : Ticks t calls) : ∀ c ∈ calls, c.now ≤ c.now' := by
  induction calls generalizing t with
  | nil => simp
  | cons c calls ih =>
    intro c' hc'
    rcases List.mem_cons.mp hc' with rfl | hc'
    · exact h.2.1
    · exact ih h.2.2 c' hc'

/-! ### One call -/

section

variable (h : CoolsUntil deadline v)

include h

theorem CoolsUntil.unlessRetired : v.unlessRetired w = w := by
  simp [Verdict.unlessRetired, h.1]

theorem CoolsUntil.normalize (hnow : now < deadline) : v.normalize now = v := by
  have hlive : ¬v.cooldownUntil < now := not_lt.mpr (hnow.le.trans h.2)
  simp [Verdict.normalize, expired, hlive]

theorem CoolsUntil.cooling_iff (hnow : now < deadline) :
    cooling v.status v.cooldownUntil now = true ↔ v.cooldownUntil ≠ zeroTime := by
  have hlive : now < v.cooldownUntil := hnow.trans_le h.2
  simp [cooling, h.1, hlive]

theorem CoolsUntil.unlessCooling_iff (hnow : now < deadline) :
    CoolsUntil deadline (v.unlessCooling now w) ↔ v.cooldownUntil ≠ zeroTime ∨ CoolsUntil deadline w := by
  rw [Verdict.unlessCooling, h.unlessRetired]
  by_cases hz : v.cooldownUntil = zeroTime
  · rw [if_neg (by rw [h.cooling_iff hnow]; exact fun hne => hne hz)]
    simp [hz]
  · rw [if_pos ((h.cooling_iff hnow).mpr hz)]
    simp [hz, h]

end

/-- **One call** before the deadline leaves the deployment in cooldown just when it respects it. -/
theorem coolsUntil_step_iff (h : CoolsUntil deadline (m.stateOf id).verdict) (hobs : c.op.observes id)
    (hnow : c.now < deadline) (hnow' : c.now' < deadline) :
    CoolsUntil deadline ((m.step c).stateOf id).verdict ↔ Respects id deadline m c := by
  rw [verdict_step]
  obtain ⟨op, now, now'⟩ := c
  cases op with
  | recordSuccess i latency =>
    by_cases hid : id = i
    · subst hid
      have hlost : ¬CoolsUntil deadline ⟨.healthy, zeroTime⟩ := by simp [CoolsUntil]
      simp only [verdict, Respects, if_true, h.unlessCooling_iff hnow, hlost, or_false,
        forall_const]
      rfl
    · simp [verdict, Respects, hid, h, Ne.symm hid]
  | recordFailure i errMsg latency =>
    by_cases hid : id = i
    · subst hid
      have hstatus : (m.stateOf id).verdict.status ≠ .halfOpen := by simp [h.1]
      simp only [verdict, Respects, if_true, h.unlessCooling_iff hnow, hstatus, false_or,
        forall_const]
      refine or_congr Iff.rfl ?_
      split <;> next ht => simp [CoolsUntil, ht]
    · simp [verdict, Respects, hid, h, Ne.symm hid]
  | quarantine i | recordProbeFailure i | recordRecoveryFailure i =>
    by_cases hid : id = i
    · subst hid
      simp [verdict, Respects, h.unlessRetired, CoolsUntil]
    · simp [verdict, Respects, hid, h, Ne.symm hid]
  | recordRecoverySuccess i =>
    by_cases hid : id = i
    · subst hid
      simp [verdict, Respects, h.unlessRetired, CoolsUntil, h.1]
    · simp [verdict, Respects, hid, h, Ne.symm hid]
  | enterCooldown i reason d | forceCooldown i reason d =>
    by_cases hid : id = i
    · subst hid
      simp [verdict, Respects, h.unlessRetired, CoolsUntil]
    · simp [verdict, Respects, hid, h, Ne.symm hid]
  | applySharedCooldown i until_ reason =>
    -- a marker that is applied is later than the deadline there is
    simp only [verdict, Respects, iff_true]
    split
    · next hmark =>
      rw [h.unlessRetired]
      refine ⟨rfl, h.2.trans ?_⟩
      by_contra hle
      exact hmark.2.2.2.2 ⟨h.1, (not_le.mp hle).le⟩
    · exact h
  | getWithScopes i scopes | scopesReady i scopes =>
    simp only [verdict, Respects, iff_true, h.normalize hnow, ite_self]
    exact h
  | snapshot =>
    simp only [verdict, Respects, iff_true, h.normalize hnow', ite_self]
    exact h
  | retire i | invalidate i => simp [verdict, Respects, h, Ne.symm (show i ≠ id from hobs)]
  | retain valid => simp [verdict, Respects, h, show id ∈ valid from hobs]
  | _ => exact iff_of_true h trivial

/-! ### Runs -/

/-- **A cooldown lasts until its deadline** exactly when every call made before respects it: for
every deployment in cooldown and every sequence of observations and reads on a clock that does not
go back, made before the deadline, the deployment is in cooldown until the deadline or later after
every one of them just when each of them respects that. -/
theorem coolsUntil_iff_respects (m : Manager) (id : String) (t : Time) (calls : List Call)
    (hcool : (m.stateOf id).status = .cooldown) (hobs : ∀ c ∈ calls, c.op.observes id)
    (hclock : Ticks t calls) (hbefore : ∀ c ∈ calls, c.now' < (m.stateOf id).cooldownUntil) :
    (∀ made, made <+: calls →
      ((run Manager.step m made).stateOf id).status = .cooldown ∧
        (m.stateOf id).cooldownUntil ≤ ((run Manager.step m made).stateOf id).cooldownUntil) ↔
      Guarded Manager.step (Respects id (m.stateOf id).cooldownUntil) m calls := by
  refine forall_prefix_iff_guarded (P := fun m' : Manager => CoolsUntil (m.stateOf id).cooldownUntil
    (m'.stateOf id).verdict) (fun m' c hm' hc => ?_) ⟨hcool, le_rfl⟩
    fun c hc => hc
  exact coolsUntil_step_iff hm' (hobs c hc) ((hclock.le c hc).trans_lt (hbefore c hc))
    (hbefore c hc)

/-- A deployment that a rate limit has put into cooldown for a minute. -/
def limited : Manager :=
  (Manager.new 3 (3600 * second)).forceCooldown 0 0 "p/m" "rate limited" (60 * second)

/-- A success that was under way and a marker from a peer, both before the deadline. -/
def lateCalls : List Call :=
  [⟨.recordSuccess "p/m" (2 * second), second, second⟩,
    ⟨.applySharedCooldown "p/m" (90 * second) "peer", 2 * second, 2 * second⟩]

theorem coolsUntil_iff_respects_limited :
    ((run Manager.step limited lateCalls).stateOf "p/m").status = .cooldown ∧
      60 * second ≤ ((run Manager.step limited lateCalls).stateOf "p/m").cooldownUntil := by
  have h := coolsUntil_iff_respects limited "p/m" 0 lateCalls (by decide)
    (by simp [lateCalls, Op.observes, Op.keeps]) (by simp [lateCalls, Ticks, second]) (by decide)
  exact h.mpr (by decide) lateCalls (List.prefix_refl _)

/-- **A quarantine ends a cooldown**: a second after the rate limit, the deployment is degraded and
has no deadline. -/
theorem quarantine_ends_cooldown :
    (limited.stateOf "p/m").status = .cooldown ∧ (limited.stateOf "p/m").cooldownUntil = 60 * second ∧
    ((run Manager.step limited [⟨.quarantine "p/m" "timeout" second, second, second⟩]).stateOf
      "p/m").verdict = ⟨.degraded, zeroTime⟩ := by
  decide

end NexaRoute.Health
