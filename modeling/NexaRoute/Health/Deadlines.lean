import NexaRoute.Health.Breaker
import Mathlib.Data.Finset.Lattice.Fold

/-!
# Deadlines

A cooldown has a deadline, and nothing else should have one: the snapshot shows the deadline to
operators, and the recovery sweep reads it. Every method writes status and deadline together, with
two exceptions. A successful recovery probe moves a deployment to half open and leaves the deadline
where it is, and a scope failure below the threshold makes a scope degraded and does the same, which
matters once the threshold has been raised while the scope is in cooldown. Besides, a deadline is
counted from the clock and could fall on the zero time, which stands for none.

The markers of other replicas are merged by their maximum, so that replicas which see the same
markers agree, in whatever order and however often they see them.

## Main results

* `deadlines_of_cooldowns` — a deadline is that of a cooldown
* `shared_cooldowns_join` — markers are merged by maximum
-/

namespace NexaRoute.Health

open Go Machine Verdict Manager
open Router (Status)

/-! ### Deadlines of cooldowns only -/

/-- There is a deadline just when there is a cooldown. -/
def Verdict.Dated (v : Verdict) : Prop := v.cooldownUntil ≠ zeroTime ↔ v.status = .cooldown

def ScopeState.verdict (st : ScopeState) : Verdict := ⟨st.status, st.cooldownUntil⟩

/-- The records of deployments, scopes and providers are all dated. -/
structure Manager.Dated (m : Manager) : Prop where
  deployments : ∀ id, (m.stateOf id).verdict.Dated
  scopes : ∀ id scope st, (m.stateOf id).scopes.lookup scope = some st → st.verdict.Dated
  providers : ∀ p, (m.providerVerdict p).Dated

/-- The call leaves no deadline behind, and counts none that is zero. -/
def Dates (m : Manager) (c : Call) : Prop :=
  match c.op with
  | .recordFailure _ _ _ => c.now' + m.cooldown ≠ zeroTime
  | .enterCooldown _ _ d | .forceCooldown _ _ d => c.now' + m.cooldownFor d ≠ zeroTime
  | .recordRecoverySuccess id _ => (m.stateOf id).status ≠ .cooldown
  | .recordScopeFailure id scopes _ => c.now + m.scopeCooldown ≠ zeroTime ∧
      ∀ scope ∈ scopes, ∀ st, (m.stateOf id).scopes.lookup scope = some st →
        st.status = .cooldown → m.scopeThreshold ≤ st.consecutiveFailures + 1
  | .recordProviderFailure _ _ _ => c.now + m.providerCooldown ≠ zeroTime
  | _ => True

variable {m : Manager} {c : Call} {s : State} {v : Verdict} {id : String} {now now' : Time}

theorem Verdict.dated_zero {status : Status} (h : status ≠ .cooldown) :
    Verdict.Dated ⟨status, zeroTime⟩ := by
  simp [Verdict.Dated, h]

theorem Verdict.dated_cooldown {t : Time} (h : t ≠ zeroTime) : Verdict.Dated ⟨.cooldown, t⟩ := by
  simp [Verdict.Dated, h]

theorem Verdict.Dated.normalize (h : v.Dated) (now : Time) : (v.normalize now).Dated := by
  unfold Verdict.normalize
  split
  · exact dated_zero (by decide)
  · exact h

theorem Verdict.Dated.call (h : (m.stateOf id).verdict.Dated) (hc : Dates m c) :
    (c.verdict m id).Dated := by
  obtain ⟨op, now, now'⟩ := c
  cases op with
  | recordSuccess i latency | retire i reason errorClass | invalidate i | retain valid
  | quarantine i reason latency | recordProbeFailure i reason errClass latency
  | recordRecoveryFailure i reason latency =>
    simp only [Call.verdict, unlessCooling, unlessRetired]
    split_ifs <;> first | exact h | exact dated_zero (by decide)
  | recordFailure i errMsg latency =>
    simp only [Call.verdict, unlessCooling, unlessRetired]
    split_ifs <;> first | exact h | exact dated_cooldown hc | exact dated_zero (by decide)
  | enterCooldown i reason d | forceCooldown i reason d =>
    simp only [Call.verdict, unlessRetired]
    split_ifs <;> first | exact h | exact dated_cooldown hc
  | recordRecoverySuccess i latency =>
    simp only [Call.verdict, unlessRetired]
    split
    · next hid =>
      subst hid
      have hzero : (m.stateOf id).verdict.cooldownUntil = zeroTime :=
        not_not.mp fun hne => hc (h.mp hne)
      rw [hzero]
      split_ifs <;> first | exact h | exact dated_zero (by decide)
    · exact h
  | applySharedCooldown i until_ reason =>
    simp only [Call.verdict, unlessRetired]
    split_ifs with hset
    · exact h
    · exact dated_cooldown hset.2.2.1
    · exact h
  | getWithScopes i scopes | scopesReady i scopes | snapshot =>
    simp only [Call.verdict]
    split
    · exact h.normalize _
    · exact h
  | _ => exact h

/-! ### Scopes -/

@[simp] theorem updateEWMA_scopes (s : State) (latency : Duration) :
    (updateEWMA s latency).scopes = s.scopes := by
  rw [(updateEWMA_eq s latency).choose_spec]

@[simp] theorem updateFailureEWMA_scopes (s : State) (failed : Bool) :
    (updateFailureEWMA s failed).scopes = s.scopes := by
  rw [(updateFailureEWMA_eq s failed).choose_spec]

/-- The scopes of a record are dated. -/
def ScopesDated (scopes : Map String ScopeState) : Prop :=
  ∀ scope st, scopes.lookup scope = some st → st.verdict.Dated

theorem ScopesDated.normalize (h : ScopesDated s.scopes) (now : Time) :
    ScopesDated (normalizeScopes (normalizeGlobal s now) now).scopes := by
  intro scope st hst
  have hscopes : (normalizeGlobal s now).scopes = s.scopes := by
    unfold normalizeGlobal
    split <;> rfl
  simp only [normalizeScopes, hscopes, Map.lookup_mapVals, Option.map_eq_some_iff] at hst
  obtain ⟨st, hst, rfl⟩ := hst
  unfold normalizeScope
  split
  · exact dated_zero (by rintro ⟨⟩)
  · exact h scope st hst

theorem ScopesDated.onScopes {f : ScopeState → ScopeState} {P : ScopeState → Prop}
    (hf : ∀ st, st.verdict.Dated → P st → (f st).verdict.Dated ∧ P (f st)) (h0 : P {})
    {names : List String} {scopes : Map String ScopeState} (h : ScopesDated scopes)
    (hP : ∀ name ∈ names, ∀ st, scopes.lookup name = some st → P st) :
    ScopesDated (onScopes f names scopes) := by
  induction names generalizing scopes with
  | nil => exact h
  | cons name names ih =>
    rw [Manager.onScopes, List.foldl_cons]
    split
    · exact ih h fun n hn => hP n (List.mem_cons_of_mem name hn)
    · have hold : ((scopes.lookup name).getD {}).verdict.Dated ∧ P ((scopes.lookup name).getD {}) := by
        cases hst : scopes.lookup name with
        | none => exact ⟨dated_zero (by rintro ⟨⟩), h0⟩
        | some st => exact ⟨h name st hst, hP name List.mem_cons_self st hst⟩
      have hnew := hf _ hold.1 hold.2
      refine ih (fun scope st hst => ?_) fun n hn st hst => ?_
      · rw [Map.lookup_insert] at hst
        split at hst
        · exact Option.some.inj hst ▸ hnew.1
        · exact h scope st hst
      · rw [Map.lookup_insert] at hst
        split at hst
        · exact Option.some.inj hst ▸ hnew.2
        · exact hP n (List.mem_cons_of_mem name hn) st hst

theorem ScopesDated.step (h : ∀ id, ScopesDated (m.stateOf id).scopes) (hc : Dates m c)
    (id : String) : ScopesDated ((m.step c).stateOf id).scopes := by
  have hset : ∀ {m' : Manager} {i : String} {s' : State}, m'.states = m.states →
      ScopesDated s'.scopes → ScopesDated ((m'.setState i s').stateOf id).scopes := by
    intro m' i s' hm hs
    rw [stateOf_setState]
    split
    · exact hs
    · rw [stateOf, hm]
      exact h id
  have hread : ∀ (i : String) (names : List String) (now : Time),
      ScopesDated ((m.getWithScopes now i names).1.stateOf id).scopes := by
    intro i names now
    unfold getWithScopes
    cases hs : m.states.lookup i with
    | none => exact h id
    | some s =>
      have hi := h i
      rw [stateOf, hs] at hi
      dsimp only
      split
      · exact h id
      · exact hset rfl (ScopesDated.normalize hi now)
  obtain ⟨op, now, now'⟩ := c
  cases op with
  | recordScopeSuccess i names =>
    simp only [step, recordScopeSuccess]
    split
    · exact h id
    · refine hset rfl (ScopesDated.onScopes (P := fun _ => True) (fun st _ _ => ?_) trivial (h i)
        fun _ _ _ _ => trivial)
      exact ⟨dated_zero (by rintro ⟨⟩), trivial⟩
  | recordScopeFailure i names reason =>
    simp only [step, recordScopeFailure]
    split
    · exact h id
    · refine hset rfl (ScopesDated.onScopes (P := fun st => st.status = .cooldown →
        m.scopeThreshold ≤ st.consecutiveFailures + 1) (fun st hst hP => ?_) (by rintro ⟨⟩) (h i) hc.2)
      simp only [scopeFailure]
      split
      · next hle => exact ⟨dated_cooldown hc.1, fun _ => by dsimp only; omega⟩
      · next hlt =>
        have hzero : st.cooldownUntil = zeroTime :=
          not_not.mp fun hne => hlt (hP (hst.mp hne))
        refine ⟨?_, by rintro ⟨⟩⟩
        simp only [ScopeState.verdict, hzero]
        exact dated_zero (by rintro ⟨⟩)
  | getWithScopes i names => exact hread i names now
  | scopesReady i names =>
    simp only [step, scopesReady]
    split
    · exact h id
    · exact hread i names now
  | snapshot =>
    simp only [step, snapshot]
    split
    · simp only [stateOf, Map.lookup_mapVals]
      have hid := h id
      rw [stateOf] at hid
      cases hs : m.states.lookup id with
      | none => simp [ScopesDated]
      | some s =>
        rw [hs] at hid
        exact ScopesDated.normalize hid now'
    · exact h id
  | invalidate i => exact hset rfl fun scope st hst => by simp at hst
  | retain valid =>
    have hid := h id
    simp only [step, retain, stateOf, Map.lookup_keep] at hid ⊢
    cases hs : m.states.lookup id with
    | none => simp [ScopesDated]
    | some s =>
      rw [hs] at hid
      by_cases hv : valid.contains id = true
      · simpa only [Option.filter_some, hv, if_true] using hid
      · simp only [Option.filter_some, hv]
        simp [ScopesDated]
  | providerAvailable | recordProviderFailure | recordProviderSuccess | invalidateProvider =>
    simpa only [stateOf, step, states_providerAvailable, states_recordProviderFailure,
      states_recordProviderSuccess, states_invalidateProvider] using h id
  | providerSnapshot | retainProviders valid | configure threshold cooldown
  | configureAdvanced threshold cooldown scopeThreshold scopeCooldown
  | configureProviderIncidents threshold window cooldown => exact h id
  | applySharedCooldown i until_ reason =>
    simp only [step, applySharedCooldown]
    split_ifs <;> first | exact h id | exact hset rfl (h i)
  | _ =>
    simp only [step, recordTTFT, recordSuccess, recordFailure,
      quarantine, recordProbeFailure, recordRecoveryFailure,
      recordRecoverySuccess, setNextRetry, setErrorClass,
      enterCooldown, forceCooldown, retire]
    try split_ifs
    all_goals first | exact h id | exact hset rfl (by simpa using h _)

/-! ### Providers -/

theorem Verdict.Dated.provider (h : ∀ p, (m.providerVerdict p).Dated) (hc : Dates m c) (p : String) :
    ((m.step c).providerVerdict p).Dated := by
  by_cases hop : c.op.ofBreaker = true
  · rw [providerVerdict_step hop]
    obtain ⟨op, now, now'⟩ := c
    cases op with
    | recordProviderFailure p' deploymentID reason =>
      simp only [Call.providerVerdict, failureVerdict]
      split_ifs <;>
        first | exact h p | exact dated_cooldown hc | exact dated_zero (by decide)
    | recordProviderSuccess p' =>
      simp only [Call.providerVerdict]
      split_ifs <;> first | exact h p | exact dated_zero (by decide)
    | providerAvailable p' =>
      simp only [Call.providerVerdict]
      split_ifs <;> first | exact h p | exact (h p).normalize _
    | providerSnapshot => exact (h p).normalize now
    | _ => cases hop
  · obtain ⟨op, now, now'⟩ := c
    have hgone : (⟨.unset, zeroTime⟩ : Verdict).Dated := dated_zero (by decide)
    cases op with
    | recordProviderFailure p' deploymentID reason | recordProviderSuccess p' | providerAvailable p'
    | providerSnapshot => exact absurd rfl hop
    | retainProviders valid =>
      have hp := h p
      simp only [step, retainProviders, providerVerdict, providerOf,
        Map.lookup_keep] at hp ⊢
      cases hs : m.providers.lookup p with
      | none => exact hgone
      | some st =>
        rw [hs] at hp
        rw [Option.filter_some]
        split
        · exact hp
        · exact hgone
    | invalidateProvider p' =>
      have hp := h p
      simp only [step, invalidateProvider]
      split
      · exact hp
      · simp only [providerVerdict, providerOf, Map.lookup_erase] at hp ⊢
        split
        · exact hgone
        · exact hp
    | getWithScopes i names | scopesReady i names =>
      simp only [step, scopesReady, getWithScopes]
      repeat' split
      all_goals exact h p
    | _ =>
      simp only [step, recordTTFT, recordSuccess, recordFailure,
        quarantine, recordProbeFailure, recordRecoveryFailure,
        recordRecoverySuccess, setNextRetry, setErrorClass,
        enterCooldown, forceCooldown, retire, applySharedCooldown,
        recordScopeSuccess, recordScopeFailure, snapshot]
      try split_ifs
      all_goals exact h p

theorem Manager.Dated.step (h : m.Dated) (hc : Dates m c) : (m.step c).Dated where
  deployments id := verdict_step m c id ▸ (h.deployments id).call hc
  scopes id := ScopesDated.step (fun id => h.scopes id) hc id
  providers := Verdict.Dated.provider h.providers hc

/-- **In every run whose calls leave no deadline behind, a deadline is that of a cooldown.** -/
theorem deadlines_of_cooldowns (threshold : ℤ) (cooldown : Duration) (calls : List Call)
    (hcalls : Guarded Manager.step Dates (.new threshold cooldown) calls) :
    (run Manager.step (.new threshold cooldown) calls).Dated := by
  refine run_induction (fun m c h hc => h.step hc) ?_ hcalls
  have hnew : (⟨.unset, zeroTime⟩ : Verdict).Dated := dated_zero (by decide)
  exact ⟨fun id => hnew, fun id scope st hst => by simp [new, stateOf] at hst,
    fun p => hnew⟩

instance decidableForallEqSome {α : Type} (o : Option α) (P : α → Prop) [DecidablePred P] :
    Decidable (∀ a, o = some a → P a) :=
  match o with
  | none => isTrue nofun
  | some a => decidable_of_iff (P a) (by simp)

/-- A deployment is put into cooldown, read after the deadline and probed with success; one of its
scopes fails twice; another deployment is put into cooldown. -/
def datedCalls : List Call :=
  [⟨.enterCooldown "p/m" "busy" second, 0, 0⟩, ⟨.getWithScopes "p/m" [], 2 * second, 2 * second⟩,
    ⟨.recordRecoverySuccess "p/m" 0, 3 * second, 3 * second⟩,
    ⟨.recordScopeFailure "p/m" ["chat"] "limited", 4 * second, 4 * second⟩,
    ⟨.recordScopeFailure "p/m" ["chat"] "limited", 5 * second, 5 * second⟩,
    ⟨.forceCooldown "q/m" "drained" second, 6 * second, 6 * second⟩]

theorem deadlines_of_cooldowns_datedCalls :
    ((run Manager.step (.new 3 second) datedCalls).stateOf "p/m").verdict = ⟨.halfOpen, zeroTime⟩ ∧
      ((run Manager.step (.new 3 second) datedCalls).stateOf "q/m").verdict =
        ⟨.cooldown, 7 * second⟩ ∧
      (run Manager.step (.new 3 second) datedCalls).Dated := by
  refine ⟨by decide +kernel, by decide +kernel, deadlines_of_cooldowns 3 second datedCalls ?_⟩
  unfold datedCalls
  refine ⟨?_, trivial, ?_, ?_, ?_, ?_, trivial⟩
  all_goals
    dsimp only [Dates]
    decide +kernel

/-- A deployment is put into cooldown, and probed before the deadline with success. -/
def probeInCooldown : List Call :=
  [⟨.enterCooldown "acme/model" "busy" second, 0, 0⟩, ⟨.recordRecoverySuccess "acme/model" 0, 1, 1⟩]

/-- The deployment is half open and has a deadline. -/
theorem probed_deadline_stays :
    ((run Manager.step (.new 3 second) probeInCooldown).stateOf "acme/model").verdict =
        ⟨.halfOpen, second⟩ ∧
      ¬(run Manager.step (.new 3 second) probeInCooldown).Dated := by
  have hverdict : ((run step (.new 3 second) probeInCooldown).stateOf "acme/model").verdict =
      ⟨.halfOpen, second⟩ := by decide +kernel
  refine ⟨hverdict, fun h => ?_⟩
  have hdated := h.deployments "acme/model"
  exact absurd (hdated.mp (by decide)) (by decide)

/-! ### Shared cooldowns -/

/-- Times are ordered as integers, and their join is the one of that order. -/
local instance timeOrder : Preorder Time := Int.instLinearOrder.toPreorder

local instance timeSup : SemilatticeSup Time :=
  (@LinearOrder.toLattice Time Int.instLinearOrder).toSemilatticeSup

/-- A marker of another replica, a deadline and a reason, applied at a reading of the clock. -/
def Manager.applyMarker (now : Time) (id : String) (m : Manager) (marker : Time × String) :
    Manager × Bool :=
  m.applySharedCooldown now id marker.1 marker.2

/-- The deadline of a cooldown that is still to come. -/
def Verdict.live (now : Time) (v : Verdict) : WithBot Time :=
  if v.status = .cooldown ∧ now < v.cooldownUntil then v.cooldownUntil else ⊥

/-- What a marker counts for: its deadline, if it has one and that is still to come. -/
def markerDeadline (now until_ : Time) : WithBot Time :=
  if until_ ≠ zeroTime ∧ now < until_ then until_ else ⊥

/-- In cooldown until a deadline, or as before. -/
def Verdict.until : WithBot Time → Verdict → Verdict
  | ⊥, v => v
  | (t : Time), _ => ⟨.cooldown, t⟩

/-- How often a maximum grows along a list of deadlines. -/
def increases (now : Time) : WithBot Time → List Time → ℕ
  | _, [] => 0
  | top, u :: us => (if top < top ⊔ markerDeadline now u then 1 else 0) +
      increases now (top ⊔ markerDeadline now u) us

/-- The counters and averages of a record. -/
def State.counters (s : State) : ℤ × ℤ × ℤ × ℤ × ℤ × ℚ × ℚ × ℚ :=
  (s.successes, s.failures, s.consecutiveFailures, s.recoveryFailures, s.recoverySuccesses,
    s.ewmaLatencyMS, s.ewmaTTFTMS, s.ewmaFailureRate)

theorem Verdict.until_live (v : Verdict) : v.until (v.live now) = v := by
  unfold live
  split
  · next h => exact congrArg (mk · v.cooldownUntil) h.1.symm
  · rfl

theorem lt_of_live {p : Prop} [Decidable p] {u t : Time}
    (h : (if p ∧ now < u then (u : WithBot Time) else ⊥) = t) : now < t := by
  split at h
  · next hlive => exact WithBot.coe_injective h ▸ hlive.2
  · cases h

theorem lt_of_sup {a b : WithBot Time} (ha : ∀ t : Time, a = t → now < t)
    (hb : ∀ t : Time, b = t → now < t) (t : Time) (h : a ⊔ b = t) : now < t := by
  rcases max_choice a b with hmax | hmax
  · exact ha t (hmax ▸ h)
  · exact hb t (hmax ▸ h)

theorem Verdict.live_until {top : WithBot Time} (htop : ∀ t : Time, top = t → now < t)
    (hle : v.live now ≤ top) : (v.until top).live now = top := by
  induction top with
  | bot => exact le_bot_iff.mp hle
  | coe t => exact if_pos ⟨rfl, htop t rfl⟩

theorem Verdict.until_until {a b : WithBot Time} (h : a ≤ b) : (v.until a).until b = v.until b := by
  induction b with
  | bot => rw [le_bot_iff.mp h]; rfl
  | coe t => rfl

theorem Verdict.until_ne_retired (h : v.status ≠ .retired) (top : WithBot Time) :
    (v.until top).status ≠ .retired := by
  induction top with
  | bot => exact h
  | coe t => rintro ⟨⟩

theorem applyMarker_spec (now : Time) (hid : id ≠ "") (hr : (m.stateOf id).status ≠ .retired)
    (marker : Time × String) :
    ((m.applyMarker now id marker).1.stateOf id).verdict = (m.stateOf id).verdict.until
        ((m.stateOf id).verdict.live now ⊔ markerDeadline now marker.1) ∧
      (m.applyMarker now id marker).2 = decide ((m.stateOf id).verdict.live now <
        (m.stateOf id).verdict.live now ⊔ markerDeadline now marker.1) ∧
      ((m.applyMarker now id marker).1.stateOf id).counters = (m.stateOf id).counters := by
  obtain ⟨u, reason⟩ := marker
  -- A marker that is not above the deadline there is changes nothing.
  have hsame : markerDeadline now u ≤ (m.stateOf id).verdict.live now →
      (m.stateOf id).verdict = (m.stateOf id).verdict.until
        ((m.stateOf id).verdict.live now ⊔ markerDeadline now u) ∧
      false = decide ((m.stateOf id).verdict.live now <
        (m.stateOf id).verdict.live now ⊔ markerDeadline now u) ∧
      (m.stateOf id).counters = (m.stateOf id).counters := by
    intro hle
    rw [sup_eq_left.mpr hle, until_live]
    simp
  simp only [applyMarker, applySharedCooldown]
  split
  · next hgate =>
    refine hsame ?_
    rw [markerDeadline, if_neg fun h => h.1 (hgate.resolve_left hid)]
    exact bot_le
  next hgate =>
  split
  · next hpast =>
    refine hsame ?_
    rw [markerDeadline, if_neg fun h => not_lt.mpr hpast h.2]
    exact bot_le
  next hfuture =>
  have hu : markerDeadline now u = u := if_pos ⟨(not_or.mp hgate).2, not_le.mp hfuture⟩
  split
  · next hlater =>
    refine hsame ?_
    rw [hu, live, if_pos ⟨hlater.1, lt_of_lt_of_le (not_le.mp hfuture) hlater.2⟩]
    exact WithBot.coe_le_coe.mpr hlater.2
  · next hsooner =>
    have hlt : (m.stateOf id).verdict.live now < u := by
      unfold live
      split
      · next hlive => exact WithBot.coe_lt_coe.mpr (not_le.mp fun hle => hsooner ⟨hlive.1, hle⟩)
      · exact WithBot.bot_lt_coe u
    rw [hu, sup_eq_right.mpr hlt.le, stateOf_setState, if_pos rfl]
    exact ⟨rfl, (decide_eq_true hlt).symm, rfl⟩

/-- **Markers are merged by their maximum.** Whatever the order and the repetitions, a deployment
that is not retired is in cooldown until the latest of its own deadline and those of the markers
that are still to come, and as before if there is none; its counters and averages are untouched; and
the calls that report a change are those at which the maximum grows. -/
theorem shared_cooldowns_join (now : Time) (id : String) (hid : id ≠ "") (m : Manager)
    (hr : (m.stateOf id).status ≠ .retired) (markers : List (Time × String)) :
    ((run (next (Manager.applyMarker now id)) m markers).stateOf id).verdict =
        (m.stateOf id).verdict.until ((m.stateOf id).verdict.live now ⊔
          (markers.map Prod.fst).toFinset.sup (markerDeadline now)) ∧
      ((run (next (Manager.applyMarker now id)) m markers).stateOf id).counters =
        (m.stateOf id).counters ∧
      (outputs (Manager.applyMarker now id) m markers).count true =
        increases now ((m.stateOf id).verdict.live now) (markers.map Prod.fst) := by
  induction markers generalizing m with
  | nil => exact ⟨by simpa using (until_live _).symm, rfl, rfl⟩
  | cons marker markers ih =>
    obtain ⟨hverdict, hanswer, hcounters⟩ := applyMarker_spec now hid hr marker
    have hlive : ((m.stateOf id).verdict.until ((m.stateOf id).verdict.live now ⊔
        markerDeadline now marker.1)).live now =
          (m.stateOf id).verdict.live now ⊔ markerDeadline now marker.1 :=
      live_until (lt_of_sup (fun t => lt_of_live) fun t => lt_of_live) le_sup_left
    have hr' : ((next (applyMarker now id) m marker).stateOf id).status ≠ .retired := by
      have hstatus := congrArg status hverdict
      exact fun h => until_ne_retired hr _ (hstatus.symm.trans h)
    obtain ⟨hv, hc, ho⟩ := ih _ hr'
    rw [next, hverdict, hlive] at hv ho
    refine ⟨?_, hc.trans hcounters, ?_⟩
    · rw [run_cons, next, hv, until_until le_sup_left, List.map_cons, List.toFinset_cons,
        Finset.sup_insert, sup_assoc]
    · rw [outputs, List.count_cons, ho, List.map_cons, increases, hanswer]
      simp [add_comm]

/-- Four markers, of which the last has run out and two are the same. -/
theorem shared_cooldowns_latest :
    ((run (next (Manager.applyMarker 3 "acme/model")) (.new 3 second)
        [(4, "a"), (9, "b"), (9, "b"), (2, "c")]).stateOf "acme/model").verdict = ⟨.cooldown, 9⟩ ∧
      (outputs (Manager.applyMarker 3 "acme/model") (.new 3 second)
        [(4, "a"), (9, "b"), (9, "b"), (2, "c")]).count true = 2 := by
  obtain ⟨hverdict, -, hcount⟩ := shared_cooldowns_join 3 "acme/model" (by decide) (.new 3 second)
    (by decide) [(4, "a"), (9, "b"), (9, "b"), (2, "c")]
  exact ⟨hverdict.trans (by decide +kernel), hcount.trans (by decide +kernel)⟩

end NexaRoute.Health
