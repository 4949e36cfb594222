import NexaRoute.Health.Cooldown
import NexaRoute.Router.Eligible

/-!
# Retirement

A model that its provider has withdrawn is retired, and stays so: every observation returns early on
a retired record, and reads end cooldowns only. Nothing but `Invalidate` and a `Retain` without the
deployment gives it another chance.

Routing asks the manager about each deployment in turn, and other calls may come between. So the
health a routing decision is made from is a moment for each deployment: the manager and the clock at
the time it was asked.

## Main results

* `retired_not_routed` — a retired deployment is not offered
-/

namespace NexaRoute.Health

open Go Machine Verdict
open Router (Status)

variable {m : Manager} {c : Call} {id : String}

theorem Verdict.unlessRetired_of_retired {v w : Verdict} (h : v.status = .retired) :
    v.unlessRetired w = v := if_pos h

theorem Verdict.normalize_of_retired {v : Verdict} (h : v.status = .retired) (now : Time) :
    v.normalize now = v := by
  simp [normalize, expired, h]

/-- **One call** leaves a retired deployment retired. -/
theorem retired_step (h : (m.stateOf id).status = .retired) (hkeeps : c.op.keeps id) :
    ((m.step c).stateOf id).status = .retired := by
  have hv : (m.stateOf id).verdict.status = .retired := h
  suffices hc : (c.verdict m id).status = .retired by
    rw [← verdict_step] at hc
    exact hc
  obtain ⟨op, now, now'⟩ := c
  cases op with
  | retire i =>
    simp only [Call.verdict]
    split
    · rfl
    · exact hv
  | invalidate i =>
    simp only [Call.verdict, if_neg (Ne.symm (show i ≠ id from hkeeps))]
    exact hv
  | retain valid =>
    simp only [Call.verdict, List.contains_iff_mem, if_pos (show id ∈ valid from hkeeps)]
    exact hv
  | getWithScopes | scopesReady | snapshot =>
    simp only [Call.verdict, normalize_of_retired hv, ite_self]
    exact hv
  | _ =>
    simp only [Call.verdict, unlessCooling, unlessRetired_of_retired hv, ite_self]
    exact hv

theorem retired_run {calls : List Call} (h : (m.stateOf id).status = .retired)
    (hkeeps : ∀ c ∈ calls, c.op.keeps id) :
    ((run Manager.step m calls).stateOf id).status = .retired := by
  induction calls generalizing m with
  | nil => exact h
  | cons c calls ih =>
    exact ih (retired_step h (hkeeps c List.mem_cons_self)) fun c' hc' =>
      hkeeps c' (List.mem_cons_of_mem c hc')

/-! ### Routing -/

/-- What the router sees: each deployment and each provider at a moment of its own. -/
def routerHealth (seen seenProvider : String → Manager × Time) : Router.Health where
  providerAvailable p := ((seenProvider p).1.providerAvailable (seenProvider p).2 p).2
  getWithScopes id scopes :=
    let r := (seen id).1.getWithScopes (seen id).2 id scopes
    (r.2.1.status, r.2.2)

theorem getWithScopes_of_retired (h : (m.stateOf id).status = .retired) (now : Time)
    (scopes : List String) : (m.getWithScopes now id scopes).2.1.status = .retired := by
  cases hs : m.states.lookup id with
  | none => simp [Manager.stateOf, hs] at h
  | some s =>
    have hstatus : s.status = .retired := by simpa [Manager.stateOf, hs] using h
    have hnorm : (normalizeScopes (normalizeGlobal s now) now).status = .retired := by
      have hv := congrArg status (verdict_normalize s now)
      rw [normalize_of_retired hstatus] at hv
      exact hv.trans hstatus
    simp only [Manager.getWithScopes, hs]
    split
    · exact hstatus
    · exact hnorm

theorem isNone_ite_some {α : Type} {p : Prop} [Decidable p] {a : α} {o : Option α}
    (h : o.isNone = false) : (if p then some a else o).isNone = false := by
  split
  · rfl
  · exact h

theorem eligible_eq_false_of_retired (cfg : Router.Config) (health : Router.Health)
    (req : Router.Requirement) (ignoreModel : Bool) (d : Router.Deployment)
    (h : ∀ scopes, (health.getWithScopes d.id scopes).1 = .retired) :
    Router.eligible cfg health req ignoreModel d = false := by
  unfold Router.eligible Router.evaluateDeployment
  simp only [h, if_true]
  iterate 12 refine isNone_ite_some ?_
  rfl

/-- **Retirement is permanent**: after `Retire`, whatever is called, with any clock readings, short
of `Invalidate` and of a `Retain` without the deployment, the deployment is retired; and a router
that sees it at such a moment neither offers it nor accepts it, under any configuration, strategy and
requirement. -/
theorem retired_not_routed (m : Manager) (id reason errorClass : String) (now now' : Time)
    (calls : List Call) (hkeeps : ∀ c ∈ calls, c.op.keeps id) :
    ((run Manager.step m (⟨.retire id reason errorClass, now, now'⟩ :: calls)).stateOf id).status =
        .retired ∧
      ∀ (seen seenProvider : String → Manager × Time),
        (seen id).1 = run Manager.step m (⟨.retire id reason errorClass, now, now'⟩ :: calls) →
        ∀ (cfg : Router.Config) (strategy : Router.Strategy) (live : Router.Live)
          (req : Router.Requirement),
          (∀ d ∈ Router.candidates cfg (routerHealth seen seenProvider) strategy req, d.id ≠ id) ∧
          Router.routerEligible cfg (routerHealth seen seenProvider) live req id = none := by
  have hretire : ((m.step ⟨.retire id reason errorClass, now, now'⟩).stateOf id).status =
      .retired := by
    have hv := congrArg Verdict.status (verdict_step m ⟨.retire id reason errorClass, now, now'⟩ id)
    simp only [Call.verdict, if_true] at hv
    exact hv
  have hrun := retired_run hretire hkeeps
  refine ⟨hrun, fun seen seenProvider hseen cfg strategy live req => ?_⟩
  have hstatus : ∀ scopes, ((routerHealth seen seenProvider).getWithScopes id scopes).1 =
      .retired := by
    intro scopes
    refine getWithScopes_of_retired ?_ _ scopes
    rw [hseen]
    exact hrun
  refine ⟨?_, ?_⟩
  · rintro d hd rfl
    have hno := fun ignore => eligible_eq_false_of_retired cfg _ req ignore d hstatus
    simp [Router.mem_candidates_iff, hno] at hd
  unfold Router.routerEligible
  cases hd : Router.byID cfg id with
  | none => rfl
  | some d =>
    have hid : d.id = id := by simpa using List.find?_some hd
    have hno := eligible_eq_false_of_retired cfg (routerHealth seen seenProvider) req
      (!Router.known cfg req.model && cfg.fallbackOnUnknownModel) d (by rw [hid]; exact hstatus)
    simp [hno]

/-- A manager that has seen two deployments succeed. -/
def healthyManager : Manager :=
  run Manager.step (.new 3 (3600 * second))
    [⟨.recordSuccess "p/m" second, 0, 0⟩, ⟨.recordSuccess "q/m" second, 0, 0⟩]

/-- A late success, a recovery probe, a marker from a peer and a read. -/
def callsAfterRetirement : List Call :=
  [⟨.recordSuccess "p/m" second, second, second⟩, ⟨.recordRecoverySuccess "p/m" second, 0, 0⟩,
    ⟨.applySharedCooldown "p/m" (90 * second) "peer", second, second⟩,
    ⟨.getWithScopes "p/m" [], 100 * second, 100 * second⟩]

/-- A deployment is retired before these calls. -/
def lateManager : Manager :=
  run Manager.step healthyManager
    (⟨.retire "p/m" "model not found" "not_found", 0, 0⟩ :: callsAfterRetirement)

/-- What a router sees of one manager. -/
def seenOf (m : Manager) : Router.Health :=
  routerHealth (fun _ => (m, 200 * second)) fun _ => (m, 200 * second)

/-- Of two deployments that serve a model, the one that was not retired is left. -/
theorem retired_not_routed_late :
    (Router.candidates Router.meshConfig (seenOf healthyManager) .asFound (.plain "gpt")).map (·.id) =
        ["p/m", "q/m"] ∧
      (lateManager.stateOf "p/m").status = .retired ∧
      (Router.candidates Router.meshConfig (seenOf lateManager) .asFound (.plain "gpt")).map (·.id) =
        ["q/m"] ∧
      (∀ d ∈ Router.candidates Router.meshConfig (seenOf lateManager) .asFound (.plain "gpt"),
        d.id ≠ "p/m") ∧
      Router.routerEligible Router.meshConfig (seenOf lateManager) Router.pinnedLive (.plain "gpt")
        "p/m" = none := by
  have h := retired_not_routed healthyManager "p/m" "model not found" "not_found" 0 0
    callsAfterRetirement (by simp [callsAfterRetirement, Op.keeps])
  refine ⟨by decide +kernel, h.1, by decide +kernel, ?_⟩
  exact h.2 _ _ rfl Router.meshConfig .asFound Router.pinnedLive (.plain "gpt")

end NexaRoute.Health
