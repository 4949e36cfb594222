import NexaRoute.Go.Map
import NexaRoute.Go.Time
import NexaRoute.Machine

/-!
# The cooldown of a decision provider

`internal/decision/providerstate/manager.go`: enough failures of a provider within a window open a
cooldown that lasts until a deadline. When the deadline has passed, the next `IsCooldown` or success
takes the cooldown back. Until then the status is still `cooldown`, and no failure opens another.

## Main results

* `ProviderState.cooldown_held_iff` — when a cooldown is held
-/

namespace NexaRoute.Decision.ProviderState

open Go Machine List

/-! ### The manager -/

structure Config where
  failureThreshold : ℤ
  failureWindow : Duration
  cooldown : Duration

/-- The configuration as `New` takes it. -/
def Config.withDefaults (cfg : Config) : Config where
  failureThreshold := if cfg.failureThreshold ≤ 0 then 3 else cfg.failureThreshold
  failureWindow := if cfg.failureWindow ≤ 0 then 30 * second else cfg.failureWindow
  cooldown := if cfg.cooldown ≤ 0 then 60 * second else cfg.cooldown

inductive Status
  | unset
  | healthy
  | cooldown
  deriving DecidableEq

def Status.orHealthy : Status → Status
  | .unset => .healthy
  | s => s

/-- `State`; a time that is zero is `none`. -/
structure State where
  status : Status := .healthy
  consecutiveFailures : ℕ := 0
  successes : ℕ := 0
  failuresInWindow : ℕ := 0
  lastFailure : Option Time := none
  lastSuccess : Option Time := none
  cooldownUntil : Option Time := none
  failTimes : List Time := []

/-- The failures within the window that ends at `now`. -/
def recent (cfg : Config) (now : Time) (fails : List Time) : List Time :=
  fails.filter (now - cfg.failureWindow ≤ ·)

namespace State

def recordSuccess (st : State) (now : Time) : State :=
  { st with
    successes := st.successes + 1
    lastSuccess := some now
    consecutiveFailures := 0
    failTimes := []
    failuresInWindow := 0
    status := if st.status = .cooldown ∨ st.cooldownUntil ≠ none then .healthy
      else st.status.orHealthy
    cooldownUntil := none }

def recordFailure (cfg : Config) (st : State) (now : Time) : State :=
  let kept := recent cfg now (st.failTimes ++ [now])
  let opens : Bool := cfg.failureThreshold ≤ kept.length ∧ st.status ≠ .cooldown
  { st with
    consecutiveFailures := st.consecutiveFailures + 1
    lastFailure := some now
    failTimes := kept
    failuresInWindow := kept.length
    status := if opens then .cooldown else st.status.orHealthy
    cooldownUntil := if opens then some (now + cfg.cooldown) else st.cooldownUntil }

/-- The answer, and the state without a deadline that has passed. -/
def isCooldown (st : State) (now : Time) : Bool × State :=
  match st.cooldownUntil with
  | none => (false, st)
  | some d =>
    if now < d then (true, st) else (false, { st with status := .healthy, cooldownUntil := none })

end State

inductive Op
  | recordSuccess (id : String)
  | recordFailure (id : String)
  | isCooldown (id : String)
  | snapshot
  deriving DecidableEq

structure Call where
  op : Op
  now : Time

/-- `getStateLocked`: the state of a provider in the manager's map. -/
def stateOf (states : Map String State) (id : String) : State := (states.lookup id).getD {}

/-- One call; `IsCooldown` makes no state for a provider that has none. -/
def next (cfg : Config) (states : Map String State) (c : Call) : Map String State :=
  match c.op with
  | .recordSuccess id => states.insert id ((stateOf states id).recordSuccess c.now)
  | .recordFailure id => states.insert id ((stateOf states id).recordFailure cfg c.now)
  | .isCooldown id =>
    if (states.lookup id).isSome then states.insert id ((stateOf states id).isCooldown c.now).2
    else states
  | .snapshot => states

/-- The state of a provider after some calls of a new manager. -/
def after (cfg : Config) (calls : List Call) (id : String) : State :=
  stateOf (run (next cfg.withDefaults) ∅ calls) id

/-! ### What is asked of it -/

/-- The failures of a provider since its last success, after one more call. -/
def since (id : String) (fails : List Time) (c : Call) : List Time :=
  if c.op = .recordSuccess id then []
  else if c.op = .recordFailure id then fails ++ [c.now] else fails

/-- The cooldown is on after the calls, and stays on until the deadline unless a success comes. -/
def Held (cfg : Config) (calls : List Call) (id : String) (t : Time) : Prop :=
  ((after cfg calls id).isCooldown t).1 = true ∧
    ∀ more u d, (after cfg calls id).cooldownUntil = some d → u < d →
      (∀ c ∈ more, c.op ≠ .recordSuccess id ∧ c.now ≤ u) →
      ((after cfg (calls ++ more) id).isCooldown u).1 = true

/-- A cooldown has run out, and nothing has taken it back. -/
def Stale (st : State) (t : Time) : Prop :=
  st.status = .cooldown ∧ ∃ d ≤ t, st.cooldownUntil = some d

variable {cfg : Config} {id : String} {t d : Time} {c : Call} {calls : List Call}

/-! ### One provider -/

theorem stateOf_insert (states : Map String State) (id id' : String) (st : State) :
    stateOf (states.insert id' st) id = if id' = id then st else stateOf states id := by
  simp only [stateOf, Map.lookup_insert, eq_comm]
  split <;> rfl

/-- What a call makes of one provider. -/
theorem after_append (cfg : Config) (calls : List Call) (c : Call) (id : String) :
    after cfg (calls ++ [c]) id =
      if c.op = .recordSuccess id then (after cfg calls id).recordSuccess c.now
      else if c.op = .recordFailure id then (after cfg calls id).recordFailure cfg.withDefaults c.now
      else if c.op = .isCooldown id then ((after cfg calls id).isCooldown c.now).2
      else after cfg calls id := by
  simp only [after, run_append, run_cons, run_nil]
  generalize run (next cfg.withDefaults) ∅ calls = states
  obtain ⟨op, now⟩ := c
  cases op with
  | recordSuccess id' | recordFailure id' =>
    refine (stateOf_insert states id id' _).trans ?_
    by_cases h : id' = id <;> simp [h]
  | isCooldown id' =>
    by_cases hid : id' = id
    · subst hid
      cases h : states.lookup id' with
      | none => simp [next, stateOf, h, State.isCooldown]
      | some st => simp [next, h, stateOf_insert]
    · simp only [next]
      split <;> simp [stateOf_insert, hid]
  | snapshot => rfl

theorem recent_append (l l' : List Time) : recent cfg t (l ++ l') = recent cfg t l ++ recent cfg t l' :=
  filter_append l l'

/-- A deadline is there as long as the status is `cooldown`, and the failures that are kept are
those that count. -/
theorem sound_after (cfg : Config) (calls : List Call) (id : String) (t : Time) :
    ((after cfg calls id).status = .cooldown ↔ (after cfg calls id).cooldownUntil ≠ none) ∧
    ((∀ c ∈ calls, c.now ≤ t) → recent cfg.withDefaults t (after cfg calls id).failTimes =
      recent cfg.withDefaults t (calls.foldl (since id) [])) := by
  induction calls using reverseRecOn with
  | nil => exact ⟨by simp [after, stateOf], fun _ => rfl⟩
  | append_singleton calls c ih =>
    obtain ⟨hpair, hkept⟩ := ih
    simp only [after_append, foldl_append, foldl_cons, foldl_nil, since, forall_mem_append,
      forall_mem_singleton]
    split_ifs
    · refine ⟨?_, fun _ => rfl⟩
      simp only [State.recordSuccess]
      grind [Status.orHealthy]
    · refine ⟨?_, fun ⟨hcalls, hc⟩ => ?_⟩
      · simp only [State.recordFailure]
        grind [Status.orHealthy]
      · -- a failure that counts at `t` counts at every call before
        have hkeep : ∀ l, recent cfg.withDefaults t (recent cfg.withDefaults c.now l) =
            recent cfg.withDefaults t l := by
          simp only [recent, filter_filter]
          grind
        simp only [State.recordFailure, hkeep, recent_append, hkept hcalls]
    · unfold State.isCooldown
      grind
    · exact ⟨hpair, fun h => hkept h.1⟩

/-! ### Cooldowns -/

theorem held_iff (hstatus : (after cfg calls id).status = .cooldown)
    (hd : (after cfg calls id).cooldownUntil = some d) : Held cfg calls id t ↔ t < d := by
  have hon : ∀ {st : State} {u : Time}, st.cooldownUntil = some d →
      ((st.isCooldown u).1 = true ↔ u < d) := by
    intro st u hd
    rw [State.isCooldown, hd]
    by_cases h : u < d <;> simp [h]
  refine ⟨fun h => (hon hd).mp h.1, fun h => ⟨(hon hd).mpr h, fun more u d' hd' hu hmore => ?_⟩⟩
  obtain rfl : d = d' := Option.some.inj (hd.symm.trans hd')
  suffices hlast : (after cfg (calls ++ more) id).status = .cooldown ∧
      (after cfg (calls ++ more) id).cooldownUntil = some d from (hon hlast.2).mpr hu
  induction more using reverseRecOn with
  | nil => simpa using ⟨hstatus, hd⟩
  | append_singleton more c ih =>
    obtain ⟨hmore, hlast⟩ := forall_mem_append.mp hmore
    obtain ⟨hop, hnow⟩ := forall_mem_singleton.mp hlast
    have hlive : c.now < d := lt_of_le_of_lt hnow hu
    obtain ⟨hstatus, hd⟩ := ih hmore
    rw [← append_assoc, after_append, if_neg hop]
    split_ifs <;> simp [State.recordFailure, State.isCooldown, Status.orHealthy, *]

/-- **A provider goes into cooldown with the failure that makes enough of them in the window**, and
stays there until the deadline or a success, exactly if no earlier cooldown has run out without
being taken back. -/
theorem cooldown_held_iff (cfg : Config) (calls : List Call) (id : String) (t : Time)
    (hclock : ∀ c ∈ calls, c.now ≤ t)
    (hfails : cfg.withDefaults.failureThreshold ≤
      (recent cfg.withDefaults t (calls.foldl (since id) [] ++ [t])).length) :
    Held cfg (calls ++ [⟨.recordFailure id, t⟩]) id t ↔ ¬ Stale (after cfg calls id) t := by
  obtain ⟨hpair, hkept⟩ := sound_after cfg calls id t
  have hst : after cfg (calls ++ [⟨.recordFailure id, t⟩]) id =
      (after cfg calls id).recordFailure cfg.withDefaults t := by
    rw [after_append, if_neg nofun, if_pos rfl]
  have hpos : 0 < cfg.withDefaults.cooldown := by
    unfold Config.withDefaults
    split_ifs <;> simp_all [second]
  have hopens : cfg.withDefaults.failureThreshold ≤
      (recent cfg.withDefaults t ((after cfg calls id).failTimes ++ [t])).length := by
    rwa [recent_append, hkept hclock, ← recent_append]
  by_cases hcool : (after cfg calls id).status = .cooldown
  · obtain ⟨d, hd⟩ := Option.ne_none_iff_exists'.mp (hpair.mp hcool)
    rw [held_iff (d := d) (hst ▸ by simp [State.recordFailure, hcool, Status.orHealthy])
      (hst ▸ by simp [State.recordFailure, hcool, hd])]
    simp [Stale, hcool, hd]
  · rw [held_iff (d := t + cfg.withDefaults.cooldown)
      (hst ▸ by simp [State.recordFailure, hcool, hopens])
      (hst ▸ by simp [State.recordFailure, hcool, hopens])]
    exact iff_of_true (lt_add_of_pos_right t hpos) fun h => hcool h.1

def failing (times : List Time) : List Call := times.map fun t => ⟨.recordFailure "jev", t⟩

/-- The third failure opens the first cooldown. -/
theorem cooldown_held_third : Held ⟨3, 30, 60⟩ (failing [0, 0] ++ [⟨.recordFailure "jev", 0⟩])
    "jev" 0 :=
  (cooldown_held_iff ⟨3, 30, 60⟩ (failing [0, 0]) "jev" 0 (by decide) (by decide)).mpr
    fun h => absurd h.1 (by decide)

/-- **The second cooldown does not open**: three failures open one, and three more after its deadline
leave the provider available. -/
theorem second_cooldown_missed :
    ((after ⟨3, 30, 60⟩ (failing [0, 0, 0, 100, 100, 100]) "jev").isCooldown 100).1 = false := by
  decide

end NexaRoute.Decision.ProviderState
