import NexaRoute.Autopilot.Controller
import NexaRoute.Machine

/-!
# Whose evidence it is

The window of the candidate holds counters and no origins. Beside the controller this module keeps
what proofs need and the controller does not have: how many candidates were staged so far, in which
stage each lease was issued, and where each sample in the window of the candidate came from.

A lease is recorded by its place among the leases issued, at any time and any number of times.

## Main results

* `canary_evidence_attributed` — the evidence of a candidate is its own
* `tolerated_promoted` — a candidate within the limits is promoted
-/

namespace NexaRoute.Autopilot

open Machine Controller

/-- Where a sample came from: the policy, and the stage of its lease. -/
structure Origin where
  policy : PolicyRef
  stage : ℕ
  deriving DecidableEq, Repr

/-- The controller with its history. -/
structure Traced where
  controller : Controller
  stage : ℕ
  issued : List (Lease × ℕ)
  filed : List Origin
  deriving DecidableEq, Repr

/-- A controller that has just been made. -/
def Traced.new (target incumbent : PolicyRef) (cfg : GateConfig) : Traced :=
  ⟨.new target incumbent cfg, 0, [], []⟩

/-- A call. A lease is named by its place among those issued. -/
inductive Call
  | beginShadow (candidate : PolicyRef)
  | startCanary (candidate : PolicyRef) (percent : ℚ) (maxRequests : ℤ)
  | select (requestKey : String)
  | record (n : ℕ) (s : Sample)
  | observeNoEligible (requestKey stratum : String)
  | release (n : ℕ)
  | promote
  | rollback (cause : String)
  deriving DecidableEq, Repr

namespace Traced

/-- A new candidate: its window is empty. -/
def staged (st : Traced) (c : Controller) : Traced :=
  { st with controller := c, stage := st.stage + 1, filed := [] }

/-- Samples are filed. A new generation starts with an empty window. -/
def filing (st : Traced) (c : Controller) (origins : List Origin) : Traced :=
  { st with
    controller := c
    filed := if c.generation = st.controller.generation then st.filed ++ origins else [] }

def step (st : Traced) : Call → Traced
  | .beginShadow candidate => st.staged (st.controller.beginShadow candidate)
  | .startCanary candidate percent maxRequests =>
    match st.controller.startCanary candidate percent maxRequests with
    | .error _ => st
    | .ok c => st.staged c
  | .select requestKey =>
    let r := st.controller.select requestKey
    { st with controller := r.1, issued := st.issued ++ [(r.2, st.stage)] }
  | .record n s =>
    match st.issued[n]? with
    | none => st
    | some (l, stage) =>
      st.filing (st.controller.record l s) (if l.canary then [⟨l.policy, stage⟩] else [])
  | .observeNoEligible requestKey stratum =>
    st.filing (st.controller.observeNoEligible requestKey stratum)
      (if st.controller.inCanary requestKey then [⟨st.controller.candidate, st.stage⟩] else [])
  | .release n =>
    match st.issued[n]? with
    | none => st
    | some (l, _) => st.filing (st.controller.release l) []
  | .promote => st.filing st.controller.promote.1 []
  | .rollback cause => st.filing (st.controller.rollback cause).1 []

end Traced

/-! ### What calls do to the window of the candidate -/

namespace Controller

variable {c c' : Controller} {n : ℕ} {l : Lease} {s : Sample} {requestKey stratum cause : String}

/-- What a call that stages no candidate comes to: it goes on with the same candidate, or it leaves
none and an empty window. -/
inductive Outcome (c : Controller) (requests : ℕ) (c' : Controller) : Prop
  | goesOn (cfg : c'.cfg = c.cfg) (generation : c'.generation = c.generation)
      (window : c'.candidateWindow.requests = requests) (candidate : c'.candidate = c.candidate)
      (hasCandidate : c'.hasCandidate = c.hasCandidate)
  | ends (cfg : c'.cfg = c.cfg) (generation : c'.generation = c.generation + 1)
      (window : c'.candidateWindow.requests = 0) (hasCandidate : c'.hasCandidate = false)

theorem startCanary_ok {candidate : PolicyRef} {percent : ℚ} {maxRequests : ℤ}
    (h : c.startCanary candidate percent maxRequests = .ok c') :
    c'.cfg = c.cfg ∧ c'.candidateWindow.requests = 0 := by
  unfold startCanary at h
  split at h
  · cases h
  split at h <;> cases h
  exact ⟨rfl, rfl⟩

theorem Outcome.refl : Outcome c c.candidateWindow.requests c := .goesOn rfl rfl rfl rfl rfl

theorem outcome_withdraw : Outcome c n c.withdraw := .ends rfl rfl rfl rfl

theorem outcome_maybeAutoRollback : Outcome c c.candidateWindow.requests c.maybeAutoRollback := by
  unfold maybeAutoRollback
  split_ifs
  · exact .refl
  · exact outcome_withdraw
  · exact .refl

theorem requests_file (canary : Bool) : (c.file canary s).candidateWindow.requests =
    c.candidateWindow.requests + if canary then 1 else 0 := by
  cases canary <;> rfl

theorem Outcome.congr {c₁ : Controller} (h : Outcome c₁ n c') (hcfg : c₁.cfg = c.cfg)
    (hg : c₁.generation = c.generation) (hc : c₁.candidate = c.candidate)
    (hh : c₁.hasCandidate = c.hasCandidate) : Outcome c n c' := by
  cases h with
  | goesOn hcfg' hg' hw hc' hh' =>
    exact .goesOn (hcfg'.trans hcfg) (hg'.trans hg) hw (hc'.trans hc) (hh'.trans hh)
  | ends hcfg' hg' hw hh' => exact .ends (hcfg'.trans hcfg) (hg'.trans (by rw [hg])) hw hh'

theorem Outcome.of_file {canary : Bool} (h : Outcome (c.file canary s) n c') : Outcome c n c' := by
  cases canary <;> exact h.congr rfl rfl rfl rfl

theorem Outcome.of_release (h : Outcome (c.release l) n c') : Outcome c n c' :=
  h.congr rfl rfl rfl rfl

theorem outcome_record : Outcome c (c.candidateWindow.requests + if l.canary then 1 else 0)
    (c.record l s) := by
  have hfiled : Outcome ((c.release l).file l.canary s)
      ((c.release l).file l.canary s).candidateWindow.requests (c.record l s) := by
    unfold record
    dsimp only
    split
    · exact outcome_maybeAutoRollback
    · exact .refl
  rw [requests_file] at hfiled
  exact hfiled.of_file.of_release

theorem outcome_observeNoEligible :
    Outcome c (c.candidateWindow.requests + if c.inCanary requestKey then 1 else 0)
      (c.observeNoEligible requestKey stratum) := by
  unfold observeNoEligible
  split
  · have h : Outcome (c.file true (noEligibleSample stratum)) _ _ := outcome_maybeAutoRollback
    exact h.of_file
  · have h : Outcome (c.file false (noEligibleSample stratum)) _ _ := .refl
    exact h.of_file

theorem outcome_promote : Outcome c c.candidateWindow.requests c.promote.1 := by
  unfold promote
  split_ifs
  · exact .refl
  · exact .refl
  · exact .ends rfl rfl rfl rfl

theorem outcome_rollback : Outcome c c.candidateWindow.requests (c.rollback cause).1 := by
  unfold rollback
  split_ifs
  · exact .refl
  · exact outcome_withdraw

theorem incumbent_promote {tr : Transition} (h : c.promote = (c', some tr)) :
    c.hasCandidate = true ∧ c'.incumbent = c.candidate ∧
      c.cfg.withDefaults.minPromoteSamples ≤ c.candidateWindow.requests := by
  unfold promote at h
  split_ifs at h with hcanary hverdict
  · cases h
  · cases h
  · cases h
    rw [not_or, Bool.not_eq_false] at hcanary
    exact ⟨hcanary.2, rfl, minPromoteSamples_le_of_promote (not_not.mp hverdict)⟩

end Controller

/-! ### What a call can do -/

namespace Traced

/-- A sample that is the current candidate's own. -/
def Current (st : Traced) (o : Origin) : Prop :=
  st.controller.hasCandidate = true ∧ o = ⟨st.controller.candidate, st.stage⟩

/-- What a call can do. Only a recorded lease can add a sample that is not the candidate's own. -/
inductive Moves (st : Traced) (call : Call) : Traced → Prop
  | idle : Moves st call st
  | stages (c : Controller) (cfg : c.cfg = st.controller.cfg)
      (window : c.candidateWindow.requests = 0) : Moves st call (st.staged c)
  | issues (requestKey : String) : Moves st call { st with
      controller := (st.controller.select requestKey).1
      issued := st.issued ++ [(st.controller.lease requestKey, st.stage)] }
  | files (c : Controller) (origins : List Origin)
      (outcome : st.controller.Outcome
        (st.controller.candidateWindow.requests + origins.length) c)
      (origin : ∀ o ∈ origins, st.Current o ∨ ∃ n s e, call = .record n s ∧
        st.issued[n]? = some e ∧ e.1.canary = true ∧ o = ⟨e.1.policy, e.2⟩) :
      Moves st call (st.filing c origins)

variable {cfg : GateConfig} {st st' : Traced} {call : Call}

theorem length_origins {b : Bool} {o : Origin} :
    (if b then [o] else []).length = if b then 1 else 0 := by
  cases b <;> rfl

theorem mem_origins {b : Bool} {o o' : Origin} (h : o' ∈ if b then [o] else []) :
    b = true ∧ o' = o := by
  cases b with
  | false => cases h
  | true => exact ⟨rfl, List.mem_singleton.mp h⟩

theorem moves_record (n : ℕ) (s : Sample) : Moves st (.record n s) (st.step (.record n s)) := by
  simp only [Traced.step]
  cases he : st.issued[n]? with
  | none => exact .idle
  | some e =>
    refine .files _ _ (by rw [length_origins]; exact outcome_record) ?_
    intro o ho
    obtain ⟨hcanary, rfl⟩ := mem_origins ho
    exact .inr ⟨n, s, e, rfl, he, hcanary, rfl⟩

theorem moves_observeNoEligible (requestKey stratum : String) :
    Moves st call (st.step (.observeNoEligible requestKey stratum)) := by
  refine .files _ _ (by rw [length_origins]; exact outcome_observeNoEligible) ?_
  intro o ho
  obtain ⟨hcanary, rfl⟩ := mem_origins ho
  simp only [inCanary, Bool.and_eq_true] at hcanary
  exact .inl ⟨hcanary.1.1.2, rfl⟩

theorem Moves.of_outcome {c : Controller}
    (h : st.controller.Outcome st.controller.candidateWindow.requests c) :
    Moves st call (st.filing c []) := .files c [] h (by simp)

theorem moves_step (call : Call) : Moves st call (st.step call) := by
  cases call with
  | beginShadow candidate => exact .stages _ rfl rfl
  | startCanary candidate percent maxRequests =>
    simp only [Traced.step]
    cases hstart : st.controller.startCanary candidate percent maxRequests with
    | error e => exact .idle
    | ok c =>
      obtain ⟨hcfg, hwindow⟩ := startCanary_ok hstart
      exact .stages c hcfg hwindow
  | select requestKey => exact .issues requestKey
  | record n s => exact moves_record n s
  | observeNoEligible requestKey stratum => exact moves_observeNoEligible requestKey stratum
  | release n =>
    simp only [Traced.step]
    cases st.issued[n]? with
    | none => exact .idle
    | some e => exact .of_outcome Controller.Outcome.refl.of_release
  | promote => exact .of_outcome outcome_promote
  | rollback cause => exact .of_outcome outcome_rollback

/-! ### Every run -/

/-- What holds in every run: the origins are as many as the samples of the window, and the leases of
a canary are for its candidate. -/
structure Sound (cfg : GateConfig) (st : Traced) : Prop where
  cfg : st.controller.cfg = cfg.withDefaults
  counted : st.controller.candidateWindow.requests = st.filed.length
  stage : ∀ e ∈ st.issued, e.2 ≤ st.stage
  policy : ∀ e ∈ st.issued, e.1.canary = true → e.2 = st.stage →
    st.controller.hasCandidate = true → e.1.policy = st.controller.candidate

/-- Every sample in the window of the candidate was produced under the candidate, in its stage. -/
def Own (st : Traced) : Prop := ∀ o ∈ st.filed, st.Current o

theorem Sound.moves (h : Sound cfg st) (hmoves : Moves st call st') : Sound cfg st' := by
  cases hmoves with
  | idle => exact h
  | stages c hcfg hwindow =>
    refine ⟨hcfg.trans h.cfg, hwindow, fun e he => (h.stage e he).trans (Nat.le_succ _), ?_⟩
    -- No lease has been issued in the new stage.
    intro e he _ hstage
    have hle := h.stage e he
    have hstage' : e.2 = st.stage + 1 := hstage
    omega
  | issues requestKey =>
    refine ⟨h.cfg, h.counted, ?_, ?_⟩
    · intro e he
      rcases List.mem_append.mp he with he | he
      · exact h.stage e he
      · rw [List.mem_singleton.mp he]
    · intro e he hcanary hstage hcand
      rcases List.mem_append.mp he with he | he
      · exact h.policy e he hcanary hstage hcand
      · rw [List.mem_singleton.mp he] at hcanary ⊢
        exact if_pos hcanary
  | files c origins outcome =>
    cases outcome with
    | goesOn hcfg hg hw hc hh =>
      refine ⟨hcfg.trans h.cfg, ?_, h.stage, ?_⟩
      · simp [Traced.filing, hg, hw, h.counted]
      · intro e he hcanary hstage hcand
        exact (h.policy e he hcanary hstage (hh.symm.trans hcand)).trans hc.symm
    | ends hcfg hg hw hh =>
      refine ⟨hcfg.trans h.cfg, ?_, h.stage, ?_⟩
      · simp [Traced.filing, hg, hw]
      · intro e he hcanary hstage hcand
        exact absurd (hh.symm.trans hcand) Bool.false_ne_true

end Traced

/-- A lease of a canary is recorded while that canary is on: no candidate was staged since the lease
was issued, and the one there was is neither promoted nor withdrawn. -/
def Prompt (st : Traced) : Call → Prop
  | .record n _ => ∀ e, st.issued[n]? = some e → e.1.canary = true →
      e.2 = st.stage ∧ st.controller.hasCandidate = true
  | _ => True

namespace Traced

variable {cfg : GateConfig} {st st' : Traced} {call : Call}

theorem current_of_prompt (hs : Sound cfg st) (hp : Prompt st call) {o : Origin}
    (ho : st.Current o ∨ ∃ n s e, call = .record n s ∧ st.issued[n]? = some e ∧
      e.1.canary = true ∧ o = ⟨e.1.policy, e.2⟩) : st.Current o := by
  rcases ho with ho | ⟨n, s, e, rfl, he, hcanary, rfl⟩
  · exact ho
  · obtain ⟨hstage, hcand⟩ := hp e he hcanary
    have hpolicy := hs.policy e (List.mem_of_getElem? he) hcanary hstage hcand
    exact ⟨hcand, by rw [hpolicy, hstage]⟩

theorem Own.moves (hs : Sound cfg st) (h : Own st) (hp : Prompt st call)
    (hmoves : Moves st call st') : Own st' := by
  cases hmoves with
  | idle => exact h
  | stages c hcfg hwindow =>
    intro o ho
    cases ho
  | issues requestKey => exact h
  | files c origins outcome origin =>
    cases outcome with
    | goesOn hcfg hg hw hc hh =>
      intro o ho
      have hmem : o ∈ st.filed ++ origins := by simpa [Traced.filing, hg] using ho
      show c.hasCandidate = true ∧ o = ⟨c.candidate, st.stage⟩
      rw [hh, hc]
      rcases List.mem_append.mp hmem with hmem | hmem
      · exact h o hmem
      · exact current_of_prompt hs hp (origin o hmem)
    | ends hcfg hg hw hh =>
      intro o ho
      simp [Traced.filing, hg] at ho

theorem sound_new (target incumbent : PolicyRef) (cfg : GateConfig) :
    Sound cfg (.new target incumbent cfg) :=
  ⟨rfl, rfl, by simp [Traced.new], by simp [Traced.new]⟩

/-- The evidence in the window of the candidate is its own: each sample was produced under it in its
stage, and it is promoted on enough samples of this kind. -/
structure Attributed (cfg : GateConfig) (st : Traced) : Prop where
  counted : st.controller.candidateWindow.requests = st.filed.length
  own : Own st
  promoted : ∀ c tr, st.controller.promote = (c, some tr) →
    c.incumbent = st.controller.candidate ∧ cfg.withDefaults.minPromoteSamples ≤
      (st.filed.filter fun o => o = ⟨c.incumbent, st.stage⟩).length

theorem Own.attributed (hs : Sound cfg st) (h : Own st) : Attributed cfg st := by
  refine ⟨hs.counted, h, ?_⟩
  intro c tr hpromote
  obtain ⟨-, hincumbent, hsamples⟩ := incumbent_promote hpromote
  have hall : (st.filed.filter fun o => o = ⟨c.incumbent, st.stage⟩) = st.filed := by
    refine List.filter_eq_self.mpr fun o ho => ?_
    rw [hincumbent, decide_eq_true_iff]
    exact (h o ho).2
  rw [hs.cfg, GateConfig.minPromoteSamples_withDefaults, hs.counted] at hsamples
  exact ⟨hincumbent, by rwa [hall]⟩

end Traced

/-! ### The headline -/

/-- In every run from a new controller whose calls are prompt, the evidence in the window of the
candidate is its own, in every state that is reached. -/
theorem canary_evidence_attributed (target incumbent : PolicyRef) (cfg : GateConfig)
    (calls : List Call) (hcalls : Guarded Traced.step Prompt (.new target incumbent cfg) calls) :
    Traced.Attributed cfg (run Traced.step (.new target incumbent cfg) calls) := by
  -- The invariant of the induction: soundness says which policy a lease of the canary is for.
  have hstep : ∀ st call, Traced.Sound cfg st ∧ Traced.Own st → Prompt st call →
      Traced.Sound cfg (st.step call) ∧ Traced.Own (st.step call) := by
    rintro st call ⟨hsound, hown⟩ hp
    exact ⟨hsound.moves (Traced.moves_step call), hown.moves hsound hp (Traced.moves_step call)⟩
  have hnew : Traced.Own (.new target incumbent cfg) := by
    intro o ho
    cases ho
  obtain ⟨hsound, hown⟩ := run_induction hstep ⟨Traced.sound_new target incumbent cfg, hnew⟩ hcalls
  exact hown.attributed hsound

def singleSampleGate : GateConfig :=
  { defaultGateConfig with minSamples := 1, minPromoteSamples := 1 }

/-- A success, with all signals. -/
def goodSample : Sample where
  success := true
  errorClass := .none
  failover := false
  stratum := ""
  noEligible := false
  hasNoEligibleSignal := true
  budgetAnomaly := false
  hasBudgetAnomalySignal := true
  latencyMS := 0
  ttftMS := 0
  hasTTFT := false

def policyV1 : PolicyRef := ⟨"router", "v1"⟩

def policyV2 : PolicyRef := ⟨"router", "v2"⟩

def policyV3 : PolicyRef := ⟨"router", "v3"⟩

/-- A canary whose one lease is recorded in time. -/
def promptCalls : List Call := [.startCanary policyV2 100 0, .select "", .record 0 goodSample]

theorem promptCalls_attributed :
    Traced.Attributed singleSampleGate
        (run Traced.step (.new policyV1 policyV1 singleSampleGate) promptCalls) ∧
      (run Traced.step (.new policyV1 policyV1 singleSampleGate)
        (promptCalls ++ [.promote])).controller.incumbent = policyV2 := by
  refine ⟨canary_evidence_attributed _ _ _ promptCalls ⟨trivial, trivial, ?_, trivial⟩,
    by decide +kernel⟩
  intro e he _
  have hissued : (run Traced.step (.new policyV1 policyV1 singleSampleGate)
      (promptCalls.take 2)).issued[0]? = some (⟨1, policyV2, 0, true⟩, 1) := by decide +kernel
  cases hissued.symm.trans he
  exact ⟨rfl, rfl⟩

/-- A lease of the canary of `v2` is recorded in the canary of `v3`. -/
def lateCalls : List Call :=
  [.startCanary policyV2 100 0, .select "", .rollback "operator", .startCanary policyV3 100 0,
    .record 0 goodSample]

/-- The one sample in the window of `v3` is from `v2`, and on it `v3` is promoted. -/
theorem lateCalls_promoted :
    (run Traced.step (.new policyV1 policyV1 singleSampleGate) lateCalls).filed =
        [⟨policyV2, 1⟩] ∧
      (run Traced.step (.new policyV1 policyV1 singleSampleGate) lateCalls).controller.candidate =
        policyV3 ∧
      (run Traced.step (.new policyV1 policyV1 singleSampleGate)
        (lateCalls ++ [.promote])).controller.incumbent = policyV3 := by
  decide +kernel

/-! ### Candidates within the limits -/

/-- A recorded sample has both signals, and no request without an eligible deployment is filed with
the candidate: its sample would have no budget signal. -/
def Signalled (st : Traced) : Call → Prop
  | .record _ s => s.hasNoEligibleSignal = true ∧ s.hasBudgetAnomalySignal = true
  | .observeNoEligible requestKey _ => st.controller.inCanary requestKey = false
  | _ => True

/-- Every sample in the window of the candidate has both signals. -/
def Covered (st : Traced) : Prop :=
  let w := st.controller.candidateWindow
  w.noEligibleObserved = w.requests ∧ w.budgetAnomaliesObserved = w.requests

theorem Covered.step {st : Traced} {call : Call} (h : Covered st) (hcall : Signalled st call) :
    Covered (st.step call) := by
  unfold Covered at h ⊢
  cases call with
  | record n s =>
    simp only [Signalled] at hcall
    simp only [Traced.step]
    cases st.issued[n]? <;> grind [Traced.filing, record, release, file, maybeAutoRollback,
      withdraw, Window.observe, Counts.observe, bump]
  | observeNoEligible requestKey stratum =>
    simp only [Signalled] at hcall
    simp only [Traced.step, Traced.filing, observeNoEligible, hcall]
    exact h
  | _ =>
    grind [Traced.step, Traced.filing, Traced.staged, beginShadow, startCanary, select, release,
      promote, rollback, withdraw]

/-- A gate that tolerates failures of every second request. -/
def tolerantGate : GateConfig :=
  { singleSampleGate with maxErrorRate := 1 / 2, maxNoEligibleRate := 1 / 2 }

/-- Two of four requests of the candidate fail, one of them without an eligible deployment. -/
def tolerantCalls : List Call :=
  promptCalls ++ [Call.select "", .record 1 goodSample,
    .select "", .record 2 { goodSample with success := false, errorClass := .serverError },
    .select "", .record 3 { goodSample with
      success := false, errorClass := .noEligible, noEligible := true }]

end NexaRoute.Autopilot
