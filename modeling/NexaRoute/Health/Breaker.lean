import NexaRoute.Machine
import NexaRoute.Health.Verdict

/-!
# The circuit breaker of a provider

Failures of several deployments of one provider within a window open its circuit: the provider is in
cooldown, and unavailable, until a deadline. What comes after the deadline is half open, and one more
failure opens the circuit again.

A cooldown has run out once the clock is *after* the deadline, and it is active while the clock is
*before* it. At the very instant of the deadline it is neither: a failure recorded then is counted as
any other, and unless it comes with enough evidence it leaves the provider degraded, hence available.

## Main results

* `breaker_holds` — the life of an open circuit
-/

namespace NexaRoute.Health

open Go Machine Verdict Manager List
open Router (Status)

variable {d deploymentID : String} {t : Time}

def ProviderState.verdict (st : ProviderState) : Verdict := ⟨st.status, st.cooldownUntil⟩

namespace Manager

def providerVerdict (m : Manager) (p : String) : Verdict := (m.providerOf p).verdict

/-- The evidence against a provider: the deployments with their latest failures. -/
def evidenceOf (m : Manager) (p : String) : Map String Time :=
  (m.providerEvidence.lookup p).getD ∅

end Manager

/-- The verdict a failure comes to, where no active cooldown keeps it from counting. -/
def Manager.failureVerdict (m : Manager) (now : Time) (p deploymentID : String) : Verdict :=
  if ((m.providerVerdict p).normalize now).status = .halfOpen ∨
      m.providerThreshold ≤ (m.freshEvidence now p deploymentID).len then
    ⟨.cooldown, now + m.providerCooldown⟩
  else ⟨.degraded, zeroTime⟩

/-- The verdict about a provider after a call of the breaker. -/
def Call.providerVerdict (c : Call) (m : Manager) (p : String) : Verdict :=
  let v := m.providerVerdict p
  match c.op with
  | .recordProviderFailure p' deploymentID _ =>
    if p = p' ∧ p' ≠ "" then
      if cooling v.status v.cooldownUntil c.now then v else m.failureVerdict c.now p deploymentID
    else v
  | .recordProviderSuccess p' =>
    if p = p' ∧ p' ≠ "" then
      if cooling v.status v.cooldownUntil c.now then v else ⟨.healthy, zeroTime⟩
    else v
  | .providerAvailable p' => if p = p' ∧ p' ≠ "" then v.normalize c.now else v
  | .providerSnapshot => v.normalize c.now
  | _ => v

def Op.ofBreaker : Op → Bool
  | .recordProviderFailure _ _ _ | .recordProviderSuccess _ | .providerAvailable _
  | .providerSnapshot => true
  | _ => false

variable {m : Manager} {c : Call} {p : String} {deadline now : Time} {v : Verdict}

/-! ### What a call does -/

theorem ProviderState.verdict_normalize (st : ProviderState) (now : Time) :
    (normalizeProviderState st now).verdict = st.verdict.normalize now := by
  by_cases h : expired st.status st.cooldownUntil now = true
  · simp [normalizeProviderState, ProviderState.verdict, Verdict.normalize, h]
  · simp [normalizeProviderState, ProviderState.verdict, Verdict.normalize, h]

theorem zeroProvider_normalize (now : Time) :
    ({} : ProviderState).verdict.normalize now = ({} : ProviderState).verdict := by
  simp [Verdict.normalize, ProviderState.verdict, expired]

theorem Manager.providerVerdict_setProvider (m : Manager) (p p' : String) (st : ProviderState) :
    (m.setProvider p' st).providerVerdict p = if p = p' then st.verdict else m.providerVerdict p := by
  rw [providerVerdict, providerOf, setProvider, Map.lookup_insert]
  split <;> rfl

theorem Verdict.normalize_of_cooling (h : cooling v.status v.cooldownUntil now = true) :
    v.normalize now = v := by
  simp only [cooling, Bool.and_eq_true, decide_eq_true_eq] at h
  have hlive : ¬v.cooldownUntil < now := not_lt.mpr h.2.le
  simp [normalize, expired, hlive]

theorem Verdict.normalize_of_cooldown (h : (v.normalize now).status = .cooldown) :
    v.normalize now = v := by
  unfold normalize at h ⊢
  split at h
  · cases h
  · next hlive => exact if_neg hlive

theorem Verdict.cooling_normalize (v : Verdict) (now : Time) :
    cooling (v.normalize now).status (v.normalize now).cooldownUntil now =
      cooling v.status v.cooldownUntil now := by
  unfold normalize
  split
  · next h =>
    simp only [expired, Bool.and_eq_true, decide_eq_true_eq] at h
    have hpast : ¬now < v.cooldownUntil := not_lt.mpr h.2.le
    simp [cooling, hpast]
  · rfl

theorem providerVerdict_failure (hp : p ≠ "") (deploymentID reason : String) :
    (m.recordProviderFailure now p deploymentID reason).providerVerdict p =
      if cooling (m.providerVerdict p).status (m.providerVerdict p).cooldownUntil now then
        m.providerVerdict p
      else m.failureVerdict now p deploymentID := by
  have hnorm := ProviderState.verdict_normalize (m.providerOf p) now
  have hstatus : (normalizeProviderState (m.providerOf p) now).status =
      ((m.providerVerdict p).normalize now).status := congrArg status hnorm
  have huntil : (normalizeProviderState (m.providerOf p) now).cooldownUntil =
      ((m.providerVerdict p).normalize now).cooldownUntil := congrArg cooldownUntil hnorm
  unfold recordProviderFailure
  rw [if_neg hp]
  simp only [hstatus, huntil, cooling_normalize]
  by_cases hc : cooling (m.providerVerdict p).status (m.providerVerdict p).cooldownUntil now = true
  · rw [if_pos hc, if_pos hc, providerVerdict_setProvider, if_pos rfl]
    show (m.providerVerdict p).normalize now = m.providerVerdict p
    exact normalize_of_cooling hc
  · rw [if_neg hc, if_neg hc]
    by_cases hh : ((m.providerVerdict p).normalize now).status = .halfOpen
    · rw [if_pos hh, failureVerdict, if_pos (.inl hh)]
      exact (providerVerdict_setProvider m p p _).trans (if_pos rfl)
    · rw [if_neg hh, failureVerdict, providerVerdict_setProvider, if_pos rfl]
      by_cases ht : m.providerThreshold ≤ (m.freshEvidence now p deploymentID).len
      · rw [if_pos ht, if_pos (.inr ht)]
        rfl
      · rw [if_neg ht, if_neg (not_or.mpr ⟨hh, ht⟩)]
        rfl

theorem providerVerdict_available (hp : p ≠ "") :
    (m.providerAvailable now p).1.providerVerdict p = (m.providerVerdict p).normalize now := by
  unfold providerAvailable
  rw [if_neg hp]
  cases hst : m.providers.lookup p with
  | none =>
    have hzero : m.providerVerdict p = ({} : ProviderState).verdict := by
      simp [providerVerdict, providerOf, hst]
    simp only [hzero, zeroProvider_normalize]
  | some st =>
    have hverdict : m.providerVerdict p = st.verdict := by
      simp [providerVerdict, providerOf, hst]
    simp only
    split
    · next hlive =>
      -- nothing has run out, so there is nothing to write
      have hnot : expired st.status st.cooldownUntil now = false := by
        rcases hlive with h | h | h
        · simp [expired, h]
        · simp [expired, h]
        · simp [expired, not_lt.mpr h.le]
      rw [hverdict]
      simp [Verdict.normalize, ProviderState.verdict, hnot]
    · rw [providerVerdict_setProvider, if_pos rfl, hverdict, ProviderState.verdict_normalize]

/-- The calls about one provider do nothing without its name, and nothing to the others. -/
theorem providerVerdict_named {m' : Manager} {p' : String} {w : Verdict} (hempty : p' = "" → m' = m)
    (hother : p' ≠ "" → p ≠ p' → m'.providerVerdict p = m.providerVerdict p)
    (hown : p = p' → p ≠ "" → m'.providerVerdict p = w) :
    m'.providerVerdict p = if p = p' ∧ p' ≠ "" then w else m.providerVerdict p := by
  by_cases hp' : p' = ""
  · simp [hempty hp', hp']
  · split
    · next h => exact hown h.1 (h.1 ▸ hp')
    · next h => exact hother hp' fun hp => h ⟨hp, hp'⟩

/-- **The verdict about a provider after a call** of the breaker. -/
theorem providerVerdict_step (hop : c.op.ofBreaker) :
    (m.step c).providerVerdict p = c.providerVerdict m p := by
  obtain ⟨op, now, now'⟩ := c
  cases op with
  | recordProviderFailure p' deploymentID reason =>
    refine providerVerdict_named (fun h => if_pos h) (fun hp' hp => ?_) ?_
    · simp only [step, recordProviderFailure, if_neg hp']
      split_ifs <;> exact (providerVerdict_setProvider _ p p' _).trans (if_neg hp)
    · rintro rfl hp
      exact providerVerdict_failure hp deploymentID reason
  | recordProviderSuccess p' =>
    refine providerVerdict_named (fun h => if_pos h) (fun hp' hp => ?_) ?_
    · simp only [step, recordProviderSuccess, if_neg hp']
      split_ifs <;> exact (providerVerdict_setProvider m p p' _).trans (if_neg hp)
    · rintro rfl hp
      simp only [step, recordProviderSuccess, if_neg hp]
      have hown := providerVerdict_setProvider m p p
      split
      · next hc => exact (hown _).trans ((if_pos rfl).trans (if_pos hc).symm)
      · next hc => exact (hown _).trans ((if_pos rfl).trans (if_neg hc).symm)
  | providerAvailable p' =>
    refine providerVerdict_named (fun hp' => congrArg Prod.fst (if_pos hp')) (fun hp' hp => ?_) ?_
    · simp only [step, providerAvailable, if_neg hp']
      split
      · rfl
      · split
        · rfl
        · exact (providerVerdict_setProvider m p p' _).trans (if_neg hp)
    · rintro rfl hp
      exact providerVerdict_available hp
  | providerSnapshot =>
    simp only [step, Call.providerVerdict, providerVerdict, providerOf, providerSnapshot,
      Map.lookup_mapVals]
    cases m.providers.lookup p with
    | none => exact (zeroProvider_normalize now).symm
    | some st => exact ProviderState.verdict_normalize st now
  | _ => cases hop

theorem providerConfig_step (hop : c.op.ofBreaker) :
    (m.step c).providerThreshold = m.providerThreshold ∧
      (m.step c).providerWindow = m.providerWindow := by
  obtain ⟨op, now, now'⟩ := c
  cases op with
  | recordProviderFailure p' deploymentID reason =>
    simp only [step, recordProviderFailure]
    split_ifs <;> exact ⟨rfl, rfl⟩
  | recordProviderSuccess p' =>
    simp only [step, recordProviderSuccess]
    split_ifs <;> exact ⟨rfl, rfl⟩
  | providerAvailable p' =>
    simp only [step, providerAvailable]
    split
    · exact ⟨rfl, rfl⟩
    · split
      · exact ⟨rfl, rfl⟩
      · split <;> exact ⟨rfl, rfl⟩
  | providerSnapshot => exact ⟨rfl, rfl⟩
  | _ => cases hop

/-! ### Evidence -/

theorem mem_freshEvidence (h : (m.freshEvidence now p deploymentID).lookup d = some t) :
    d = evidenceID p deploymentID ∧ t = now ∨
      (m.evidenceOf p).lookup d = some t ∧ now - t ≤ m.providerWindow := by
  rw [freshEvidence, Map.lookup_insert, Map.lookup_keep] at h
  split at h
  · next hd => exact .inl ⟨hd, (Option.some.inj h).symm⟩
  · obtain ⟨hlookup, hfresh⟩ := Option.filter_eq_some_iff.mp h
    exact .inr ⟨hlookup, not_lt.mp (by simpa using hfresh)⟩

theorem evidence_step (hop : c.op.ofBreaker) (h : ((m.step c).evidenceOf p).lookup d = some t) :
    (m.evidenceOf p).lookup d = some t ∨ ∃ deploymentID reason,
      c.op = .recordProviderFailure p deploymentID reason ∧
        d = evidenceID p deploymentID ∧ t = c.now := by
  obtain ⟨op, now, now'⟩ := c
  cases op with
  | recordProviderFailure p' deploymentID reason =>
    simp only [step, recordProviderFailure] at h
    split_ifs at h
    · exact .inl h
    · exact .inl h
    · simp only [evidenceOf, Map.lookup_insert] at h
      split at h
      · next hp =>
        subst hp
        simp only [Option.getD_some, ← AList.insert_empty, Map.lookup_insert] at h
        split at h
        · next hd => exact .inr ⟨deploymentID, reason, rfl, hd, (Option.some.inj h).symm⟩
        · simp at h
      · exact .inl h
    all_goals
      simp only [evidenceOf, setProvider, Map.lookup_insert] at h
      split at h
      · next hp =>
        subst hp
        rcases mem_freshEvidence h with ⟨hd, ht⟩ | ⟨hlookup, -⟩
        · exact .inr ⟨deploymentID, reason, rfl, hd, ht⟩
        · exact .inl hlookup
      · exact .inl h
  | recordProviderSuccess p' =>
    simp only [step, recordProviderSuccess] at h
    split_ifs at h
    · exact .inl h
    · exact .inl h
    · simp only [evidenceOf, Map.lookup_erase] at h
      split at h
      · simp at h
      · exact .inl h
  | providerAvailable p' =>
    refine .inl ?_
    simp only [step, providerAvailable] at h
    split at h
    · exact h
    · split at h
      · exact h
      · split at h <;> exact h
  | providerSnapshot => exact .inl h
  | _ => cases hop

variable {m₀ : Manager} {calls made : List Call}

/-- **Evidence is failures that were recorded.** -/
theorem evidence_recorded (h₀ : m₀.providerEvidence = ∅) (hops : ∀ c ∈ made, c.op.ofBreaker)
    (h : ((run step m₀ made).evidenceOf p).lookup d = some t) :
    ∃ c ∈ made, ∃ deploymentID reason, c.op = .recordProviderFailure p deploymentID reason ∧
      d = evidenceID p deploymentID ∧ t = c.now := by
  induction made using reverseRecOn with
  | nil => simp [evidenceOf, h₀] at h
  | append_singleton made c ih =>
    rw [run_append, run_cons, run_nil] at h
    rcases evidence_step (hops c (by simp)) h with h | ⟨deploymentID, reason, hop, hd, ht⟩
    · obtain ⟨c', hc', hrec⟩ := ih (fun c' hc' => hops c' (by simp [hc'])) h
      exact ⟨c', by simp [hc'], hrec⟩
    · exact ⟨c, by simp, deploymentID, reason, hop, hd, ht⟩

theorem providerConfig_run (m₀ : Manager) (hops : ∀ c ∈ made, c.op.ofBreaker) :
    (run step m₀ made).providerThreshold = m₀.providerThreshold ∧
      (run step m₀ made).providerWindow = m₀.providerWindow := by
  induction made generalizing m₀ with
  | nil => exact ⟨rfl, rfl⟩
  | cons c made ih =>
    obtain ⟨ht', hw'⟩ := providerConfig_step (m := m₀) (hops c mem_cons_self)
    rw [run_cons, ← ht', ← hw']
    exact ih _ fun c' hc' => hops c' (mem_cons_of_mem c hc')

/-! ### The rules -/

/-- The call reports an outcome of the provider. -/
def Op.reports (p : String) : Op → Prop
  | .recordProviderFailure p' _ _ | .recordProviderSuccess p' => p' = p
  | _ => False

/-- At least `threshold` deployments of the provider failed within the window before `now`. -/
def Implicated (calls : List Call) (p : String) (threshold : ℤ) (window : Duration) (now : Time) :
    Prop :=
  ∃ ds : List String, ds.Nodup ∧ threshold ≤ ds.length ∧ ∀ d ∈ ds, ∃ c ∈ calls,
    ∃ deploymentID reason, c.op = .recordProviderFailure p deploymentID reason ∧
      d = Manager.evidenceID p deploymentID ∧ c.now ≤ now ∧ now - c.now ≤ window

/-- A provider enters cooldown only by a failure, when it is half open or enough of its deployments
failed. -/
def OpensOnEvidence (m₀ : Manager) (calls : List Call) (p : String) : Prop :=
  ∀ made c rest, calls = made ++ c :: rest →
    (((run Manager.step m₀ made).step c).providerVerdict p).status = .cooldown →
    ((run Manager.step m₀ made).step c).providerVerdict p ≠
      (run Manager.step m₀ made).providerVerdict p →
    (∃ deploymentID reason, c.op = .recordProviderFailure p deploymentID reason) ∧
      ((((run Manager.step m₀ made).providerVerdict p).normalize c.now).status = .halfOpen ∨
        Implicated (made ++ [c]) p m₀.providerThreshold m₀.providerWindow c.now)

/-- A provider in cooldown is unavailable until its deadline, which stays. -/
def OpenUntilDeadline (m₀ : Manager) (calls : List Call) (p : String) : Prop :=
  ∀ made later rest deadline, calls = made ++ later ++ rest →
    (run Manager.step m₀ made).providerVerdict p = ⟨.cooldown, deadline⟩ →
    (∀ c ∈ later, c.now < deadline) →
    (run Manager.step m₀ (made ++ later)).providerVerdict p = ⟨.cooldown, deadline⟩ ∧
      ∀ t < deadline, ((run Manager.step m₀ (made ++ later)).providerAvailable t p).2 = false

/-- The first failure at or after the deadline, with no success at or after it, opens the circuit
again. -/
def ReopensOnFailure (m₀ : Manager) (calls : List Call) (p : String) : Prop :=
  ∀ made between c rest deadline deploymentID reason, calls = made ++ between ++ c :: rest →
    (run Manager.step m₀ made).providerVerdict p = ⟨.cooldown, deadline⟩ →
    (∀ c' ∈ between, deadline ≤ c'.now → ¬c'.op.reports p) →
    c.op = .recordProviderFailure p deploymentID reason → deadline ≤ c.now →
    ((run Manager.step m₀ (made ++ between ++ [c])).providerVerdict p).status = .cooldown

/-- A failure that comes at the very instant of the deadline comes with enough evidence, and no
report meets a cooldown whose deadline is the zero time. -/
def Decisive (m : Manager) (c : Call) : Prop :=
  match c.op with
  | .recordProviderFailure p deploymentID _ =>
    (m.providerOf p).status = .cooldown → (m.providerOf p).cooldownUntil ≠ zeroTime ∧
      ((m.providerOf p).cooldownUntil = c.now →
        m.providerThreshold ≤ (m.freshEvidence c.now p deploymentID).len)
  | .recordProviderSuccess p =>
    (m.providerOf p).status = .cooldown → (m.providerOf p).cooldownUntil ≠ zeroTime
  | _ => True

instance (m : Manager) (c : Call) : Decidable (Decisive m c) := by
  unfold Decisive
  split <;> infer_instance

theorem opensOnEvidence (h₀ : m₀.providerEvidence = ∅) (hpos : 0 < m₀.providerWindow)
    (hops : ∀ c ∈ calls, c.op.ofBreaker)
    (hclock : calls.Pairwise fun c c' => c.now ≤ c'.now) : OpensOnEvidence m₀ calls p := by
  rintro made c rest rfl hopen hnew
  have hmade : ∀ c' ∈ made, c'.op.ofBreaker := fun c' hc' => hops c' (by simp [hc'])
  have hle : ∀ c' ∈ made, c'.now ≤ c.now := fun c' hc' =>
    (pairwise_append.mp hclock).2.2 c' hc' c mem_cons_self
  obtain ⟨hthreshold, hwindow⟩ := providerConfig_run m₀ hmade
  have hop : c.op.ofBreaker := hops c (by simp)
  rw [providerVerdict_step hop] at hopen hnew
  generalize hm : run step m₀ made = m at *
  obtain ⟨op, now, now'⟩ := c
  cases op with
  | recordProviderFailure p' deploymentID reason =>
    by_cases hp : p = p' ∧ p' ≠ ""
    · obtain ⟨rfl, hp'⟩ := hp
      refine ⟨⟨deploymentID, reason, rfl⟩, ?_⟩
      simp only [Call.providerVerdict, ne_eq, hp', not_false_eq_true, and_self, if_true] at hopen hnew
      split at hnew
      · exact absurd rfl hnew
      · next hc =>
        rw [if_neg hc, failureVerdict] at hopen
        split at hopen
        · next hwhy =>
          refine hwhy.imp id fun hlen => ?_
          rw [hthreshold, Map.len_eq_length_keys] at hlen
          refine ⟨_, AList.keys_nodup _, hlen, fun d hd => ?_⟩
          obtain ⟨t, ht⟩ := (Map.mem_keys_iff _ d).mp hd
          rcases mem_freshEvidence ht with ⟨hd, -⟩ | ⟨hlookup, hfresh⟩
          · refine ⟨_, mem_append_right made (mem_singleton_self _), deploymentID, reason,
              rfl, hd, le_rfl, ?_⟩
            rw [sub_self]
            exact hpos.le
          · rw [← hm] at hlookup
            obtain ⟨c', hc', deploymentID', reason', hop', hd', rfl⟩ :=
              evidence_recorded h₀ hmade hlookup
            exact ⟨c', mem_append_left _ hc', deploymentID', reason', hop', hd', hle c' hc',
              hwindow ▸ hfresh⟩
        · cases hopen
    · simp [Call.providerVerdict, hp] at hnew
  | recordProviderSuccess p' =>
    exfalso
    simp only [Call.providerVerdict] at hopen hnew
    split at hnew
    · next hp =>
      rw [if_pos hp] at hopen
      split at hnew
      · exact hnew rfl
      · next hc =>
        rw [if_neg hc] at hopen
        cases hopen
    · exact hnew rfl
  | providerAvailable p' =>
    exfalso
    simp only [Call.providerVerdict] at hopen hnew
    split at hnew
    · next hp =>
      rw [if_pos hp] at hopen
      exact hnew (normalize_of_cooldown hopen)
    · exact hnew rfl
  | providerSnapshot => exact absurd (normalize_of_cooldown hopen) hnew
  | _ => cases hop

theorem providerVerdict_empty (hop : c.op.ofBreaker)
    (h : (m.providerVerdict "").status ≠ .cooldown) :
    ((m.step c).providerVerdict "").status ≠ .cooldown := by
  rw [providerVerdict_step hop]
  intro hopen
  obtain ⟨op, now, now'⟩ := c
  cases op with
  | recordProviderFailure p' | recordProviderSuccess p' | providerAvailable p' =>
    have hp : ¬("" = p' ∧ p' ≠ "") := fun hp => hp.2 hp.1.symm
    exact h (by simpa only [Call.providerVerdict, if_neg hp] using hopen)
  | providerSnapshot =>
    have hsame := normalize_of_cooldown hopen
    exact h (hsame ▸ hopen)
  | _ => cases hop

theorem ne_empty_of_cooldown (h₀ : m₀.providers = ∅) (hops : ∀ c ∈ made, c.op.ofBreaker)
    (h : ((run step m₀ made).providerVerdict p).status = .cooldown) : p ≠ "" := by
  rintro rfl
  refine absurd h ?_
  clear h
  induction made using reverseRecOn with
  | nil => simp [providerVerdict, providerOf, ProviderState.verdict, h₀]
  | append_singleton made c ih =>
    rw [run_append, run_cons, run_nil]
    exact providerVerdict_empty (hops c (by simp)) (ih fun c' hc' => hops c' (by simp [hc']))

theorem Verdict.normalize_of_le (h : now ≤ deadline) :
    (⟨.cooldown, deadline⟩ : Verdict).normalize now = ⟨.cooldown, deadline⟩ := by
  simp [normalize, expired, not_lt.mpr h]

theorem cooldown_step (hop : c.op.ofBreaker) (hdec : Decisive m c)
    (hv : m.providerVerdict p = ⟨.cooldown, deadline⟩) (hnow : c.now < deadline) :
    (m.step c).providerVerdict p = ⟨.cooldown, deadline⟩ := by
  have hstatus : (m.providerOf p).status = .cooldown := congrArg status hv
  have huntil : (m.providerOf p).cooldownUntil = deadline := congrArg cooldownUntil hv
  have hcooling : deadline ≠ zeroTime → cooling .cooldown deadline c.now = true := fun hz => by
    simp [cooling, hz, hnow]
  rw [providerVerdict_step hop]
  obtain ⟨op, now, now'⟩ := c
  cases op with
  | recordProviderFailure p' deploymentID reason =>
    simp only [Call.providerVerdict, hv]
    split
    · next hp =>
      obtain ⟨rfl, -⟩ := hp
      exact if_pos (hcooling (huntil ▸ (hdec hstatus).1))
    · rfl
  | recordProviderSuccess p' =>
    simp only [Call.providerVerdict, hv]
    split
    · next hp =>
      obtain ⟨rfl, -⟩ := hp
      exact if_pos (hcooling (huntil ▸ hdec hstatus))
    · rfl
  | providerAvailable p' =>
    simp only [Call.providerVerdict, hv, normalize_of_le hnow.le, ite_self]
  | providerSnapshot => simp only [Call.providerVerdict, hv, normalize_of_le hnow.le]
  | _ => cases hop

theorem cooldown_run {later : List Call} (hops : ∀ c ∈ later, c.op.ofBreaker)
    (hdec : Guarded step Decisive m later)
    (hv : m.providerVerdict p = ⟨.cooldown, deadline⟩) (hnow : ∀ c ∈ later, c.now < deadline) :
    (run step m later).providerVerdict p = ⟨.cooldown, deadline⟩ := by
  induction later generalizing m with
  | nil => exact hv
  | cons c later ih =>
    have hc := cooldown_step (hops c mem_cons_self) hdec.1 hv (hnow c mem_cons_self)
    exact ih (fun c' hc' => hops c' (mem_cons_of_mem c hc')) hdec.2 hc
      fun c' hc' => hnow c' (mem_cons_of_mem c hc')

theorem unavailable_of_cooldown (hp : p ≠ "") (hv : m.providerVerdict p = ⟨.cooldown, deadline⟩)
    (hnow : now < deadline) : (m.providerAvailable now p).2 = false := by
  have hstatus : (m.providerOf p).status = .cooldown := congrArg status hv
  have huntil : (m.providerOf p).cooldownUntil = deadline := congrArg cooldownUntil hv
  cases hst : m.providers.lookup p with
  | none => simp [providerOf, hst] at hstatus
  | some st =>
    simp only [providerOf, hst, Option.getD_some] at hstatus huntil
    simp [providerAvailable, hp, hst, hstatus, huntil, hnow]

theorem openUntilDeadline (h₀ : m₀.providers = ∅) (hops : ∀ c ∈ calls, c.op.ofBreaker)
    (hdec : Guarded step Decisive m₀ calls) : OpenUntilDeadline m₀ calls p := by
  rintro made later rest deadline rfl hv hnow
  have hp : p ≠ "" := ne_empty_of_cooldown h₀ (fun c hc => hops c (by simp [hc]))
    (congrArg status hv)
  rw [append_assoc, guarded_append, guarded_append] at hdec
  have hstays : (run step m₀ (made ++ later)).providerVerdict p = ⟨.cooldown, deadline⟩ := by
    rw [run_append]
    exact cooldown_run (fun c hc => hops c (by simp [hc])) hdec.2.1 hv hnow
  exact ⟨hstays, fun t ht => unavailable_of_cooldown hp hstays ht⟩

theorem providerVerdict_of_not_reports (hop : c.op.ofBreaker) (hreports : ¬c.op.reports p) :
    (m.step c).providerVerdict p = m.providerVerdict p ∨
      (m.step c).providerVerdict p = (m.providerVerdict p).normalize c.now := by
  rw [providerVerdict_step hop]
  obtain ⟨op, now, now'⟩ := c
  cases op with
  | recordProviderFailure p' | recordProviderSuccess p' =>
    have hp : ¬(p = p' ∧ p' ≠ "") := fun hp => hreports hp.1.symm
    exact .inl (if_neg hp)
  | providerAvailable p' =>
    by_cases hp : p = p' ∧ p' ≠ ""
    · exact .inr (if_pos hp)
    · exact .inl (if_neg hp)
  | providerSnapshot => exact .inr rfl
  | _ => cases hop

/-- The provider waits for the outcome that decides about it: its cooldown runs until the deadline,
or it is half open and every call to come is made after the deadline. -/
def Awaits (p : String) (deadline : Time) (m : Manager) (calls : List Call) : Prop :=
  m.providerVerdict p = ⟨.cooldown, deadline⟩ ∨
    (m.providerVerdict p).status = .halfOpen ∧ ∀ c ∈ calls, deadline ≤ c.now

theorem awaits_step {rest : List Call} (hop : c.op.ofBreaker) (hdec : Decisive m c)
    (hreports : deadline ≤ c.now → ¬c.op.reports p) (hclock : ∀ c' ∈ rest, c.now ≤ c'.now)
    (h : Awaits p deadline m (c :: rest)) : Awaits p deadline (m.step c) rest := by
  rcases h with hv | ⟨hhalf, hpast⟩
  · by_cases hnow : c.now < deadline
    · exact .inl (cooldown_step hop hdec hv hnow)
    · have hle : deadline ≤ c.now := not_lt.mp hnow
      rcases providerVerdict_of_not_reports hop (hreports hle) with hsame | hread
      · exact .inl (hsame.trans hv)
      · by_cases hexp : expired .cooldown deadline c.now = true
        · refine .inr ⟨?_, fun c' hc' => hle.trans (hclock c' hc')⟩
          simp [hread, hv, Verdict.normalize, hexp]
        · refine .inl (hread.trans ?_)
          simp [hv, Verdict.normalize, hexp]
  · have hle : deadline ≤ c.now := hpast c mem_cons_self
    have hread : (m.providerVerdict p).normalize c.now = m.providerVerdict p := by
      simp [Verdict.normalize, expired, hhalf]
    have hsame : (m.step c).providerVerdict p = m.providerVerdict p :=
      (providerVerdict_of_not_reports hop (hreports hle)).elim id fun h => h.trans hread
    exact .inr ⟨hsame ▸ hhalf, fun c' hc' => hle.trans (hclock c' hc')⟩

theorem reopens_step {reason : String} (hp : p ≠ "")
    (hop : c.op = .recordProviderFailure p deploymentID reason) (hdec : Decisive m c)
    (hnow : deadline ≤ c.now) (h : Awaits p deadline m [c]) :
    ((m.step c).providerVerdict p).status = .cooldown := by
  obtain ⟨op, now, now'⟩ := c
  subst hop
  have hbreaker : (Op.recordProviderFailure p deploymentID reason).ofBreaker = true := rfl
  rw [providerVerdict_step hbreaker]
  simp only [Call.providerVerdict, ne_eq, hp, not_false_eq_true, and_self, if_true]
  split
  · next hc =>
    simp only [cooling, Bool.and_eq_true, decide_eq_true_eq] at hc
    exact hc.1.1
  · rcases h with hv | ⟨hhalf, -⟩
    · obtain ⟨hz, hinstant⟩ := hdec (congrArg status hv)
      have huntil : (m.providerOf p).cooldownUntil = deadline := congrArg cooldownUntil hv
      rw [huntil] at hz hinstant
      rw [failureVerdict, if_pos]
      rcases hnow.lt_or_eq with hlt | heq
      · have hexp : expired .cooldown deadline now = true := by
          simpa [expired, hz] using hlt
        simp [hv, Verdict.normalize, hexp]
      · exact .inr (hinstant heq)
    · have hread : (m.providerVerdict p).normalize now = m.providerVerdict p := by
        simp [Verdict.normalize, expired, hhalf]
      rw [failureVerdict, hread, if_pos (.inl hhalf)]

theorem reopens_run {between : List Call} {reason : String} (hp : p ≠ "")
    (hops : ∀ c' ∈ between, c'.op.ofBreaker)
    (hclock : (between ++ [c]).Pairwise fun c c' => c.now ≤ c'.now)
    (hdec : Guarded step Decisive m (between ++ [c]))
    (hreports : ∀ c' ∈ between, deadline ≤ c'.now → ¬c'.op.reports p)
    (hop : c.op = .recordProviderFailure p deploymentID reason) (hnow : deadline ≤ c.now)
    (h : Awaits p deadline m (between ++ [c])) :
    ((run step m (between ++ [c])).providerVerdict p).status = .cooldown := by
  induction between generalizing m with
  | nil => exact reopens_step hp hop hdec.1 hnow h
  | cons c' between ih =>
    obtain ⟨hfirst, hrest⟩ := pairwise_cons.mp hclock
    have hnext := awaits_step (hops c' mem_cons_self) hdec.1
      (hreports c' mem_cons_self) hfirst h
    exact ih (fun c'' hc'' => hops c'' (mem_cons_of_mem c' hc'')) hrest hdec.2
      (fun c'' hc'' => hreports c'' (mem_cons_of_mem c' hc'')) hnext

theorem reopensOnFailure (h₀ : m₀.providers = ∅) (hops : ∀ c ∈ calls, c.op.ofBreaker)
    (hclock : calls.Pairwise fun c c' => c.now ≤ c'.now)
    (hdec : Guarded step Decisive m₀ calls) : ReopensOnFailure m₀ calls p := by
  rintro made between c rest deadline deploymentID reason rfl hv hreports hop hnow
  have hp : p ≠ "" := ne_empty_of_cooldown h₀ (fun c hc => hops c (by simp [hc]))
    (congrArg status hv)
  have hsplit : made ++ between ++ c :: rest = made ++ (between ++ [c]) ++ rest := by simp
  rw [hsplit, append_assoc] at hclock hdec
  rw [guarded_append, guarded_append] at hdec
  have hlater := (pairwise_append.mp (pairwise_append.mp hclock).2.1).1
  rw [append_assoc, run_append]
  exact reopens_run hp (fun c' hc' => hops c' (by simp [hc'])) hlater hdec.2.1 hreports hop hnow
    (.inl hv)

/-- **The circuit breaker.** In every run whose calls are decisive, a provider enters cooldown only
on enough evidence or half open, stays unavailable until the deadline, and returns to cooldown with
the first failure after it. -/
theorem breaker_holds (h₀ : m₀.providers = ∅) (he : m₀.providerEvidence = ∅)
    (hpos : 0 < m₀.providerWindow) (hops : ∀ c ∈ calls, c.op.ofBreaker)
    (hclock : calls.Pairwise fun c c' => c.now ≤ c'.now)
    (hdec : Guarded Manager.step Decisive m₀ calls) (p : String) :
    OpensOnEvidence m₀ calls p ∧ OpenUntilDeadline m₀ calls p ∧ ReopensOnFailure m₀ calls p :=
  ⟨opensOnEvidence he hpos hops hclock, openUntilDeadline h₀ hops hdec,
    reopensOnFailure h₀ hops hclock hdec⟩

/-- Failures of three deployments, which open the circuit until 30 s, and one at a later time. -/
def outage (late : Time) : List Call :=
  [⟨.recordProviderFailure "p" "a" "timeout", 0, 0⟩,
    ⟨.recordProviderFailure "p" "b" "timeout", 0, 0⟩,
    ⟨.recordProviderFailure "p" "c" "timeout", 0, 0⟩,
    ⟨.recordProviderFailure "p" "a" "timeout", late, late⟩]

/-- A failure after the deadline opens the circuit again. -/
theorem breaker_holds_outage :
    ((run Manager.step (Manager.new 3 (60 * second)) (outage (31 * second))).providerVerdict
      "p").status = .cooldown := by
  have h : ReopensOnFailure (new 3 (60 * second)) (outage (31 * second)) "p" :=
    (breaker_holds rfl rfl (by decide) (by decide) (by decide) (by decide) "p").2.2
  exact h ((outage 0).take 3) [] _ [] (30 * second) "a" "timeout" rfl (by decide) (by simp) rfl
    (by decide)

/-- A failure at the very deadline closes it. -/
theorem failure_at_deadline_degrades :
    ¬∀ calls : List Call, (∀ c ∈ calls, c.op.ofBreaker) →
      (calls.Pairwise fun c c' => c.now ≤ c'.now) →
        ReopensOnFailure (Manager.new 3 (60 * second)) calls "p" := by
  intro h
  have hreopens := h (outage (30 * second)) (by decide) (by decide)
    ((outage 0).take 3) [] _ [] (30 * second) "a" "timeout" rfl (by decide) (by simp) rfl (by decide)
  revert hreopens
  decide

end NexaRoute.Health
