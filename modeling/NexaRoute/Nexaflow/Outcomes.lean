import NexaRoute.Nexaflow.Facts

/-!
# Who records the outcome of an attempt

A worker dispatches its job by a save that expects the row as it was claimed. A lease can run out
before that, and then another engine may claim and dispatch the row: the save is refused. The worker
reports the refusal as the result of the job, and the engine records it like any other result, for
the row in whatever state it finds it: a failure `internal_error` in the place of the attempt that
runs elsewhere.

The refusal is harmless if the row has ended by then, in any state but `failed`, or if a memory store
already has a later attempt: then the row takes no such outcome any more. Where every refused
dispatch is of this kind, outcomes are recorded only for jobs that were dispatched.

## Main results

* `outcomes_of_dispatched` — outcomes are of jobs that were dispatched
-/

namespace NexaRoute.Nexaflow

open Go Interleave Option

variable {exec row : NodeExecution} {env : Env} {n : Slot}

/-- The job that a save of `recordOutcome` is for. -/
def Site.job? : Site → Option ℕ
  | .outcome i | .retry i | .park i => some i
  | _ => none

/-- The row takes no outcome of a job whose dispatch was refused. -/
def Closed (kind : StoreKind) (w : StoreState) (k : String × String × ℤ) (row : NodeExecution) :
    Prop :=
  row.state.terminal = true ∧ row.state ≠ .failed ∨ kind = .memory ∧ Superseded w k

instance (kind : StoreKind) (w : StoreState) (k : String × String × ℤ) (row : NodeExecution) :
    Decidable (Closed kind w k row) :=
  inferInstanceAs (Decidable (_ ∧ _ ∨ _ ∧ _))

/-- A dispatch finds its row claimed, or closed. -/
def DispatchAnswered (kind : StoreKind) (w : StoreState) (_ : ELog) (_ : ℕ) (_ : Option ℕ) :
    Op → Env → Prop
  | .save .dispatch exec _, _ => ∀ row ∈ w.row? exec.key, row.state = .claimed ∨
      Closed kind w exec.key row
  | _, _ => True

instance (kind : StoreKind) (w : StoreState) (log : ELog) (t : ℕ) (i : Option ℕ) (op : Op)
    (e : Env) : Decidable (DispatchAnswered kind w log t i op e) := by
  unfold DispatchAnswered
  split <;> infer_instance

variable {host : Host} {reg : Registry} {kind : StoreKind} {w w' : StoreState} {log : ELog}
  {t i : ℕ} {k : String × String × ℤ}

/-! ### Closed rows -/

/-- The row is there and takes no outcome of a job whose dispatch was refused. -/
def Shut (kind : StoreKind) (w : StoreState) (k : String × String × ℤ) : Prop :=
  ∃ row, w.row? k = some row ∧ Closed kind w k row

theorem Shut.mono (h : Later w w') (hd : w.Distinct) (hk : Shut kind w k) : Shut kind w' k := by
  obtain ⟨row, hrow, hclosed⟩ := hk
  obtain ⟨row', hrow', hlater⟩ := h.rows k row hrow
  refine ⟨row', hrow', ?_⟩
  rcases hclosed with ⟨hend, hfail⟩ | ⟨hkind, hsup⟩
  · rw [Closed, hlater.ended hend]
    exact .inl ⟨hend, hfail⟩
  · exact .inr ⟨hkind, hsup.mono h hd⟩

theorem Shut.refuses (h : Shut kind w k) {expected : NodeState}
    {r : Except StoreError NodeExecution} (hs : Saved kind w exec expected w' r)
    (hkey : exec.key = k) (hstate : exec.state = .failed ∨ exec.state = .needsManualAction) :
    ∃ err, r = .error err := by
  cases hs with
  | refused err => exact ⟨err, rfl⟩
  | @done cur row hcur hnames hexp hvalid _ _ =>
    exfalso
    obtain ⟨row', hrow', hclosed⟩ := h
    rw [hkey, hrow', some.injEq] at hcur
    subst hcur
    rcases hclosed with ⟨hend, hfail⟩ | ⟨rfl, row, hrow, hrun, hnode, hlt⟩
    · have heq := eq_of_validNodeTransition hend hvalid
      rcases hstate with hstate | hstate
      · exact hfail (heq.trans hstate)
      · rw [heq, hstate] at hend
        cases hend
    · have hle := StoreState.attempt_le_current hnames.1 hrow
        (by rw [hrun, ← hkey]; rfl) (by rw [hnode, ← hkey]; rfl)
      have hatt : k.2.2 = exec.attempt := by rw [← hkey]; rfl
      have := hnames.2
      omega

theorem shut_of_refused (hd : w.Distinct) {err : StoreError} (hrow : w.row? exec.key = some row)
    (hrow' : row.state = .claimed ∨ Closed kind w exec.key row) (hrun : exec.state = .running)
    (hr : ((Op.save .dispatch exec .claimed).exec kind w env).2 =
      (.error err : Except StoreError NodeExecution)) : Shut kind w exec.key := by
  rcases hrow' with hclaimed | hclosed
  · refine ⟨row, hrow, .inr ?_⟩
    by_contra hopen
    have hnames := names_of_row? hd hrow hopen
    have hok : w.saveFor kind exec .claimed env.now = .ok (_, _) :=
      saveFor_eq_ok_iff.mpr ⟨row, hnames, .inr hclaimed, by rw [hclaimed, hrun]; rfl, rfl, rfl⟩
    simp only [Op.exec, hok] at hr
    cases hr
  · exact ⟨row, hrow, hclosed⟩

/-! ### The invariant -/

section Invariant

variable (host : Host) (reg : Registry)

/-- The job of a save of `recordOutcome` was dispatched, for the row that is saved. -/
def OfDispatched (log : ELog) (t i : ℕ) (exec : NodeExecution) : Prop :=
  ∃ n, (party host reg log t).slots[i]? = some n ∧ n.job.exec.key = exec.key ∧ n.dispatched ∧
    ¬n.refused

/-- What holds of jobs whose dispatch was refused, and of the outcomes recorded so far. -/
structure Owned (kind : StoreKind) (w : StoreState) (log : ELog) : Prop where
  shut : ∀ (t j : ℕ) (n : Slot), (party host reg log t).slots[j]? = some n → n.refused →
    Shut kind w n.job.exec.key
  writes : ∀ later earlier t site i exec expected row, site.job? = some i →
    log = later ++ (t, .call (.save site exec expected)
      (.ok row : Except StoreError NodeExecution)) :: earlier →
    OfDispatched host reg earlier t i exec

end Invariant

theorem Owned.writes_cons (h : Owned host reg kind w log) {a : Act Op Res Job JobResult}
    (ha : ∀ site i exec expected row, site.job? = some i →
      a = .call (.save site exec expected) (.ok row : Except StoreError NodeExecution) →
      OfDispatched host reg log t i exec)
    (later earlier : ELog) (t' : ℕ) (site : Site) (i : ℕ) (exec : NodeExecution)
    (expected : NodeState) (row : NodeExecution) (hsite : site.job? = some i)
    (heq : (t, a) :: log = later ++ (t', .call (.save site exec expected)
      (.ok row : Except StoreError NodeExecution)) :: earlier) :
    OfDispatched host reg earlier t' i exec := by
  cases later with
  | nil =>
    obtain ⟨⟨rfl, rfl⟩, rfl⟩ := heq
    exact ha site i exec expected row hsite rfl
  | cons e later =>
    rw [List.cons_append, List.cons.injEq] at heq
    exact h.writes later earlier t' site i exec expected row hsite heq.2

theorem Owned.ofDispatched (hbase : Base host reg w log) (h : Owned host reg kind w log)
    {site : Site} {expected : NodeState}
    (hmay : MaySave host reg (party host reg log t).own (party host reg log t).slots site exec
      expected) (hsite : site.job? = some i)
    (hr : ((Op.save site exec expected).exec kind w env).2 =
      (.ok row : Except StoreError NodeExecution)) : OfDispatched host reg log t i exec := by
  have hsaved : Saved kind w exec expected ((Op.save site exec expected).exec kind w env).1
      ((Op.save site exec expected).exec kind w env).2 := hbase.saved hmay env
  rw [hr] at hsaved
  have hjob : ∀ {i' : ℕ} {n : Slot} {cur : NodeExecution} {res : JobResult} {later : List Event},
      Recording (party host reg log t).slots i' n cur res later → i' = i → exec.key = cur.key →
      (∀ err, res = .error (.store err) →
        exec.state = .failed ∨ exec.state = .needsManualAction) →
      OfDispatched host reg log t i exec := by
    rintro i' n cur res later hrec rfl hkey hstate
    have hslot := hbase.slots t i' n hrec.slot
    have hkey' : exec.key = n.job.exec.key := hkey.trans hrec.key
    have hdis : n.dispatched := by
      by_contra hnot
      obtain ⟨href, err, rfl⟩ := (hslot.ends res hrec.result).refused hnot
      obtain ⟨err', herr'⟩ := (h.shut t i' n hrec.slot href).refuses hsaved hkey' (hstate err rfl)
      cases herr'
    exact ⟨n, hrec.slot, hkey'.symm, hdis, fun href => hslot.once ⟨hdis, href⟩⟩
  cases hmay with
  | @outcome i' n _ cur res hrec hkey hstate =>
    refine hjob hrec (by simpa [Site.job?] using hsite) hkey fun err herr => .inl ?_
    simp [hstate, herr, outcomeOf, ExecError.code, waitingCode, retries, ExecError.retryable,
      Outcome.next]
  | @retry i' n cur _ res row' hrec hout =>
    have hkey := outcomeOf_next_key host n.job.spec cur res
    rw [hout] at hkey
    refine hjob hrec (by simpa [Site.job?] using hsite) hkey fun err _ => ?_
    exact .inl (outcomeOf_retry hout).1
  | park hrec =>
    exact hjob hrec (by simpa [Site.job?] using hsite) rfl fun err _ => .inr rfl
  | _ => cases hsite

/-- A job that was refused stays shut out. -/
theorem Owned.shut_exec (hbase : Base host reg w log) (h : Owned host reg kind w log) (op : Op)
    (env : Env) {j : ℕ} {n : Slot} (hn : (party host reg log t).slots[j]? = some n)
    (href : n.refused) : Shut kind (op.exec kind w env).1 n.job.exec.key :=
  (h.shut t j n hn href).mono (change_exec.later hbase.sane.distinct) hbase.sane.distinct

theorem Owned.call (hbase : Base host reg w log) (h : Owned host reg kind w log) {op : Op}
    (hmay : May host reg (party host reg log t).own (party host reg log t).slots op) (env : Env) :
    Owned host reg kind (op.exec kind w env).1 ((t, .call op (op.exec kind w env).2) :: log) := by
  refine ⟨fun t' j n hn href => ?_, h.writes_cons fun site i exec expected row hsite heq => ?_⟩
  · rw [slots_call] at hn
    obtain ⟨n₀, hn₀, rfl⟩ := map_eq_some_iff.mp hn
    have hshut := h.shut_exec hbase op env hn₀
    split at href
    · next htj =>
      rw [if_pos htj]
      exact hshut href
    · next htj =>
      rw [if_neg htj]
      exact hshut href
  · obtain ⟨rfl, heq⟩ := Act.call.inj heq
    exact h.ofDispatched hbase hmay hsite (eq_of_heq heq)

theorem Owned.work (hbase : Base host reg w log) (h : Owned host reg kind w log) {n₁ : Slot}
    (hn₁ : (party host reg log t).slots[i]? = some n₁) {op : Op} (hmay : WorkerMay n₁ op)
    (hG : DispatchAnswered kind w log t (some i) op env) :
    Owned host reg kind (op.exec kind w env).1
      ((t, .work i op (op.exec kind w env).2) :: log) := by
  refine ⟨fun t' j n hn href => ?_, h.writes_cons fun site i exec expected row hsite heq => ?_⟩
  · rw [slots_work] at hn
    obtain ⟨n₀, hn₀, rfl⟩ := map_eq_some_iff.mp hn
    have hshut := h.shut_exec hbase op env hn₀
    split at href
    · next htj =>
      rw [if_pos htj]
      rcases refused_cons.mp href with ⟨exec, expected, err, heq⟩ | href
      · obtain ⟨rfl, rfl⟩ := htj
        obtain rfl : n₀ = n₁ := by simpa [hn₀] using hn₁
        obtain ⟨hop, hr⟩ := Sigma.mk.inj heq
        subst hop
        obtain ⟨-, rfl, rfl, -⟩ := hmay.2.2
        obtain ⟨hrow, -⟩ := hbase.jobOK (hbase.slots t i n₀ hn₀).job
        obtain ⟨row, hrow⟩ := isSome_iff_exists.mp hrow
        have hnow : Shut kind w (dispatchedRow n₀.job.exec).key :=
          shut_of_refused hbase.sane.distinct hrow (hG row hrow) rfl (eq_of_heq hr).symm
        exact hnow.mono (change_exec.later hbase.sane.distinct) hbase.sane.distinct
      · exact hshut href
    · next htj =>
      rw [if_neg htj]
      exact hshut href
  · cases heq

theorem maintains_owned : Maintains (engineSystem host reg kind) (conduct host reg)
    (DispatchAnswered kind) (Base host reg) (Owned host reg kind) where
  call e hbase h hmay _ := h.call hbase hmay e
  work e hbase h hn hmay hG := h.work hbase hn hmay hG
  fork {w log t js} hbase h hmay := by
    refine ⟨fun t' j n hn href => ?_, h.writes_cons fun site i exec expected row hsite heq => ?_⟩
    · rw [slots_fork] at hn
      split at hn
      · obtain ⟨job, -, rfl⟩ := map_eq_some_iff.mp hn
        obtain ⟨exec, expected, err, hmem⟩ := href
        cases hmem
      · exact h.shut t' j n hn href
    · cases heq
  join {w log t rs} hbase h hpost := by
    refine ⟨fun t' j n hn href => ?_, h.writes_cons fun site i exec expected row hsite heq => ?_⟩
    · rcases slots_join hpost hn with hn | ⟨-, n₀, r, hn₀, -, rfl⟩
      · exact h.shut t' j n hn href
      · exact h.shut t' j n₀ hn₀ href
    · cases heq

theorem owned_new : Owned host reg kind newStoreState [] := by
  refine ⟨fun t j n hn => by simp at hn, fun later earlier t site i exec expected row _ heq => ?_⟩
  simp at heq

/-- **Outcomes are recorded for jobs that were dispatched**, in every run of engines whose dispatches
all find their row claimed or closed: a save of `recordOutcome` that goes through is made for a job
whose own dispatch of the row went through, and not for one whose dispatch was refused. -/
theorem outcomes_of_dispatched (host : Host) (reg : Registry) (kind : StoreKind)
    (items : List (Item Env EngineCall))
    (hmeets : RequestsMeet host reg kind (DispatchAnswered kind) items) (later earlier : ELog) (t : ℕ)
    (site : Site) (i : ℕ) (exec : NodeExecution) (expected : NodeState) (row : NodeExecution)
    (hsite : site.job? = some i)
    (hlog : (runEngines host reg kind items).log = later ++ (t, .call (.save site exec expected)
      (.ok row : Except StoreError NodeExecution)) :: earlier) :
    ∃ n, (party host reg earlier t).slots[i]? = some n ∧ n.job.exec.key = exec.key ∧
      n.dispatched ∧ ¬n.refused := by
  obtain ⟨-, howned⟩ := invariant_run_of (keeps_conduct kind) answers_base preserves_base
    maintains_owned base_new owned_new hmeets
  exact howned.writes later earlier t site i exec expected row hsite hlog

/-! ### A lease that runs out -/

def dispatchReply : Event → Option Bool
  | ⟨.save .dispatch _ _, r⟩ => match (r : Except StoreError NodeExecution) with
    | .ok _ => some true
    | .error _ => some false
  | _ => none

theorem Slot.dispatched_iff :
    n.dispatched ↔ ∃ ev ∈ n.done, dispatchReply ev = some true := by
  constructor
  · rintro ⟨exec, expected, row, hmem⟩
    exact ⟨_, hmem, rfl⟩
  · rintro ⟨ev, hmem, hr⟩
    unfold dispatchReply at hr
    split at hr
    · next exec expected r =>
      split at hr
      · exact ⟨exec, expected, _, hmem⟩
      · cases hr
    · cases hr

theorem Slot.refused_iff :
    n.refused ↔ ∃ ev ∈ n.done, dispatchReply ev = some false := by
  constructor
  · rintro ⟨exec, expected, err, hmem⟩
    exact ⟨_, hmem, rfl⟩
  · rintro ⟨ev, hmem, hr⟩
    unfold dispatchReply at hr
    split at hr
    · next exec expected r =>
      split at hr
      · cases hr
      · exact ⟨exec, expected, _, hmem⟩
    · cases hr

instance (n : Slot) : Decidable n.dispatched := decidable_of_iff _ Slot.dispatched_iff.symm

instance (n : Slot) : Decidable n.refused := decidable_of_iff _ Slot.refused_iff.symm

/-- The row that the last step of a log saved as an outcome, with the job. -/
def lastOutcome? (host : Host) (reg : Registry) : ELog → Option (NodeExecution × Slot)
  | (t, .call (.save (.outcome i) _ _) r) :: earlier =>
    match (r : Except StoreError NodeExecution), (party host reg earlier t).slots[i]? with
    | .ok row, some n => some (row, n)
    | _, _ => none
  | _ => none

theorem eq_of_lastOutcome? (h : lastOutcome? host reg log = some (row, n)) :
    ∃ t i exec expected earlier,
      log = (t, .call (.save (.outcome i) exec expected)
        (.ok row : Except StoreError NodeExecution)) :: earlier ∧
      (party host reg earlier t).slots[i]? = some n := by
  unfold lastOutcome? at h
  split at h
  · next t i exec expected r earlier =>
    split at h
    · next row' n' hn =>
      cases h
      exact ⟨t, i, exec, expected, earlier, rfl, hn⟩
    · cases h
  · cases h

/-- The second attempt is executed until its outcome is recorded. -/
def recordSolo : List (Item Env EngineCall) :=
  retriedSolo ++ List.replicate 4 (.work 3 0 {}) ++ goOn 3 3 { now := 6 + 30 * second }

theorem outcomes_of_dispatched_retried : ∃ row n,
    lastOutcome? plainHost soloRegistry (runEngines plainHost soloRegistry .memory recordSolo).log =
      some (row, n) ∧ row.key = ("run_1", "start", 1) ∧ row.state = .succeeded ∧
      n.dispatched ∧ ¬n.refused := by
  have hsecond : ((lastOutcome? plainHost soloRegistry
      (runEngines plainHost soloRegistry .memory recordSolo).log).any fun p =>
        p.1.key = ("run_1", "start", 1) ∧ p.1.state = .succeeded) = true := by
    decide +kernel
  obtain ⟨⟨row, n⟩, hlast, h⟩ := (any_eq_true _ _).mp hsecond
  obtain ⟨hkey, hstate⟩ := of_decide_eq_true h
  obtain ⟨t, i, exec, expected, earlier, hlog, hn⟩ := eq_of_lastOutcome? hlast
  obtain ⟨n', hn', -, hdis, href⟩ := outcomes_of_dispatched plainHost soloRegistry .memory recordSolo
    (by decide +kernel) [] earlier t (.outcome i) i exec expected row rfl hlog
  obtain rfl : n = n' := by simpa [hn] using hn'
  exact ⟨row, n, hlast, hkey, hstate, hdis, href⟩

/-- Two engines read the pending row, and the first one claims it. Its lease runs out before the
worker dispatches; the second one claims and dispatches the node. Then the worker of the first one
goes on. -/
def overtakenSolo : List (Item Env EngineCall) :=
  createSolo ++ .start (.execute { workerID := "engine-1" } "run_1") :: goOn 1 7 { now := 2 } ++
    .start (.execute { workerID := "engine-2" } "run_1") :: goOn 2 8 { now := 2 } ++
    goOn 1 5 { now := 2 } ++ goOn 2 3 { now := 3 + 30 * second } ++
    List.replicate 2 (.work 2 0 {}) ++ List.replicate 2 (.work 1 0 {}) ++ goOn 1 3 {}

/-- The engine whose dispatch was refused records a failure for the attempt that the other engine is
running. -/
theorem overtaken_engine_records : ∃ row n n',
    lastOutcome? plainHost soloRegistry (runEngines plainHost soloRegistry .memory overtakenSolo).log =
      some (row, n) ∧ row.state = .failed ∧ row.errorCode = "internal_error" ∧
      n.refused ∧ ¬n.dispatched ∧
    (party plainHost soloRegistry (runEngines plainHost soloRegistry .memory overtakenSolo).log
      2).slots[0]? = some n' ∧ n'.job.exec.key = row.key ∧ n'.dispatched := by
  have hfirst : ((lastOutcome? plainHost soloRegistry
      (runEngines plainHost soloRegistry .memory overtakenSolo).log).any fun p =>
        p.1.key = ("run_1", "start", 0) ∧ p.1.state = .failed ∧ p.1.errorCode = "internal_error" ∧
          p.2.refused ∧ ¬p.2.dispatched) = true := by
    decide +kernel
  have hsecond : ((party plainHost soloRegistry
      (runEngines plainHost soloRegistry .memory overtakenSolo).log 2).slots[0]?.any fun n =>
        n.job.exec.key = ("run_1", "start", 0) ∧ n.dispatched) = true := by
    decide +kernel
  obtain ⟨⟨row, n⟩, hlast, h⟩ := (any_eq_true _ _).mp hfirst
  obtain ⟨n', hn', h'⟩ := (any_eq_true _ _).mp hsecond
  obtain ⟨hkey, hstate, hcode, href, hdis⟩ := of_decide_eq_true h
  obtain ⟨hkey', hdis'⟩ := of_decide_eq_true h'
  exact ⟨row, n, n', hlast, hstate, hcode, href, hdis, hn', hkey'.trans hkey.symm, hdis'⟩

end NexaRoute.Nexaflow
