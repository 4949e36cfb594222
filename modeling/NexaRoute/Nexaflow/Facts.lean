import NexaRoute.Nexaflow.Conforms
import NexaRoute.Nexaflow.Steps

/-!
# What engines can count on

Invariants that hold over one store whatever any number of engines do, with any answers of their
surroundings. The runs have definitions that were accepted, every row belongs to a node of a run, a
running row is marked as dispatched, and the attempts of a node are numbered without gaps: attempt
`0` by the first append, attempt `a + 1` by the retry of attempt `a`, and only as far as the spec of
the node allows. All that an engine has read is still there, later.

## Main results

* `base_run`, `sane_run` — what holds in every interleaving
-/

namespace NexaRoute.Nexaflow

open Go Interleave Option NodeExecution StoreState List

variable {run : Run} {row cur : NodeExecution} {k : String × String × ℤ} {runID : String} {op : Op}
  {ev : Event} {n : Slot} {own : List Event} {site : Site} {expected : NodeState}

/-- The steps of engines. -/
abbrev ELog := Log Op Res Job JobResult

/-! ### What was read -/

/-- The run was read, and the store still has it. -/
def KnownRun (w : StoreState) (run : Run) : Prop := ∃ r, w.run? run.id = some r ∧ RunLater run r

/-- The row was read, and the store still has it. -/
structure KnownRow (w : StoreState) (row : NodeExecution) : Prop where
  dispatched : row.state = .running → row.dispatched = true
  later : ∃ r, w.row? row.key = some r ∧ RowLater row r

variable {host : Host} {reg : Registry} {kind : StoreKind} {w w' : StoreState}

theorem KnownRun.mono (h : Later w w') (hk : KnownRun w run) : KnownRun w' run := by
  obtain ⟨r, hr, hlater⟩ := hk
  obtain ⟨r', hr', hlater'⟩ := h.runs _ r hr
  exact ⟨r', hr', hlater.trans hlater'⟩

theorem KnownRow.mono (h : Later w w') (hk : KnownRow w row) :
    KnownRow w' row := by
  obtain ⟨r, hr, hlater⟩ := hk.later
  obtain ⟨r', hr', hlater'⟩ := h.rows _ r hr
  exact ⟨hk.dispatched, r', hr', hlater.trans hlater'⟩

theorem Later.isSome_row? (h : Later w w') (hk : (w.row? k).isSome) :
    (w'.row? k).isSome := by
  obtain ⟨r, hr⟩ := isSome_iff_exists.mp hk
  obtain ⟨r', hr', -⟩ := h.rows k r hr
  rw [hr']
  rfl

/-! ### The store -/

section Sane

variable (host : Host) (reg : Registry)

/-- The spec of a node of a definition. -/
def specAt (d : Definition) (nodeID : String) : Except NodeError NodeSpec :=
  reg.lookup host (nodeDefByID d nodeID).nodeID (nodeDefByID d nodeID).version

/-- The row with a key and an operation id has its number rightly. -/
def NumberedAs (w : StoreState) (k : String × String × ℤ) (operation : String) : Prop :=
  k.2.2 = 0 ∧ operation = "initial" ∨
    0 < k.2.2 ∧ operation = retryOperation (k.2.2 - 1) ∧
      (w.row? (k.1, k.2.1, k.2.2 - 1)).isSome ∧
      ∃ run spec, w.run? k.1 = some run ∧ specAt host reg run.definition k.2.1 = .ok spec ∧
        k.2.2 < spec.retry.maxAttempts

/-- What holds of the store. -/
structure Sane (w : StoreState) : Prop where
  distinct : w.Distinct
  runs : ∀ run ∈ w.runs, WellFormed host reg run.definition ∧ run.id ≠ ""
  rows : ∀ row ∈ w.nodes, ∃ run, w.run? row.runID = some run ∧ row.nodeID ∈ run.definition.ids
  dispatched : ∀ row ∈ w.nodes, row.state = .running → row.dispatched = true
  numbered : ∀ row ∈ w.nodes, NumberedAs host reg w row.key row.appendOperationID

/-- A row that may stand in the store after another: one that was there, or one of a node of a run
that is numbered rightly. -/
def Accounted (w : StoreState) (row : NodeExecution) : Prop :=
  (row.state = .running → row.dispatched = true) ∧
    ((∃ r ∈ w.nodes, r.key = row.key ∧ r.appendOperationID = row.appendOperationID) ∨
      (∃ run, w.run? row.runID = some run ∧ row.nodeID ∈ run.definition.ids) ∧
        NumberedAs host reg w row.key row.appendOperationID)

/-- The operation of an append that an engine may make. -/
def ProperAppend (w : StoreState) (exec : NodeExecution) (d : Definition) : Prop :=
  exec.appendOperationID = "initial" ∨ ∃ a spec, exec.appendOperationID = retryOperation a ∧
    (w.row? (exec.runID, exec.nodeID, a)).isSome ∧ specAt host reg d exec.nodeID = .ok spec ∧
    a + 1 < spec.retry.maxAttempts

/-- What the store needs of a request to stay sane. -/
def Proper (w : StoreState) : Op → Prop
  | .createRun run => run.state = .created ∧ WellFormed host reg run.definition
  | .append _ exec => exec.state = .pending ∧ ∃ run, w.run? exec.runID = some run ∧
      exec.nodeID ∈ run.definition.ids ∧ ProperAppend host reg w exec run.definition
  | .save _ exec _ => exec.state = .running → exec.dispatched = true
  | .invoke inv => (w.row? inv.key).isSome
  | _ => True

end Sane

theorem NumberedAs.mono {operation : String} (h : Later w w')
    (hn : NumberedAs host reg w k operation) : NumberedAs host reg w' k operation := by
  rcases hn with h0 | ⟨hpos, hop, hprev, run, spec, hrun, hspec, hlt⟩
  · exact .inl h0
  · obtain ⟨run', hrun', hlater⟩ := h.runs _ run hrun
    exact .inr ⟨hpos, hop, h.isSome_row? hprev, run', spec, hrun', hlater.definition ▸ hspec, hlt⟩

theorem NumberedAs.nonneg {operation : String} (h : NumberedAs host reg w k operation) :
    0 ≤ k.2.2 := by
  rcases h with ⟨h0, -⟩ | ⟨hpos, -⟩ <;> omega

namespace Sane

variable (h : Sane host reg w)

include h

theorem numberedAs (hrow : w.row? k = some row) :
    NumberedAs host reg w k row.appendOperationID := by
  obtain ⟨hmem, rfl⟩ := row?_mem hrow
  exact h.numbered row hmem

variable {nodeID : String}

theorem isSome_row? {a b : ℤ}
    (hrow : (w.row? (runID, nodeID, a)).isSome) (hb : 0 ≤ b) (hle : b ≤ a) :
    (w.row? (runID, nodeID, b)).isSome := by
  obtain ⟨n, hn⟩ := Int.eq_ofNat_of_zero_le (Int.sub_nonneg_of_le hle)
  induction n generalizing a with
  | zero =>
    obtain rfl : b = a := by omega
    exact hrow
  | succ n ih =>
    obtain ⟨row, hrow'⟩ := isSome_iff_exists.mp hrow
    rcases h.numberedAs hrow' with ⟨h0, -⟩ | ⟨-, -, hprev, -⟩
    · dsimp only at h0
      omega
    · exact ih (a := a - 1) hprev (by omega) (by omega)

theorem row_upTo (hcur : w.currentAttempt runID nodeID = some cur) {b : ℤ} (hb : 0 ≤ b)
    (hle : b ≤ cur.attempt) : ∃ row, w.row? (runID, nodeID, b) = some row :=
  isSome_iff_exists.mp (h.isSome_row? (by rw [row?_current h.distinct hcur]; rfl) hb hle)

theorem of_later (hlater : Later w w') (hd : w'.Distinct)
    (hruns : ∀ run ∈ w'.runs, WellFormed host reg run.definition ∧ run.id ≠ "")
    (hrows : ∀ row ∈ w'.nodes, Accounted host reg w row) : Sane host reg w' := by
  have hhome : ∀ row : NodeExecution,
      (∃ run, w.run? row.runID = some run ∧ row.nodeID ∈ run.definition.ids) →
      ∃ run, w'.run? row.runID = some run ∧ row.nodeID ∈ run.definition.ids := by
    rintro row ⟨run, hrun, hnode⟩
    obtain ⟨run', hrun', hl⟩ := hlater.runs _ run hrun
    exact ⟨run', hrun', hl.definition ▸ hnode⟩
  refine ⟨hd, hruns, fun row hrow => ?_, fun row hrow => (hrows row hrow).1, fun row hrow => ?_⟩
  · rcases (hrows row hrow).2 with ⟨r, hr, hkey, -⟩ | ⟨hrun, -⟩
    · obtain ⟨hr1, hr2, -⟩ := parts_of_key hkey
      have := h.rows r hr
      rw [hr1, hr2] at this
      exact hhome row this
    · exact hhome row hrun
  · rcases (hrows row hrow).2 with ⟨r, hr, hkey, hop⟩ | ⟨-, hnum⟩
    · rw [← hkey, ← hop]
      exact (h.numbered r hr).mono hlater
    · exact hnum.mono hlater

theorem setRow (hcur : cur ∈ w.nodes) (hlater : RowLater cur row)
    (hrow : row.state = .running → row.dispatched = true) :
    Sane host reg (w.setRow row) := by
  refine h.of_later (.of_setRow h.distinct hcur hlater) (h.distinct.setRow row) h.runs
    fun r hr => ?_
  rcases Keyed.mem_replace.mp hr with ⟨rfl, -⟩ | ⟨hmem, -⟩
  · exact ⟨hrow, .inl ⟨cur, hcur, hlater.key.symm, hlater.operation.symm⟩⟩
  · exact ⟨h.dispatched r hmem, .inl ⟨r, hmem, rfl, rfl⟩⟩

theorem numberedAs_append {exec : NodeExecution}
    (hrun : w.run? exec.runID = some run) (hop : ProperAppend host reg w exec run.definition)
    (hnew : w.appendedBefore exec = none) :
    NumberedAs host reg w (exec.runID, exec.nodeID, w.nextAttempt exec.runID exec.nodeID)
      exec.appendOperationID := by
  have hne : exec.appendOperationID ≠ "" := by
    rcases hop with hop | ⟨a, spec, hop, -⟩
    · simp [hop]
    · simp [hop, retryOperation]
  -- No row of the node has the operation id: an earlier append would have been found.
  have hfresh : ∀ {a : ℤ} {row : NodeExecution}, w.row? (exec.runID, exec.nodeID, a) = some row →
      row.appendOperationID ≠ exec.appendOperationID := by
    intro a row hrow heq
    obtain ⟨hmem, hr1, hr2, -⟩ := row?_parts hrow
    rw [appendedBefore, if_neg hne] at hnew
    have := find?_eq_none.mp hnew row (mem_rowsOf.mpr ⟨hmem, hr1, hr2⟩)
    simp [heq] at this
  cases hcur : w.currentAttempt exec.runID exec.nodeID with
  | none =>
    rw [nextAttempt, hcur]
    rcases hop with hop | ⟨a, spec, -, hrow, -⟩
    · exact .inl ⟨rfl, hop⟩
    · obtain ⟨row, hrow⟩ := isSome_iff_exists.mp hrow
      obtain ⟨hmem, hr1, hr2, -⟩ := row?_parts hrow
      exact absurd hr2 (currentAttempt_eq_none_iff.mp hcur row hmem hr1)
  | some cur =>
    rw [nextAttempt, hcur]
    have hcurRow := row?_current h.distinct hcur
    have hcur0 : 0 ≤ cur.attempt := (h.numberedAs hcurRow).nonneg
    rcases hop with hop | ⟨a, spec, hop, hrow, hspec, hlt⟩
    · obtain ⟨row, hrow⟩ := h.row_upTo hcur le_rfl hcur0
      rcases h.numberedAs hrow with ⟨-, hinit⟩ | ⟨hpos, -⟩
      · exact absurd (hinit.trans hop.symm) (hfresh hrow)
      · exact absurd hpos (lt_irrefl _)
    · obtain ⟨row, hrow'⟩ := isSome_iff_exists.mp hrow
      have ha0 : 0 ≤ a := (h.numberedAs hrow').nonneg
      obtain ⟨hmem, hr1, hr2, hr3⟩ := row?_parts hrow'
      have hle : a ≤ cur.attempt := hr3 ▸ attempt_le_current hcur hmem hr1 hr2
      -- If the retried attempt is not the current one, the one after it was appended by its retry.
      have hge : cur.attempt ≤ a := by
        by_contra hgt
        obtain ⟨row', hrow'⟩ := h.row_upTo hcur (b := a + 1) (by omega) (by omega)
        rcases h.numberedAs hrow' with ⟨h0, -⟩ | ⟨-, hret, -⟩
        · dsimp only at h0
          omega
        · refine hfresh hrow' (hret.trans ?_)
          rw [hop]
          rw [Int.add_sub_cancel]
      obtain rfl : cur.attempt = a := le_antisymm hge hle
      refine .inr ⟨by dsimp only; omega, ?_, ?_, run, spec, hrun, hspec, hlt⟩
      · rw [hop, Int.add_sub_cancel]
      · rw [Int.add_sub_cancel]
        exact hrow

theorem exec (hop : Proper host reg w op) (env : Env) : Sane host reg (op.exec kind w env).1 := by
  have hchange : Change kind w op (op.exec kind w env).1 := change_exec
  have hlater := hchange.later h.distinct
  have hd := hchange.distinct h.distinct
  have hold : ∀ row ∈ w.nodes, Accounted host reg w row :=
    fun row hrow => ⟨h.dispatched row hrow, .inl ⟨row, hrow, rfl, rfl⟩⟩
  generalize (op.exec kind w env).1 = w' at hchange hlater hd ⊢
  cases hchange with
  | same => exact h
  | @newRun run now runByIdem hid hnew =>
    refine h.of_later hlater hd (forall_mem_append.mpr ⟨h.runs, ?_⟩) hold
    exact forall_mem_singleton.mpr ⟨hop.2, hid⟩
  | @moveRun runID expected state code msg now r hr hexp hvalid =>
    refine h.of_later hlater hd (fun r' hr' => ?_) hold
    rcases Keyed.mem_replace.mp hr' with ⟨rfl, -⟩ | ⟨hmem, -⟩
    · exact h.runs r (run?_mem hr).1
    · exact h.runs r' hmem
  | @addRow site exec now r hr hnew =>
    obtain ⟨hpending, run, hrun, hnode, happ⟩ := hop
    refine h.of_later hlater hd h.runs (forall_mem_append.mpr ⟨hold, forall_mem_singleton.mpr ?_⟩)
    refine ⟨fun hrunning => ?_, .inr ⟨⟨run, hrun, hnode⟩, ?_⟩⟩
    · simp [appendedRow, hpending] at hrunning
    · exact h.numberedAs_append hrun happ hnew
  | saveRow hcur hexp hvalid => exact h.setRow hcur.mem.1 (savedRow_later hcur hvalid) hop
  | claimRow hcur hstate =>
    refine h.setRow (mem_of_currentAttempt hcur).1 (claimedRow_later hstate) ?_
    rintro ⟨⟩
  | approve approvals => exact h.of_later hlater hd h.runs hold

end Sane

/-! ### Replies -/

theorem knownRun_of_run? (h : w.run? runID = some run) :
    KnownRun w run := by
  obtain ⟨-, rfl⟩ := run?_mem h
  exact ⟨run, h, .refl run⟩

theorem run?_of_getRun (h : w.getRun runID = .ok run) : w.run? runID = some run := by
  rw [StoreState.getRun] at h
  split at h
  · cases h
  · next hr =>
    cases h
    exact hr

theorem knownRow_of_mem (hs : Sane host reg w) (h : row ∈ w.nodes) :
    KnownRow w row :=
  ⟨hs.dispatched row h, row, row?_of_mem hs.distinct h, .refl row⟩

theorem mem_runs_of_listRuns (h : run ∈ w.listRuns {}) : run ∈ w.runs := by
  rw [StoreState.listRuns] at h
  split at h
  · next hlimit => exact absurd hlimit (lt_irrefl 0)
  · exact (mem_filter.mp ((mem_insertionSort _).mp h)).1

theorem mem_getNodeExecutions {rows : List NodeExecution}
    (h : w.getNodeExecutions runID = .ok rows) :
    row ∈ rows ↔ row ∈ w.nodes ∧ row.runID = runID := by
  rw [getNodeExecutions] at h
  cases hr : w.run? runID with
  | none => simp [hr] at h
  | some r =>
    simp only [hr, Except.ok.injEq] at h
    subst h
    simp

theorem createRun_eq_ok {now : Time} (h : w.createRun run now = .ok w') :
    w.run? run.id = none ∧ ∃ runByIdem,
      w' = { w with runs := w.runs ++ [createdRun run now], runByIdem } := by
  rw [StoreState.createRun] at h
  split_ifs at h with hid hnew hidem hlimit
  · cases h
    exact ⟨by simpa using hnew, _, rfl⟩
  · cases h
    exact ⟨by simpa using hnew, _, rfl⟩

theorem knownRun_reply (hs : Sane host reg w) (hop : Proper host reg w op) (env : Env)
    (h : run ∈ runsIn op (op.exec kind w env).2) :
    KnownRun (op.exec kind w env).1 run := by
  cases op with
  | getRun runID => exact knownRun_of_run? (run?_of_getRun (mem_got.mp h))
  | getRunByIdempotency key =>
    have h' : w.getRunByIdempotency key = .ok run := mem_got.mp h
    rw [StoreState.getRunByIdempotency] at h'
    split at h'
    · cases h'
    · exact knownRun_of_run? (run?_of_getRun h')
  | updateRunState runID expected state code msg =>
    obtain ⟨cur, hcur, -, hvalid, rfl, hw⟩ :=
      updateRunState_eq_ok_iff.mp (eq_ok_of_replied (mem_got.mp h))
    refine ⟨_, ?_, .refl _⟩
    rw [Op.exec, hw, run?_setRun, if_pos rfl, movedRun_id,
      (run?_mem hcur).2, hcur]
    rfl
  | listRuns =>
    have hlist : run ∈ w.listRuns {} := h
    have hmem := mem_runs_of_listRuns hlist
    exact ⟨run, run?_of_mem hs.distinct.runs hmem, .refl run⟩
  | createRun r =>
    simp only [Op.exec] at h ⊢
    cases hc : w.createRun r env.now with
    | error err =>
      rw [hc] at h
      cases h
    | ok w₁ =>
      rw [hc] at h
      obtain rfl : run = r := mem_singleton.mp h
      obtain ⟨hnone, idem, rfl⟩ := createRun_eq_ok hc
      refine ⟨createdRun run env.now, ?_, rfl, rfl, ?_, ?_⟩
      · show find? _ (w.runs ++ _) = _
        rw [find?_append, show find? _ w.runs = none from hnone]
        simp
      · intro hend
        rw [hop.1] at hend
        cases hend
      · intro hne
        exact absurd hop.1 hne
  | _ => cases h

theorem knownRow_reply (hs : Sane host reg w) (hop : Proper host reg w op) (env : Env)
    (h : row ∈ rowsIn op (op.exec kind w env).2) :
    KnownRow (op.exec kind w env).1 row := by
  have hs' : Sane host reg (op.exec kind w env).1 := hs.exec hop env
  refine knownRow_of_mem hs' ?_
  have hset : ∀ {cur row : NodeExecution}, cur ∈ w.nodes → row.key = cur.key →
      row ∈ (w.setRow row).nodes := by
    intro cur row hcur hkey
    exact Keyed.mem_replace.mpr (.inl ⟨rfl, mem_map.mpr ⟨cur, hcur, hkey.symm⟩⟩)
  cases op with
  | getNodes site runID =>
    obtain ⟨rows, hrows, hmem⟩ := mem_flatten.mp h
    exact ((mem_getNodeExecutions (mem_got.mp hrows)).mp hmem).1
  | tryClaim runID nodeID owner ttl now =>
    obtain ⟨claim, hclaim, hmem⟩ := mem_filterMap.mp h
    obtain rfl : claim = some row := hmem
    obtain ⟨cur, hcur, -, -, rfl, hw⟩ :=
      tryClaim_eq_ok_iff.mp (eq_ok_of_replied (mem_got.mp hclaim))
    rw [Op.exec, hw]
    exact hset (mem_of_currentAttempt hcur).1 rfl
  | append site exec =>
    obtain ⟨-, ⟨hbefore, hw⟩ | ⟨-, -, hw⟩⟩ :=
      appendNodeExecution_eq_ok_iff.mp (eq_ok_of_replied (mem_got.mp h))
    · rw [Op.exec, hw]
      rw [appendedBefore] at hbefore
      split at hbefore
      · cases hbefore
      · exact (mem_rowsOf.mp (mem_of_find?_eq_some hbefore)).1
    · rw [Op.exec, hw]
      exact mem_append_right _ (mem_singleton.mpr rfl)
  | save site exec expected =>
    obtain ⟨cur, hcur, -, -, rfl, hw⟩ := saveFor_eq_ok_iff.mp (eq_ok_of_replied (mem_got.mp h))
    rw [Op.exec, hw]
    exact hset hcur.mem.1 (savedRow_key_eq hcur)
  | _ => cases h

/-! ### The logs -/

/-- A thread or one of its workers made the request and got the reply. -/
def Told (log : ELog) (op : Op) (r : Res op) : Prop :=
  ∃ t, (t, .call op r) ∈ log ∨ ∃ i, (t, .work i op r) ∈ log

section Logs

variable (host : Host) (reg : Registry)

/-- What a log says about a thread. -/
abbrev party (log : ELog) (t : ℕ) : Party (List Event) Slot := (conduct host reg).partyOf log t

/-- What holds of a job. -/
structure SlotOK (own : List Event) (n : Slot) : Prop where
  job : JobOK host reg own n.job
  fresh : n.result = none → n.post = []
  ends : ∀ r, n.result = some r → Concluded host n r
  once : ¬(n.dispatched ∧ n.refused)

/-- What holds of the store and the logs. -/
structure Base (w : StoreState) (log : ELog) : Prop where
  sane : Sane host reg w
  runs : ∀ op r, Told log op r → ∀ run ∈ runsIn op r, KnownRun w run
  rows : ∀ op r, Told log op r → ∀ row ∈ rowsIn op r, KnownRow w row
  invoked : ∀ inv r, Told log (.invoke inv) r → (w.row? inv.key).isSome
  slots : ∀ (t j : ℕ) (n : Slot), (party host reg log t).slots[j]? = some n →
    SlotOK host reg (party host reg log t).own n

end Logs

variable {log : ELog} {t : ℕ} (a : Act Op Res Job JobResult)

@[simp] theorem party_cons_self :
    party host reg ((t, a) :: log) t = (conduct host reg).next (party host reg log t) a :=
  (conduct host reg).partyOf_cons_self log t a

theorem party_cons_of_ne {t' : ℕ} (h : t ≠ t') :
    party host reg ((t, a) :: log) t' = party host reg log t' :=
  (conduct host reg).partyOf_cons_of_ne log a h

theorem mem_own_iff :
    ev ∈ (party host reg log t).own ↔ (t, .call ev.1 ev.2) ∈ log := by
  induction log with
  | nil => simp [conduct]
  | cons e log ih =>
    obtain ⟨t', a⟩ := e
    by_cases ht : t' = t
    · subst ht
      rw [party_cons_self, mem_cons, ← ih]
      cases a with
      | call op r =>
        obtain ⟨op', r'⟩ := ev
        simp only [Protocol.next, conduct, mem_cons, Prod.mk.injEq, true_and, Act.call.injEq]
        constructor
        · rintro (h | h)
          · cases h
            exact .inl ⟨rfl, HEq.rfl⟩
          · exact .inr h
        · rintro (⟨rfl, h⟩ | h)
          · cases h
            exact .inl rfl
          · exact .inr h
      | fork js | work i op r | join rs => simp [Protocol.next]
    · rw [party_cons_of_ne _ ht, mem_cons, ← ih]
      simp [Ne.symm ht]

/-! How the steps of a thread change its jobs. -/

section Slots

variable {t' i j : ℕ}

theorem slots_call (op : Op) (r : Res op) :
    (party host reg ((t, .call op r) :: log) t').slots[j]? =
      (party host reg log t').slots[j]?.map fun n =>
        if t = t' ∧ op.slot? = some j then { n with post := ⟨op, r⟩ :: n.post } else n := by
  by_cases ht : t = t'
  · subst ht
    rw [party_cons_self]
    simp only [Protocol.next, conduct, true_and]
    cases hop : op.slot? with
    | none => simp
    | some i =>
      by_cases hij : i = j <;> simp [hij]
  · rw [party_cons_of_ne _ ht]
    simp [ht]

theorem slots_work (op : Op) (r : Res op) :
    (party host reg ((t, .work i op r) :: log) t').slots[j]? =
      (party host reg log t').slots[j]?.map fun n =>
        if t = t' ∧ i = j then { n with done := ⟨op, r⟩ :: n.done } else n := by
  by_cases ht : t = t'
  · subst ht
    rw [party_cons_self]
    simp only [Protocol.next, conduct, true_and, getElem?_modify]
    by_cases hij : i = j <;> simp
  · rw [party_cons_of_ne _ ht]
    simp [ht]

theorem slots_fork (js : List Job) :
    (party host reg ((t, .fork js) :: log) t').slots[j]? =
      if t = t' then js[j]?.map fun job => { job } else (party host reg log t').slots[j]? := by
  by_cases ht : t = t'
  · subst ht
    rw [party_cons_self, if_pos rfl]
    simp only [Protocol.next, conduct, getElem?_map]
  · rw [party_cons_of_ne _ ht, if_neg ht]

theorem slots_join {rs : List JobResult}
    (hpost : List.Forall₂ (WorkerEnds host) (party host reg log t).slots rs)
    (h : (party host reg ((t, .join rs) :: log) t').slots[j]? = some n) :
    (party host reg log t').slots[j]? = some n ∨ t = t' ∧ ∃ n₀ r,
      (party host reg log t').slots[j]? = some n₀ ∧ WorkerEnds host n₀ r ∧
        n = { n₀ with result := some r } := by
  by_cases ht : t = t'
  · subst ht
    rw [party_cons_self] at h
    obtain ⟨n₀, r, hn₀, hr, rfl⟩ := getElem?_zipWith_eq_some.mp h
    obtain ⟨n₁, hn₁, hends⟩ := get?_of_forall₂ hpost hr
    obtain rfl : n₀ = n₁ := by simpa [hn₀] using hn₁
    exact .inr ⟨rfl, n₀, r, hn₀, hends, rfl⟩
  · rw [party_cons_of_ne _ ht] at h
    exact .inl h

end Slots

theorem told_of_mem_own (h : ev ∈ (party host reg log t).own) :
    Told log ev.1 ev.2 := ⟨t, .inl (mem_own_iff.mp h)⟩

namespace Base

section

variable (h : Base host reg w log)

include h

theorem sawRun (hrun : SawRun (party host reg log t).own run) : KnownRun w run := by
  obtain ⟨ev, hev, hmem⟩ := hrun
  exact h.runs _ _ (told_of_mem_own hev) run hmem

theorem sawRow (hrow : SawRow (party host reg log t).own row) : KnownRow w row := by
  obtain ⟨ev, hev, hmem⟩ := hrow
  exact h.rows _ _ (told_of_mem_own hev) row hmem

theorem keySeen (hk : KeySeen (party host reg log t).own k) : (w.row? k).isSome := by
  obtain ⟨row, hrow, rfl⟩ := hk
  obtain ⟨r, hr, -⟩ := (h.sawRow hrow).later
  rw [hr]
  rfl

theorem created (hrun : Created (party host reg log t).own run) : KnownRun w run :=
  h.runs _ _ (told_of_mem_own hrun) run (mem_singleton.mpr rfl)

end

/-- The row of a job is in the store, its run has the definition that the job was made with, and the
job has the spec that the definition gives the node. -/
theorem jobOK (h : Base host reg w log) {job : Job}
    (hjob : JobOK host reg (party host reg log t).own job) :
    (w.row? job.exec.key).isSome ∧ ∃ run, w.run? job.exec.runID = some run ∧
      run.definition = job.run.definition ∧ job.exec.nodeID ∈ run.definition.ids ∧
      specAt host reg run.definition job.exec.nodeID = .ok job.spec := by
  obtain ⟨row, hrow, hlater⟩ := (h.sawRow hjob.exec).later
  obtain ⟨run, hrun, hrunLater⟩ := h.sawRun hjob.run
  obtain ⟨hmem, hr1, hr2, -⟩ := row?_parts hrow
  obtain ⟨run', hrun', hnode⟩ := h.sane.rows row hmem
  rw [hr1, hjob.runID, hrun, some.injEq] at hrun'
  subst hrun'
  refine ⟨by rw [hrow]; rfl, run, hjob.runID ▸ hrun, hrunLater.definition, hr2 ▸ hnode, ?_⟩
  rw [specAt, hrunLater.definition, ← hjob.node]
  exact hjob.spec

end Base

/-! ### What may be requested is proper -/

theorem outcomeOf_retry {spec : NodeSpec} {next : NodeExecution} {res : JobResult}
    (h : outcomeOf host spec cur res = .retry next) :
    next.state = .failed ∧ cur.attempt + 1 < spec.retry.maxAttempts := by
  cases res with
  | ok out =>
    rw [outcomeOf] at h
    split at h <;> cases h
  | error err =>
    rw [outcomeOf] at h
    split_ifs at h with hcancelled hwaiting hretry
    cases h
    refine ⟨rfl, ?_⟩
    simp only [retries, Bool.and_eq_true, decide_eq_true_eq] at hretry
    exact hretry.2

theorem MaySave.state_ne {slots : List Slot} {exec : NodeExecution}
    (h : MaySave host reg own slots site exec expected) :
    exec.state ≠ .claimed ∧ exec.state ≠ .running := by
  cases h with
  | @outcome _ _ _ _ res hrec hkey hstate =>
    rw [hstate]
    cases res with
    | ok out =>
      rw [outcomeOf]
      split <;> simp [Outcome.next]
    | error err =>
      rw [outcomeOf]
      split_ifs <;> simp [Outcome.next]
  | retry hrec hout => simp [(outcomeOf_retry hout).1]
  | skipNothing => simp
  | recoverQueued => simp [requeuedRow]
  | park => simp [parkedRow]
  | expire exec hkey hstate | recoverExpired exec hkey hstate | reject exec hkey hstate
  | requeue exec hkey hstate | resume exec hkey hstate | skip hkey hrun hstate
  | undispatched exec hkey hstate | cancel exec hkey hstate | recoverParked exec hkey hstate hexp =>
    simp [hstate]

theorem Base.proper_call (h : Base host reg w log)
    (hmay : May host reg (party host reg log t).own (party host reg log t).slots op) :
    Proper host reg w op := by
  cases op with
  | createRun run => exact hmay
  | append site exec =>
    cases hmay with
    | @initial run nodeID hrun hnode =>
      obtain ⟨r, hr, hlater⟩ := h.created hrun
      exact ⟨rfl, r, hr, hlater.definition ▸ hnode, .inl rfl⟩
    | @retry i n cur next res hrec hout =>
      have hjob := (h.slots t i n hrec.slot).job
      obtain ⟨hrow, run, hrun, -, hnode, hspec⟩ := h.jobOK hjob
      rw [← hrec.key] at hrow
      obtain ⟨hc1, hc2, -⟩ := parts_of_key hrec.key
      rw [key, hc1, hc2, hjob.runID, hjob.nodeID] at hrow
      rw [hjob.runID] at hrun
      rw [hjob.nodeID] at hnode hspec
      exact ⟨rfl, run, hrun, hnode, .inr ⟨cur.attempt, n.job.spec, rfl, hrow, hspec,
        (outcomeOf_retry hout).2⟩⟩
  | save site exec expected =>
    intro hrunning
    exact absurd hrunning (MaySave.state_ne hmay).2
  | invoke inv => exact hmay.elim
  | _ => exact trivial

theorem Base.proper_work (h : Base host reg w log) {i : ℕ}
    (hn : (party host reg log t).slots[i]? = some n) (hmay : WorkerMay n op) :
    Proper host reg w op := by
  obtain ⟨-, -, hrule⟩ := hmay
  cases op with
  | save site exec expected =>
    obtain ⟨-, rfl, -⟩ := hrule
    intro _
    rfl
  | invoke inv =>
    obtain ⟨-, -, policyApproved, rfl⟩ := hrule
    exact (h.jobOK (h.slots t i n hn).job).1
  | audit ev | getApproval runID nodeID => exact trivial
  | _ => exact hrule.elim

/-! ### Every request keeps the invariants -/

/-- The reply that a step of a thread is given. -/
def replyIn : Act Op Res Job JobResult → Option Event
  | .call op r => some ⟨op, r⟩
  | .work _ op r => some ⟨op, r⟩
  | _ => none

theorem told_cons {a : Act Op Res Job JobResult} {r : Res op} (h : Told ((t, a) :: log) op r) :
    Told log op r ∨ replyIn a = some ⟨op, r⟩ := by
  rcases h with ⟨t', h | ⟨i, h⟩⟩
  · rcases mem_cons.mp h with heq | hmem
    · exact .inr (congrArg replyIn (congrArg Prod.snd heq).symm)
    · exact .inl ⟨t', .inl hmem⟩
  · rcases mem_cons.mp h with heq | hmem
    · exact .inr (congrArg replyIn (congrArg Prod.snd heq).symm)
    · exact .inl ⟨t', .inr ⟨i, hmem⟩⟩

section Request

variable {a : Act Op Res Job JobResult}

def SlotsOK (host : Host) (reg : Registry) (log : ELog) : Prop :=
  ∀ (t j : ℕ) (n : Slot), (party host reg log t).slots[j]? = some n →
    SlotOK host reg (party host reg log t).own n

theorem Base.silent (h : Base host reg w log) (ha : replyIn a = none)
    (hslots : SlotsOK host reg ((t, a) :: log)) : Base host reg w ((t, a) :: log) := by
  have htold : ∀ {op : Op} {r : Res op}, Told ((t, a) :: log) op r → Told log op r := by
    intro op r ht
    exact (told_cons ht).resolve_right (by simp [ha])
  exact ⟨h.sane, fun op r ht => h.runs op r (htold ht), fun op r ht => h.rows op r (htold ht),
    fun inv r ht => h.invoked inv r (htold ht), hslots⟩

theorem Base.request (h : Base host reg w log) (hop : Proper host reg w op) (env : Env)
    (ha : replyIn a = some ⟨op, (op.exec kind w env).2⟩)
    (hslots : SlotsOK host reg ((t, a) :: log)) :
    Base host reg (op.exec kind w env).1 ((t, a) :: log) := by
  have hchange : Change kind w op (op.exec kind w env).1 := change_exec
  have hlater := hchange.later h.sane.distinct
  have htold : ∀ {op' : Op} {r' : Res op'}, Told ((t, a) :: log) op' r' →
      Told log op' r' ∨ (⟨op, (op.exec kind w env).2⟩ : Event) = ⟨op', r'⟩ := by
    intro op' r' ht
    exact (told_cons ht).imp_right fun heq => some.inj (ha.symm.trans heq)
  refine ⟨h.sane.exec hop env, ?_, ?_, ?_, hslots⟩
  · intro op' r' ht run hrun
    rcases htold ht with ht | heq
    · exact (h.runs op' r' ht run hrun).mono hlater
    · cases heq
      exact knownRun_reply h.sane hop env hrun
  · intro op' r' ht row hrow
    rcases htold ht with ht | heq
    · exact (h.rows op' r' ht row hrow).mono hlater
    · cases heq
      exact knownRow_reply h.sane hop env hrow
  · intro inv r' ht
    rcases htold ht with ht | heq
    · exact hlater.isSome_row? (h.invoked inv r' ht)
    · cases heq
      exact hop

end Request

theorem own_subset_cons (e : ℕ × Act Op Res Job JobResult) :
    (party host reg log t).own ⊆ (party host reg (e :: log) t).own := by
  intro ev hev
  rw [mem_own_iff] at hev ⊢
  exact mem_cons_of_mem e hev

theorem May.result {slots : List Slot} (h : May host reg own slots op) {i : ℕ}
    (hop : op.slot? = some i) :
    ∃ n res, slots[i]? = some n ∧ n.result = some res := by
  cases op with
  | getNodes site runID =>
    cases site with
    | refresh j =>
      obtain rfl : j = i := by simpa [Op.slot?] using hop
      obtain ⟨n, hn, -, hres, -⟩ := h
      obtain ⟨res, hres⟩ := isSome_iff_exists.mp hres
      exact ⟨n, res, hn, hres⟩
    | _ => cases hop
  | append site exec =>
    cases h with
    | initial => cases hop
    | @retry j n cur next res hrec hout =>
      obtain rfl : j = i := by simpa [Op.slot?] using hop
      exact ⟨n, res, hrec.slot, hrec.result⟩
  | save site exec expected =>
    cases h with
    | @outcome j n exec cur res hrec hkey hstate | @retry j n cur next res row hrec hout
    | @park j n cur res later hrec =>
      obtain rfl : j = i := by simpa [Op.slot?] using hop
      exact ⟨n, res, hrec.slot, hrec.result⟩
    | _ => cases hop
  | _ => cases hop

theorem dispatched_cons :
    Slot.dispatched { n with done := ev :: n.done } ↔
      (∃ exec expected row,
        (⟨.save .dispatch exec expected, (.ok row : Except StoreError NodeExecution)⟩ : Event) = ev) ∨
        n.dispatched := by
  simp only [Slot.dispatched, mem_cons, exists_or]

theorem refused_cons :
    Slot.refused { n with done := ev :: n.done } ↔
      (∃ exec expected err,
        (⟨.save .dispatch exec expected, (.error err : Except StoreError NodeExecution)⟩ : Event) =
          ev) ∨ n.refused := by
  simp only [Slot.refused, mem_cons, exists_or]

theorem invoked_cons :
    Slot.invoked { n with done := ev :: n.done } ↔
      (∃ inv answer, (⟨.invoke inv, (answer : RunAnswer)⟩ : Event) = ev) ∨ n.invoked := by
  simp only [Slot.invoked, mem_cons, exists_or]

theorem SlotOK.mono {own' : List Event} (hsub : own ⊆ own') (h : SlotOK host reg own n) :
    SlotOK host reg own' n := { h with job := h.job.mono hsub }

theorem Base.slots_call (h : Base host reg w log)
    (hmay : May host reg (party host reg log t).own (party host reg log t).slots op)
    (r : Res op) : SlotsOK host reg ((t, .call op r) :: log) := by
  intro t' j n hn
  rw [Nexaflow.slots_call] at hn
  obtain ⟨n₀, hn₀, rfl⟩ := map_eq_some_iff.mp hn
  have hok := (h.slots t' j n₀ hn₀).mono (own_subset_cons (t, .call op r))
  split
  · next hop =>
    obtain ⟨rfl, hop⟩ := hop
    obtain ⟨n₁, res, hn₁, hres⟩ := hmay.result hop
    obtain rfl : n₀ = n₁ := by simpa [hn₀] using hn₁
    refine ⟨hok.job, fun hnone => ?_, fun r' hr' => ?_, hok.once⟩
    · exact absurd (hres.symm.trans hnone) (by simp)
    · exact ⟨(hok.ends r' hr').refused, (hok.ends r' hr').concluded⟩
  · exact hok

theorem Base.slots_work (h : Base host reg w log) {i : ℕ} {n₁ : Slot}
    (hn₁ : (party host reg log t).slots[i]? = some n₁) (hmay : WorkerMay n₁ op) (r : Res op) :
    SlotsOK host reg ((t, .work i op r) :: log) := by
  intro t' j n hn
  rw [Nexaflow.slots_work] at hn
  obtain ⟨n₀, hn₀, rfl⟩ := map_eq_some_iff.mp hn
  have hok := (h.slots t' j n₀ hn₀).mono (own_subset_cons (t, .work i op r))
  split
  · next htij =>
    obtain ⟨rfl, rfl⟩ := htij
    obtain rfl : n₀ = n₁ := by simpa [hn₀] using hn₁
    obtain ⟨hresult, hpost, hrule⟩ := hmay
    refine ⟨hok.job, fun _ => hpost, fun r' hr' => ?_, ?_⟩
    · exact absurd (hresult.symm.trans hr') (by simp)
    · -- A second answer to a dispatch would need a second dispatch.
      rw [dispatched_cons, refused_cons]
      rintro ⟨⟨exec, expected, row, heq⟩ | hdis, ⟨exec', expected', err, heq'⟩ | href⟩
      · cases heq
        cases heq'
      · cases heq
        exact hrule.2.2.2.2 href
      · cases heq'
        exact hrule.2.2.2.1 hdis
      · exact hok.once ⟨hdis, href⟩
  · exact hok

theorem preserves_base : Preserves (engineSystem host reg kind) (conduct host reg) anyRequest
    (Base host reg) where
  call e h hmay _ := h.request (h.proper_call hmay) e rfl (h.slots_call hmay _)
  fork {w log t js} h hmay := by
    refine h.silent rfl fun t' j n hn => ?_
    rw [slots_fork] at hn
    split at hn
    · next ht =>
      subst ht
      obtain ⟨job, hjob, rfl⟩ := map_eq_some_iff.mp hn
      refine ⟨(hmay.1 job (mem_of_getElem? hjob)).mono (own_subset_cons _), fun _ => rfl, ?_, ?_⟩
      · rintro r ⟨⟩
      · rintro ⟨⟨exec, expected, row, hmem⟩, -⟩
        cases hmem
    · exact (h.slots t' j n hn).mono (own_subset_cons _)
  work e h hn hmay _ := h.request (h.proper_work hn hmay) e rfl (h.slots_work hn hmay _)
  join {w log t rs} h hpost := by
    refine h.silent rfl fun t' j n hn => ?_
    rcases slots_join hpost hn with hn | ⟨-, n₀, r, hn₀, hends, rfl⟩
    · exact (h.slots t' j n hn).mono (own_subset_cons _)
    · have hok := (h.slots t' j n₀ hn₀).mono (own_subset_cons (t, .join rs))
      refine ⟨hok.job, ?_, fun r' hr' => ?_, hok.once⟩
      · rintro ⟨⟩
      · cases hr'
        exact ⟨hends.refused, hends.concluded⟩

theorem answers_base : Answers (engineSystem host reg kind) (conduct host reg)
    (Base host reg) := by
  intro w log t op e h hmay
  cases op with
  | getRun runID =>
    intro run hrun
    exact (run?_mem (run?_of_getRun (mem_got.mp hrun))).2
  | updateRunState runID expected state code msg =>
    intro run hrun
    obtain ⟨cur, hcur, -, -, rfl, -⟩ :=
      updateRunState_eq_ok_iff.mp (eq_ok_of_replied (mem_got.mp hrun))
    exact ⟨(run?_mem hcur).2, rfl⟩
  | getNodes site runID =>
    refine ⟨fun row hrow => ?_, ?_⟩
    · obtain ⟨rows, hrows, hmem⟩ := mem_flatten.mp hrow
      exact ((mem_getNodeExecutions (mem_got.mp hrows)).mp hmem).2
    · rintro i rfl n hn
      have hjob := (h.slots t i n hn).job
      obtain ⟨hrow, run, hrun, -⟩ := h.jobOK hjob
      obtain ⟨n', hn', -, -, rfl⟩ := hmay
      obtain rfl : n = n' := by simpa [hn] using hn'
      obtain ⟨row, hrow⟩ := isSome_iff_exists.mp hrow
      obtain ⟨hmem, hkey⟩ := row?_mem hrow
      obtain ⟨rows, hread⟩ : ∃ rows, w.getNodeExecutions n.job.run.id = .ok rows := by
        rw [getNodeExecutions, ← hjob.runID, hrun]
        exact ⟨_, rfl⟩
      refine ⟨rows, hread, row, (mem_getNodeExecutions hread).mpr ⟨hmem, ?_⟩, hkey⟩
      rw [← hjob.runID]
      exact congrArg Prod.fst hkey
  | tryClaim runID nodeID owner ttl now =>
    intro row hrow
    obtain ⟨claim, hclaim, hmem⟩ := mem_filterMap.mp hrow
    obtain rfl : claim = some row := hmem
    obtain ⟨cur, hcur, -, -, rfl, -⟩ :=
      tryClaim_eq_ok_iff.mp (eq_ok_of_replied (mem_got.mp hclaim))
    exact (mem_of_currentAttempt hcur).2
  | range rows => exact perm_insertionSort _ rows
  | _ => exact trivial

/-! ### Saves -/

/-- What a save does, if its record has the key of a row: the row is as it was, or it has the state of
the record. -/
inductive Saved (kind : StoreKind) (w : StoreState) (exec : NodeExecution) (expected : NodeState) :
    StoreState → Except StoreError NodeExecution → Prop
  | refused (err : StoreError) : Saved kind w exec expected w (.error err)
  | done {cur row : NodeExecution} (hcur : w.row? exec.key = some cur)
      (hnames : Names kind w exec cur) (hexp : expected = .unset ∨ cur.state = expected)
      (hvalid : validNodeTransition cur.state exec.state = true) (hkey : row.key = exec.key)
      (hstate : row.state = exec.state) : Saved kind w exec expected (w.setRow row) (.ok row)

theorem saved_exec (hd : w.Distinct) {exec : NodeExecution}
    (hkey : ∀ cur, Names kind w exec cur → (w.row? exec.key).isSome) (env : Env) :
    Saved kind w exec expected ((Op.save site exec expected).exec kind w env).1
      ((Op.save site exec expected).exec kind w env).2 := by
  simp only [Op.exec]
  cases hs : w.saveFor kind exec expected env.now with
  | error err => exact .refused err
  | ok p =>
    obtain ⟨w₁, row⟩ := p
    obtain ⟨cur, hcur, hexp, hvalid, rfl, rfl⟩ := saveFor_eq_ok_iff.mp hs
    have hrow := hcur.row? hd (hkey cur hcur)
    refine .done hrow hcur hexp hvalid ?_ rfl
    rw [savedRow_key_eq hcur]
    exact (row?_mem hrow).2

theorem Base.saved (h : Base host reg w log) {exec : NodeExecution}
    (hmay : MaySave host reg (party host reg log t).own (party host reg log t).slots site exec
      expected) (env : Env) :
    Saved kind w exec expected ((Op.save site exec expected).exec kind w env).1
      ((Op.save site exec expected).exec kind w env).2 := by
  have hslot : ∀ {i : ℕ} {n : Slot} {cur : NodeExecution} {res : JobResult} {later : List Event},
      Recording (party host reg log t).slots i n cur res later → (w.row? cur.key).isSome := by
    intro i n cur res later hrec
    rw [hrec.key]
    exact (h.jobOK (h.slots t i n hrec.slot).job).1
  refine saved_exec h.sane.distinct (fun cur hcur => ?_) env
  cases hmay with
  | expire exec hkey hstate | recoverExpired exec hkey hstate | reject exec hkey hstate
  | requeue exec hkey hstate | resume exec hkey hstate | skip hkey hrun hstate
  | undispatched exec hkey hstate | cancel exec hkey hstate | recoverParked exec hkey hstate hexp =>
    exact h.keySeen hkey
  | skipNothing =>
    -- No run has an empty id, and so no row has.
    obtain ⟨hmem, hrunID, -⟩ := hcur.mem
    obtain ⟨run, hrun, -⟩ := h.sane.rows cur hmem
    obtain ⟨hrunMem, hid⟩ := run?_mem hrun
    exact absurd (hid.trans hrunID) (h.sane.runs run hrunMem).2
  | recoverQueued hrow hrun hid hstate hagain => exact h.keySeen hrow.keySeen
  | outcome hrec hkey hstate =>
    rw [hkey]
    exact hslot hrec
  | @retry i n cur next res row hrec hout =>
    have hkey := outcomeOf_next_key host n.job.spec cur res
    rw [hout] at hkey
    have hkey' : exec.key = cur.key := hkey
    rw [hkey']
    exact hslot hrec
  | @park i n cur res later hrec =>
    show (w.row? cur.key).isSome
    exact hslot hrec

theorem base_new : Base host reg newStoreState [] := by
  have hnone : ∀ {op : Op} {r : Res op}, ¬Told [] op r := by
    rintro op r ⟨t, h | ⟨i, h⟩⟩ <;> cases h
  refine ⟨⟨⟨nodup_nil, nodup_nil⟩, ?_, ?_, ?_, ?_⟩, fun _ _ ht => absurd ht hnone,
    fun _ _ ht => absurd ht hnone, fun _ _ ht => absurd ht hnone, ?_⟩
  · rintro run ⟨⟩
  · rintro row ⟨⟩
  · rintro row ⟨⟩
  · rintro row ⟨⟩
  · rintro t j n hn
    simp at hn

/-- A configuration that engines over one store reach, from a new store and with no call begun. -/
abbrev runEngines (host : Host) (reg : Registry) (kind : StoreKind) (items : List (Item Env EngineCall)) :
    Config StoreState Op Res Job JobResult EngineCall :=
  Machine.run (Config.step (engineSystem host reg kind)) { world := newStoreState } items

/-- The requests of a run of engines meet a condition. -/
abbrev RequestsMeet (host : Host) (reg : Registry) (kind : StoreKind)
    (G : StoreState → ELog → ℕ → Option ℕ → Op → Env → Prop)
    (items : List (Item Env EngineCall)) : Prop :=
  Machine.Guarded (Config.step (engineSystem host reg kind)) (Config.Meets G)
    { world := newStoreState } items

/-- **What engines can count on** holds in every configuration they reach. -/
theorem base_run (items : List (Item Env EngineCall)) :
    Base host reg (runEngines host reg kind items).world (runEngines host reg kind items).log := by
  refine invariant_run (keeps_conduct kind) answers_base preserves_base base_new ?_
  refine Machine.guarded_of_forall fun cfg item => ?_
  intro t i op e _
  trivial

/-- **Engines keep their store sane**, in every interleaving. -/
theorem sane_run (items : List (Item Env EngineCall)) :
    Sane host reg (runEngines host reg kind items).world := (base_run items).sane

/-! ### A workflow of one node -/

/-- A manual trigger with side effects that may be tried three times. -/
def soloSpec : NodeSpec :=
  { id := "nexaroute.trigger.manual"
    category := "trigger"
    sideEffect := .external
    retry := { maxAttempts := 3, retryableCodes := ["backend_error"] } }

def soloRegistry : Registry where
  specs := [soloSpec]
  valid spec h := by
    obtain rfl := List.mem_singleton.mp h
    constructor <;> decide
  distinct := List.nodup_singleton _

/-- The workflow with this node only, published. -/
def soloFlow : PublishedDefinition where
  definitionID := "flow"
  revision := 1
  contentHash := ""
  status := .published
  definition := StoreState.soloDefinition
  publishedBy := "admin"
  publishedAt := 0

/-- A thread goes on for a number of steps. -/
def goOn (t n : ℕ) (e : Env) : List (Item Env EngineCall) := List.replicate n (.main t e)

/-- The run `run_1` of the workflow is created. -/
def createSolo : List (Item Env EngineCall) :=
  .start (.createRun soloFlow { subject := "user" } [] "") :: goOn 0 4 { id := some "1", now := 1 }

example : ((runEngines plainHost soloRegistry .memory createSolo).world.runs.map (·.id),
    (runEngines plainHost soloRegistry .memory createSolo).world.nodes.map (·.nodeID)) =
      (["run_1"], ["start"]) := by
  decide +kernel

/-- A node whose `Run` fails in a way that may be tried again. -/
def failsRetryably : Env where
  answer := { out := .error (.node ⟨"backend_error", true, ""⟩) }

/-- Engine 1 claims the node and is not heard of. After its lease, engine 2 recovers the run and
executes the node; the attempt fails, and engine 2 claims a second one. -/
def retriedSolo : List (Item Env EngineCall) :=
  createSolo ++ .start (.execute { workerID := "engine-1" } "run_1") :: goOn 1 12 { now := 2 } ++
    .start (.recover { workerID := "engine-2" }) :: goOn 2 8 { now := 3 + 30 * second } ++
    .start (.execute { workerID := "engine-2" } "run_1") :: goOn 3 12 { now := 4 + 30 * second } ++
    List.replicate 4 (.work 3 0 failsRetryably) ++ goOn 3 16 { now := 5 + 30 * second }

end NexaRoute.Nexaflow
