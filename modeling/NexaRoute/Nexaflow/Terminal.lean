import NexaRoute.Machine
import NexaRoute.Nexaflow.Store

/-!
# What the store does to records that have ended

The store lets a transition to the current state through, as a repeated delivery, and writes the
whole record it is given. So a record in a terminal state keeps its state for ever, and keeps its
outcome just when whoever writes it again sends what is stored.

## Main results

* `StoreState.keepsTerminal_iff_redelivers` — when an outcome is kept
-/

namespace NexaRoute.Nexaflow

open Go List NodeExecution

/-- The operations of a store that can change it. -/
inductive StoreOp
  | saveDraft (d : Definition)
  | publish (definitionID publishedBy expectedHash : String) (now : Time)
  | supersedeRevision (definitionID : String) (revision : UInt64)
  | createRun (run : Run) (now : Time)
  | updateRunState (runID : String) (expected state : RunState) (errorCode error : String)
      (now : Time)
  | prune (before : Time)
  | append (exec : NodeExecution) (now : Time)
  | save (exec : NodeExecution) (expected : NodeState) (now : Time)
  | tryClaim (runID nodeID owner : String) (ttl : Duration) (now : Time)
  | releaseLease (runID nodeID owner : String)
  | recordApproval (appr : Approval) (now : Time)

namespace StoreState

/-- The state after an operation; one that fails leaves the state as it was. -/
def apply (hash : Definition → Option String) (s : StoreState) : StoreOp → StoreState
  | .saveDraft d => Machine.commit s (s.saveDraft d)
  | .publish definitionID publishedBy expectedHash now =>
    Machine.commit s
      ((s.publishIfUnchanged hash definitionID publishedBy expectedHash now).map Prod.fst)
  | .supersedeRevision definitionID revision =>
    Machine.commit s ((s.supersedeRevision definitionID revision).map Prod.fst)
  | .createRun run now => Machine.commit s (s.createRun run now)
  | .updateRunState runID expected state errorCode error now =>
    Machine.commit s ((s.updateRunState runID expected state errorCode error now).map Prod.fst)
  | .prune before => (s.prune before).1
  | .append exec now => Machine.commit s ((s.appendNodeExecution exec now).map Prod.fst)
  | .save exec expected now =>
    Machine.commit s ((s.saveNodeExecution exec expected now).map Prod.fst)
  | .tryClaim runID nodeID owner ttl now =>
    Machine.commit s ((s.tryClaim runID nodeID owner ttl now).map Prod.fst)
  | .releaseLease runID nodeID owner => Machine.commit s (s.releaseLease runID nodeID owner)
  | .recordApproval appr now => Machine.commit s ((s.recordApproval appr now).map Prod.fst)

/-! ### Keys stay distinct -/

/-- No two runs share an id and no two rows a key. -/
structure Distinct (s : StoreState) : Prop where
  runs : (s.runs.map Run.id).Nodup
  nodes : (s.nodes.map NodeExecution.key).Nodup

theorem distinct_new : Distinct newStoreState := ⟨nodup_nil, nodup_nil⟩

variable {s s' : StoreState}

theorem Distinct.setRow (h : Distinct s) (row : NodeExecution) : Distinct (s.setRow row) :=
  ⟨h.runs, by simpa [StoreState.setRow] using h.nodes⟩

theorem Distinct.setRun (h : Distinct s) (run : Run) : Distinct (s.setRun run) :=
  ⟨by simpa [StoreState.setRun] using h.runs, h.nodes⟩

theorem setRow_self (h : Distinct s) {row : NodeExecution} (hrow : row ∈ s.nodes) :
    s.setRow row = s := by
  rw [setRow, Keyed.replace_self h.nodes hrow]

theorem addressed_of_mem (h : Distinct s) {exec row : NodeExecution} (hmem : row ∈ s.nodes)
    (hkey : row.key = exec.key) : s.addressed exec = some row := by
  obtain ⟨hrun, hnode, hatt⟩ := parts_of_key hkey
  have hrow : row ∈ s.rowsOf exec.runID exec.nodeID := mem_rowsOf.mpr ⟨hmem, hrun, hnode⟩
  rw [addressed]
  cases hf : (s.rowsOf exec.runID exec.nodeID).find? (·.attempt == exec.attempt) with
  | none => exact absurd hatt (by simpa using find?_eq_none.mp hf row hrow)
  | some row' =>
    obtain ⟨hmem', hrun', hnode'⟩ := mem_rowsOf.mp (mem_of_find?_eq_some hf)
    have hatt' : row'.attempt = exec.attempt := by simpa using find?_some hf
    have hkey' : row'.key = row.key := by
      rw [hkey]
      simp only [key, hrun', hnode', hatt']
    rw [Keyed.eq_of_key_eq h.nodes hmem' hmem hkey']
    rfl

theorem attempt_lt_nextAttempt {e : NodeExecution} (he : e ∈ s.nodes) :
    e.attempt < s.nextAttempt e.runID e.nodeID := by
  rw [nextAttempt]
  cases hcur : s.currentAttempt e.runID e.nodeID with
  | none => exact absurd rfl (currentAttempt_eq_none_iff.mp hcur e he rfl)
  | some c =>
    have := attempt_le_current hcur he rfl rfl
    show e.attempt < c.attempt + 1
    omega

theorem Distinct.addRow (h : Distinct s) (exec : NodeExecution) (now : Time) :
    Distinct { s with
      nodes := s.nodes ++ [appendedRow exec (s.nextAttempt exec.runID exec.nodeID) now] } := by
  refine ⟨h.runs, ?_⟩
  rw [map_append, nodup_append]
  refine ⟨h.nodes, by simp, ?_⟩
  rintro k hk k' hk' rfl
  obtain ⟨e, he, rfl⟩ := mem_map.mp hk
  have hkey : e.key = (appendedRow exec (s.nextAttempt exec.runID exec.nodeID) now).key := by
    simpa using hk'
  simp only [key, appendedRow, Prod.mk.injEq] at hkey
  have hlt := attempt_lt_nextAttempt he
  rw [hkey.1, hkey.2.1] at hlt
  omega

theorem Distinct.addRun (h : Distinct s) {run : Run} (hnew : s.run? run.id = none)
    (runByIdem : List (String × String)) : Distinct { s with runs := s.runs ++ [run], runByIdem } := by
  refine ⟨?_, h.nodes⟩
  rw [map_append, nodup_append]
  refine ⟨h.runs, by simp, ?_⟩
  rintro id hid id' hid' rfl
  obtain ⟨r, hr, rfl⟩ := mem_map.mp hid
  exact run?_eq_none_iff.mp hnew r hr (by simpa using hid')

theorem Distinct.prune (h : Distinct s) (before : Time) : Distinct (s.prune before).1 :=
  ⟨h.runs.sublist (filter_sublist.map _), h.nodes.sublist (filter_sublist.map _)⟩

/-! ### What each operation does to runs and rows -/

variable (hash : Definition → Option String)

/-- The operation `op` writes runs and rows. -/
def StoreOp.writes : StoreOp → Bool
  | .saveDraft _ | .publish .. | .supersedeRevision .. | .recordApproval .. => false
  | _ => true

theorem apply_of_writes_eq_false {op : StoreOp} (h : StoreOp.writes op = false) :
    (s.apply hash op).runs = s.runs ∧ (s.apply hash op).nodes = s.nodes := by
  cases op with
  | saveDraft d =>
    simp only [apply, saveDraft]
    split <;> exact ⟨rfl, rfl⟩
  | publish definitionID publishedBy expectedHash now =>
    simp only [apply, publishIfUnchanged]
    split
    · exact ⟨rfl, rfl⟩
    · split
      · exact ⟨rfl, rfl⟩
      · split
        · exact ⟨rfl, rfl⟩
        · split
          · split <;> exact ⟨rfl, rfl⟩
          · exact ⟨rfl, rfl⟩
  | supersedeRevision definitionID revision =>
    simp only [apply, supersedeRevision]
    split
    · exact ⟨rfl, rfl⟩
    · split <;> exact ⟨rfl, rfl⟩
  | recordApproval appr now =>
    simp only [apply, recordApproval]
    split
    · exact ⟨rfl, rfl⟩
    · split
      · exact ⟨rfl, rfl⟩
      · split
        · split <;> exact ⟨rfl, rfl⟩
        · exact ⟨rfl, rfl⟩
  | _ => cases h

theorem Distinct.of_writes_eq_false (h : Distinct s) {op : StoreOp}
    (hop : StoreOp.writes op = false) : Distinct (s.apply hash op) := by
  obtain ⟨hruns, hnodes⟩ := apply_of_writes_eq_false (s := s) hash hop
  exact ⟨hruns ▸ h.runs, hnodes ▸ h.nodes⟩

theorem apply_createRun (run : Run) (now : Time) :
    s.apply hash (.createRun run now) = s ∨
      s.run? run.id = none ∧ ∃ runByIdem,
        s.apply hash (.createRun run now) =
          { s with runs := s.runs ++ [createdRun run now], runByIdem } := by
  simp only [apply, createRun]
  split_ifs with _ hnew
  · exact .inl rfl
  · exact .inl rfl
  · exact .inl rfl
  · exact .inl rfl
  · exact .inr ⟨by simpa using hnew, _, rfl⟩
  · exact .inr ⟨by simpa using hnew, _, rfl⟩

theorem apply_append (exec : NodeExecution) (now : Time) :
    s.apply hash (.append exec now) = s ∨
      s.apply hash (.append exec now) =
        { s with
          nodes := s.nodes ++ [appendedRow exec (s.nextAttempt exec.runID exec.nodeID) now] } := by
  rw [apply]
  cases h : s.appendNodeExecution exec now with
  | error err => exact .inl rfl
  | ok p =>
    rcases (appendNodeExecution_eq_ok_iff.mp h).2 with ⟨-, hs⟩ | ⟨-, hrow, hs⟩
    · exact .inl hs
    · rw [hrow] at hs
      exact .inr hs

theorem apply_tryClaim (runID nodeID owner : String) (ttl : Duration) (now : Time) :
    s.apply hash (.tryClaim runID nodeID owner ttl now) = s ∨
      ∃ cur, s.currentAttempt runID nodeID = some cur ∧ cur.state.terminal = false ∧
        s.apply hash (.tryClaim runID nodeID owner ttl now) =
          s.setRow (claimedRow cur owner ttl now) := by
  rw [apply]
  cases h : s.tryClaim runID nodeID owner ttl now with
  | error err => exact .inl rfl
  | ok p =>
    obtain ⟨s', claim⟩ := p
    cases claim with
    | none => exact .inl (eq_of_tryClaim_none h)
    | some row =>
      obtain ⟨cur, hcur, hstate, -, rfl, rfl⟩ := tryClaim_eq_ok_iff.mp h
      refine .inr ⟨cur, hcur, ?_, rfl⟩
      rcases hstate with hstate | hstate <;> rw [hstate] <;> rfl

theorem apply_releaseLease (runID nodeID owner : String) :
    s.apply hash (.releaseLease runID nodeID owner) = s ∨
      ∃ cur, s.currentAttempt runID nodeID = some cur ∧
        s.apply hash (.releaseLease runID nodeID owner) =
          s.setRow (releasedRow cur) := by
  simp only [apply, releaseLease]
  cases hcur : s.currentAttempt runID nodeID with
  | none => exact .inl rfl
  | some cur =>
    dsimp only
    split
    · exact .inr ⟨cur, rfl, rfl⟩
    · exact .inl rfl

theorem apply_save (exec : NodeExecution) (expected : NodeState) (now : Time) :
    (s.apply hash (.save exec expected now) = s ∧
        ∀ cur, s.currentAttempt exec.runID exec.nodeID = some cur →
          (expected = .unset ∨ cur.state = expected) → exec.attempt = cur.attempt →
          validNodeTransition cur.state exec.state = false) ∨
      ∃ cur, s.currentAttempt exec.runID exec.nodeID = some cur ∧
        (expected = .unset ∨ cur.state = expected) ∧ exec.attempt = cur.attempt ∧
        validNodeTransition cur.state exec.state = true ∧
        s.apply hash (.save exec expected now) = s.setRow (savedRow cur exec now) := by
  rw [apply]
  cases h : s.saveNodeExecution exec expected now with
  | error err =>
    refine .inl ⟨rfl, fun cur hcur hexp hatt => ?_⟩
    by_contra hvalid
    have hok : s.saveNodeExecution exec expected now = .ok _ := saveNodeExecution_eq_ok_iff.mpr
      ⟨cur, hcur, hexp, by simpa using hvalid, hatt, rfl, rfl⟩
    rw [h] at hok
    cases hok
  | ok p =>
    obtain ⟨s', row⟩ := p
    obtain ⟨cur, hcur, hexp, hvalid, hatt, rfl, rfl⟩ := saveNodeExecution_eq_ok_iff.mp h
    exact .inr ⟨cur, hcur, hexp, hatt, hvalid, rfl⟩

theorem apply_updateRunState (runID : String) (expected state : RunState) (code msg : String)
    (now : Time) :
    (s.apply hash (.updateRunState runID expected state code msg now) = s ∧
        ∀ r, s.run? runID = some r → (expected = .unset ∨ r.state = expected) →
          validRunTransition r.state state = false) ∨
      ∃ r, s.run? runID = some r ∧ (expected = .unset ∨ r.state = expected) ∧
        validRunTransition r.state state = true ∧
        s.apply hash (.updateRunState runID expected state code msg now) =
          s.setRun (movedRun r state code msg now) := by
  rw [apply]
  cases h : s.updateRunState runID expected state code msg now with
  | error err =>
    refine .inl ⟨rfl, fun r hr hexp => ?_⟩
    by_contra hvalid
    have hok : s.updateRunState runID expected state code msg now = .ok _ :=
      updateRunState_eq_ok_iff.mpr ⟨r, hr, hexp, by simpa using hvalid, rfl, rfl⟩
    rw [h] at hok
    cases hok
  | ok p =>
    obtain ⟨s', r'⟩ := p
    obtain ⟨r, hr, hexp, hvalid, rfl, rfl⟩ := updateRunState_eq_ok_iff.mp h
    exact .inr ⟨r, hr, hexp, hvalid, rfl⟩

theorem Distinct.apply (h : Distinct s) (op : StoreOp) : Distinct (s.apply hash op) := by
  cases op with
  | createRun run now =>
    rcases s.apply_createRun hash run now with hs | ⟨hnew, runByIdem, hs⟩
    · rwa [hs]
    · rw [hs]
      have hnew' : s.run? (createdRun run now).id = none := hnew
      exact h.addRun hnew' runByIdem
  | updateRunState runID expected state code msg now =>
    rcases s.apply_updateRunState hash runID expected state code msg now with
      ⟨hs, -⟩ | ⟨r, -, -, -, hs⟩
    · rwa [hs]
    · rw [hs]
      exact h.setRun _
  | prune before => exact h.prune before
  | append exec now =>
    rcases s.apply_append hash exec now with hs | hs
    · rwa [hs]
    · rw [hs]
      exact h.addRow exec now
  | save exec expected now =>
    rcases s.apply_save hash exec expected now with ⟨hs, -⟩ | ⟨cur, -, -, -, -, hs⟩
    · rwa [hs]
    · rw [hs]
      exact h.setRow _
  | tryClaim runID nodeID owner ttl now =>
    rcases s.apply_tryClaim hash runID nodeID owner ttl now with hs | ⟨cur, -, -, hs⟩
    · rwa [hs]
    · rw [hs]
      exact h.setRow _
  | releaseLease runID nodeID owner =>
    rcases s.apply_releaseLease hash runID nodeID owner with hs | ⟨cur, -, hs⟩
    · rwa [hs]
    · rw [hs]
      exact h.setRow _
  | saveDraft | publish | supersedeRevision | recordApproval => exact h.of_writes_eq_false hash rfl

theorem distinct_run (ops : List StoreOp) :
    Distinct (Machine.run (apply hash) newStoreState ops) :=
  Machine.run_invariant (fun _ op h => h.apply hash op) distinct_new

/-! ### Records that have ended -/

/-- What a row ended with. -/
def outcome (e : NodeExecution) : NodeState × Obj × String × String × Time :=
  (e.state, e.output, e.errorCode, e.error, e.finishedAt)

def runOutcome (r : Run) : RunState × String × String × Time :=
  (r.state, r.errorCode, r.error, r.finishedAt)

/-- Every terminal row and every terminal run of `s` is in `s'` with the same outcome. -/
def KeepsTerminal (s s' : StoreState) : Prop :=
  Keyed.Kept NodeExecution.key (fun e => e.state.terminal = true) outcome s.nodes s'.nodes ∧
    Keyed.Kept Run.id (fun r => r.state.terminal = true) runOutcome s.runs s'.runs

/-- An operation that the store lets through to a terminal record carries what the record holds. -/
def Redelivers (s : StoreState) : StoreOp → Prop
  | .save exec expected now =>
    ∀ cur, s.currentAttempt exec.runID exec.nodeID = some cur → cur.state.terminal = true →
      exec.state = cur.state → (expected = .unset ∨ cur.state = expected) →
      exec.attempt = cur.attempt →
      exec.output = cur.output ∧ exec.errorCode = cur.errorCode ∧ exec.error = cur.error ∧
        (if exec.finishedAt = zeroTime then now else exec.finishedAt) = cur.finishedAt
  | .updateRunState runID expected state errorCode error now =>
    ∀ r, s.run? runID = some r → r.state.terminal = true → state = r.state →
      (expected = .unset ∨ r.state = expected) →
      errorCode = r.errorCode ∧ error = r.error ∧ (r.finishedAt = zeroTime → now = zeroTime)
  | _ => True

theorem keepsTerminal_of_subset (hnodes : s.nodes ⊆ s'.nodes) (hruns : s.runs ⊆ s'.runs) :
    KeepsTerminal s s' :=
  ⟨Keyed.Kept.of_subset hnodes, Keyed.Kept.of_subset hruns⟩

theorem keepsTerminal_self : KeepsTerminal s s :=
  keepsTerminal_of_subset (List.Subset.refl _) (List.Subset.refl _)

theorem keepsTerminal_of_writes_eq_false {op : StoreOp} (h : StoreOp.writes op = false) :
    KeepsTerminal s (s.apply hash op) := by
  obtain ⟨hruns, hnodes⟩ := apply_of_writes_eq_false (s := s) hash h
  exact keepsTerminal_of_subset (fun _ he => hnodes ▸ he) fun _ hr => hruns ▸ hr

theorem keepsTerminal_setRow_iff (h : Distinct s) {cur row : NodeExecution} (hcur : cur ∈ s.nodes)
    (hkey : row.key = cur.key) :
    KeepsTerminal s (s.setRow row) ↔ (cur.state.terminal = true → outcome row = outcome cur) := by
  rw [KeepsTerminal, setRow, Keyed.kept_replace_iff h.nodes hcur hkey]
  exact and_iff_left (Keyed.Kept.of_subset (List.Subset.refl _))

theorem keepsTerminal_save_iff (h : Distinct s) (exec : NodeExecution) (expected : NodeState)
    (now : Time) :
    KeepsTerminal s (s.apply hash (.save exec expected now)) ↔
      Redelivers s (.save exec expected now) := by
  rcases s.apply_save hash exec expected now with ⟨hs, hrefused⟩ | ⟨cur, hcur, hexp, hatt, hvalid, hs⟩
  · rw [hs]
    refine iff_of_true keepsTerminal_self fun cur hcur _ hstate hexp hatt => ?_
    have hvalid := hrefused cur hcur hexp hatt
    rw [hstate, validNodeTransition_self] at hvalid
    cases hvalid
  · obtain ⟨hmem, hrun, hnode⟩ := mem_of_currentAttempt hcur
    have hkey : (savedRow cur exec now).key = cur.key := by
      rw [savedRow_key, key, hrun, hnode]
    rw [hs, keepsTerminal_setRow_iff h hmem hkey]
    constructor
    · intro hkept cur' hcur' hterm hstate _ _
      obtain rfl : cur = cur' := by simpa [hcur] using hcur'
      have := hkept hterm
      simp only [outcome, savedRow, hstate, hterm, true_and, Prod.mk.injEq] at this
      exact this
    · intro hred hterm
      have hstate := (eq_of_validNodeTransition hterm hvalid).symm
      obtain ⟨hout, hcode, herr, hfin⟩ := hred cur hcur hterm hstate hexp hatt
      simp only [outcome, savedRow, hstate, hterm, true_and, hout, hcode, herr, hfin]

theorem keepsTerminal_updateRunState_iff (h : Distinct s) (runID : String)
    (expected state : RunState) (code msg : String) (now : Time) :
    KeepsTerminal s (s.apply hash (.updateRunState runID expected state code msg now)) ↔
      Redelivers s (.updateRunState runID expected state code msg now) := by
  rcases s.apply_updateRunState hash runID expected state code msg now with
    ⟨hs, hrefused⟩ | ⟨r, hr, hexp, hvalid, hs⟩
  · rw [hs]
    refine iff_of_true keepsTerminal_self fun r hr _ hstate hexp => ?_
    have hvalid := hrefused r hr hexp
    rw [hstate, validRunTransition_self] at hvalid
    cases hvalid
  · obtain ⟨hmem, hid⟩ := run?_mem hr
    rw [hs, KeepsTerminal, setRun,
      Keyed.kept_replace_iff h.runs hmem (movedRun_id r state code msg now),
      and_iff_right (Keyed.Kept.of_subset (List.Subset.refl _))]
    have hfin : (if r.finishedAt = zeroTime then now else r.finishedAt) = r.finishedAt ↔
        (r.finishedAt = zeroTime → now = zeroTime) := by
      by_cases hz : r.finishedAt = zeroTime <;> simp [hz]
    constructor
    · intro hkept r' hr' hterm hstate _
      obtain rfl : r = r' := by simpa [hr] using hr'
      have := hkept hterm
      simp only [runOutcome, movedRun, hstate, hterm, true_and, Prod.mk.injEq, hfin] at this
      exact this
    · intro hred hterm
      have hstate := (eq_of_validRunTransition hterm hvalid).symm
      obtain ⟨hcode, herr, hz⟩ := hred r hr hterm hstate hexp
      simp only [runOutcome, movedRun, hstate, hterm, true_and, hcode, herr, hfin.mpr hz]

/-- **Terminal records keep their outcome just when what reaches them is a true repetition.** In
every reachable state, an operation other than pruning leaves state, output, error and end of every
terminal row and run as they were exactly if it does not reach such a record with other content. -/
theorem keepsTerminal_iff_redelivers (ops : List StoreOp) (op : StoreOp)
    (hop : ∀ before, op ≠ .prune before) :
    KeepsTerminal (Machine.run (StoreState.apply hash) newStoreState ops)
        ((Machine.run (StoreState.apply hash) newStoreState ops).apply hash op) ↔
      Redelivers (Machine.run (StoreState.apply hash) newStoreState ops) op := by
  have h := distinct_run hash ops
  generalize Machine.run (apply hash) newStoreState ops = s at h ⊢
  cases op with
  | save exec expected now => exact keepsTerminal_save_iff hash h exec expected now
  | updateRunState runID expected state code msg now =>
    exact keepsTerminal_updateRunState_iff hash h runID expected state code msg now
  | prune before => exact absurd rfl (hop before)
  | createRun run now =>
    refine iff_of_true ?_ trivial
    rcases s.apply_createRun hash run now with hs | ⟨-, runByIdem, hs⟩
    · rw [hs]
      exact keepsTerminal_self
    · rw [hs]
      exact keepsTerminal_of_subset (List.Subset.refl _) (subset_append_left ..)
  | append exec now =>
    refine iff_of_true ?_ trivial
    rcases s.apply_append hash exec now with hs | hs
    · rw [hs]
      exact keepsTerminal_self
    · rw [hs]
      exact keepsTerminal_of_subset (subset_append_left ..) (List.Subset.refl _)
  | tryClaim runID nodeID owner ttl now =>
    refine iff_of_true ?_ trivial
    rcases s.apply_tryClaim hash runID nodeID owner ttl now with hs | ⟨cur, hcur, hlive, hs⟩
    · rw [hs]
      exact keepsTerminal_self
    · rw [hs, keepsTerminal_setRow_iff h (mem_of_currentAttempt hcur).1 (claimedRow_key ..), hlive]
      intro hterm
      cases hterm
  | releaseLease runID nodeID owner =>
    refine iff_of_true ?_ trivial
    rcases s.apply_releaseLease hash runID nodeID owner with hs | ⟨cur, hcur, hs⟩
    · rw [hs]
      exact keepsTerminal_self
    · rw [hs, keepsTerminal_setRow_iff h (mem_of_currentAttempt hcur).1 (releasedRow_key cur)]
      exact fun _ => rfl
  | saveDraft | publish | supersedeRevision | recordApproval =>
    exact iff_of_true (keepsTerminal_of_writes_eq_false hash rfl) trivial

/-! ### Records that are written again -/

def soloDefinition : Definition where
  schemaVersion := "v1"
  id := "flow"
  name := "flow"
  nodes := [{ id := "start", nodeID := "nexaroute.trigger.manual", version := "v1" }]
  triggers := [{ name := "start", kind := "manual" }]

/-- A run whose only node has been executed; the node failed, and so did the run. -/
def failedRun : List StoreOp :=
  [.createRun { id := "run_1", definition := soloDefinition } 1,
    .append { runID := "run_1", nodeID := "start", appendOperationID := "initial" } 1,
    .updateRunState "run_1" .created .running "" "" 2,
    .tryClaim "run_1" "start" "engine-1" 30 3,
    .save { runID := "run_1", nodeID := "start", state := .running, dispatched := true } .claimed 4,
    .save { runID := "run_1", nodeID := "start", state := .failed, errorCode := "timeout" }
      .running 5,
    .updateRunState "run_1" .unset .failed "timeout" "" 6]

/-- `ForceFailRun` of the failed run. -/
def forceFail : StoreOp := .updateRunState "run_1" .unset .failed "operator_force_failed" "" 7

/-- The failure of the node as a second engine reports it. -/
def lateFailure : StoreOp :=
  .save { runID := "run_1", nodeID := "start", state := .failed, errorCode := "internal_error" }
    .failed 8

/-- A failed run takes the reason of a later force-fail, and a failed row the error of a later
engine. -/
theorem not_keepsTerminal_failedRun :
    let s := Machine.run (StoreState.apply fun _ => none) newStoreState failedRun
    ¬KeepsTerminal s (s.apply (fun _ => none) forceFail) ∧
      ¬KeepsTerminal s (s.apply (fun _ => none) lateFailure) := by
  have hd := distinct_run (fun _ => none) failedRun
  constructor
  · intro h
    have hred := (keepsTerminal_updateRunState_iff _ hd ..).mp h _ rfl rfl rfl (.inl rfl)
    exact absurd hred.1 (by decide)
  · intro h
    have hred := (keepsTerminal_save_iff _ hd ..).mp h _ rfl rfl rfl (.inr rfl) rfl
    exact absurd hred.2.1 (by decide)

/-- The same failure reported once more is a repetition, and everything stays. -/
theorem keepsTerminal_failedRun_repeated :
    KeepsTerminal (Machine.run (StoreState.apply fun _ => none) newStoreState failedRun)
      ((Machine.run (StoreState.apply fun _ => none) newStoreState failedRun).apply
        (fun _ => none) (.updateRunState "run_1" .unset .failed "timeout" "" 9)) := by
  refine (keepsTerminal_iff_redelivers (fun _ => none) failedRun _ (by simp)).mpr ?_
  intro r hr _ _ _
  obtain rfl : _ = r := Option.some.inj hr
  exact ⟨rfl, rfl, by decide⟩

end StoreState

end NexaRoute.Nexaflow
