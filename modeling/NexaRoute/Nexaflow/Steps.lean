import NexaRoute.Nexaflow.Engine
import NexaRoute.Nexaflow.Terminal

/-!
# What a request does to the store

Every request of an engine leaves the store as it was or does one of six things to it, and nothing
it does can be undone: runs and rows stay, with their definitions and operation ids, a record that
has ended keeps its state, and a run that was begun is never new again. `Later` says this of two
states, and all that an engine has read stays true along it.

## Main results

* `change_exec` — what a request can do
-/

namespace NexaRoute.Nexaflow

open Go StoreState NodeExecution

namespace StoreState

def row? (s : StoreState) (k : String × String × ℤ) : Option NodeExecution :=
  s.nodes.find? fun e => decide (e.key = k)

variable {s s' : StoreState} {k : String × String × ℤ} {row cur exec : NodeExecution}

theorem row?_mem (h : s.row? k = some row) : row ∈ s.nodes ∧ row.key = k :=
  ⟨List.mem_of_find?_eq_some h, by simpa using List.find?_some h⟩

theorem row?_parts {runID nodeID : String} {a : ℤ} (h : s.row? (runID, nodeID, a) = some row) :
    row ∈ s.nodes ∧ row.runID = runID ∧ row.nodeID = nodeID ∧ row.attempt = a :=
  ⟨(row?_mem h).1, parts_of_key (row?_mem h).2⟩

theorem row?_of_mem (hd : s.Distinct) (h : row ∈ s.nodes) : s.row? row.key = some row :=
  Keyed.find?_eq_some hd.nodes h

theorem row?_setRow : (s.setRow row).row? k =
    if row.key = k then (s.row? k).map fun _ => row else s.row? k :=
  Keyed.find?_replace row k

theorem row?_addRow {nodes : List NodeExecution} (h : nodes = s.nodes ++ [row]) :
    row? { s with nodes } k =
      (s.row? k).or (if row.key = k then some row else none) := by
  subst h
  rw [row?, List.find?_append, row?]
  by_cases hk : row.key = k <;> simp

theorem run?_setRun {run : Run} {id : String} : (s.setRun run).run? id =
    if run.id = id then (s.run? id).map fun _ => run else s.run? id :=
  Keyed.find?_replace run id

theorem row?_current {runID nodeID : String} (hd : s.Distinct)
    (h : s.currentAttempt runID nodeID = some cur) : s.row? (runID, nodeID, cur.attempt) = some cur := by
  obtain ⟨hmem, rfl, rfl⟩ := mem_of_currentAttempt h
  exact row?_of_mem hd hmem

theorem addressed_of_row? (hd : s.Distinct) (h : s.row? exec.key = some row) :
    s.addressed exec = some row :=
  addressed_of_mem hd (row?_mem h).1 (row?_mem h).2

end StoreState

/-! ### Saves -/

/-- The row that a save reaches: in memory the current attempt, if the record names it; in Postgres
the named attempt, or the current one if there is no such attempt. -/
def Names : StoreKind → StoreState → NodeExecution → NodeExecution → Prop
  | .memory, s, exec, cur =>
    s.currentAttempt exec.runID exec.nodeID = some cur ∧ exec.attempt = cur.attempt
  | .postgres, s, exec, cur => s.addressed exec = some cur

/-- A later attempt of the node is there. -/
def Superseded (w : StoreState) (k : String × String × ℤ) : Prop :=
  ∃ row ∈ w.nodes, row.runID = k.1 ∧ row.nodeID = k.2.1 ∧ k.2.2 < row.attempt

instance (w : StoreState) (k : String × String × ℤ) : Decidable (Superseded w k) :=
  inferInstanceAs (Decidable (∃ row ∈ w.nodes, _))

section Saves

variable {kind : StoreKind} {s s' : StoreState} {exec row cur : NodeExecution} {expected : NodeState}
  {now : Time}

theorem saveFor_eq_ok_iff :
    s.saveFor kind exec expected now = .ok (s', row) ↔
      ∃ cur, Names kind s exec cur ∧ (expected = .unset ∨ cur.state = expected) ∧
        validNodeTransition cur.state exec.state = true ∧
        row = savedRow cur exec now ∧ s' = s.setRow row := by
  cases kind with
  | memory =>
    rw [saveFor, saveNodeExecution_eq_ok_iff]
    constructor
    · rintro ⟨cur, hcur, hexp, hvalid, hatt, hrow, hs⟩
      exact ⟨cur, ⟨hcur, hatt⟩, hexp, hvalid, hrow, hs⟩
    · rintro ⟨cur, ⟨hcur, hatt⟩, hexp, hvalid, hrow, hs⟩
      exact ⟨cur, hcur, hexp, hvalid, hatt, hrow, hs⟩
  | postgres => exact saveAddressed_eq_ok_iff

theorem Names.mem (h : Names kind s exec cur) :
    cur ∈ s.nodes ∧ cur.runID = exec.runID ∧ cur.nodeID = exec.nodeID := by
  cases kind with
  | memory => exact mem_of_currentAttempt h.1
  | postgres => exact mem_of_addressed h

theorem Names.row? (h : Names kind s exec cur) (hd : s.Distinct) (hrow : (s.row? exec.key).isSome) :
    s.row? exec.key = some cur := by
  obtain ⟨hmem, hrun, hnode⟩ := h.mem
  have hkey : cur.key = exec.key := by
    have hatt : exec.attempt = cur.attempt := by
      cases kind with
      | memory => exact h.2
      | postgres =>
        obtain ⟨r, hr⟩ := Option.isSome_iff_exists.mp hrow
        obtain ⟨hrmem, hr1, hr2, hr3⟩ := row?_parts hr
        have h : s.addressed exec = some cur := h
        rw [addressed, Option.or_eq_some_iff] at h
        rcases h with h | ⟨h, -⟩
        · have hatt := List.find?_some h
          exact (beq_iff_eq.mp hatt).symm
        · have := List.find?_eq_none.mp h r (mem_rowsOf.mpr ⟨hrmem, hr1, hr2⟩)
          simp [hr3] at this
    simp [key, hrun, hnode, hatt]
  rw [← hkey]
  exact row?_of_mem hd hmem

theorem names_of_row? (hd : s.Distinct) (h : s.row? exec.key = some cur)
    (hopen : ¬(kind = .memory ∧ Superseded s exec.key)) : Names kind s exec cur := by
  cases kind with
  | postgres => exact addressed_of_row? hd h
  | memory =>
    obtain ⟨hmem, hrun, hnode, hatt⟩ := row?_parts h
    refine ⟨(currentAttempt_eq_some_iff hd.nodes).mpr ⟨⟨hmem, hrun, hnode⟩, ?_⟩,
      hatt.symm⟩
    intro e he herun henode
    by_contra hlt
    exact hopen ⟨rfl, e, he, herun, henode, by simpa [key, ← hatt] using hlt⟩

theorem savedRow_key_eq (h : Names kind s exec cur) :
    (savedRow cur exec now).key = cur.key := by
  rw [savedRow_key, key, h.mem.2.1, h.mem.2.2]

end Saves

/-! ### Requests -/

/-- What a request can make of the store. -/
inductive Change (kind : StoreKind) (s : StoreState) : Op → StoreState → Prop
  | same (op : Op) : Change kind s op s
  | newRun {run : Run} {now : Time} (runByIdem : List (String × String)) (hid : run.id ≠ "")
      (hnew : s.run? run.id = none) :
      Change kind s (.createRun run)
        { s with runs := s.runs ++ [StoreState.createdRun run now], runByIdem }
  | moveRun {runID : String} {expected state : RunState} {code msg : String} {now : Time} {r : Run}
      (hr : s.run? runID = some r) (hexp : expected = .unset ∨ r.state = expected)
      (hvalid : validRunTransition r.state state = true) :
      Change kind s (.updateRunState runID expected state code msg)
        (s.setRun (StoreState.movedRun r state code msg now))
  | addRow {site : Site} {exec : NodeExecution} {now : Time} {r : Run}
      (hr : s.run? exec.runID = some r) (hnew : s.appendedBefore exec = none) :
      Change kind s (.append site exec) { s with
        nodes := s.nodes ++
          [StoreState.appendedRow exec (s.nextAttempt exec.runID exec.nodeID) now] }
  | saveRow {site : Site} {exec cur : NodeExecution} {expected : NodeState} {now : Time}
      (hcur : Names kind s exec cur) (hexp : expected = .unset ∨ cur.state = expected)
      (hvalid : validNodeTransition cur.state exec.state = true) :
      Change kind s (.save site exec expected) (s.setRow (StoreState.savedRow cur exec now))
  | claimRow {runID nodeID owner : String} {ttl : Duration} {now : Time} {cur : NodeExecution}
      (hcur : s.currentAttempt runID nodeID = some cur)
      (hstate : cur.state = .pending ∨ cur.state = .claimed) :
      Change kind s (.tryClaim runID nodeID owner ttl now)
        (s.setRow (StoreState.claimedRow cur owner ttl now))
  | approve {appr : Approval} (approvals : List (String × Approval)) :
      Change kind s (.recordApproval appr) { s with approvals }

variable {kind : StoreKind} {s s' s'' : StoreState} {op : Op} {env : Env}

theorem change_exec : Change kind s op (op.exec kind s env).1 := by
  cases op with
  | createRun run =>
    simp only [Op.exec]
    rw [StoreState.createRun]
    split_ifs with hid hnew
    · exact .same _
    · exact .same _
    · exact .same _
    · exact .same _
    · exact .newRun _ hid (by simpa using hnew)
    · exact .newRun _ hid (by simpa using hnew)
  | updateRunState runID expected state code msg =>
    simp only [Op.exec]
    cases h : s.updateRunState runID expected state code msg env.now with
    | error err => exact .same _
    | ok p =>
      obtain ⟨r, hr, hexp, hvalid, hrow, hs⟩ := updateRunState_eq_ok_iff.mp h
      rw [hrow] at hs
      show Change kind s _ p.1
      rw [hs]
      exact .moveRun hr hexp hvalid
  | append site exec =>
    simp only [Op.exec]
    cases h : s.appendNodeExecution exec env.now with
    | error err => exact .same _
    | ok p =>
      obtain ⟨⟨r, hr⟩, h'⟩ := appendNodeExecution_eq_ok_iff.mp h
      show Change kind s _ p.1
      rcases h' with ⟨-, hs⟩ | ⟨hnew, hrow, hs⟩
      · rw [hs]
        exact .same _
      · rw [hs, hrow]
        exact .addRow hr hnew
  | save site exec expected =>
    simp only [Op.exec]
    cases h : s.saveFor kind exec expected env.now with
    | error err => exact .same _
    | ok p =>
      obtain ⟨cur, hcur, hexp, hvalid, hrow, hs⟩ := saveFor_eq_ok_iff.mp h
      rw [hrow] at hs
      show Change kind s _ p.1
      rw [hs]
      exact .saveRow hcur hexp hvalid
  | tryClaim runID nodeID owner ttl now =>
    simp only [Op.exec]
    cases h : s.tryClaim runID nodeID owner ttl now with
    | error err => exact .same _
    | ok p =>
      obtain ⟨s', claim⟩ := p
      show Change kind s _ s'
      cases claim with
      | none =>
        rw [eq_of_tryClaim_none h]
        exact .same _
      | some row =>
        obtain ⟨cur, hcur, hstate, -, rfl, rfl⟩ := tryClaim_eq_ok_iff.mp h
        exact .claimRow hcur hstate
  | recordApproval appr =>
    simp only [Op.exec, StoreState.recordApproval]
    split
    · exact .same _
    · split
      · exact .same _
      · split
        · split <;> exact .same _
        · exact .approve _
  | _ => exact .same _

theorem Change.distinct (h : Change kind s op s') (hd : s.Distinct) : s'.Distinct := by
  cases h with
  | same => exact hd
  | @newRun run now runByIdem hid hnew =>
    have hnew' : s.run? (createdRun run now).id = none := hnew
    exact hd.addRun hnew' runByIdem
  | moveRun hr hexp hvalid => exact hd.setRun _
  | addRow hr hnew => exact hd.addRow _ _
  | saveRow hcur hexp hvalid | claimRow hcur hstate => exact hd.setRow _
  | approve approvals => exact ⟨hd.runs, hd.nodes⟩

/-! ### What stays -/

/-- The run of an earlier state and the same run later. -/
structure RunLater (r r' : Run) : Prop where
  id : r'.id = r.id
  definition : r'.definition = r.definition
  ended : r.state.terminal = true → r'.state = r.state
  begun : r.state ≠ .created → r'.state ≠ .created

/-- The row of an earlier state and the same row later. -/
structure RowLater (r r' : NodeExecution) : Prop where
  key : r'.key = r.key
  operation : r'.appendOperationID = r.appendOperationID
  ended : r.state.terminal = true → r'.state = r.state

/-- The second state comes after the first. -/
structure Later (s s' : StoreState) : Prop where
  runs : ∀ id r, s.run? id = some r → ∃ r', s'.run? id = some r' ∧ RunLater r r'
  rows : ∀ k r, s.row? k = some r → ∃ r', s'.row? k = some r' ∧ RowLater r r'

theorem RunLater.refl (r : Run) : RunLater r r := ⟨rfl, rfl, fun _ => rfl, fun h => h⟩

theorem RowLater.refl (r : NodeExecution) : RowLater r r := ⟨rfl, rfl, fun _ => rfl⟩

theorem RunLater.trans {r r' r'' : Run} (h : RunLater r r') (h' : RunLater r' r'') :
    RunLater r r'' where
  id := h'.id.trans h.id
  definition := h'.definition.trans h.definition
  ended ht := (h'.ended (by rw [h.ended ht, ht])).trans (h.ended ht)
  begun hb := h'.begun (h.begun hb)

theorem RowLater.trans {r r' r'' : NodeExecution} (h : RowLater r r') (h' : RowLater r' r'') :
    RowLater r r'' where
  key := h'.key.trans h.key
  operation := h'.operation.trans h.operation
  ended ht := (h'.ended (by rw [h.ended ht, ht])).trans (h.ended ht)

theorem Later.refl (s : StoreState) : Later s s :=
  ⟨fun _ r hr => ⟨r, hr, .refl r⟩, fun _ r hr => ⟨r, hr, .refl r⟩⟩

theorem Superseded.mono {k : String × String × ℤ} (h : Later s s') (hd : s.Distinct)
    (hk : Superseded s k) : Superseded s' k := by
  obtain ⟨row, hrow, hrun, hnode, hlt⟩ := hk
  obtain ⟨row', hrow', hlater⟩ := h.rows _ row (row?_of_mem hd hrow)
  obtain ⟨hr1, hr2, hr3⟩ := parts_of_key hlater.key
  exact ⟨row', (row?_mem hrow').1, hr1.trans hrun, hr2.trans hnode, hr3.symm ▸ hlt⟩

theorem Later.of_setRow (hd : s.Distinct) {cur row : NodeExecution} (hcur : cur ∈ s.nodes)
    (hrow : RowLater cur row) : Later s (s.setRow row) := by
  refine ⟨fun _ r hr => ⟨r, hr, .refl r⟩, fun k r hr => ?_⟩
  rw [row?_setRow, hr]
  split
  · next hk =>
    refine ⟨row, rfl, ?_⟩
    have hcr : s.row? k = some cur := by
      rw [← hk, hrow.key]
      exact row?_of_mem hd hcur
    rw [hcr, Option.some.injEq] at hr
    exact hr ▸ hrow
  · exact ⟨r, rfl, .refl r⟩

theorem movedRun_later {r : Run} {state : RunState} {code msg : String} {now : Time}
    (hvalid : validRunTransition r.state state = true) :
    RunLater r (movedRun r state code msg now) where
  id := rfl
  definition := rfl
  ended ht := (eq_of_validRunTransition ht hvalid).symm
  begun hb := by
    rintro (rfl : state = .created)
    cases hs : r.state <;> simp_all [validRunTransition]

theorem savedRow_later {exec cur : NodeExecution} {now : Time} (hcur : Names kind s exec cur)
    (hvalid : validNodeTransition cur.state exec.state = true) :
    RowLater cur (savedRow cur exec now) where
  key := savedRow_key_eq hcur
  operation := rfl
  ended ht := (eq_of_validNodeTransition ht hvalid).symm

theorem claimedRow_later {cur : NodeExecution} {owner : String} {ttl : Duration} {now : Time}
    (hstate : cur.state = .pending ∨ cur.state = .claimed) :
    RowLater cur (claimedRow cur owner ttl now) where
  key := rfl
  operation := rfl
  ended ht := by rcases hstate with h | h <;> rw [h] at ht <;> cases ht

theorem Change.later (h : Change kind s op s') (hd : s.Distinct) : Later s s' := by
  cases h with
  | same => exact .refl s
  | @newRun run now runByIdem hid hnew =>
    refine ⟨fun id r hr => ⟨r, ?_, .refl r⟩, fun _ r hr => ⟨r, hr, .refl r⟩⟩
    rw [run?] at hr ⊢
    rw [List.find?_append, hr]
    rfl
  | @moveRun runID _ state code msg now r hr hexp hvalid =>
    refine ⟨fun id r' hr' => ?_, fun _ r' hr' => ⟨r', hr', .refl r'⟩⟩
    rw [run?_setRun, hr']
    split
    · next hid =>
      obtain rfl : runID = id := (run?_mem hr).2.symm.trans hid
      obtain rfl : r = r' := by simpa [hr] using hr'
      exact ⟨_, rfl, movedRun_later hvalid⟩
    · exact ⟨r', rfl, .refl r'⟩
  | @addRow site exec now r hr hnew =>
    refine ⟨fun _ r' hr' => ⟨r', hr', .refl r'⟩, fun k r' hr' => ⟨r', ?_, .refl r'⟩⟩
    rw [row?_addRow rfl, hr']
    rfl
  | saveRow hcur hexp hvalid => exact .of_setRow hd hcur.mem.1 (savedRow_later hcur hvalid)
  | claimRow hcur hstate =>
    exact .of_setRow hd (mem_of_currentAttempt hcur).1 (claimedRow_later hstate)
  | approve approvals => exact ⟨fun _ r hr => ⟨r, hr, .refl r⟩, fun _ r hr => ⟨r, hr, .refl r⟩⟩

end NexaRoute.Nexaflow
