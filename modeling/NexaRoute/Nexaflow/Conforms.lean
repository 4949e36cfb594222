import NexaRoute.Nexaflow.Conduct

/-!
# The programs of an engine keep to its conduct

Every request of every program, with every reply it can get, is one the rules allow. This is a
property of the programs alone: no store and no other engine comes into it.

## Main results

* `keeps_conduct` — the programs obey the protocol
-/

namespace NexaRoute.Nexaflow

open Interleave Protocol List

variable {host : Host} {reg : Registry} {m : Party (List Event) Slot}

variable {current : Current} {nodeID runID : String} {row cur : NodeExecution}
  {rows : List NodeExecution} {run : Run} {m' m'' : Party (List Event) Slot} {i : ℕ} {n : Slot}
  {res : JobResult} {later own : List Event} {plan : Plan} {view : List NodeExecution} (e : Engine)

/-! ### Maps of rows -/

theorem mem_set_iff {p : String × NodeExecution} :
    p ∈ current.set nodeID row ↔ p = (nodeID, row) ∨ p ∈ current ∧ p.1 ≠ nodeID := by
  simp [Current.set]

theorem mem_currentAttempts {p : String × NodeExecution} (h : p ∈ currentAttempts rows) :
    p.2 ∈ rows ∧ p.2.nodeID = p.1 := by
  have hfold : ∀ (l : List NodeExecution) (out : Current),
      (∀ q ∈ out, q.2 ∈ rows ∧ q.2.nodeID = q.1) → (∀ e ∈ l, e ∈ rows) →
      ∀ q ∈ l.foldl addAttempt out, q.2 ∈ rows ∧ q.2.nodeID = q.1 := by
    intro l
    induction l with
    | nil => exact fun out hout _ => hout
    | cons e l ih =>
      intro out hout hl
      refine ih _ (fun q hq => ?_) fun e' he' => hl e' (mem_cons_of_mem e he')
      have hset : q ∈ out.set e.nodeID e → q.2 ∈ rows ∧ q.2.nodeID = q.1 := by
        intro hq
        rcases mem_set_iff.mp hq with rfl | ⟨hq, -⟩
        · exact ⟨hl e mem_cons_self, rfl⟩
        · exact hout q hq
      rw [addAttempt] at hq
      split at hq
      · exact hset hq
      · split at hq
        · exact hset hq
        · exact hout q hq
  exact hfold rows [] (by simp) (fun _ he => he) p h

/-- Rows of a run that were read. -/
def SawRows (own : List Event) (runID : String) (rows : List NodeExecution) : Prop :=
  ∀ row ∈ rows, SawRow own row ∧ row.runID = runID

theorem SawRows.mono {own' : List Event} (h : own ⊆ own') (hrows : SawRows own runID rows) :
    SawRows own' runID rows :=
  fun row hrow => ⟨(hrows row hrow).1.mono h, (hrows row hrow).2⟩

theorem SawRows.of_perm {nodes : List NodeExecution} (h : SawRows own runID nodes)
    (hperm : rows.Perm (currentAttempts nodes).rows) : SawRows own runID rows := by
  intro row hrow
  obtain ⟨p, hp, rfl⟩ := mem_map.mp (hperm.mem_iff.mp hrow)
  exact h _ (mem_currentAttempts hp).1

theorem mem_of_lookup_eq_some (h : current.lookup nodeID = some row) : (nodeID, row) ∈ current := by
  obtain ⟨before, after, rfl, -⟩ := lookup_eq_some_iff.mp h
  exact mem_append_right before mem_cons_self

theorem row_cases (current : Current) (nodeID : String) :
    (nodeID, current.row nodeID) ∈ current ∨ current.row nodeID = zeroExecution := by
  rw [Current.row]
  cases h : current.lookup nodeID with
  | none => exact .inr rfl
  | some row => exact .inl (mem_of_lookup_eq_some h)

/-! ### CreateRun -/

theorem leads_requireInitializedRun (hrun : SawRun m.own run) :
    Leads host reg (fun m' out => out = none → Initialized m'.own run.id) m
      (requireInitializedRun run) := by
  refine (leads_getNodes .initialized trivial rfl).andOk (fun m' rows hg hrows => ?_)
    fun _ _ _ => leads_pure nofun
  refine leads_pure fun hnone => ⟨run, rows, hrun.mono hg.own, rfl, (hrows rows rfl).1, ?_⟩
  intro n hn
  have hfind := find?_eq_none.mp (Option.map_eq_none_iff.mp hnone) n hn
  simpa using hfind

theorem passes_pollInitialized (hrun : SawRun m.own run) (n : ℕ) :
    Passes host reg m (pollInitialized run n) := by
  induction n generalizing m with
  | zero =>
    refine (leads_requireInitializedRun hrun).andThen fun m' out _ _ => ?_
    split
    · refine (passes_ask .cancelled).andThen fun m'' b _ _ => ?_
      split <;> exact passes_pure _
    · exact passes_pure _
  | succ n ih =>
    refine (leads_requireInitializedRun hrun).andThen fun m' out hg _ => ?_
    split
    · exact ih (hrun.mono hg.own)
    · exact passes_pure _

theorem passes_waitForInitializedRun (hrun : SawRun m.own run) :
    Passes host reg m (waitForInitializedRun run) :=
  (passes_request .ticks trivial rfl).andThen fun _ n hg _ =>
    passes_pollInitialized (hrun.mono hg.own) n

theorem passes_appendInitial (hrun : Created m.own run) {ids : List String}
    (hids : ∀ id ∈ ids, id ∈ run.definition.ids) :
    Passes host reg m (appendInitial run.id ids) := by
  induction ids generalizing m with
  | nil => exact passes_pure _
  | cons nodeID ids ih =>
    obtain ⟨hid, hids⟩ := forall_mem_cons.mp hids
    exact (passes_request (.append .initial _) (.initial hrun hid) rfl).andOk
      fun m' row hg _ => ih (hg.own hrun) hids

theorem passes_answerRun (runID : String) : Passes host reg m (answerRun runID) :=
  (leads_getRun runID).andOk fun _ _ _ _ => passes_pure _

theorem passes_insertRun {pub : PublishedDefinition} (hwf : WellFormed host reg pub.definition)
    (principal : Identity) (input : Obj) (key : String) :
    Passes host reg m (insertRun host pub principal input key) := by
  refine (passes_request .newID trivial rfl).andThen fun m₁ id _ _ => ?_
  cases (id : Option String) with
  | none => exact passes_pure _
  | some id =>
    refine (leads_storeRun rfl hwf).andOk (fun m₂ _ _ hr => ?_) fun m₂ err _ => ?_
    · have hids : ∀ id ∈ topologicalOrder pub.definition, id ∈ pub.definition.ids :=
        fun id hid => hwf.perm_topologicalOrder.mem_iff.mp hid
      refine (passes_appendInitial (hr rfl) hids).andThen fun m₃ out _ _ => ?_
      cases out with
      | some err => exact passes_pure _
      | none => exact passes_answerRun _
    · refine leads_ite (fun _ => ?_) fun _ => passes_pure _
      refine (leads_getRunByIdempotency key).andOk fun m₃ existing _ hr' =>
        leads_ite (fun _ => ?_) fun _ => passes_pure _
      refine (passes_waitForInitializedRun (hr' existing rfl)).andThen fun m₄ out _ _ => ?_
      cases out with
      | some err' => exact passes_pure _
      | none => exact passes_answerRun existing.id

theorem wellFormed_of_admissionError {d : Definition} {input : Obj}
    (h : admissionError host reg d input = none) : WellFormed host reg d := by
  have hv := firstError_eq_none_iff.mp h ((validateDefinition host reg d).map (.definition d.id))
    (by simp)
  exact wellFormed_of_validateDefinition (Option.map_eq_none_iff.mp hv)

theorem passes_createRun (pub : PublishedDefinition) (principal : Identity) (input : Obj)
    (key : String) : Passes host reg m (createRun host reg pub principal input key) := by
  rw [createRun]
  split
  · exact passes_pure _
  · next hadm =>
    have hwf := wellFormed_of_admissionError hadm
    refine leads_ite (fun _ => passes_insertRun hwf principal input key) fun _ => ?_
    refine (leads_getRunByIdempotency key).andThen fun m₁ r _ hr => ?_
    split
    · next existing =>
      refine leads_ite (fun _ => ?_) fun _ => passes_pure _
      refine (passes_waitForInitializedRun (hr existing rfl)).andThen fun m₂ out _ _ => ?_
      cases out with
      | some err | none => exact passes_pure _
    · exact passes_insertRun hwf principal input key
    · exact passes_pure _

/-! ### The state of a run -/

/-- Rows that make a run succeed have ended, and none failed. -/
theorem forall_of_verdictOf {d : Definition} (h : verdictOf d current rows = .succeeded) :
    ∀ row ∈ rows, row.state.terminal = true ∧ row.state ≠ .failed := by
  have hfold : ∀ (l : List NodeExecution) (t : Tally),
      (l.foldl (Tally.add d current) t).allTerminal =
          (t.allTerminal && l.all (·.state.terminal)) ∧
        (l.foldl (Tally.add d current) t).anyFailed =
          (t.anyFailed || l.any (·.state == .failed)) := by
    intro l
    induction l with
    | nil => simp
    | cons e l ih =>
      intro t
      have hadd : (t.add d current e).allTerminal = (t.allTerminal && e.state.terminal) ∧
          (t.add d current e).anyFailed = (t.anyFailed || e.state == .failed) := by
        simp only [Tally.add]
        cases e.state with
        | pending =>
          dsimp only
          split <;> simp
        | _ => simp
      rw [foldl_cons, (ih _).1, (ih _).2, hadd.1, hadd.2, all_cons, any_cons,
        Bool.and_assoc, Bool.or_assoc]
      exact ⟨rfl, rfl⟩
  rw [verdictOf] at h
  rw [(hfold _ _).1, (hfold _ _).2] at h
  intro row hrow
  split_ifs at h with h1 h2 h3 h4
  · split at h <;> cases h
  · have hall : rows.all (·.state.terminal) = true := by simpa using h4
    refine ⟨all_eq_true.mp hall row hrow, fun hf => h2 ?_⟩
    have hany : rows.any (·.state == .failed) = true :=
      any_eq_true.mpr ⟨row, hrow, by simp [hf]⟩
    simp [hany, hall]

theorem passes_moveRun {state : RunState} (code msg : String)
    (h : MayMove m.own runID .unset state) :
    Passes host reg m (moveRun runID state code msg) :=
  (leads_updateRunState code msg h).andOk fun _ _ _ _ => passes_pure _

theorem passes_recomputeRunState (h : Underway m.own runID) :
    Passes host reg m (recomputeRunState runID) := by
  refine (leads_getRun runID).andOk fun m₁ run hg₁ _ =>
    leads_ite (fun _ => passes_pure _) fun _ => ?_
  refine (leads_getNodes .recompute (h.mono hg₁.own) rfl).andOk fun m₂ nodes _ hr => ?_
  refine (leads_range _).andThen fun m₃ rows hg hrows => ?_
  cases hv : verdictOf run.definition (currentAttempts nodes) rows with
  | parked => exact passes_moveRun _ _ .park
  | failed code msg => exact passes_moveRun _ _ .fail
  | waiting => exact passes_moveRun _ _ .wait
  | unsettled => exact passes_pure _
  | succeeded =>
    refine passes_moveRun _ _ (.succeed ⟨nodes, hg.own (hr nodes rfl).1, fun row hrow => ?_⟩)
    exact forall_of_verdictOf hv row (hrows.mem_iff.mpr hrow)

theorem passes_expireRows (hrows : SawRows m.own runID rows) (now : Go.Time) (changed : Bool) :
    Passes host reg m (expireRows now changed rows) := by
  induction rows generalizing m changed with
  | nil => exact passes_pure _
  | cons cur rows ih =>
    obtain ⟨⟨hsaw, -⟩, hrows⟩ := forall_mem_cons.mp hrows
    have hrest : ∀ {m'} (c : Bool), Grown m m' → Passes host reg m' (expireRows now c rows) :=
      fun c hg => ih (SawRows.mono hg.own hrows) c
    refine leads_ite (fun _ => ?_) fun _ => hrest changed (.refl m)
    refine (passes_saveNode (.expire (expiredRow cur) hsaw.keySeen rfl) rfl).andOk
      (fun _ _ hg _ => hrest true hg) fun _ _ hg => ?_
    exact leads_ite (fun _ => hrest changed hg) fun _ => passes_pure _

theorem passes_expireApprovals (h : Underway m.own run.id) :
    Passes host reg m (expireApprovals e run) := by
  refine leads_ite (fun _ => passes_pure _) fun _ => ?_
  refine (leads_getNodes .expire trivial rfl).andOk fun m₁ nodes hg₁ hr => ?_
  refine passes_readClock.andThen fun m₂ now hg₂ _ => ?_
  refine (leads_range _).andThen fun m₃ rows hg₃ hrows => ?_
  have hsaw : SawRows m₃.own run.id rows :=
    .mono (hg₂.trans hg₃).own (.of_perm (hr nodes rfl).2 hrows)
  refine (passes_expireRows hsaw now false).andOk fun m₄ changed hg₄ _ =>
    leads_ite (fun _ => ?_) fun _ => passes_pure _
  exact passes_recomputeRunState (h.mono (hg₁.trans (hg₂.trans (hg₃.trans hg₄))).own)

/-- Read a run and return it. -/
def readBack (runID : String) (f : StoreError → Returned) : EProg Returned := do
  match ← getRun runID with
  | .error err => pure (f err)
  | .ok final => pure { run := some final }

theorem passes_readBack (runID : String) (f : StoreError → Returned) :
    Passes host reg m (readBack runID f) :=
  (leads_getRun runID).andOk fun _ _ _ _ => passes_pure _

theorem passes_finishRun (h : Begun m.own run.id) : Passes host reg m (finishRun run) := by
  refine (passes_ask .cancelled).andThen fun m₁ b hg₁ _ => leads_ite (fun _ => ?_) fun _ => ?_
  · exact (leads_updateRunState _ _ .cancel).andOk (fun _ _ _ _ => passes_readBack run.id _)
      fun _ _ _ => leads_ite (fun _ => passes_readBack run.id _) fun _ => passes_pure _
  · refine (passes_recomputeRunState (.inr (.inl (h.mono hg₁.own)))).andThen
      fun m₂ out _ _ => ?_
    cases out with
    | some err => exact passes_pure _
    | none =>
      exact (leads_getRun run.id).andOk fun _ _ _ _ =>
        (passes_audit _).andThen fun _ _ _ _ => passes_pure _

/-! ### Recording outcomes -/

/-- What a request for job `i` leaves: the other jobs as they were. -/
structure Recorded (m m' : Party (List Event) Slot) (i : ℕ) : Prop where
  own : m.own ⊆ m'.own
  before : m'.slots.take i = m.slots.take i
  rest : m'.slots.drop (i + 1) = m.slots.drop (i + 1)

theorem Recorded.of_grown (h : Grown m m') (i : ℕ) :
    Recorded m m' i := ⟨h.own, by rw [h.slots], by rw [h.slots]⟩

theorem Recorded.trans (h : Recorded m m' i) (h' : Recorded m' m'' i) : Recorded m m'' i :=
  ⟨List.Subset.trans h.own h'.own, h'.before.trans h.before, h'.rest.trans h.rest⟩

theorem Recorded.of_modify {f : Slot → Slot} (hown : m.own ⊆ m'.own)
    (hslots : m'.slots = m.slots.modify i f) : Recorded m m' i := by
  refine ⟨hown, ?_, ?_⟩ <;> rw [hslots] <;> refine ext_getElem? fun k => ?_
  · rw [getElem?_take, getElem?_take]
    split
    · rw [getElem?_modify_ne _ _ (by omega)]
    · rfl
  · rw [getElem?_drop, getElem?_drop, getElem?_modify_ne _ _ (by omega)]

theorem not_halfway_nil : ¬Halfway [] := by
  rintro ⟨⟨i, exec, row, hmem⟩, -⟩
  cases hmem

theorem not_halfway_cons {ev : Event} {post : List Event}
    (hev : ∀ i exec row,
      ev ≠ ⟨.append (.retry i) exec, (.ok row : Except StoreError NodeExecution)⟩)
    (h : ¬Halfway post) : ¬Halfway (ev :: post) := by
  rintro ⟨⟨i, exec, row, hmem⟩, hsave⟩
  rcases mem_cons.mp hmem with heq | hmem'
  · exact hev i exec row heq.symm
  · refine h ⟨⟨i, exec, row, hmem'⟩, ?_⟩
    rintro ⟨j, exec', expected, r, hr⟩
    exact hsave ⟨j, exec', expected, r, mem_cons_of_mem _ hr⟩

theorem not_halfway_save {exec : NodeExecution} {expected : NodeState}
    (r : Res (.save (.retry i) exec expected)) (post : List Event) :
    ¬Halfway (⟨.save (.retry i) exec expected, r⟩ :: post) := by
  rintro ⟨-, hsave⟩
  exact hsave ⟨i, exec, expected, r, mem_cons_self⟩

/-- What recording the outcome of job `i` leaves. -/
def Finished (m m' : Party (List Event) Slot) (i : ℕ) : Prop :=
  Recorded m m' i ∧ ∀ n, m'.slots[i]? = some n → ¬Halfway n.post

theorem Finished.trans (h' : Finished m' m'' i) (h : Recorded m m' i) :
    Finished m m'' i := ⟨h.trans h'.1, h'.2⟩

theorem Finished.grown (h : Finished m m' i) (h' : Grown m' m'') : Finished m m'' i :=
  ⟨h.1.trans (.of_grown h' i), by rw [h'.slots]; exact h.2⟩

theorem Recording.note {slots slots' : List Slot} (h : Recording slots i n cur res later)
    {ev : Event} (hslots : slots' = slots.modify i fun n => { n with post := ev :: n.post }) :
    Recording slots' i { n with post := ev :: n.post } cur res (ev :: later) where
  slot := by rw [hslots, getElem?_modify_eq, h.slot]; rfl
  result := h.result
  post := by
    obtain ⟨rows, hcur, hpost⟩ := h.post
    exact ⟨rows, hcur, by rw [hpost]; rfl⟩
  key := h.key

theorem Recording.finished (h : Recording m'.slots i n cur res later) (hlater : ¬Halfway later)
    (hrec : Recorded m m' i) : Finished m m' i := by
  refine ⟨hrec, fun n' hn' => ?_⟩
  obtain rfl : n = n' := by simpa [h.slot] using hn'
  obtain ⟨rows, -, hpost⟩ := h.post
  rw [hpost]
  rintro ⟨⟨j, exec, row, hmem⟩, hsave⟩
  rcases mem_append.mp hmem with hmem | hmem
  · refine hlater ⟨⟨j, exec, row, hmem⟩, ?_⟩
    rintro ⟨j', exec', expected, r, hr⟩
    exact hsave ⟨j', exec', expected, r, mem_append_left _ hr⟩
  · cases mem_singleton.mp hmem

theorem obeys_parkPersistFailure (hrec : Recording m.slots i n cur res later)
    (hlater : ¬Halfway later) (run : Run) :
    (conduct host reg).Obeys (fun m' _ => Finished m m' i) m (parkPersistFailure i run cur) := by
  refine (obeys_slotRequest (.save (.park i) (parkedRow cur) .unset) (.park hrec) rfl).bind
    fun m₁ r hr => ?_
  have h₁ : Finished m m₁ i := by
    refine (hrec.note hr.2.2).finished (not_halfway_cons ?_ hlater) (.of_modify hr.1 hr.2.2)
    rintro j exec row ⟨⟩
  exact (passes_audit _).mono fun m₂ _ hg => h₁.grown hg.1

theorem obeys_finishNode {next : NodeExecution} (hrec : Recording m.slots i n cur res [])
    (hkey : next.key = cur.key)
    (hstate : next.state = (outcomeOf host n.job.spec cur res).next.state) (job : Job)
    (current : Current) (outputs : Outputs) :
    (conduct host reg).Obeys (fun m' _ => Finished m m' i) m
      (finishNode i job cur next current outputs) := by
  refine (obeys_slotRequest (.save (.outcome i) next cur.state)
    (.outcome hrec hkey hstate) rfl).bind fun m₁ r hr => ?_
  have h₁ : Recorded m m₁ i := .of_modify hr.1 hr.2.2
  have hlater : ¬Halfway [⟨.save (.outcome i) next cur.state, r⟩] := by
    refine not_halfway_cons ?_ not_halfway_nil
    rintro j exec row ⟨⟩
  have hrec₁ := hrec.note hr.2.2
  cases (r : Except StoreError NodeExecution) with
  | error err =>
    exact (obeys_parkPersistFailure hrec₁ hlater job.run).bind fun m₂ _ h₂ => h₂.trans h₁
  | ok saved => exact (passes_audit _).bind fun m₂ _ hg _ => (hrec₁.finished hlater h₁).grown hg

theorem refreshed_row {job : Job} (current : Current)
    (h : ∃ row ∈ rows, row.nodeID = job.node.id ∧ row.attempt = job.exec.attempt) :
    (refreshed current job rows).row job.node.id ∈ rows ∧
      ((refreshed current job rows).row job.node.id).nodeID = job.node.id ∧
      ((refreshed current job rows).row job.node.id).attempt = job.exec.attempt := by
  -- Behind the last row of the attempt the entry is not touched again.
  induction rows using reverseRecOn with
  | nil =>
    obtain ⟨row, ⟨⟩, -⟩ := h
  | append_singleton rows e ih =>
    have hlast : refreshed current job (rows ++ [e]) =
        if e.nodeID = job.node.id ∧ e.attempt = job.exec.attempt
        then (refreshed current job rows).set job.node.id e else refreshed current job rows := by
      rw [refreshed, foldl_append]
      rfl
    rw [hlast]
    by_cases he : e.nodeID = job.node.id ∧ e.attempt = job.exec.attempt
    · have hset : Current.row ((refreshed current job rows).set job.node.id e) job.node.id = e := by
        simp [Current.set, Current.row]
      rw [if_pos he, hset]
      exact ⟨by simp, he⟩
    · rw [if_neg he]
      obtain ⟨row, hrow, hmatch⟩ := h
      rcases mem_append.mp hrow with hrow | hrow
      · obtain ⟨hmem, hrest⟩ := ih ⟨row, hrow, hmatch⟩
        exact ⟨mem_append_left _ hmem, hrest⟩
      · exact absurd (mem_singleton.mp hrow ▸ hmatch) he

theorem outcomeOf_next_key (host : Host) (spec : NodeSpec) (cur : NodeExecution) (res : JobResult) :
    (outcomeOf host spec cur res).next.key = cur.key := by
  cases res with
  | ok out =>
    rw [outcomeOf]
    split <;> rfl
  | error err =>
    simp only [outcomeOf]
    split_ifs <;> rfl

theorem obeys_refreshCurrent (hslot : m.slots[i]? = some n) (hres : n.result = some res)
    (hpost : n.post = []) (hok : JobOK host reg m.own n.job) (current : Current) :
    (conduct host reg).Obeys
      (fun m' current' => Recorded m m' i ∧ ∃ n',
        Recording m'.slots i n' (current'.row n.job.node.id) res [] ∧ n'.job = n.job) m
      (refreshCurrent i n.job current) := by
  refine (obeys_slotRequest (.getNodes (.refresh i) n.job.run.id)
    ⟨n, hslot, hpost, by rw [hres]; rfl, rfl⟩ rfl).bind fun m' r hr => ?_
  obtain ⟨hown, ⟨hruns, hrows⟩, hslots⟩ := hr
  obtain ⟨rows, rfl, row, hrow, hkey⟩ := hrows i rfl n hslot
  have hrunID : ∀ c ∈ rows, c.runID = n.job.exec.runID := by
    intro c hc
    rw [hok.runID]
    exact hruns c (by simpa using hc)
  obtain ⟨hr1, hr2, hr3⟩ := NodeExecution.parts_of_key hkey
  obtain ⟨hmem, hnode, hatt⟩ := refreshed_row current ⟨row, hrow, hr2.trans hok.nodeID, hr3⟩
  let ev : Event := ⟨.getNodes (.refresh i) n.job.run.id,
    (.ok rows : Except StoreError (List NodeExecution))⟩
  refine obeys_pure ⟨.of_modify hown hslots, { n with post := ev :: n.post },
    ⟨?_, hres, ⟨rows, hmem, ?_⟩, ?_⟩, rfl⟩
  · rw [hslots, getElem?_modify_eq, hslot]
    rfl
  · rw [hpost]
    rfl
  · simp only [NodeExecution.key, hrunID _ hmem, hnode, hatt, hok.nodeID]

theorem obeys_recordAs (hrec : Recording m.slots i n cur res []) (current : Current)
    (outputs : Outputs) :
    (conduct host reg).Obeys (fun m' _ => Finished m m' i) m
      (recordAs e i n.job cur current outputs (outcomeOf host n.job.spec cur res)) := by
  have hkey := outcomeOf_next_key host n.job.spec cur res
  have hfinish : ∀ next : NodeExecution, next.key = cur.key →
      next.state = (outcomeOf host n.job.spec cur res).next.state → ∀ {m'}, Grown m m' →
      (conduct host reg).Obeys (fun m'' _ => Finished m m'' i) m'
        (finishNode i n.job cur next current outputs) := by
    intro next hnext hstate m' hg
    rw [← hg.slots] at hrec
    refine (obeys_finishNode hrec hnext hstate n.job current outputs).mono fun m'' _ h => ?_
    exact h.trans (.of_grown hg i)
  have hpark : ∀ {m' : Party (List Event) Slot} {n' : Slot} {later : List Event},
      Recorded m m' i → Recording m'.slots i n' cur res later → ¬Halfway later →
      (conduct host reg).Obeys (fun m'' _ => Finished m m'' i) m' (do
        parkPersistFailure i n.job.run cur
        pure (current, outputs)) := by
    intro m' n' later h' hrec' hlater
    exact (obeys_parkPersistFailure hrec' hlater n.job.run).bind fun m'' _ h'' => h''.trans h'
  cases hout : outcomeOf host n.job.spec cur res with
  | finish next =>
    rw [hout] at hkey
    exact hfinish next hkey (by rw [hout]; rfl) (.refl m)
  | wait next =>
    rw [hout] at hkey
    rw [recordAs]
    split
    · refine passes_readClock.bind fun m₁ now hg _ => ?_
      exact hfinish { next with deadline := now + e.approvalTimeout } hkey (by rw [hout]; rfl) hg
    · exact hfinish next hkey (by rw [hout]; rfl) (.refl m)
  | ambiguous next =>
    rw [hout] at hkey
    refine (hfinish next hkey (by rw [hout]; rfl) (.refl m)).bind fun m₁ out h₁ => ?_
    exact (passes_audit _).bind fun m₂ _ hg _ => h₁.grown hg
  | retry next =>
    refine (obeys_slotRequest (.append (.retry i) (furtherAttempt n.job cur.attempt))
      (.retry hrec hout) rfl).bind fun m₁ r hr => ?_
    have h₁ : Recorded m m₁ i := .of_modify hr.1 hr.2.2
    have hrec₁ := hrec.note hr.2.2
    cases (r : Except StoreError NodeExecution) with
    | error err =>
      refine hpark h₁ hrec₁ (not_halfway_cons ?_ not_halfway_nil)
      rintro j exec row ⟨⟩
    | ok appended =>
      refine (obeys_slotRequest (.save (.retry i) next cur.state) (.retry hrec₁ hout) rfl).bind
        fun m₂ r' hr' => ?_
      have h₂ : Recorded m m₂ i := h₁.trans (.of_modify hr'.1 hr'.2.2)
      have hrec₂ := hrec₁.note hr'.2.2
      cases (r' : Except StoreError NodeExecution) with
      | error err => exact hpark h₂ hrec₂ (not_halfway_save _ _)
      | ok saved => exact hrec₂.finished (not_halfway_save _ _) h₂

theorem obeys_recordOutcome (hslot : m.slots[i]? = some n)
    (hres : n.result = some res) (hpost : n.post = []) (hok : JobOK host reg m.own n.job)
    (current : Current) (outputs : Outputs) :
    (conduct host reg).Obeys (fun m' _ => Finished m m' i) m
      (recordOutcome host e i n.job res current outputs) := by
  refine (obeys_refreshCurrent hslot hres hpost hok current).bind fun m₁ current' h₁ => ?_
  obtain ⟨hrec₁, n', hrec, hjob⟩ := h₁
  rw [← hjob] at hrec ⊢
  exact (obeys_recordAs e hrec current' outputs).mono fun m₂ _ h₂ => h₂.trans hrec₁

/-- The slots of jobs whose results are not recorded yet. -/
def Unrecorded (host : Host) (reg : Registry) (own : List Event) (n : Slot) (p : Job × JobResult) :
    Prop :=
  n.job = p.1 ∧ n.result = some p.2 ∧ n.post = [] ∧ JobOK host reg own p.1

theorem obeys_recordOutcomes {rest : List (Job × JobResult)} (hquiet : Quiet (m.slots.take i))
    (h : List.Forall₂ (Unrecorded host reg m.own) (m.slots.drop i) rest) (current : Current)
    (outputs : Outputs) :
    (conduct host reg).Obeys (fun m' _ => m.own ⊆ m'.own ∧ Quiet m'.slots) m
      (recordOutcomes host e i rest current outputs) := by
  induction rest generalizing m i current outputs with
  | nil =>
    refine ⟨List.Subset.refl _, ?_⟩
    rw [← take_append_drop i m.slots, forall₂_nil_right_iff.mp h, append_nil]
    exact hquiet
  | cons p rest ih =>
    obtain ⟨job, res⟩ := p
    cases hd : m.slots.drop i with
    | nil =>
      rw [hd] at h
      cases h
    | cons n ns =>
      rw [hd] at h
      obtain ⟨⟨hjob, hres, hpost, hok⟩, hns⟩ := forall₂_cons.mp h
      subst hjob
      have hslot : m.slots[i]? = some n := by
        have := congrArg head? hd
        simpa using this
      have hns' : m.slots.drop (i + 1) = ns := by
        rw [← tail_drop, hd]
        rfl
      refine (obeys_recordOutcome e hslot hres hpost hok current outputs).bind fun m₁ out h₁ => ?_
      obtain ⟨h₁, hdone⟩ := h₁
      have hquiet₁ : Quiet (m₁.slots.take (i + 1)) := by
        intro n' hn'
        rw [take_add_one, mem_append, h₁.before, Option.mem_toList] at hn'
        rcases hn' with hn' | hn'
        · exact hquiet n' hn'
        · exact hdone n' hn'
      have hrest : List.Forall₂ (Unrecorded host reg m₁.own) (m₁.slots.drop (i + 1)) rest := by
        rw [h₁.rest, hns']
        refine hns.imp fun n' p hp => ?_
        exact ⟨hp.1, hp.2.1, hp.2.2.1, hp.2.2.2.mono h₁.own⟩
      refine (ih hquiet₁ hrest _ _).mono fun m₂ _ h₂ => ?_
      exact ⟨List.Subset.trans h₁.own h₂.1, h₂.2⟩

theorem obeys_runJobs {jobs : List Job} (hjobs : ∀ j ∈ jobs, JobOK host reg m.own j)
    (hquiet : Quiet m.slots) (current : Current) (outputs : Outputs) :
    (conduct host reg).Obeys (fun m' _ => m.own ⊆ m'.own ∧ Quiet m'.slots) m
      (runJobs host e jobs current outputs) := by
  refine ⟨⟨hjobs, hquiet⟩, fun ns rs hns hrs => ?_⟩
  have hjobs' : ∀ n ∈ ns, JobOK host reg m.own n.job := by
    intro n hn
    exact hjobs n.job (hns ▸ mem_map_of_mem hn)
  have hun : List.Forall₂ (Unrecorded host reg m.own)
      ((zipWith (conduct host reg).ended ns rs).drop 0) (jobs.zip rs) := by
    rw [← hns, drop_zero]
    clear hns hjobs
    induction hrs with
    | nil => exact .nil
    | @cons n r ns rs hend _ ih =>
      refine .cons ⟨rfl, rfl, hend.post, hjobs' n mem_cons_self⟩ (ih fun n' hn' => ?_)
      exact hjobs' n' (mem_cons_of_mem n hn')
  refine obeys_recordOutcomes (m := ⟨m.own, zipWith (conduct host reg).ended ns rs⟩) e ?_ hun
    current outputs
  rintro n ⟨⟩

/-! ### Workers -/

/-- A job whose dispatch was saved and whose `Run` was not called yet. -/
structure Slot.Ready (n : Slot) : Prop where
  result : n.result = none
  post : n.post = []
  dispatched : n.dispatched
  fresh : ¬n.invoked

/-- What is known when the node of a dispatched job was executed. -/
structure Executed (host : Host) (job : Job) (n : Slot) (out : Except NodeError Obj) : Prop where
  same : n.job = job
  post : n.post = []
  dispatched : n.dispatched
  concluded : ∀ inv answer, (⟨.invoke inv, (answer : RunAnswer)⟩ : Event) ∈ n.done →
    out = conclude host job.spec answer

theorem wObeys_execute (h : n.Ready) (policyApproved : Bool) :
    (conduct host reg).WObeys (Executed host n.job) n
      (execute host (n.job.invocation policyApproved)) := by
  rw [execute]
  generalize preCheck host (n.job.invocation policyApproved) = refusal
  cases refusal with
  | some err =>
    refine ⟨rfl, h.post, h.dispatched, fun inv answer hmem => ?_⟩
    exact absurd ⟨inv, answer, hmem⟩ h.fresh
  | none =>
    refine ⟨⟨h.result, h.post, h.dispatched, h.fresh, policyApproved, rfl⟩, fun answer =>
      ⟨rfl, h.post, ?_, fun inv answer' hmem => ?_⟩⟩
    · obtain ⟨exec, expected, row, hmem⟩ := h.dispatched
      exact ⟨exec, expected, row, mem_cons_of_mem _ hmem⟩
    · rcases mem_cons.mp hmem with heq | hmem'
      · cases heq
        rfl
      · exact absurd ⟨inv, answer', hmem'⟩ h.fresh

theorem wObeys_work {ex : Invocation → ECode (Except NodeError Obj)}
    (hex : ∀ (n : Slot) (policyApproved : Bool), n.Ready →
      (conduct host reg).WObeys (Executed host n.job) n (ex (n.job.invocation policyApproved)))
    (job : Job) :
    (conduct host reg).WObeys (WorkerEnds host) ((conduct host reg).slot job)
      (Job.work ex job) := by
  refine ⟨⟨rfl, rfl, trivial⟩, fun u => ⟨⟨rfl, rfl, rfl, rfl, rfl, ?_, ?_⟩, fun r => ?_⟩⟩
  · rintro ⟨exec, expected, row, hmem⟩
    simp only [conduct, mem_singleton] at hmem
    cases hmem
  · rintro ⟨exec, expected, err, hmem⟩
    simp only [conduct, mem_singleton] at hmem
    cases hmem
  · cases (r : Except StoreError NodeExecution) with
    | error err =>
      refine ⟨⟨fun _ => ⟨⟨_, _, err, mem_cons_self⟩, err, rfl⟩, fun inv answer hmem => ?_⟩, rfl⟩
      simp only [conduct, mem_cons, not_mem_nil, or_false] at hmem
      rcases hmem with h | h <;> cases h
    | ok row =>
      refine ⟨⟨rfl, rfl, trivial⟩, fun appr => ?_⟩
      have hready : Slot.Ready { job, done := [⟨.getApproval job.run.id job.node.id, appr⟩,
          ⟨.save .dispatch (dispatchedRow job.exec) .claimed,
            (.ok row : Except StoreError NodeExecution)⟩,
          ⟨.audit (.nodeStarted job.run.id job.node.id job.exec.attempt), u⟩] } := by
        refine ⟨rfl, rfl, ⟨dispatchedRow job.exec, .claimed, row, by simp⟩, ?_⟩
        rintro ⟨inv, answer, hmem⟩
        simp only [mem_cons, not_mem_nil, or_false] at hmem
        rcases hmem with h | h | h <;> cases h
      refine (hex _ _ hready).bind fun n out hout => ?_
      cases out with
      | error err | ok out =>
        refine ⟨⟨fun h => absurd hout.dispatched h, fun inv answer hmem => ?_⟩, hout.post⟩
        rw [hout.same, ← hout.concluded inv answer hmem]

/-! ### Sweeps -/

theorem nodeDefByID_id (d : Definition) (id : String) : (nodeDefByID d id).id = id := by
  rw [nodeDefByID]
  cases h : d.nodes.find? (·.id == id) with
  | none => rfl
  | some n => simpa using find?_some h

/-- The entries of `current` in a sweep: each row is of the run and the node and was read, unless it
ended, and those that succeeded had done so in the rows the sweep goes by. -/
def CurrentOK (own : List Event) (runID : String) (view : List NodeExecution) (current : Current) :
    Prop :=
  ∀ p ∈ current, (p.2.state = .succeeded → p ∈ currentAttempts view) ∧
    (p.2.state.terminal = true ∨ p.2.nodeID = p.1 ∧ p.2.runID = runID ∧ KeySeen own p.2.key)

theorem CurrentOK.mono {own' : List Event} (h : own ⊆ own')
    (hc : CurrentOK own runID view current) :
    CurrentOK own' runID view current := by
  intro p hp
  refine ⟨(hc p hp).1, (hc p hp).2.imp_right fun ⟨hnode, hrun, hkey⟩ => ?_⟩
  exact ⟨hnode, hrun, hkey.mono h⟩

theorem CurrentOK.set (hc : CurrentOK own runID view current) (hnew : row.state ≠ .succeeded)
    (hrow : row.state.terminal = true ∨
      row.nodeID = nodeID ∧ row.runID = runID ∧ KeySeen own row.key) :
    CurrentOK own runID view (current.set nodeID row) := by
  intro p hp
  rcases mem_set_iff.mp hp with rfl | ⟨hmem, -⟩
  · exact ⟨fun hs => absurd hs hnew, hrow⟩
  · exact hc p hmem

theorem currentOK_currentAttempts (h : SawRows own runID rows) :
    CurrentOK own runID rows (currentAttempts rows) := by
  intro p hp
  obtain ⟨hmem, hnode⟩ := mem_currentAttempts hp
  exact ⟨fun _ => hp, .inr ⟨hnode, (h _ hmem).2, (h _ hmem).1.keySeen⟩⟩

theorem joinEdges_ready {outputs : Outputs} {skipVote : Bool} {edges : List DefinitionEdge}
    (h : joinEdges current outputs skipVote edges = .ready) :
    skipVote = false ∧ ∀ edge ∈ edges, ∃ src, current.lookup edge.source = some src ∧
      src.state = .succeeded := by
  induction edges generalizing skipVote with
  | nil =>
    cases skipVote with
    | false => exact ⟨rfl, nofun⟩
    | true => cases h
  | cons edge edges ih =>
    rw [joinEdges] at h
    cases hs : current.lookup edge.source with
    | none => simp [hs] at h
    | some src =>
      simp only [hs] at h
      have hvoted : joinEdges current outputs true edges ≠ .ready := by
        intro hr
        cases (ih hr).1
      split_ifs at h with hfired hterm
      · exact absurd h hvoted
      · split at h
        · next hsucc =>
          refine ⟨(ih h).1, fun e he => ?_⟩
          rcases mem_cons.mp he with rfl | he
          · exact ⟨src, hs, hsucc⟩
          · exact (ih h).2 e he
        all_goals first | exact absurd h hvoted | cases h

variable {view : List NodeExecution}

theorem leads_requeueDecided (hrows : SawRows m.own run.id rows)
    (hc : CurrentOK m.own run.id view current) :
    Leads host reg (fun m' r => ∀ current', r = .ok current' → CurrentOK m'.own run.id view current')
      m (requeueDecided run rows current) := by
  induction rows generalizing m current with
  | nil =>
    refine leads_pure fun current' h => ?_
    cases h
    exact hc
  | cons cur rows ih =>
    obtain ⟨⟨hsaw, hid⟩, hrows⟩ := forall_mem_cons.mp hrows
    have hrest : ∀ {m'} {c : Current}, Grown m m' → CurrentOK m'.own run.id view c →
        Leads host reg (fun m'' r => ∀ current', r = .ok current' →
          CurrentOK m''.own run.id view current') m' (requeueDecided run rows c) :=
      fun hg hc' => ih (SawRows.mono hg.own hrows) hc'
    refine leads_ite (fun _ => ?_) fun _ => hrest (.refl m) hc
    refine (passes_request (.getApproval run.id cur.nodeID) trivial rfl).andThen
      fun m₁ r hg _ => ?_
    split
    · exact hrest hg (hc.mono hg.own)
    · exact leads_pure nofun
    · next appr =>
      have hkey : KeySeen m₁.own cur.key := (hsaw.mono hg.own).keySeen
      refine (passes_saveNode (.requeue (resumedRow cur _ _ _) hkey rfl) rfl).andOk
        (fun m₂ row hg₂ _ => ?_) fun m₂ err hg₂ => ?_
      · refine hrest (hg.trans hg₂) ((hc.mono (hg.trans hg₂).own).set ?_
          (.inr ⟨rfl, hid, hkey.mono hg₂.own⟩))
        rintro ⟨⟩
      · refine leads_ite (fun _ => ?_) fun _ => leads_pure nofun
        exact hrest (hg.trans hg₂) (hc.mono (hg.trans hg₂).own)

/-- What the second loop of a sweep keeps of its plan. -/
structure PlanOK (host : Host) (reg : Registry) (own : List Event) (runID : String)
    (view : List NodeExecution) (plan : Plan) : Prop where
  current : CurrentOK own runID view plan.current
  jobs : ∀ job ∈ plan.jobs, JobOK host reg own job

theorem PlanOK.mono {own' : List Event} (h : own ⊆ own')
    (hp : PlanOK host reg own runID view plan) :
    PlanOK host reg own' runID view plan :=
  ⟨hp.current.mono h, fun job hjob => (hp.jobs job hjob).mono h⟩

theorem PlanOK.done (hp : PlanOK host reg own runID view plan)
    (hnew : row.state ≠ .succeeded) (hrow : row.state.terminal = true) :
    PlanOK host reg own runID view
      { plan with current := plan.current.set nodeID row, progress := true } :=
  ⟨hp.current.set hnew (.inl hrow), hp.jobs⟩

/-- What a step of the second loop leaves. -/
def Planned (host : Host) (reg : Registry) (runID : String) (view : List NodeExecution)
    (m m' : Party (List Event) Slot) (r : Except StoreError Plan) : Prop :=
  Grown m m' ∧ ∀ plan, r = .ok plan → PlanOK host reg m'.own runID view plan

theorem planned_error (err : StoreError) :
    Leads host reg (fun m' => Planned host reg runID view m' m') m (pure (.error err)) :=
  leads_pure ⟨.refl m, nofun⟩

theorem planned_ok (hp : PlanOK host reg m.own runID view plan) :
    Leads host reg (fun m' => Planned host reg runID view m' m') m (pure (.ok plan)) := by
  refine leads_pure ⟨.refl m, fun plan' heq => ?_⟩
  cases heq
  exact hp

theorem leads_failUndispatched {claimed : NodeExecution}
    (hp : PlanOK host reg m.own runID view plan) (hsaw : SawRow m.own claimed)
    (nodeID code msg : String) :
    Leads host reg (fun m' => Planned host reg runID view m' m') m
      (failUndispatched plan nodeID claimed code msg) := by
  refine (passes_saveNode (.undispatched (undispatchedRow claimed code msg) hsaw.keySeen rfl)
    rfl).andOk (fun m₁ row hg _ => ?_) fun _ err _ => planned_error err
  exact planned_ok ((hp.mono hg.own).done nofun rfl)

section Planning

variable (hrun : SawRun m.own run) (hbegun : Begun m.own run.id)
  (hview : ReadRows m.own .sweep run.id view) (hp : PlanOK host reg m.own run.id view plan)
  (outputs : Outputs)

include hrun hbegun hview hp

theorem leads_planNode (nodeID : String) :
    Leads host reg (fun m' => Planned host reg run.id view m' m') m
      (planNode host reg e run outputs plan nodeID) := by
  rw [planNode]
  split
  · exact planned_ok hp
  · next hopen =>
    split
    · exact planned_ok hp
    · have hskip : MaySave host reg m.own m.slots .skip
          { plan.current.row nodeID with state := .skipped } .pending := by
        rcases row_cases plan.current nodeID with hmem | hzero
        · rcases (hp.current _ hmem).2 with hterm | ⟨-, hid, hkey⟩
          · exact absurd (.inl hterm) hopen
          · refine .skip hkey ?_ rfl
            exact hid.symm ▸ hbegun
        · rw [hzero]
          exact .skipNothing
      refine (passes_saveNode hskip rfl).andOk (fun m₁ row hg _ => ?_) fun m₁ err hg => ?_
      · exact planned_ok ((hp.mono hg.own).done nofun rfl)
      · exact leads_ite (fun _ => planned_ok (hp.mono hg.own)) fun _ => planned_error err
    · next hready =>
      have hfound : FoundReady m.own run.id nodeID := by
        refine ⟨run, view, hrun, rfl, hview, fun edge hedge => ?_⟩
        obtain ⟨src, hsrc, hstate⟩ := (joinEdges_ready hready).2 edge hedge
        exact ⟨src, (hp.current _ (mem_of_lookup_eq_some hsrc)).1 hstate, hstate⟩
      refine passes_readClock.andThen fun m₁ now hg₁ _ => ?_
      refine (leads_tryClaim e.workerID e.leaseTTL now
        ⟨hbegun.mono hg₁.own, hfound.mono hg₁.own⟩).andOk (fun m₂ got hg₂ hclaimed => ?_)
        fun _ err _ => planned_error err
      have hp₂ := hp.mono (hg₁.trans hg₂).own
      cases got with
      | none => exact planned_ok hp₂
      | some claimed =>
        obtain ⟨hid, hnode, hsaw⟩ := hclaimed claimed rfl
        dsimp only
        split
        · exact leads_failUndispatched hp₂ hsaw _ _ _
        · next spec hspec =>
          split
          · exact leads_failUndispatched hp₂ hsaw _ _ _
          · refine planned_ok ⟨hp₂.current, forall_mem_append.mpr ⟨hp₂.jobs, ?_⟩⟩
            refine forall_mem_singleton.mpr
              ⟨hrun.mono (hg₁.trans hg₂).own, hsaw, hid, ?_, ?_, hspec⟩
            · rw [nodeDefByID_id]
              exact hnode
            · rw [hnode]

theorem leads_planNodes (ids : List String) :
    Leads host reg (fun m' => Planned host reg run.id view m' m') m
      (planNodes host reg e run outputs plan ids) := by
  induction ids generalizing m plan with
  | nil => exact planned_ok hp
  | cons nodeID ids ih =>
    refine (leads_planNode e hrun hbegun hview hp outputs nodeID).andOk (fun m₁ plan' hg hr => ?_)
      fun _ err _ => planned_error err
    exact ih (hrun.mono hg.own) (hbegun.mono hg.own) (hg.own hview) (hr.2 plan' rfl)

end Planning

theorem obeys_sweep (hrun : SawRun m.own run) (hbegun : Begun m.own run.id)
    (hquiet : Quiet m.slots) :
    (conduct host reg).Obeys (fun m' _ => m.own ⊆ m'.own ∧ Quiet m'.slots) m
      (sweep host reg e run) := by
  have hend : ∀ {m'}, Grown m m' → m.own ⊆ m'.own ∧ Quiet m'.slots :=
    fun hg => ⟨hg.own, hg.slots ▸ hquiet⟩
  refine (leads_getNodes .sweep trivial rfl).bindOk (fun _ _ => hend) fun m₁ nodes hg₁ hr => ?_
  obtain ⟨hview, hsaw⟩ := hr nodes rfl
  refine (leads_range _).bind fun m₂ rows hg₂ hperm => ?_
  refine (leads_requeueDecided (SawRows.mono hg₂.own (.of_perm hsaw hperm))
    ((currentOK_currentAttempts hsaw).mono hg₂.own)).bindOk
    (fun _ _ hg₃ => hend ((hg₁.trans hg₂).trans hg₃)) fun m₃ current hg₃ hr₃ => ?_
  have hg := (hg₁.trans hg₂).trans hg₃
  have hplan : PlanOK host reg m₃.own run.id nodes { current } :=
    ⟨hr₃ current rfl, fun job hjob => by cases hjob⟩
  refine (leads_planNodes e (hrun.mono hg.own) (hbegun.mono hg.own)
    ((hg₂.trans hg₃).own hview) hplan _ _).bindOk (fun _ _ hg₄ => hend (hg.trans hg₄))
    fun m₄ plan hg₄ hr₄ => obeys_ite (fun _ => hend (hg.trans hg₄)) fun _ => ?_
  refine (obeys_runJobs e (hr₄.2 plan rfl).jobs (hend (hg.trans hg₄)).2 _ _).bind fun m₅ _ h₅ => ?_
  exact ⟨List.Subset.trans (hg.trans hg₄).own h₅.1, h₅.2⟩

/-! ### Execute -/

/-- What the loop of `Execute` starts from. -/
def Pre : EngineCall → Party (List Event) Slot → Prop
  | .sweepLoop _ run, m => SawRun m.own run ∧ Begun m.own run.id ∧ Quiet m.slots
  | .execute _ _, m => Quiet m.slots
  | _, _ => True

/-- What a part of `Execute` leaves. -/
def turns (m : Party (List Event) Slot) (t : Turn) : Prop := ∀ call, t = .inr call → Pre call m

theorem turns_inl {m : Party (List Event) Slot} (r : Returned) : turns m (.inl r) := by
  rintro call ⟨⟩

theorem turns_sweepLoop {e : Engine} (hrun : SawRun m.own run) (hbegun : Begun m.own run.id)
    (hquiet : Quiet m.slots) :
    turns m (.inr (.sweepLoop e run)) := by
  rintro call ⟨⟩
  exact ⟨hrun, hbegun, hquiet⟩

theorem obeys_sweepLoop (hrun : SawRun m.own run) (hbegun : Begun m.own run.id)
    (hquiet : Quiet m.slots) :
    (conduct host reg).Obeys turns m (sweepLoop host reg e run) := by
  have hfinish : ∀ {m' : Party (List Event) Slot} {run' : Run}, Begun m'.own run'.id →
      (conduct host reg).Obeys turns m' (do
        let r ← finishRun run'
        pure (.inl r)) := by
    intro m' run' hb
    exact (passes_finishRun hb).bind fun m'' r _ _ => turns_inl r
  refine (obeys_sweep e hrun hbegun hquiet).bind fun m₁ r h₁ => ?_
  have hb₁ := hbegun.mono h₁.1
  cases r with
  | error err =>
    exact (passes_ask .cancelled).bind fun m₂ b hg _ =>
      obeys_ite (fun _ => hfinish (hb₁.mono hg.own)) fun _ => turns_inl _
  | ok progress =>
    refine (leads_getRun run.id).bindOk (fun _ _ _ => turns_inl _) fun m₂ run' hg₂ hr₂ => ?_
    obtain ⟨hid, hrun'⟩ := hr₂ run' rfl
    have hb₂ : Begun m₂.own run'.id := hid.symm ▸ hb₁.mono hg₂.own
    refine obeys_ite (fun _ => turns_inl _) fun _ => obeys_ite (fun _ => hfinish hb₂) fun _ => ?_
    refine (passes_ask .cancelled).bind fun m₃ b hg _ =>
      obeys_ite (fun _ => hfinish (hb₂.mono hg.own)) fun _ => ?_
    refine turns_sweepLoop (hrun'.mono hg.own) (hb₂.mono hg.own) ?_
    rw [hg.slots, hg₂.slots]
    exact h₁.2

/-- Move a run to running, and go on with its sweeps. -/
def startLoop (e : Engine) (runID : String) (expected : RunState) : EProg Turn := do
  match ← updateRunState runID expected .running "" "" with
  | .error err => pure (.inl { err := some (.store err) })
  | .ok run => pure (.inr (.sweepLoop e run))

theorem obeys_startLoop {expected : RunState}
    (hmay : MayMove m.own runID expected .running) (hquiet : Quiet m.slots) :
    (conduct host reg).Obeys turns m (startLoop e runID expected) := by
  refine (leads_updateRunState "" "" hmay).bindOk (fun _ _ _ => turns_inl _) fun m₁ run' hg hr => ?_
  obtain ⟨hid, hstate, hsaw⟩ := hr run' rfl
  refine turns_sweepLoop hsaw ⟨run', hsaw, rfl, by simp [hstate], by simp [hstate]⟩ ?_
  rw [hg.slots]
  exact hquiet

theorem obeys_enterLoop (hrun : SawRun m.own run)
    (hopen : run.state.terminal = false) (hinit : Initialized m.own run.id)
    (hquiet : Quiet m.slots) : (conduct host reg).Obeys turns m (enterLoop e run) := by
  rw [enterLoop]
  split
  · exact obeys_startLoop e (.begin hinit) hquiet
  · exact obeys_startLoop e .resume hquiet
  · next hnew _ =>
    refine turns_sweepLoop hrun ⟨run, hrun, rfl, hnew, fun hcancelled => ?_⟩ hquiet
    rw [hcancelled] at hopen
    cases hopen

theorem obeys_executeRun (runID : String) (hquiet : Quiet m.slots) :
    (conduct host reg).Obeys turns m (executeRun e runID) := by
  refine (leads_getRun runID).bindOk (fun _ _ _ => turns_inl _) fun m₁ run hg₁ hr => ?_
  obtain ⟨hid, hrun⟩ := hr run rfl
  refine obeys_ite (fun _ => turns_inl _) fun _ => obeys_ite (fun _ => turns_inl _) fun _ => ?_
  refine (leads_requireInitializedRun hrun).bind fun m₂ out hg₂ hinit => ?_
  cases out with
  | some err => exact turns_inl _
  | none =>
    refine (passes_ask .inFlight).bind fun m₃ b hg₃ _ => obeys_ite (fun _ => turns_inl _) fun _ => ?_
    refine (passes_ask .busy).bind fun m₄ b hg₄ _ => obeys_ite (fun _ => turns_inl _) fun _ => ?_
    have hinit₄ := (hinit rfl).mono (hg₃.trans hg₄).own
    refine (passes_expireApprovals e (.inl hinit₄)).bind fun m₅ out hg₅ _ => ?_
    cases out with
    | some err => exact turns_inl _
    | none =>
      refine (leads_getRun runID).bindOk (fun _ _ _ => turns_inl _) fun m₆ run' hg₆ hr₆ =>
        obeys_ite (fun _ => turns_inl _) fun hopen => ?_
      obtain ⟨hid', hrun'⟩ := hr₆ run' rfl
      have hg : Grown m m₆ := hg₁.trans (hg₂.trans (hg₃.trans (hg₄.trans (hg₅.trans hg₆))))
      refine obeys_enterLoop e hrun' (by simpa using hopen) ?_ (hg.slots ▸ hquiet)
      rw [hid', ← hid]
      exact hinit₄.mono (hg₅.trans hg₆).own

/-! ### Operators -/

theorem passes_applyDecision (hsaw : SawRow m.own cur) (hid : cur.runID = run.id)
    (hwait : cur.state = .waiting) (approver decision : String) (appr : Approval) :
    Passes host reg m (applyDecision host reg run nodeID cur approver decision appr) := by
  refine leads_ite (fun _ => ?_) fun _ => ?_
  · refine (passes_saveNode (.reject (rejectedRow cur) hsaw.keySeen rfl) rfl).andOk
      fun m₁ row hg _ => ?_
    refine (passes_recomputeRunState (.inr (.inr ⟨cur, hsaw.mono hg.own, hid,
      hwait⟩))).andThen fun m₂ out _ _ => ?_
    cases out <;> exact passes_pure _
  · refine (passes_saveNode (.resume (resumedRow cur _ _ _) hsaw.keySeen rfl) rfl).andOk
      fun m₁ row hg _ => leads_ite (fun _ => ?_) fun _ => passes_pure _
    exact (leads_updateRunState "" "" .resume).andThen fun m₂ _ _ _ => passes_pure _

theorem passes_decideApproval (runID nodeID approver decision : String) :
    Passes host reg m (decideApproval host reg runID nodeID approver decision) := by
  refine leads_ite (fun _ => passes_pure _) fun _ => leads_ite (fun _ => passes_pure _) fun _ => ?_
  refine (leads_getRun runID).andOk fun m₁ run _ hr =>
    leads_ite (fun _ => passes_pure _) fun _ => ?_
  obtain ⟨hid, -⟩ := hr run rfl
  refine (leads_getNodes .decide trivial rfl).andOk fun m₂ nodes _ hr₂ =>
    leads_ite (fun _ => passes_pure _) fun hwait => ?_
  have hwait := not_not.mp hwait
  refine (passes_request (.recordApproval _) trivial rfl).andOk fun m₃ appr hg₃ _ => ?_
  rcases row_cases (currentAttempts nodes) nodeID with hmem | hzero
  · obtain ⟨hsaw, hrunID⟩ := (hr₂ nodes rfl).2 _ (mem_currentAttempts hmem).1
    exact passes_applyDecision (hsaw.mono hg₃.own) (hrunID.trans hid.symm) hwait _ _ _
  · rw [hzero] at hwait
    cases hwait

theorem passes_cancelRows (hrows : SawRows m.own runID rows) :
    Passes host reg m (cancelRows rows) := by
  induction rows generalizing m with
  | nil => exact passes_pure _
  | cons cur rows ih =>
    obtain ⟨⟨hsaw, -⟩, hrows⟩ := forall_mem_cons.mp hrows
    refine leads_ite (fun _ => ih hrows) fun _ => ?_
    exact (passes_saveNode (.cancel (cancelledRow cur) hsaw.keySeen rfl) rfl).andThen
      fun m₁ r hg _ => ih (SawRows.mono hg.own hrows)

theorem passes_cancelRun (runID : String) : Passes host reg m (cancelRun runID) := by
  refine (leads_getRun runID).andOk fun m₁ run _ _ =>
    leads_ite (fun _ => passes_pure _) fun _ => ?_
  refine (leads_getNodes .cancel trivial rfl).andOk fun m₂ nodes _ hr₂ => ?_
  refine (leads_range _).andThen fun m₃ rows hg₃ hperm => ?_
  have hrows : SawRows m₃.own runID rows := .mono hg₃.own (.of_perm (hr₂ nodes rfl).2 hperm)
  refine (passes_cancelRows hrows).andThen fun m₄ _ _ _ => ?_
  exact (leads_updateRunState _ _ .cancel).andOk (fun _ _ _ _ => passes_pure _)
    fun _ _ _ => leads_ite (fun _ => passes_answerRun runID) fun _ => passes_pure _

theorem passes_forceFailRun (runID errorCode error : String) :
    Passes host reg m (forceFailRun runID errorCode error) :=
  (leads_updateRunState _ _ .fail).andOk fun _ _ _ _ => passes_pure _

/-! ### Recover -/

/-- The branch of `recoverRows` for a row that a crash interrupted. -/
def recoverInterrupted (host : Host) (reg : Registry) (e : Engine) (run : Run) (now : Go.Time)
    (changed live : Bool) (cur : NodeExecution) (state : NodeState) (rows : List NodeExecution) :
    EProg (Bool × Bool) :=
  if liveLease cur now then recoverRows host reg e run now changed true rows
  else if rerunnable host reg run.definition cur then do
    match ← saveNode .recoverQueued (requeuedRow cur) state with
    | .error _ => recoverRows host reg e run now changed live rows
    | .ok _ => recoverRows host reg e run now true live rows
  else do
    match ← saveNode .recoverParked (ambiguousRow cur) state with
    | .error _ => recoverRows host reg e run now changed live rows
    | .ok _ => do
      audit (.recovered run.id cur.nodeID cur.attempt "ambiguous_recovery")
      recoverRows host reg e run now true live rows

theorem passes_recoverRows (now : Go.Time) (hrun : SawRun m.own run)
    (hrows : SawRows m.own run.id rows) (changed live : Bool) :
    Passes host reg m (recoverRows host reg e run now changed live rows) := by
  induction rows generalizing m changed live with
  | nil => exact passes_pure _
  | cons cur rows ih =>
    obtain ⟨⟨hsaw, hid⟩, hrows⟩ := forall_mem_cons.mp hrows
    have hrest : ∀ {m'} (c l : Bool), Grown m m' →
        Passes host reg m' (recoverRows host reg e run now c l rows) :=
      fun c l hg => ih (hrun.mono hg.own) (SawRows.mono hg.own hrows) c l
    -- The two states are treated alike.
    have hinterrupted : cur.state = .claimed ∨ cur.state = .running → Passes host reg m
        (recoverInterrupted host reg e run now changed live cur cur.state rows) := by
      intro hstate
      refine leads_ite (fun _ => hrest _ _ (.refl m)) fun _ => leads_ite (fun hagain => ?_) fun _ => ?_
      · exact (passes_saveNode (.recoverQueued hsaw hrun hid hstate hagain) rfl).andOk
          (fun _ _ hg _ => hrest _ _ hg) fun _ _ hg => hrest _ _ hg
      · refine (passes_saveNode (.recoverParked (ambiguousRow cur) hsaw.keySeen rfl hstate)
          rfl).andOk (fun m₁ row hg _ => ?_) fun _ _ hg => hrest _ _ hg
        exact (passes_audit _).andThen fun m₂ _ hg₂ _ => hrest _ _ (hg.trans hg₂)
    rw [recoverRows]
    cases hstate : cur.state with
    | waiting =>
      refine leads_ite (fun _ => ?_) fun _ => hrest _ _ (.refl m)
      exact (passes_saveNode (.recoverExpired (expiredRow cur) hsaw.keySeen rfl) rfl).andOk
        (fun _ _ hg _ => hrest _ _ hg) fun _ _ hg => hrest _ _ hg
    | claimed =>
      rw [hstate] at hinterrupted
      exact hinterrupted (.inl rfl)
    | running =>
      rw [hstate] at hinterrupted
      exact hinterrupted (.inr rfl)
    | _ => exact hrest _ _ (.refl m)

theorem passes_recoverRuns (now : Go.Time) {runs : List Run}
    (hruns : ∀ run ∈ runs, SawRun m.own run) :
    Passes host reg m (recoverRuns host reg e now runs) := by
  induction runs generalizing m with
  | nil => exact passes_pure _
  | cons run runs ih =>
    have hrest : ∀ {m'}, Grown m m' → Passes host reg m' (recoverRuns host reg e now runs) :=
      fun hg => ih fun run' hrun' => (hruns run' (mem_cons_of_mem _ hrun')).mono hg.own
    refine leads_ite (fun _ => hrest (.refl m)) fun hopen => ?_
    rw [not_or, not_or] at hopen
    have hrun := hruns run mem_cons_self
    have hbegun : Begun m.own run.id := by
      refine ⟨run, hrun, rfl, hopen.2.2, fun hcancelled => ?_⟩
      rw [hcancelled] at hopen
      exact hopen.1 rfl
    refine (leads_getNodes .recover trivial rfl).andOk fun m₁ nodes hg₁ hr => ?_
    refine (leads_range _).andThen fun m₂ rows hg₂ hperm => ?_
    have hrows : SawRows m₂.own run.id rows := .mono hg₂.own (.of_perm (hr nodes rfl).2 hperm)
    refine (passes_recoverRows e now (hrun.mono (hg₁.trans hg₂).own) hrows false false).andThen
      fun m₃ out hg₃ _ => ?_
    have hg := (hg₁.trans hg₂).trans hg₃
    refine leads_ite (fun _ => ?_) fun _ => hrest hg
    exact (passes_recomputeRunState (.inr (.inl (hbegun.mono hg.own)))).andThen
      fun m₄ _ hg₄ _ => hrest (hg.trans hg₄)

theorem passes_recover : Passes host reg m (recover host reg e) := by
  refine leads_listRuns.andThen fun m₁ runs _ hruns => ?_
  refine passes_readClock.andThen fun m₂ now hg _ => ?_
  exact passes_recoverRuns e now fun run hrun => (hruns run hrun).mono hg.own

/-! ### The system -/

/-- The call that follows a turn. -/
def followed (p : EProg Turn) : EProg (Option EngineCall) := do
  match ← p with
  | .inl _ => pure none
  | .inr call => pure (some call)

/-- **The calls of an engine keep to the rules.** -/
theorem keeps_conduct (kind : StoreKind) :
    Keeps (engineSystem host reg kind) (conduct host reg) Pre where
  body := wObeys_work fun _ policyApproved h => wObeys_execute h policyApproved
  start call h := by
    cases call with
    | sweepLoop e run => cases h
    | execute e runID => rintro n ⟨⟩
    | _ => exact trivial
  prog call m h := by
    have hend : ∀ {m' : Party (List Event) Slot}, goesOn Pre m' none := by
      intro m'
      rintro c ⟨⟩
    have hturn : ∀ {p : EProg Turn}, (conduct host reg).Obeys turns m p →
        (conduct host reg).Obeys (goesOn Pre) m (followed p) := by
      intro p hp
      refine hp.bind fun m' t ht => ?_
      cases t with
      | inl r => exact hend
      | inr call =>
        rintro c ⟨⟩
        exact ht call rfl
    cases call with
    | createRun pub principal input key =>
      exact (passes_createRun pub principal input key).bind fun _ _ _ _ => hend
    | execute e runID => exact hturn (obeys_executeRun e runID h)
    | sweepLoop e run => exact hturn (obeys_sweepLoop e h.1 h.2.1 h.2.2)
    | decideApproval runID nodeID approver decision =>
      exact (passes_decideApproval runID nodeID approver decision).bind fun _ _ _ _ => hend
    | cancelRun runID => exact (passes_cancelRun runID).bind fun _ _ _ _ => hend
    | forceFailRun runID errorCode error =>
      exact (passes_forceFailRun runID errorCode error).bind fun _ _ _ _ => hend
    | recover e => exact (passes_recover e).bind fun _ _ _ _ => hend

end NexaRoute.Nexaflow
