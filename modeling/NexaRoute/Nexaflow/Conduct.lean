import NexaRoute.Nexaflow.Engine

/-!
# The conduct of an engine

What an engine may request, told from what it has requested before. A thread remembers its requests
and their replies; a worker and what the engine later records for its job have a slot with a memory
of their own. The rules say of a write which row it is for and where the engine has that row from,
which state it writes and which it expects, and of a run when it may be moved on.

The rules do not mention the store. What they mean there is the subject of the invariants; that the
programs keep to them is proved in `NexaRoute.Nexaflow.Conforms`.

## Main definitions

* `Event`, `runsIn`, `rowsIn`, `SawRun`, `SawRow` — what a thread has read
* `Slot`, `Slot.dispatched`, `Slot.refused`, `Slot.invoked`, `Halfway` — what is known of a job
* `May`, `MayMove`, `MayAppend`, `MaySave`, `WorkerMay` — the rules
* `conduct` — the protocol
-/

namespace NexaRoute.Nexaflow

open Interleave Protocol

variable {run : Run} {runID nodeID : String}

/-- A request and its reply. -/
abbrev Event := (op : Op) × Res op

/-- The value of a reply that is no error. -/
def got {α : Type} : Except StoreError α → List α
  | .ok a => [a]
  | .error _ => []

@[simp] theorem mem_got {α : Type} {a : α} {r : Except StoreError α} : a ∈ got r ↔ r = .ok a := by
  cases r <;> simp [got, eq_comm]

/-- The runs that a request tells of. -/
def runsIn : (op : Op) → Res op → List Run
  | .getRun _, r => got r
  | .getRunByIdempotency _, r => got r
  | .updateRunState .., r => got r
  | .listRuns, r => r
  | .createRun run, r => (got r).map fun _ => run
  | _, _ => []

/-- The rows that a request tells of. -/
def rowsIn : (op : Op) → Res op → List NodeExecution
  | .getNodes .., r => (got r).flatten
  | .tryClaim .., r => (got r).filterMap id
  | .append .., r => got r
  | .save .., r => got r
  | _, _ => []

/-! ### What a thread has read -/

section Reads

variable (own : List Event)

def SawRun (run : Run) : Prop := ∃ ev ∈ own, run ∈ runsIn ev.1 ev.2

def SawRow (row : NodeExecution) : Prop := ∃ ev ∈ own, row ∈ rowsIn ev.1 ev.2

/-- A row with the key was read. -/
def KeySeen (k : String × String × ℤ) : Prop := ∃ row, SawRow own row ∧ row.key = k

/-- A reply with the rows of a run, at a place in the engine. -/
def ReadRows (site : Site) (runID : String) (rows : List NodeExecution) : Prop :=
  (⟨.getNodes site runID, (.ok rows : Except StoreError (List NodeExecution))⟩ : Event) ∈ own

/-- The thread stored the run. -/
def Created (run : Run) : Prop :=
  (⟨.createRun run, (.ok () : Except StoreError Unit)⟩ : Event) ∈ own

/-- The first attempts of all nodes were there. -/
def Initialized (runID : String) : Prop :=
  ∃ run rows, SawRun own run ∧ run.id = runID ∧ ReadRows own .initialized runID rows ∧
    ∀ n ∈ run.definition.nodes, ∃ e ∈ rows, e.attempt = 0 ∧ e.nodeID = n.id

/-- The run was read in a state that only a run gets to whose execution began. -/
def Begun (runID : String) : Prop :=
  ∃ run, SawRun own run ∧ run.id = runID ∧ run.state ≠ .created ∧ run.state ≠ .cancelled

/-- The thread knows that the execution of the run began or can begin. -/
def Underway (runID : String) : Prop :=
  Initialized own runID ∨ Begun own runID ∨
    ∃ row, SawRow own row ∧ row.runID = runID ∧ row.state = .waiting

/-- In the rows that a sweep went by, the source of every edge to the node had succeeded. -/
def FoundReady (runID nodeID : String) : Prop :=
  ∃ run rows, SawRun own run ∧ run.id = runID ∧ ReadRows own .sweep runID rows ∧
    ∀ edge ∈ incomingEdges run.definition nodeID,
      ∃ row, (edge.source, row) ∈ currentAttempts rows ∧ row.state = .succeeded

/-- All current attempts had ended when the run was settled, and none had failed. -/
def Settles (runID : String) : Prop :=
  ∃ rows, ReadRows own .recompute runID rows ∧
    ∀ row ∈ (currentAttempts rows).rows, row.state.terminal = true ∧ row.state ≠ .failed

end Reads

/-! ### Jobs -/

/-- What is known of a job: the requests of its worker, what the worker returned, and what the engine
requested for it afterwards. The last request is first. -/
structure Slot where
  job : Job
  done : List Event := []
  result : Option JobResult := none
  post : List Event := []

/-- The dispatch of the job was saved. -/
def Slot.dispatched (n : Slot) : Prop :=
  ∃ exec expected row,
    (⟨.save .dispatch exec expected, (.ok row : Except StoreError NodeExecution)⟩ : Event) ∈ n.done

/-- The dispatch of the job was refused. -/
def Slot.refused (n : Slot) : Prop :=
  ∃ exec expected err,
    (⟨.save .dispatch exec expected, (.error err : Except StoreError NodeExecution)⟩ : Event) ∈
      n.done

/-- The node's `Run` was called. -/
def Slot.invoked (n : Slot) : Prop :=
  ∃ inv answer, (⟨.invoke inv, (answer : RunAnswer)⟩ : Event) ∈ n.done

/-- Among the requests for a job is the append of a further attempt, but not the save of the attempt
before it. -/
def Halfway (post : List Event) : Prop :=
  (∃ i exec row,
    (⟨.append (.retry i) exec, (.ok row : Except StoreError NodeExecution)⟩ : Event) ∈ post) ∧
  ¬∃ i exec expected r, (⟨.save (.retry i) exec expected, r⟩ : Event) ∈ post

/-- No job has an unfinished retry. -/
def Quiet (slots : List Slot) : Prop := ∀ n ∈ slots, ¬Halfway n.post

/-- The job to whose slot a request belongs. -/
def Op.slot? : Op → Option ℕ
  | .getNodes (.refresh i) _ => some i
  | .append (.retry i) _ => some i
  | .save (.outcome i) _ _ => some i
  | .save (.retry i) _ _ => some i
  | .save (.park i) _ _ => some i
  | _ => none

section Rules

variable (host : Host) (reg : Registry)

/-- A job is for a run the engine read and a row it claimed. -/
structure JobOK (own : List Event) (job : Job) : Prop where
  run : SawRun own job.run
  exec : SawRow own job.exec
  runID : job.exec.runID = job.run.id
  nodeID : job.exec.nodeID = job.node.id
  node : job.node = nodeDefByID job.run.definition job.exec.nodeID
  spec : reg.lookup host job.node.nodeID job.node.version = .ok job.spec

/-- The engine records the result of job `i` for the row `cur` it refreshed, and has requested
`later` since. -/
structure Recording (slots : List Slot) (i : ℕ) (n : Slot) (cur : NodeExecution) (res : JobResult)
    (later : List Event) : Prop where
  slot : slots[i]? = some n
  result : n.result = some res
  post : ∃ rows, cur ∈ rows ∧ n.post = later ++
    [⟨.getNodes (.refresh i) n.job.run.id, (.ok rows : Except StoreError (List NodeExecution))⟩]
  key : cur.key = n.job.exec.key

def firstAttempt (runID nodeID : String) : NodeExecution :=
  { runID, nodeID, state := .pending, appendOperationID := "initial" }

/-- The attempt after one that failed. -/
def furtherAttempt (job : Job) (attempt : ℤ) : NodeExecution :=
  { runID := job.run.id, nodeID := job.node.id, state := .pending
    appendOperationID := retryOperation attempt }

/-- How a run may be moved: from which expected state, to which. -/
inductive MayMove (own : List Event) (runID : String) : RunState → RunState → Prop
  | begin (h : Initialized own runID) : MayMove own runID .created .running
  | resume : MayMove own runID .waitingForApproval .running
  | succeed (h : Settles own runID) : MayMove own runID .unset .succeeded
  | fail : MayMove own runID .unset .failed
  | cancel : MayMove own runID .unset .cancelled
  | park : MayMove own runID .unset .needsManualAction
  | wait : MayMove own runID .unset .waitingForApproval

inductive MayAppend (own : List Event) (slots : List Slot) : Site → NodeExecution → Prop
  | initial {run : Run} {nodeID : String} (hrun : Created own run)
      (hnode : nodeID ∈ run.definition.ids) :
      MayAppend own slots .initial (firstAttempt run.id nodeID)
  | retry {i : ℕ} {n : Slot} {cur next : NodeExecution} {res : JobResult}
      (hrec : Recording slots i n cur res [])
      (hout : outcomeOf host n.job.spec cur res = .retry next) :
      MayAppend own slots (.retry i) (furtherAttempt n.job cur.attempt)

/-- Which rows may be saved, and in which state they are expected. -/
inductive MaySave (own : List Event) (slots : List Slot) : Site → NodeExecution → NodeState → Prop
  | expire (exec : NodeExecution) (hkey : KeySeen own exec.key) (hstate : exec.state = .failed) :
      MaySave own slots .expire exec .waiting
  | recoverExpired (exec : NodeExecution) (hkey : KeySeen own exec.key)
      (hstate : exec.state = .failed) : MaySave own slots .recoverExpired exec .waiting
  | reject (exec : NodeExecution) (hkey : KeySeen own exec.key) (hstate : exec.state = .failed) :
      MaySave own slots .reject exec .waiting
  | requeue (exec : NodeExecution) (hkey : KeySeen own exec.key) (hstate : exec.state = .pending) :
      MaySave own slots .requeue exec .waiting
  | resume (exec : NodeExecution) (hkey : KeySeen own exec.key) (hstate : exec.state = .pending) :
      MaySave own slots .resume exec .waiting
  | skip {exec : NodeExecution} (hkey : KeySeen own exec.key) (hrun : Begun own exec.runID)
      (hstate : exec.state = .skipped) : MaySave own slots .skip exec .pending
  | skipNothing : MaySave own slots .skip { zeroExecution with state := .skipped } .pending
  | undispatched (exec : NodeExecution) (hkey : KeySeen own exec.key)
      (hstate : exec.state = .failed) : MaySave own slots .undispatched exec .claimed
  | cancel (exec : NodeExecution) (hkey : KeySeen own exec.key) (hstate : exec.state = .cancelled) :
      MaySave own slots .cancel exec .unset
  | recoverQueued {cur : NodeExecution} {run : Run} (hrow : SawRow own cur) (hrun : SawRun own run)
      (hid : cur.runID = run.id) (hstate : cur.state = .claimed ∨ cur.state = .running)
      (hagain : rerunnable host reg run.definition cur = true) :
      MaySave own slots .recoverQueued (requeuedRow cur) cur.state
  | recoverParked (exec : NodeExecution) {expected : NodeState} (hkey : KeySeen own exec.key)
      (hstate : exec.state = .needsManualAction)
      (hexp : expected = .claimed ∨ expected = .running) :
      MaySave own slots .recoverParked exec expected
  | outcome {i : ℕ} {n : Slot} {exec cur : NodeExecution} {res : JobResult}
      (hrec : Recording slots i n cur res []) (hkey : exec.key = cur.key)
      (hstate : exec.state = (outcomeOf host n.job.spec cur res).next.state) :
      MaySave own slots (.outcome i) exec cur.state
  | retry {i : ℕ} {n : Slot} {cur next : NodeExecution} {res : JobResult} {row : NodeExecution}
      (hrec : Recording slots i n cur res
        [⟨.append (.retry i) (furtherAttempt n.job cur.attempt),
          (.ok row : Except StoreError NodeExecution)⟩])
      (hout : outcomeOf host n.job.spec cur res = .retry next) :
      MaySave own slots (.retry i) next cur.state
  | park {i : ℕ} {n : Slot} {cur : NodeExecution} {res : JobResult} {later : List Event}
      (hrec : Recording slots i n cur res later) :
      MaySave own slots (.park i) (parkedRow cur) .unset

def MayRead (own : List Event) (slots : List Slot) : Site → String → Prop
  | .recompute, runID => Underway own runID
  | .refresh i, runID =>
    ∃ n, slots[i]? = some n ∧ n.post = [] ∧ n.result.isSome ∧ n.job.run.id = runID
  | _, _ => True

/-- What an engine may request. -/
def May (own : List Event) (slots : List Slot) : Op → Prop
  | .createRun run => run.state = .created ∧ WellFormed host reg run.definition
  | .updateRunState runID expected state _ _ => MayMove own runID expected state
  | .append site exec => MayAppend host own slots site exec
  | .save site exec expected => MaySave host reg own slots site exec expected
  | .getNodes site runID => MayRead own slots site runID
  | .tryClaim runID nodeID _ _ _ => Begun own runID ∧ FoundReady own runID nodeID
  | .invoke _ => False
  | _ => True

/-- What a worker may request: it dispatches its job once, and calls `Run` once if that was saved. -/
def WorkerRule (n : Slot) : Op → Prop
  | .audit _ => True
  | .getApproval _ _ => True
  | .save site exec expected =>
    site = .dispatch ∧ exec = dispatchedRow n.job.exec ∧ expected = .claimed ∧
      ¬n.dispatched ∧ ¬n.refused
  | .invoke inv => n.dispatched ∧ ¬n.invoked ∧ ∃ policyApproved, inv = n.job.invocation policyApproved
  | _ => False

/-- What a worker may request as long as it has not returned. -/
def WorkerMay (n : Slot) (op : Op) : Prop := n.result = none ∧ n.post = [] ∧ WorkerRule n op

/-- How the result of a job comes about: the store refused the dispatch, or it is what `Run` leads to
if that was called. -/
structure Concluded (n : Slot) (r : JobResult) : Prop where
  refused : ¬n.dispatched → n.refused ∧ ∃ err, r = .error (.store err)
  concluded : ∀ inv answer, (⟨.invoke inv, (answer : RunAnswer)⟩ : Event) ∈ n.done →
    r = match conclude host n.job.spec answer with
      | .error err => .error (.node err)
      | .ok out => .ok out

structure WorkerEnds (n : Slot) (r : JobResult) : Prop extends Concluded host n r where
  post : n.post = []

/-- What an engine counts on in a reply. -/
def Reliable (slots : List Slot) : (op : Op) → Res op → Prop
  | .getRun runID, r => ∀ run ∈ got r, run.id = runID
  | .updateRunState runID _ state _ _, r => ∀ run ∈ got r, run.id = runID ∧ run.state = state
  | .getNodes site runID, r =>
    (∀ row ∈ (got r).flatten, row.runID = runID) ∧
      ∀ i, site = .refresh i → ∀ n, slots[i]? = some n →
        ∃ rows, r = .ok rows ∧ ∃ row ∈ rows, row.key = n.job.exec.key
  | .tryClaim runID nodeID _ _ _, r =>
    ∀ row ∈ (got r).filterMap id, row.runID = runID ∧ row.nodeID = nodeID
  | .range rows, r => List.Perm (r : List NodeExecution) rows
  | _, _ => True

/-- The rules as a protocol. -/
def conduct : Protocol Op Res Job JobResult (List Event) Slot where
  init := []
  may m op := May host reg m.own m.slots op
  after m op r :=
    ⟨⟨op, r⟩ :: m.own, match op.slot? with
      | some i => m.slots.modify i fun n => { n with post := ⟨op, r⟩ :: n.post }
      | none => m.slots⟩
  mayFork m js := (∀ j ∈ js, JobOK host reg m.own j) ∧ Quiet m.slots
  slot j := { job := j }
  job n := n.job
  wMay := WorkerMay
  wAfter n op r := { n with done := ⟨op, r⟩ :: n.done }
  wPost := WorkerEnds host
  ended n r := { n with result := some r }
  good m op r := Reliable m.slots op r
  job_slot _ := rfl
  job_wAfter _ _ _ := rfl

end Rules

/-! ### What was read stays read -/

section Mono

variable {own own' : List Event}

theorem SawRun.mono (h : own ⊆ own') (hr : SawRun own run) : SawRun own' run := by
  obtain ⟨ev, hev, hmem⟩ := hr
  exact ⟨ev, h hev, hmem⟩

theorem SawRow.mono (h : own ⊆ own') {row : NodeExecution} (hr : SawRow own row) :
    SawRow own' row := by
  obtain ⟨ev, hev, hmem⟩ := hr
  exact ⟨ev, h hev, hmem⟩

theorem KeySeen.mono (h : own ⊆ own') {k : String × String × ℤ} (hk : KeySeen own k) :
    KeySeen own' k := by
  obtain ⟨row, hrow, hkey⟩ := hk
  exact ⟨row, hrow.mono h, hkey⟩

theorem SawRow.keySeen {row : NodeExecution} (h : SawRow own row) : KeySeen own row.key :=
  ⟨row, h, rfl⟩

theorem Initialized.mono (h : own ⊆ own') (hi : Initialized own runID) :
    Initialized own' runID := by
  obtain ⟨run, rows, hrun, hid, hrows, hall⟩ := hi
  exact ⟨run, rows, hrun.mono h, hid, h hrows, hall⟩

theorem Begun.mono (h : own ⊆ own') (hb : Begun own runID) : Begun own' runID := by
  obtain ⟨run, hrun, hid, hstate⟩ := hb
  exact ⟨run, hrun.mono h, hid, hstate⟩

theorem FoundReady.mono (h : own ⊆ own') (hf : FoundReady own runID nodeID) :
    FoundReady own' runID nodeID := by
  obtain ⟨run, rows, hrun, hid, hrows, hready⟩ := hf
  exact ⟨run, rows, hrun.mono h, hid, h hrows, hready⟩

theorem Underway.mono (h : own ⊆ own') (hu : Underway own runID) :
    Underway own' runID := by
  rcases hu with hi | hb | ⟨row, hrow, hid, hstate⟩
  · exact .inl (hi.mono h)
  · exact .inr (.inl (hb.mono h))
  · exact .inr (.inr ⟨row, hrow.mono h, hid, hstate⟩)

theorem JobOK.mono {host : Host} {reg : Registry} (h : own ⊆ own') {job : Job}
    (hj : JobOK host reg own job) : JobOK host reg own' job :=
  { hj with run := hj.run.mono h, exec := hj.exec.mono h }

end Mono

/-! ### The requests of an engine -/

section Requests

variable {host : Host} {reg : Registry} {m m' m'' : Party (List Event) Slot}

/-- A later memory of a thread that has the same jobs. -/
structure Grown (m m' : Party (List Event) Slot) : Prop where
  own : m.own ⊆ m'.own
  slots : m'.slots = m.slots

theorem Grown.refl (m : Party (List Event) Slot) : Grown m m := ⟨List.Subset.refl _, rfl⟩

theorem Grown.trans (h : Grown m m') (h' : Grown m' m'') : Grown m m'' :=
  ⟨List.Subset.trans h.own h'.own, h'.slots.trans h.slots⟩

theorem grown_after {op : Op} (hop : op.slot? = none) (r : Res op) :
    Grown m ((conduct host reg).after m op r) := by
  refine ⟨List.subset_cons_self .., ?_⟩
  simp [conduct, hop]

theorem mem_after (op : Op) (r : Res op) :
    (⟨op, r⟩ : Event) ∈ ((conduct host reg).after m op r).own := List.mem_cons_self

section Leads

variable {α β : Type} {p : EProg α} {f : α → EProg β} {post : Party (List Event) Slot → α → Prop}
  {post' : Party (List Event) Slot → β → Prop}

/-- The program keeps to the rules and leaves the jobs of its thread alone, and `post` holds in the
end. -/
def Leads (host : Host) (reg : Registry) (post : Party (List Event) Slot → α → Prop)
    (m : Party (List Event) Slot) (p : EProg α) : Prop :=
  (conduct host reg).Obeys (fun m' a => Grown m m' ∧ post m' a) m p

abbrev Passes (host : Host) (reg : Registry) (m : Party (List Event) Slot) (p : EProg α) : Prop :=
  Leads host reg (fun _ _ => True) m p

theorem leads_pure {a : α} (h : post m a) : Leads host reg post m (pure a) := ⟨.refl m, h⟩

theorem passes_pure (a : α) : Passes host reg m (pure a) := leads_pure trivial

theorem Leads.bind (h : Leads host reg post m p)
    (hf : ∀ m' a, Grown m m' → post m' a → (conduct host reg).Obeys post' m' (f a)) :
    (conduct host reg).Obeys post' m (p >>= f) :=
  Protocol.Obeys.bind h fun m' a ha => hf m' a ha.1 ha.2

theorem Leads.andThen (h : Leads host reg post m p)
    (hf : ∀ m' a, Grown m m' → post m' a → Leads host reg post' m' (f a)) :
    Leads host reg post' m (p >>= f) :=
  h.bind fun m' a hg ha => (hf m' a hg ha).mono fun _ _ h' => ⟨hg.trans h'.1, h'.2⟩

theorem leads_ite {c : Prop} [Decidable c] {q : EProg α} (hp : c → Leads host reg post m p)
    (hq : ¬c → Leads host reg post m q) : Leads host reg post m (if c then p else q) :=
  obeys_ite hp hq

end Leads

section Errors

variable {ε α β : Type} {p : EProg (Except ε α)} {f : Except ε α → EProg β}
  {post : Party (List Event) Slot → Except ε α → Prop} {post' : Party (List Event) Slot → β → Prop}

/-- What comes after a program that may fail. -/
theorem Leads.bindOk (h : Leads host reg post m p)
    (herr : ∀ m' err, Grown m m' → (conduct host reg).Obeys post' m' (f (.error err)))
    (hok : ∀ m' a, Grown m m' → post m' (.ok a) →
      (conduct host reg).Obeys post' m' (f (.ok a))) :
    (conduct host reg).Obeys post' m (p >>= f) := by
  refine h.bind fun m' r hg hr => ?_
  cases r with
  | error err => exact herr m' err hg
  | ok a => exact hok m' a hg hr

theorem Leads.andOk (h : Leads host reg post m p)
    (hok : ∀ m' a, Grown m m' → post m' (.ok a) → Leads host reg post' m' (f (.ok a)))
    (herr : ∀ m' err, Grown m m' → Leads host reg post' m' (f (.error err)) := by
      exact fun _ _ _ => passes_pure _) :
    Leads host reg post' m (p >>= f) := by
  refine h.andThen fun m' r hg hr => ?_
  cases r with
  | error err => exact herr m' err hg
  | ok a => exact hok m' a hg hr

end Errors

theorem leads_getRun (runID : String) :
    Leads host reg (fun m' r => ∀ run, r = .ok run → run.id = runID ∧ SawRun m'.own run) m
      (getRun runID) := by
  refine obeys_perform trivial fun r hr => ⟨grown_after rfl r, fun run hrun => ?_⟩
  exact ⟨hr run (mem_got.mpr hrun), _, mem_after _ r, mem_got.mpr hrun⟩

theorem leads_getRunByIdempotency (key : String) :
    Leads host reg (fun m' r => ∀ run, r = .ok run → SawRun m'.own run) m
      (getRunByIdempotency key) := by
  refine obeys_perform trivial fun r _ => ⟨grown_after rfl r, fun run hrun => ?_⟩
  exact ⟨_, mem_after _ r, mem_got.mpr hrun⟩

theorem leads_storeRun (hstate : run.state = .created) (hwf : WellFormed host reg run.definition) :
    Leads host reg (fun m' r => r = .ok () → Created m'.own run) m (storeRun run) := by
  refine obeys_perform ⟨hstate, hwf⟩ fun r _ => ⟨grown_after rfl r, fun hr => ?_⟩
  show (⟨_, _⟩ : Event) ∈ _
  rw [← hr]
  exact mem_after _ r

theorem leads_updateRunState {expected state : RunState} (code msg : String)
    (h : MayMove m.own runID expected state) :
    Leads host reg
      (fun m' r => ∀ run, r = .ok run → run.id = runID ∧ run.state = state ∧ SawRun m'.own run) m
      (updateRunState runID expected state code msg) := by
  refine obeys_perform h fun r hr => ⟨grown_after rfl r, fun run hrun => ?_⟩
  obtain ⟨hid, hstate⟩ := hr run (mem_got.mpr hrun)
  exact ⟨hid, hstate, _, mem_after _ r, mem_got.mpr hrun⟩

theorem leads_listRuns :
    Leads host reg (fun m' runs => ∀ run ∈ runs, SawRun m'.own run) m listRuns := by
  refine obeys_perform trivial fun r _ => ⟨grown_after rfl r, fun run hrun => ?_⟩
  exact ⟨_, mem_after _ r, hrun⟩

theorem leads_getNodes (site : Site) (h : MayRead m.own m.slots site runID)
    (hsite : (Op.getNodes site runID).slot? = none) :
    Leads host reg
      (fun m' r => ∀ rows, r = .ok rows → ReadRows m'.own site runID rows ∧
        ∀ row ∈ rows, SawRow m'.own row ∧ row.runID = runID) m
      (getNodes site runID) := by
  refine obeys_perform h fun r hr => ⟨grown_after hsite r, fun rows hrows => ?_⟩
  have hr' : r = (.ok rows : Except StoreError (List NodeExecution)) := hrows
  subst hr'
  refine ⟨mem_after _ _, fun row hrow => ⟨⟨_, mem_after _ _, ?_⟩, hr.1 row ?_⟩⟩
  · simpa [rowsIn] using hrow
  · simpa using hrow

theorem leads_tryClaim (owner : String) (ttl : Go.Duration) (now : Go.Time)
    (h : Begun m.own runID ∧ FoundReady m.own runID nodeID) :
    Leads host reg
      (fun m' r => ∀ row, r = .ok (some row) →
        row.runID = runID ∧ row.nodeID = nodeID ∧ SawRow m'.own row) m
      (tryClaim runID nodeID owner ttl now) := by
  refine obeys_perform h fun r hr => ⟨grown_after rfl r, fun row hrow => ?_⟩
  have hr' : r = (.ok (some row) : Except StoreError (Option NodeExecution)) := hrow
  subst hr'
  obtain ⟨hrun, hnode⟩ := hr row (by simp)
  exact ⟨hrun, hnode, _, mem_after _ _, by simp [rowsIn]⟩

theorem leads_range (rows : List NodeExecution) :
    Leads host reg (fun _ r => r.Perm rows) m (range rows) :=
  obeys_perform trivial fun r hr => ⟨grown_after rfl r, hr⟩

theorem passes_request (op : Op) (h : May host reg m.own m.slots op) (hop : op.slot? = none) :
    Passes host reg m (request op) :=
  obeys_perform h fun r _ => ⟨grown_after hop r, trivial⟩

theorem passes_saveNode {site : Site} {exec : NodeExecution} {expected : NodeState}
    (h : MaySave host reg m.own m.slots site exec expected)
    (hsite : (Op.save site exec expected).slot? = none) :
    Passes host reg m (saveNode site exec expected) := passes_request _ h hsite

theorem passes_ask (q : Question) : Passes host reg m (ask q) := passes_request _ trivial rfl

theorem passes_readClock : Passes host reg m readClock := passes_request _ trivial rfl

theorem passes_audit (ev : AuditEvent) : Passes host reg m (audit ev) :=
  passes_request _ trivial rfl

theorem obeys_slotRequest (op : Op) {i : ℕ} (h : May host reg m.own m.slots op)
    (hop : op.slot? = some i) :
    (conduct host reg).Obeys
      (fun m' r => m.own ⊆ m'.own ∧ Reliable m.slots op r ∧
        m'.slots = m.slots.modify i fun n => { n with post := ⟨op, r⟩ :: n.post }) m
      (request op) := by
  refine obeys_perform h fun r hr => ⟨List.subset_cons_self .., hr, ?_⟩
  simp [conduct, hop]

end Requests

end NexaRoute.Nexaflow
