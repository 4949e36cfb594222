import NexaRoute.Interleave
import NexaRoute.Nexaflow.Schedule

/-!
# The workflow engine

The calls of an engine as programs over a store that other engines use at the same time. A request
is one store call, one call of a node's `Run`, or a question to the surroundings: the clock, a random
id, whether a context is cancelled or a slot is taken, the order in which Go goes through a map, how
often a ticker fires before a deadline. The surroundings may answer anything, so the programs cover
every engine, with any in-process state of its own.

A store call is atomic and always answers. The memory store and the file store share their methods;
the Postgres store reads a save by the attempt it names (`NexaRoute.Nexaflow.Postgres`). Runs are not
pruned.

Requests carry the place in the engine they are made from, where that matters: the jobs of a pool and
what is later recorded for them have the number of the job.

## Main definitions

* `engineSystem` — engines as a system of programs
-/

namespace NexaRoute.Nexaflow

open Go Interleave

/-! ### Requests -/

/-- The kinds of stores. The file store is a memory store that is written to disk. -/
inductive StoreKind
  | memory
  | postgres
  deriving DecidableEq, Repr

/-- `SaveNodeExecution` of a kind of store. -/
def StoreState.saveFor : StoreKind → StoreState → NodeExecution → NodeState → Time →
    Except StoreError (StoreState × NodeExecution)
  | .memory => StoreState.saveNodeExecution
  | .postgres => StoreState.saveAddressed

/-- The places in the engine that read and write rows. -/
inductive Site
  /-- `CreateRun` appends the first attempts. -/
  | initial
  /-- `requireInitializedRun`. -/
  | initialized
  /-- `expireApprovals`. -/
  | expire
  /-- `recomputeRunState`. -/
  | recompute
  /-- `sweep`: the rows it goes by, and its own writes. -/
  | sweep
  | requeue
  | skip
  | undispatched
  /-- A worker of `runJobs`. -/
  | dispatch
  /-- `recordOutcome` for job `i`: the refresh, the outcome, a further attempt and the end of the one
  before it, and `parkPersistFailure`. -/
  | refresh (i : ℕ)
  | outcome (i : ℕ)
  | retry (i : ℕ)
  | park (i : ℕ)
  /-- `DecideApproval`. -/
  | decide
  | reject
  | resume
  /-- `CancelRun`. -/
  | cancel
  /-- `Recover`. -/
  | recover
  | recoverExpired
  | recoverQueued
  | recoverParked
  deriving DecidableEq, Repr

/-- `AuditEvent`. -/
inductive AuditEvent
  | nodeStarted (runID nodeID : String) (attempt : ℤ)
  | nodeFinished (runID nodeID : String) (attempt : ℤ) (state : NodeState) (errorCode : String)
  | runFinished (runID : String) (state : RunState) (errorCode : String)
  | parked (runID nodeID : String) (attempt : ℤ) (errorCode : String)
  | recovered (runID nodeID : String) (attempt : ℤ) (errorCode : String)
  deriving DecidableEq, Repr

/-- The questions with two answers: is the context cancelled, does this engine already drive the run,
does the definition run as often as it may. -/
inductive Question
  | cancelled
  | inFlight
  | busy
  deriving DecidableEq, Repr

/-- What an engine requests. -/
inductive Op
  | getRun (runID : String)
  | getRunByIdempotency (key : String)
  | createRun (run : Run)
  | updateRunState (runID : String) (expected state : RunState) (errorCode error : String)
  | listRuns
  | append (site : Site) (exec : NodeExecution)
  | save (site : Site) (exec : NodeExecution) (expected : NodeState)
  | getNodes (site : Site) (runID : String)
  | tryClaim (runID nodeID owner : String) (ttl : Duration) (now : Time)
  | recordApproval (appr : Approval)
  | getApproval (runID nodeID : String)
  | invoke (inv : Invocation)
  | now
  | ask (q : Question)
  | ticks
  | newID
  | range (rows : List NodeExecution)
  | audit (ev : AuditEvent)

def Res : Op → Type
  | .getRun _ => Except StoreError Run
  | .getRunByIdempotency _ => Except StoreError Run
  | .createRun _ => Except StoreError Unit
  | .updateRunState .. => Except StoreError Run
  | .listRuns => List Run
  | .append .. => Except StoreError NodeExecution
  | .save .. => Except StoreError NodeExecution
  | .getNodes .. => Except StoreError (List NodeExecution)
  | .tryClaim .. => Except StoreError (Option NodeExecution)
  | .recordApproval _ => Except StoreError Approval
  | .getApproval .. => Except StoreError Approval
  | .invoke _ => RunAnswer
  | .now => Time
  | .ask _ => Bool
  | .ticks => ℕ
  | .newID => Option String
  | .range _ => List NodeExecution
  | .audit _ => Unit

/-- What the surroundings contribute to a request. -/
structure Env where
  now : Time := 0
  yes : Bool := false
  ticks : ℕ := 0
  id : Option String := none
  /-- The place of a node in a pass over a map. -/
  order : String → ℤ := fun _ => 0
  answer : RunAnswer := { out := .ok [] }

/-- The order of a pass over a map. -/
def Env.before (env : Env) (a b : NodeExecution) : Prop := env.order a.nodeID ≤ env.order b.nodeID

instance (env : Env) : DecidableRel env.before := fun _ _ => inferInstanceAs (Decidable (_ ≤ _))

/-- The state after a store call, and the reply. A call that fails changes nothing. -/
def replied {α : Type} (s : StoreState) :
    Except StoreError (StoreState × α) → StoreState × Except StoreError α
  | .ok (s', a) => (s', .ok a)
  | .error err => (s, .error err)

theorem eq_ok_of_replied {α : Type} {s : StoreState} {x : Except StoreError (StoreState × α)} {a : α}
    (h : (replied s x).2 = .ok a) : x = .ok ((replied s x).1, a) := by
  cases x with
  | error err => cases h
  | ok p =>
    cases h
    rfl

/-- What a request does. -/
def Op.exec (kind : StoreKind) : (op : Op) → StoreState → Env → StoreState × Res op
  | .getRun runID, s, _ => (s, s.getRun runID)
  | .getRunByIdempotency key, s, _ => (s, s.getRunByIdempotency key)
  | .createRun run, s, env => replied s ((s.createRun run env.now).map fun s' => (s', ()))
  | .updateRunState runID expected state code msg, s, env =>
    replied s (s.updateRunState runID expected state code msg env.now)
  | .listRuns, s, _ => (s, s.listRuns {})
  | .append _ exec, s, env => replied s (s.appendNodeExecution exec env.now)
  | .save _ exec expected, s, env => replied s (s.saveFor kind exec expected env.now)
  | .getNodes _ runID, s, _ => (s, s.getNodeExecutions runID)
  | .tryClaim runID nodeID owner ttl t, s, _ => replied s (s.tryClaim runID nodeID owner ttl t)
  | .recordApproval appr, s, env => replied s (s.recordApproval appr env.now)
  | .getApproval runID nodeID, s, _ => (s, s.getApproval runID nodeID)
  | .invoke _, s, env => (s, env.answer)
  | .now, s, env => (s, env.now)
  | .ask _, s, env => (s, env.yes)
  | .ticks, s, env => (s, env.ticks)
  | .newID, s, env => (s, env.id)
  | .range rows, s, env => (s, rows.insertionSort env.before)
  | .audit _, s, _ => (s, ())

/-- The programs of an engine, and of a worker. -/
abbrev EProg := Prog Op Res Job JobResult

abbrev ECode := Code Op Res

/-- One request, of an engine and of a worker. -/
def request (op : Op) : EProg (Res op) := Prog.perform op

def workerRequest (op : Op) : ECode (Res op) := Code.perform op

def getRun (runID : String) : EProg (Except StoreError Run) := request (.getRun runID)

def getRunByIdempotency (key : String) : EProg (Except StoreError Run) :=
  request (.getRunByIdempotency key)

def storeRun (run : Run) : EProg (Except StoreError Unit) := request (.createRun run)

def updateRunState (runID : String) (expected state : RunState) (errorCode error : String) :
    EProg (Except StoreError Run) :=
  request (.updateRunState runID expected state errorCode error)

def listRuns : EProg (List Run) := request .listRuns

def appendNode (site : Site) (exec : NodeExecution) : EProg (Except StoreError NodeExecution) :=
  request (.append site exec)

def saveNode (site : Site) (exec : NodeExecution) (expected : NodeState) :
    EProg (Except StoreError NodeExecution) :=
  request (.save site exec expected)

def getNodes (site : Site) (runID : String) : EProg (Except StoreError (List NodeExecution)) :=
  request (.getNodes site runID)

def tryClaim (runID nodeID owner : String) (ttl : Duration) (now : Time) :
    EProg (Except StoreError (Option NodeExecution)) :=
  request (.tryClaim runID nodeID owner ttl now)

def recordApproval (appr : Approval) : EProg (Except StoreError Approval) :=
  request (.recordApproval appr)

def getApproval (runID nodeID : String) : EProg (Except StoreError Approval) :=
  request (.getApproval runID nodeID)

def readClock : EProg Time := request .now

def ask (q : Question) : EProg Bool := request (.ask q)

def countTicks : EProg ℕ := request .ticks

def randomID : EProg (Option String) := request .newID

def range (rows : List NodeExecution) : EProg (List NodeExecution) := request (.range rows)

def audit (ev : AuditEvent) : EProg Unit := request (.audit ev)

/-! ### Errors and calls -/

/-- What the calls of an engine fail with. -/
inductive EngineError
  | store (err : StoreError)
  | tooManyNodes
  | tooManyEdges
  | definitionTooLarge
  | definition (id : String) (err : DefinitionError)
  | inputTooLarge
  | noRunID
  | incomplete (runID nodeID : String)
  | parked
  | inFlight
  | definitionBusy
  | notWaiting
  | approverRequired
  | cancelled

/-- `EngineMaxNodes`, `EngineMaxEdges`, `EngineMaxDefinitionJSONBytes`, `MaxRunInputBytes`. -/
def engineMaxNodes : ℕ := 128

def engineMaxEdges : ℕ := 512

def engineMaxDefinitionJSONBytes : ℕ := 1048576

def maxRunInputBytes : ℕ := 65536

/-- The options of an engine that its calls depend on. -/
structure Engine where
  workerID : String
  leaseTTL : Duration := 30 * second
  approvalTimeout : Duration := 0

/-- The calls of an engine. `sweepLoop` is the loop of `Execute`, one pass at a time. -/
inductive EngineCall
  | createRun (pub : PublishedDefinition) (principal : Identity) (input : Obj) (key : String)
  | execute (e : Engine) (runID : String)
  | sweepLoop (e : Engine) (run : Run)
  | decideApproval (runID nodeID approver decision : String)
  | cancelRun (runID : String)
  | forceFailRun (runID errorCode error : String)
  | recover (e : Engine)

/-- What `Execute` returns. -/
structure Returned where
  run : Option Run := none
  err : Option EngineError := none

/-- What a part of `Execute` ends with: the answer, or the loop. -/
abbrev Turn := Returned ⊕ EngineCall

/-! ### CreateRun -/

section Programs

variable (host : Host) (reg : Registry)

def requireInitializedRun (run : Run) : EProg (Option EngineError) := do
  match ← getNodes .initialized run.id with
  | .error err => pure (some (.store err))
  | .ok nodes =>
    pure ((run.definition.nodes.find? fun n =>
      !nodes.any fun e => e.attempt == 0 && e.nodeID == n.id).map fun n => .incomplete run.id n.id)

/-- The loop of `waitForInitializedRun`, with as many ticks as come before the deadline or the end of
the context. -/
def pollInitialized (run : Run) : ℕ → EProg (Option EngineError)
  | 0 => do
    match ← requireInitializedRun run with
    | some (.incomplete runID nodeID) =>
      if ← ask .cancelled then pure (some .cancelled)
      else pure (some (.incomplete runID nodeID))
    | r => pure r
  | n + 1 => do
    match ← requireInitializedRun run with
    | some (.incomplete _ _) => pollInitialized run n
    | r => pure r

def waitForInitializedRun (run : Run) : EProg (Option EngineError) := do
  let n ← countTicks
  pollInitialized run n

/-- The checks of `CreateRun` before it calls the store. -/
def admissionError (d : Definition) (input : Obj) : Option EngineError :=
  firstError [
    if engineMaxNodes < d.nodes.length then some .tooManyNodes else none,
    if engineMaxEdges < d.edges.length then some .tooManyEdges else none,
    if engineMaxDefinitionJSONBytes < host.definitionLen d then some .definitionTooLarge else none,
    (validateDefinition host reg d).map (.definition d.id),
    if maxRunInputBytes < host.jsonLen (.obj input) then some .inputTooLarge else none]

/-- A stored run is the one that a repeated request asks for. -/
def sameRequest (pub : PublishedDefinition) (input : Obj) (existing : Run) : Bool :=
  existing.definitionID == pub.definitionID && existing.revision == pub.revision &&
    host.sameJSON existing.input input

/-- The first attempts of the nodes. -/
def appendInitial (runID : String) : List String → EProg (Option StoreError)
  | [] => pure none
  | nodeID :: rest => do
    match ← appendNode .initial
        { runID, nodeID, state := .pending, appendOperationID := "initial" } with
    | .error err => pure (some err)
    | .ok _ => appendInitial runID rest

/-- `store.GetRun`, as the answer of a call. -/
def answerRun (runID : String) : EProg (Except EngineError Run) := do
  match ← getRun runID with
  | .error err => pure (.error (.store err))
  | .ok run => pure (.ok run)

/-- `CreateRun` from the random id on. -/
def insertRun (pub : PublishedDefinition) (principal : Identity) (input : Obj) (key : String) :
    EProg (Except EngineError Run) := do
  match ← randomID with
  | none => pure (.error .noRunID)
  | some id =>
    let run : Run :=
      { id := "run_" ++ id
        definitionID := pub.definitionID
        revision := pub.revision
        definition := pub.definition
        state := .created
        idempotencyKey := key
        principal := principal.subject
        principalRoles := principal.roles
        input }
    match ← storeRun run with
    | .error err =>
      if err = .idempotencyConflict ∧ key ≠ "" then
        match ← getRunByIdempotency key with
        | .error _ => pure (.error (.store err))
        | .ok existing =>
          if sameRequest host pub input existing then
            match ← waitForInitializedRun existing with
            | some err => pure (.error err)
            | none => answerRun existing.id
          else pure (.error (.store err))
      else pure (.error (.store err))
    | .ok _ =>
      match ← appendInitial run.id (topologicalOrder pub.definition) with
      | some err => pure (.error (.store err))
      | none => answerRun run.id

def createRun (pub : PublishedDefinition) (principal : Identity) (input : Obj) (key : String) :
    EProg (Except EngineError Run) :=
  match admissionError host reg pub.definition input with
  | some err => pure (.error err)
  | none =>
    if key = "" then insertRun host pub principal input key
    else do
      match ← getRunByIdempotency key with
      | .ok existing =>
        if sameRequest host pub input existing then
          match ← waitForInitializedRun existing with
          | some err => pure (.error err)
          | none => pure (.ok existing)
        else pure (.error (.store .idempotencyConflict))
      | .error .notFound => insertRun host pub principal input key
      | .error err => pure (.error (.store err))

/-! ### The state of a run -/

/-- A transition of a run, with the error if it fails. -/
def moveRun (runID : String) (state : RunState) (errorCode error : String) :
    EProg (Option StoreError) := do
  match ← updateRunState runID .unset state errorCode error with
  | .error err => pure (some err)
  | .ok _ => pure none

/-- The last part of `recomputeRunState`. -/
def applyVerdict (runID : String) : Verdict → EProg (Option StoreError)
  | .parked =>
    moveRun runID .needsManualAction "needs_manual_action"
      "run parked: an ambiguous node outcome needs operator recovery"
  | .failed code msg => moveRun runID .failed code msg
  | .waiting => moveRun runID .waitingForApproval "" ""
  | .succeeded => moveRun runID .succeeded "" ""
  | .unsettled => pure none

def recomputeRunState (runID : String) : EProg (Option StoreError) := do
  match ← getRun runID with
  | .error err => pure (some err)
  | .ok run =>
    if run.state.terminal then pure none
    else match ← getNodes .recompute runID with
      | .error err => pure (some err)
      | .ok nodes => do
        let rows ← range (currentAttempts nodes).rows
        applyVerdict runID (verdictOf run.definition (currentAttempts nodes) rows)

def expiredRow (cur : NodeExecution) : NodeExecution :=
  { cur with
    state := .failed, errorCode := "approval_expired", error := "approval deadline expired" }

/-- The approval deadline of a waiting row has passed. -/
def approvalExpired (cur : NodeExecution) (now : Time) : Bool :=
  cur.state == .waiting && cur.deadline != zeroTime && decide (cur.deadline < now)

/-- Errors of a save that mean somebody else was there first. -/
def overtaken (err : StoreError) : Bool := err == .stateConflict || err == .terminalState

/-- The loop of `expireApprovals`; the answer is whether a row changed. -/
def expireRows (now : Time) : Bool → List NodeExecution → EProg (Except StoreError Bool)
  | changed, [] => pure (.ok changed)
  | changed, cur :: rows => do
    if approvalExpired cur now then
      match ← saveNode .expire (expiredRow cur) .waiting with
      | .error err => if overtaken err then expireRows now changed rows else pure (.error err)
      | .ok _ => expireRows now true rows
    else expireRows now changed rows

def expireApprovals (e : Engine) (run : Run) : EProg (Option StoreError) :=
  if e.approvalTimeout ≤ 0 then pure none
  else do
    match ← getNodes .expire run.id with
    | .error err => pure (some err)
    | .ok nodes =>
      let now ← readClock
      let rows ← range (currentAttempts nodes).rows
      match ← expireRows now false rows with
      | .error err => pure (some err)
      | .ok changed => if changed then recomputeRunState run.id else pure none

def finishRun (run : Run) : EProg Returned := do
  if ← ask .cancelled then
    match ← updateRunState run.id .unset .cancelled "cancelled" "run cancelled" with
    | .error err =>
      if overtaken err then
        match ← getRun run.id with
        | .error err => pure { err := some (.store err) }
        | .ok final => pure { run := some final }
      else pure { run := some run, err := some (.store err) }
    | .ok _ =>
      match ← getRun run.id with
      | .error err => pure { err := some (.store err) }
      | .ok final => pure { run := some final }
  else
    match ← recomputeRunState run.id with
    | some err => pure { run := some run, err := some (.store err) }
    | none =>
      match ← getRun run.id with
      | .error err => pure { run := some run, err := some (.store err) }
      | .ok final => do
        audit (.runFinished run.id final.state final.errorCode)
        pure { run := some final }

/-! ### Recording outcomes -/

/-- The row that could not be saved, parked. -/
def parkedRow (exec : NodeExecution) : NodeExecution :=
  { exec with
    state := .needsManualAction
    ambiguous := true
    errorCode := "result_not_persisted"
    error := "node outcome could not be persisted; the execution result is unknown to the store" }

def parkPersistFailure (i : ℕ) (run : Run) (exec : NodeExecution) : EProg Unit := do
  let _ ← saveNode (.park i) (parkedRow exec) .unset
  audit (.parked run.id exec.nodeID exec.attempt "result_not_persisted")

/-- The closure `finish` of `recordOutcome`. -/
def finishNode (i : ℕ) (job : Job) (exec next : NodeExecution) (current : Current)
    (outputs : Outputs) : EProg (Current × Outputs) := do
  match ← saveNode (.outcome i) next exec.state with
  | .error _ => do
    parkPersistFailure i job.run exec
    pure (current, outputs)
  | .ok saved => do
    audit (.nodeFinished job.run.id job.node.id saved.attempt saved.state saved.errorCode)
    pure (current.set job.node.id saved,
      if saved.state = .succeeded then
        (job.node.id, saved.output) :: outputs.filter (·.1 != job.node.id)
      else outputs)

/-- The id of the append after a failed attempt. -/
def retryOperation (attempt : ℤ) : String := "retry:" ++ itoa attempt

/-- The refreshed entry of `current`. -/
def refreshed (current : Current) (job : Job) (rows : List NodeExecution) : Current :=
  rows.foldl (fun current c =>
    if c.nodeID = job.node.id ∧ c.attempt = job.exec.attempt then current.set job.node.id c
    else current) current

/-- The first part of `recordOutcome`: the pool wrote the row already. -/
def refreshCurrent (i : ℕ) (job : Job) (current : Current) : EProg Current := do
  match ← getNodes (.refresh i) job.run.id with
  | .error _ => pure current
  | .ok rows => pure (refreshed current job rows)

/-- The cases of `recordOutcome`. -/
def recordAs (e : Engine) (i : ℕ) (job : Job) (exec : NodeExecution) (current : Current)
    (outputs : Outputs) : Outcome → EProg (Current × Outputs)
  | .finish next => finishNode i job exec next current outputs
  | .wait next =>
    if 0 < e.approvalTimeout then do
      let now ← readClock
      finishNode i job exec { next with deadline := now + e.approvalTimeout } current outputs
    else finishNode i job exec next current outputs
  | .retry next => do
    let further : NodeExecution :=
      { runID := job.run.id, nodeID := job.node.id, state := .pending
        appendOperationID := retryOperation exec.attempt }
    match ← appendNode (.retry i) further with
    | .error _ => do
      parkPersistFailure i job.run exec
      pure (current, outputs)
    | .ok appended =>
      match ← saveNode (.retry i) next exec.state with
      | .error _ => do
        parkPersistFailure i job.run exec
        pure (current, outputs)
      | .ok _ => pure (current.set job.node.id appended, outputs)
  | .ambiguous next => do
    let out ← finishNode i job exec next current outputs
    audit (.parked job.run.id job.node.id exec.attempt "ambiguous_timeout")
    pure out

def recordOutcome (e : Engine) (i : ℕ) (job : Job) (res : JobResult) (current : Current)
    (outputs : Outputs) : EProg (Current × Outputs) := do
  let current ← refreshCurrent i job current
  let exec := current.row job.node.id
  recordAs e i job exec current outputs (outcomeOf host job.spec exec res)

/-- The last loop of `runJobs`. -/
def recordOutcomes (e : Engine) : ℕ → List (Job × JobResult) → Current → Outputs → EProg Unit
  | _, [], _, _ => pure ()
  | i, (job, res) :: rest, current, outputs => do
    let (current, outputs) ← recordOutcome host e i job res current outputs
    recordOutcomes e (i + 1) rest current outputs

def runJobs (e : Engine) (jobs : List Job) (current : Current) (outputs : Outputs) :
    EProg Unit := do
  let results ← Prog.fork jobs
  recordOutcomes host e 0 (jobs.zip results) current outputs

/-! ### Workers -/

def dispatchedRow (exec : NodeExecution) : NodeExecution :=
  { exec with state := .running, dispatched := true }

def execute (inv : Invocation) : ECode (Except NodeError Obj) :=
  match preCheck host inv with
  | some err => pure (.error err)
  | none => do
    let answer ← (workerRequest (.invoke inv) : ECode RunAnswer)
    pure (conclude host inv.spec answer)

/-- A worker of `runJobs`, with what executes the node. -/
def Job.work (execute : Invocation → ECode (Except NodeError Obj)) (job : Job) :
    ECode JobResult := do
  let _ ← (workerRequest (.audit (.nodeStarted job.run.id job.node.id job.exec.attempt)) : ECode Unit)
  match ← (workerRequest (.save .dispatch (dispatchedRow job.exec) .claimed) :
      ECode (Except StoreError NodeExecution)) with
  | .error err => pure (.error (.store err))
  | .ok _ => do
    let appr ← (workerRequest (.getApproval job.run.id job.node.id) :
      ECode (Except StoreError Approval))
    let policyApproved := match appr with
      | .ok appr => appr.decision == "approved"
      | .error _ => false
    match ← execute (job.invocation policyApproved) with
    | .error err => pure (.error (.node err))
    | .ok out => pure (.ok out)

/-! ### Sweeps -/

/-- What a decision puts into the input of a node. -/
def resumeInput (decision approver requester : String) : Obj :=
  [("decision", .str decision), ("approver", .str approver), ("requester", .str requester)]

/-- A waiting row that is queued again with a decision. -/
def resumedRow (cur : NodeExecution) (decision approver requester : String) : NodeExecution :=
  { cur with
    state := .pending
    resumeInput := resumeInput decision approver requester
    deadline := zeroTime }

/-- The first loop of `sweep`: decided nodes are queued again. -/
def requeueDecided (run : Run) : List NodeExecution → Current → EProg (Except StoreError Current)
  | [], current => pure (.ok current)
  | cur :: rows, current => do
    if cur.state = .waiting then
      match ← getApproval run.id cur.nodeID with
      | .error .noApprovalRecord => requeueDecided run rows current
      | .error err => pure (.error err)
      | .ok appr =>
        let next := resumedRow cur appr.decision appr.approver appr.requester
        match ← saveNode .requeue next .waiting with
        | .error err => if overtaken err then requeueDecided run rows current else pure (.error err)
        | .ok _ => requeueDecided run rows (current.set cur.nodeID next)
    else requeueDecided run rows current

/-- What the second loop of `sweep` has done so far. -/
structure Plan where
  current : Current
  jobs : List Job := []
  progress : Bool := false

/-- A claimed row that fails without being dispatched. -/
def undispatchedRow (claimed : NodeExecution) (code msg : String) : NodeExecution :=
  { claimed with state := .failed, errorCode := code, error := msg }

/-- A claimed node that cannot be dispatched. -/
def failUndispatched (plan : Plan) (nodeID : String) (claimed : NodeExecution) (code msg : String) :
    EProg (Except StoreError Plan) := do
  let next := undispatchedRow claimed code msg
  match ← saveNode .undispatched next .claimed with
  | .error err => pure (.error err)
  | .ok _ => pure (.ok { plan with current := plan.current.set nodeID next, progress := true })

/-- The second loop of `sweep` for one node. -/
def planNode (e : Engine) (run : Run) (outputs : Outputs) (plan : Plan) (nodeID : String) :
    EProg (Except StoreError Plan) :=
  let cur := plan.current.row nodeID
  if cur.state.terminal ∨ cur.state = .waiting ∨ cur.state = .claimed ∨ cur.state = .running then
    pure (.ok plan)
  else match nodeReadiness run.definition nodeID plan.current outputs with
    | .blocked => pure (.ok plan)
    | .skip => do
      let next := { cur with state := .skipped }
      match ← saveNode .skip next .pending with
      | .error err => if overtaken err then pure (.ok plan) else pure (.error err)
      | .ok _ => pure (.ok { plan with current := plan.current.set nodeID next, progress := true })
    | .ready => do
      let now ← readClock
      match ← tryClaim run.id nodeID e.workerID e.leaseTTL now with
      | .error err => pure (.error err)
      | .ok none => pure (.ok plan)
      | .ok (some claimed) =>
        let node := nodeDefByID run.definition nodeID
        match reg.lookup host node.nodeID node.version with
        | .error err => failUndispatched plan nodeID claimed "node_not_found" (err.text host)
        | .ok spec => match nodeInput run node spec outputs cur with
          | .error err => failUndispatched plan nodeID claimed "input_resolution" (err.message host)
          | .ok input =>
            pure (.ok { plan with jobs := plan.jobs ++ [{ run, node, spec, exec := claimed, input }] })

/-- The second loop of `sweep`. -/
def planNodes (e : Engine) (run : Run) (outputs : Outputs) :
    Plan → List String → EProg (Except StoreError Plan)
  | plan, [] => pure (.ok plan)
  | plan, nodeID :: rest => do
    match ← planNode host reg e run outputs plan nodeID with
    | .error err => pure (.error err)
    | .ok plan => planNodes e run outputs plan rest

/-- `sweep`; the answer is whether a node changed. -/
def sweep (e : Engine) (run : Run) : EProg (Except StoreError Bool) := do
  match ← getNodes .sweep run.id with
  | .error err => pure (.error err)
  | .ok nodes =>
    let current := currentAttempts nodes
    let outputs := outputsOf current
    let rows ← range current.rows
    match ← requeueDecided run rows current with
    | .error err => pure (.error err)
    | .ok current =>
      match ← planNodes host reg e run outputs { current } (topologicalOrder run.definition) with
      | .error err => pure (.error err)
      | .ok plan =>
        if plan.jobs.isEmpty then pure (.ok plan.progress)
        else do
          runJobs host e plan.jobs plan.current outputs
          pure (.ok true)

/-! ### Execute -/

/-- The loop of `Execute`, one pass. -/
def sweepLoop (e : Engine) (run : Run) : EProg Turn := do
  match ← sweep host reg e run with
  | .error err =>
    if ← ask .cancelled then
      let r ← finishRun run
      pure (.inl r)
    else pure (.inl { run := some run, err := some (.store err) })
  | .ok progress =>
    match ← getRun run.id with
    | .error err => pure (.inl { err := some (.store err) })
    | .ok run' =>
      if run'.state.terminal then pure (.inl { run := some run' })
      else if !progress then
        let r ← finishRun run'
        pure (.inl r)
      else if ← ask .cancelled then
        let r ← finishRun run'
        pure (.inl r)
      else pure (.inr (.sweepLoop e run'))

/-- `Execute` from the state of the run to the loop. -/
def enterLoop (e : Engine) (run : Run) : EProg Turn := do
  let enter (expected : RunState) : EProg Turn := do
    match ← updateRunState run.id expected .running "" "" with
    | .error err => pure (.inl { err := some (.store err) })
    | .ok run => pure (.inr (.sweepLoop e run))
  match run.state with
  | .created => enter .created
  | .waitingForApproval => enter .waitingForApproval
  | _ => pure (.inr (.sweepLoop e run))

/-- `Execute` up to its loop. -/
def executeRun (e : Engine) (runID : String) : EProg Turn := do
  match ← getRun runID with
  | .error err => pure (.inl { err := some (.store err) })
  | .ok run =>
    if run.state.terminal then pure (.inl { run := some run })
    else if run.state = .needsManualAction then
      pure (.inl { run := some run, err := some .parked })
    else match ← requireInitializedRun run with
      | some err => pure (.inl { run := some run, err := some err })
      | none =>
        if ← ask .inFlight then pure (.inl { run := some run, err := some .inFlight })
        else if ← ask .busy then pure (.inl { run := some run, err := some .definitionBusy })
        else match ← expireApprovals e run with
          | some err => pure (.inl { run := some run, err := some (.store err) })
          | none =>
            match ← getRun runID with
            | .error err => pure (.inl { err := some (.store err) })
            | .ok run =>
              if run.state.terminal then pure (.inl { run := some run }) else enterLoop e run

/-! ### Operators -/

/-- A row whose policy gate was rejected. -/
def rejectedRow (cur : NodeExecution) : NodeExecution :=
  { cur with
    state := .failed
    errorCode := "approval_rejected"
    error := "operator policy approval rejected" }

/-- The node runs only with the approval of an operator. -/
def policyGated (d : Definition) (nodeID : String) : Bool :=
  let node := nodeDefByID d nodeID
  match reg.lookup host node.nodeID node.version with
  | .ok spec => spec.requiresOperatorPolicy
  | .error _ => false

/-- `DecideApproval` after the decision is recorded. -/
def applyDecision (run : Run) (nodeID : String) (cur : NodeExecution) (approver decision : String)
    (appr : Approval) : EProg (Except EngineError Approval) :=
  if decision = "rejected" ∧ policyGated host reg run.definition nodeID then do
    match ← saveNode .reject (rejectedRow cur) .waiting with
    | .error err => pure (.error (.store err))
    | .ok _ => do
      let _ ← recomputeRunState run.id
      pure (.ok appr)
  else do
    match ← saveNode .resume (resumedRow cur decision approver run.principal) .waiting with
    | .error err => pure (.error (.store err))
    | .ok _ =>
      if run.state = .waitingForApproval then do
        let _ ← updateRunState run.id .waitingForApproval .running "" ""
        pure (.ok appr)
      else pure (.ok appr)

def decideApproval (runID nodeID approver decision : String) : EProg (Except EngineError Approval) :=
  if decision ≠ "approved" ∧ decision ≠ "rejected" then pure (.error (.store .badDecision))
  else if approver = "" then pure (.error .approverRequired)
  else do
    match ← getRun runID with
    | .error err => pure (.error (.store err))
    | .ok run =>
      if run.principal ≠ "" ∧ approver = run.principal then pure (.error (.store .selfApproval))
      else match ← getNodes .decide runID with
        | .error err => pure (.error (.store err))
        | .ok nodes =>
          let cur := (currentAttempts nodes).row nodeID
          if cur.state ≠ .waiting then pure (.error .notWaiting)
          else do
            let record : Approval :=
              { runID, nodeID, requester := run.principal, approver, decision }
            match ← recordApproval record with
            | .error err => pure (.error (.store err))
            | .ok appr => applyDecision host reg run nodeID cur approver decision appr

/-- A row that `CancelRun` cancels. -/
def cancelledRow (cur : NodeExecution) : NodeExecution :=
  { cur with state := .cancelled, errorCode := "cancelled", error := "run cancelled" }

/-- The loop of `CancelRun`. -/
def cancelRows : List NodeExecution → EProg Unit
  | [] => pure ()
  | cur :: rows =>
    if cur.state.terminal then cancelRows rows
    else do
      let _ ← saveNode .cancel (cancelledRow cur) .unset
      cancelRows rows

/-- `CancelRun`. The context that it cancels is one of those whose cancellation the surroundings
decide. -/
def cancelRun (runID : String) : EProg (Except EngineError Run) := do
  match ← getRun runID with
  | .error err => pure (.error (.store err))
  | .ok run =>
    if run.state.terminal then pure (.ok run)
    else match ← getNodes .cancel runID with
      | .error err => pure (.error (.store err))
      | .ok nodes =>
        let rows ← range (currentAttempts nodes).rows
        cancelRows rows
        match ← updateRunState runID .unset .cancelled "cancelled" "run cancelled" with
        | .error err => if overtaken err then answerRun runID else pure (.error (.store err))
        | .ok updated => pure (.ok updated)

def forceFailRun (runID errorCode error : String) : EProg (Except EngineError Run) := do
  let code := if errorCode = "" then "operator_force_failed" else errorCode
  match ← updateRunState runID .unset .failed code error with
  | .error err => pure (.error (.store err))
  | .ok updated => pure (.ok updated)

/-! ### Recover -/

/-- The lease of a row is still alive. -/
def liveLease (cur : NodeExecution) (now : Time) : Bool :=
  cur.leaseOwner != "" && cur.leaseUntil != zeroTime && decide (now < cur.leaseUntil)

/-- An interrupted row that is queued again. A row that was dispatched is not any more. -/
def requeuedRow (cur : NodeExecution) : NodeExecution :=
  { cur with state := .pending, dispatched := false, leaseOwner := "", leaseUntil := zeroTime }

/-- An interrupted row whose outcome nobody knows. -/
def ambiguousRow (cur : NodeExecution) : NodeExecution :=
  { cur with
    state := .needsManualAction
    ambiguous := true
    errorCode := "ambiguous_recovery"
    error := "run interrupted after dispatch; the external outcome is unknown"
    leaseOwner := ""
    leaseUntil := zeroTime }

/-- An interrupted row may run again: it never started, or its node does nothing to the world. -/
def rerunnable (d : Definition) (cur : NodeExecution) : Bool :=
  let node := nodeDefByID d cur.nodeID
  !cur.dispatched || match reg.lookup host node.nodeID node.version with
    | .ok spec => !spec.sideEffect.effectful
    | .error _ => false

/-- The loop of `Recover` over the rows of a run: whether a row changed, and whether a lease is
alive. -/
def recoverRows (e : Engine) (run : Run) (now : Time) :
    Bool → Bool → List NodeExecution → EProg (Bool × Bool)
  | changed, live, [] => pure (changed, live)
  | changed, live, cur :: rows => do
    match cur.state with
    | .waiting =>
      if 0 < e.approvalTimeout ∧ approvalExpired cur now then
        match ← saveNode .recoverExpired (expiredRow cur) .waiting with
        | .error _ => recoverRows e run now changed live rows
        | .ok _ => recoverRows e run now true live rows
      else recoverRows e run now changed live rows
    | .claimed | .running =>
      if liveLease cur now then recoverRows e run now changed true rows
      else if rerunnable host reg run.definition cur then
        match ← saveNode .recoverQueued (requeuedRow cur) cur.state with
        | .error _ => recoverRows e run now changed live rows
        | .ok _ => recoverRows e run now true live rows
      else
        match ← saveNode .recoverParked (ambiguousRow cur) cur.state with
        | .error _ => recoverRows e run now changed live rows
        | .ok _ => do
          audit (.recovered run.id cur.nodeID cur.attempt "ambiguous_recovery")
          recoverRows e run now true live rows
    | _ => recoverRows e run now changed live rows

/-- The loop of `Recover` over the runs. -/
def recoverRuns (e : Engine) (now : Time) : List Run → EProg (Option StoreError)
  | [] => pure none
  | run :: runs => do
    if run.state.terminal ∨ run.state = .needsManualAction ∨ run.state = .created then
      recoverRuns e now runs
    else match ← getNodes .recover run.id with
      | .error err => pure (some err)
      | .ok nodes =>
        let rows ← range (currentAttempts nodes).rows
        let (changed, live) ← recoverRows host reg e run now false false rows
        if changed && !live then do
          let _ ← recomputeRunState run.id
          recoverRuns e now runs
        else recoverRuns e now runs

def recover (e : Engine) : EProg (Option StoreError) := do
  let runs ← listRuns
  let now ← readClock
  recoverRuns host reg e now runs

/-! ### Engines over one store -/

/-- What an engine does for a call; only the loop of `Execute` goes on with another one. -/
def EngineCall.prog : EngineCall → EProg (Option EngineCall)
  | .createRun pub principal input key => do
    let _ ← Nexaflow.createRun host reg pub principal input key
    pure none
  | .execute e runID => do
    match ← executeRun e runID with
    | .inl _ => pure none
    | .inr call => pure (some call)
  | .sweepLoop e run => do
    match ← Nexaflow.sweepLoop host reg e run with
    | .inl _ => pure none
    | .inr call => pure (some call)
  | .decideApproval runID nodeID approver decision => do
    let _ ← Nexaflow.decideApproval host reg runID nodeID approver decision
    pure none
  | .cancelRun runID => do
    let _ ← Nexaflow.cancelRun runID
    pure none
  | .forceFailRun runID errorCode error => do
    let _ ← Nexaflow.forceFailRun runID errorCode error
    pure none
  | .recover e => do
    let _ ← Nexaflow.recover host reg e
    pure none

/-- The calls that come from outside. -/
def EngineCall.entry : EngineCall → Bool
  | .sweepLoop .. => false
  | _ => true

/-- Any number of engines over one store. -/
def engineSystem (kind : StoreKind) : System StoreState Env Op Res Job JobResult EngineCall where
  exec := Op.exec kind
  body := Job.work (Nexaflow.execute host)
  prog := EngineCall.prog host reg
  entry := EngineCall.entry

end Programs

end NexaRoute.Nexaflow
