import NexaRoute.Nexaflow.Store
import NexaRoute.Nexaflow.Validate

/-!
# What the engine computes

The parts of the engine that call nothing: which attempt of a node counts, whether a node may run,
what it is given, what `Registry.Execute` checks before it runs a node and makes of its answer, what
an outcome does to the row, and what the rows of a run say about the run. The calls around them are
in `NexaRoute.Nexaflow.Engine`.

The maps `current` and `outputs` of the engine are lists of their entries.

## Main definitions

* `preCheck`, `conclude`, `outcomeOf` — around one call of `Run`
-/

namespace NexaRoute.Nexaflow

/-- `current`: the row that counts, by node. -/
abbrev Current := List (String × NodeExecution)

/-- The record of a missing entry of `current`. -/
def zeroExecution : NodeExecution := { runID := "", nodeID := "" }

/-- `current[nodeID]`. -/
def Current.row (current : Current) (nodeID : String) : NodeExecution :=
  (current.lookup nodeID).getD zeroExecution

/-- `current[nodeID] = row`. -/
def Current.set (current : Current) (nodeID : String) (row : NodeExecution) : Current :=
  (nodeID, row) :: current.filter (·.1 != nodeID)

def Current.rows (current : Current) : List NodeExecution := current.map Prod.snd

/-- One row of the loop of `currentAttempts`. -/
def addAttempt (out : Current) (ex : NodeExecution) : Current :=
  match out.lookup ex.nodeID with
  | none => out.set ex.nodeID ex
  | some cur => if cur.attempt < ex.attempt then out.set ex.nodeID ex else out

/-- `currentAttempts`: the highest attempt of each node. -/
def currentAttempts (all : List NodeExecution) : Current := all.foldl addAttempt []

/-- The outputs of the nodes that succeeded. -/
def outputsOf (current : Current) : Outputs :=
  (current.filter (·.2.state == .succeeded)).map fun p => (p.1, p.2.output)

/-! ### Readiness -/

/-- The answers of `nodeReadiness`. -/
inductive Readiness
  | ready
  | skip
  | blocked
  deriving DecidableEq, Repr

/-- The loop over the incoming edges. -/
def joinEdges (current : Current) (outputs : Outputs) : Bool → List DefinitionEdge → Readiness
  | skipVote, [] => if skipVote then .skip else .ready
  | skipVote, edge :: edges => match current.lookup edge.source with
    | none => .blocked
    | some src =>
      if !edgeFired edge outputs then
        if src.state.terminal then joinEdges current outputs true edges else .blocked
      else match src.state with
        | .succeeded => joinEdges current outputs skipVote edges
        | .failed | .cancelled | .skipped | .needsManualAction => joinEdges current outputs true edges
        | _ => .blocked

/-- `nodeReadiness`. A node without incoming edges is a trigger. -/
def nodeReadiness (d : Definition) (nodeID : String) (current : Current) (outputs : Outputs) :
    Readiness :=
  joinEdges current outputs false (incomingEdges d nodeID)

/-! ### The input of a node -/

def triggerConfig (d : Definition) (node : DefinitionNode) (spec : NodeSpec) : Obj :=
  if spec.isTrigger then match d.triggers.find? (·.name == node.id) with
    | some tr => tr.config
    | none => node.config
  else node.config

def overlayResumeInput (dst : Obj) (spec : NodeSpec) (resume : Obj) : Obj :=
  resume.foldl (fun m p => if spec.inputSchema.any (·.name == p.1) then m.set p.1 p.2 else m) dst

def mappedNodeInput (run : Run) (node : DefinitionNode) (mapping : Obj) (outputs : Outputs) :
    Except MappingError Obj :=
  let ctx : Obj := outputs.foldl (fun ctx p => ctx.set p.1 (.obj p.2)) [("input", .obj run.input)]
  match resolveMappingValue ctx (.obj mapping) with
  | .error err => .error err
  | .ok (.obj members) => .ok members
  | .ok _ => .error (.notObject node.id)

/-- The merge of the outputs that fired edges carry to a node. -/
def mergedInput (d : Definition) (nodeID : String) (outputs : Outputs) : Obj :=
  (incomingEdges d nodeID).foldl (fun merged edge =>
    if edgeFired edge outputs then
      ((outputs.lookup edge.source).getD []).foldl (fun m p => m.set p.1 p.2) merged
    else merged) []

def nodeInput (run : Run) (node : DefinitionNode) (spec : NodeSpec) (outputs : Outputs)
    (cur : NodeExecution) : Except MappingError Obj :=
  let overlay (dst : Obj) := overlayResumeInput dst spec cur.resumeInput
  if spec.isTrigger then .ok (overlay run.input)
  else match node.input with
    | some mapping => (mappedNodeInput run node mapping outputs).map overlay
    | none =>
      if spec.id = approvalNodeID then .ok (overlay [])
      else .ok (overlay (mergedInput run.definition node.id outputs))

/-! ### Running a node -/

/-- `engineJob`, with the run it belongs to. -/
structure Job where
  run : Run
  node : DefinitionNode
  spec : NodeSpec
  exec : NodeExecution
  input : Obj

/-- `context.Canceled` and `context.DeadlineExceeded`. -/
inductive CtxError
  | canceled
  | deadlineExceeded
  deriving DecidableEq, Repr

/-- What a node's `Run` fails with. -/
inductive RunError
  | canceled
  | deadlineExceeded
  | node (err : NodeError)
  | other (text : String)
  deriving DecidableEq, Repr

/-- What a node's `Run` returns, and the error of its context then. -/
structure RunAnswer where
  out : Except RunError Obj
  ctxErr : Option CtxError := none

/-- One call of a node's `Run`, with the row it is made for. -/
structure Invocation where
  runID : String
  nodeID : String
  attempt : ℤ
  spec : NodeSpec
  principal : Identity
  input : Obj
  config : Obj
  policyApproved : Bool

def Invocation.key (inv : Invocation) : String × String × ℤ := (inv.runID, inv.nodeID, inv.attempt)

/-- The call that a job leads to. -/
def Job.invocation (job : Job) (policyApproved : Bool) : Invocation where
  runID := job.exec.runID
  nodeID := job.exec.nodeID
  attempt := job.exec.attempt
  spec := job.spec
  principal := { subject := job.run.principal, roles := job.run.principalRoles }
  input := job.input
  config := triggerConfig job.run.definition job.node job.spec
  policyApproved

def maxConfigBytes : ℕ := 262144

section Registry

variable (host : Host)

/-- `Registry.Execute` up to the call of `Run`. -/
def preCheck (inv : Invocation) : Option NodeError :=
  let spec := inv.spec
  firstError [
    if inv.principal.authenticated then none
    else some (newNodeError host "permission_denied" false
      ("anonymous principal cannot execute node " ++ host.quote spec.id)),
    if spec.permission = .unset ∨ inv.principal.authorize spec.permission then none
    else some (newNodeError host "permission_denied" false
      ("principal " ++ host.quote inv.principal.subject ++ " lacks permission " ++
        host.quote spec.permission.text ++ " for node " ++ host.quote spec.id)),
    if spec.requiresOperatorPolicy ∧ !inv.policyApproved then
      some (newNodeError host "policy_required" false
        ("node " ++ host.quote spec.id ++ " requires explicit operator policy approval"))
    else none,
    validateConfig host spec inv.config,
    if maxConfigBytes < host.jsonLen (.obj inv.config) then
      some (newNodeError host "config_too_large" false
        ("config exceeds " ++ toString maxConfigBytes ++ " bytes"))
    else none,
    validateAgainstSchema host inv.input spec.inputSchema "input",
    if spec.maxInputBytes < host.jsonLen (.obj inv.input) then
      some (newNodeError host "input_too_large" false
        ("input exceeds " ++ toString spec.maxInputBytes ++ " bytes"))
    else none]

def asNodeError : RunError → NodeError
  | .node err => { err with message := host.redactError err.message }
  | .other text => { code := "backend_error", message := host.redactError text }
  | .canceled => { code := "backend_error", message := host.redactError "context canceled" }
  | .deadlineExceeded =>
    { code := "backend_error", message := host.redactError "context deadline exceeded" }

/-- `Registry.Execute` after the call of `Run`. -/
def conclude (spec : NodeSpec) (answer : RunAnswer) : Except NodeError Obj :=
  let cancelled := newNodeError host "cancelled" false
    ("node " ++ host.quote spec.id ++ " execution cancelled")
  match answer.out with
  | .error err =>
    if answer.ctxErr = some .canceled ∨ err = .canceled then .error cancelled
    else if answer.ctxErr = some .deadlineExceeded ∨ err = .deadlineExceeded then
      let retryable := decide (1 < spec.retry.maxAttempts) &&
        spec.retry.retryableCodes.contains "timeout"
      .error (newNodeError host "timeout" retryable
        ("node " ++ host.quote spec.id ++ " timed out after " ++ host.duration spec.defaultTimeout))
    else .error (asNodeError host err)
  | .ok out =>
    if answer.ctxErr ≠ none then .error cancelled
    else
      let outMap := host.redactJSON out
      if spec.maxOutputBytes < host.jsonLen (.obj outMap) then
        .error (newNodeError host "output_too_large" false
          ("output exceeds " ++ toString spec.maxOutputBytes ++ " bytes"))
      else .ok outMap

end Registry

/-! ### Outcomes -/

/-- What a worker fails with: the store refused the dispatch, or the node failed. -/
inductive ExecError
  | store (err : StoreError)
  | node (err : NodeError)
  deriving DecidableEq, Repr

section Outcomes

variable (host : Host)

/-- `err.Error()`. -/
def ExecError.text : ExecError → String
  | .store err => err.message
  | .node err => err.text host

/-- The code that `recordOutcome` goes by. -/
def ExecError.code : ExecError → String
  | .store _ => "internal_error"
  | .node err => err.code

def ExecError.retryable : ExecError → Bool
  | .store _ => false
  | .node err => err.retryable

/-- What a worker returns. -/
abbrev JobResult := Except ExecError Obj

def maxStoredOutputBytes : ℕ := 65536

/-- The loop of `sanitizeNodeOutput`: keys are kept until the next one is too much. -/
def keepKeys (cleaned : Obj) : List String → Obj → Obj
  | [], kept => kept
  | k :: ks, kept =>
    let kept' := kept.set k ((cleaned.get? k).getD .null)
    if maxStoredOutputBytes < host.jsonLen (.obj kept') then kept else keepKeys cleaned ks kept'

def sanitizeNodeOutput (out : Obj) : Obj × Bool :=
  let cleaned := host.redactJSON out
  if host.jsonLen (.obj cleaned) ≤ maxStoredOutputBytes then (cleaned, false)
  else
    let kept := keepKeys host cleaned ((cleaned.map Prod.fst).insertionSort (· ≤ ·)) []
    (kept.set "_truncated" (.bool true), true)

/-- The cases of `recordOutcome`, with the row they save. -/
inductive Outcome
  | finish (next : NodeExecution)
  | wait (next : NodeExecution)
  | retry (next : NodeExecution)
  | ambiguous (next : NodeExecution)

/-- The row an outcome saves. -/
def Outcome.next : Outcome → NodeExecution
  | .finish next | .wait next | .retry next | .ambiguous next => next

/-- `loop_plan` answered that it dropped items. -/
def loopTruncated (spec : NodeSpec) (out : Obj) : Bool :=
  spec.id == "nexaroute.control.loop_plan" && out.getBool "truncated"

/-- The codes that put a node to wait for a decision. -/
def waitingCode (code : String) : Bool := code == "approval_required" || code == "policy_required"

/-- `recordOutcome` appends a further attempt. -/
def retries (spec : NodeSpec) (attempt : ℤ) (err : ExecError) : Bool :=
  err.retryable && spec.retry.retryableCodes.contains err.code &&
    decide (attempt + 1 < spec.retry.maxAttempts)

/-- What `recordOutcome` decides for the refreshed row `exec`. -/
def outcomeOf (spec : NodeSpec) (exec : NodeExecution) : JobResult → Outcome
  | .ok out =>
    if loopTruncated spec out then
      .finish { exec with
        state := .failed
        errorCode := "loop_truncated"
        error := "loop_plan dropped tail items; iteration would be partial" }
    else
      .finish { exec with
        state := .succeeded
        output := (sanitizeNodeOutput host out).1
        outputTruncated := (sanitizeNodeOutput host out).2
        errorCode := ""
        error := "" }
  | .error err =>
    let failed : NodeExecution :=
      { exec with state := .failed, errorCode := err.code, error := err.text host }
    if err.code = "cancelled" then .finish { failed with state := .cancelled }
    else if waitingCode err.code then .wait { failed with state := .waiting }
    else if retries spec exec.attempt err then .retry failed
    else if err.code = "timeout" ∧ spec.sideEffect.effectful then
      .ambiguous { exec with
        state := .needsManualAction
        ambiguous := true
        errorCode := "ambiguous_timeout"
        error := "node timed out; the external outcome is unknown and the node must not be " ++
          "auto-retried" }
    else .finish failed

end Outcomes

/-! ### The state of a run -/

/-- What the loop of `recomputeRunState` collects. -/
structure Tally where
  anyParked : Bool := false
  anyFailed : Bool := false
  anyWaiting : Bool := false
  hasRunnable : Bool := false
  allTerminal : Bool := true
  firstFailed : Option NodeExecution := none

/-- One row of the loop. -/
def Tally.add (d : Definition) (current : Current) (t : Tally) (cur : NodeExecution) : Tally :=
  let t := { t with allTerminal := t.allTerminal && cur.state.terminal }
  match cur.state with
  | .needsManualAction => { t with anyParked := true }
  | .failed => { t with anyFailed := true, firstFailed := t.firstFailed.or (some cur) }
  | .waiting => { t with anyWaiting := true }
  | .claimed | .running => { t with hasRunnable := true }
  | .pending =>
    if nodeReadiness d cur.nodeID current (outputsOf current) = .blocked then t
    else { t with hasRunnable := true }
  | _ => t

/-- The cases of `recomputeRunState`. -/
inductive Verdict
  | parked
  | failed (code msg : String)
  | waiting
  | succeeded
  | unsettled

/-- What the rows of a run, visited in the given order, say about the run. -/
def verdictOf (d : Definition) (current : Current) (rows : List NodeExecution) : Verdict :=
  let t := rows.foldl (Tally.add d current) {}
  if t.anyParked then .parked
  else if t.anyFailed && t.allTerminal then match t.firstFailed with
    | some row => .failed row.errorCode row.error
    | none => .failed "node_failed" "a node failed"
  else if t.anyWaiting && !t.hasRunnable then .waiting
  else if t.allTerminal then .succeeded
  else .unsettled

end NexaRoute.Nexaflow
