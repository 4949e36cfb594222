import NexaRoute.Keyed
import NexaRoute.Nexaflow.Definition
import NexaRoute.Nexaflow.States
import Mathlib.Data.String.Basic

/-!
# The workflow store

`storeState`, the dataset that the memory store keeps under a lock and that the file store writes to
disk: drafts, published revisions, runs, the attempt rows of their nodes, and approvals. The methods
are functions from the state before to an error, or to the state after and what the caller gets.

A Go map is a list of its entries. The rows of all runs are in one list, in the order they were
appended, and a row is addressed by run, node and attempt: that is what the pointer stands for which
`currentAttempt` returns and `saveNodeExecution` writes through.

## Main definitions

* `StoreState` — its methods
-/

namespace NexaRoute.Nexaflow

open Go Except List

variable {e c exec row : NodeExecution} {r : Run} {now : Time}

structure Run where
  id : String
  definitionID : String := ""
  revision : UInt64 := 0
  definition : Definition
  state : RunState := .unset
  idempotencyKey : String := ""
  principal : String := ""
  principalRoles : List Role := []
  input : Obj := []
  errorCode : String := ""
  error : String := ""
  createdAt : Time := zeroTime
  updatedAt : Time := zeroTime
  startedAt : Time := zeroTime
  finishedAt : Time := zeroTime
  leaseOwner : String := ""
  leaseUntil : Time := zeroTime

/-- `NodeExecution`: one attempt of one node of a run. -/
structure NodeExecution where
  runID : String
  nodeID : String
  attempt : ℤ := 0
  state : NodeState := .unset
  input : Obj := []
  output : Obj := []
  outputTruncated : Bool := false
  resumeInput : Obj := []
  errorCode : String := ""
  error : String := ""
  dispatched : Bool := false
  ambiguous : Bool := false
  deadline : Time := zeroTime
  idempotencyKey : String := ""
  appendOperationID : String := ""
  leaseOwner : String := ""
  leaseUntil : Time := zeroTime
  createdAt : Time := zeroTime
  updatedAt : Time := zeroTime
  startedAt : Time := zeroTime
  finishedAt : Time := zeroTime

/-- What a row is addressed by. -/
def NodeExecution.key (e : NodeExecution) : String × String × ℤ := (e.runID, e.nodeID, e.attempt)

theorem NodeExecution.parts_of_key {runID nodeID : String} {attempt : ℤ}
    (h : e.key = (runID, nodeID, attempt)) :
    e.runID = runID ∧ e.nodeID = nodeID ∧ e.attempt = attempt := by
  simpa [NodeExecution.key] using h

structure Approval where
  runID : String
  nodeID : String
  requester : String := ""
  approver : String := ""
  decision : String := ""
  decidedAt : Time := zeroTime
  deriving Repr, DecidableEq

/-- The statuses of a published revision. -/
inductive DefinitionStatus
  | published
  | superseded
  deriving DecidableEq, Repr

/-- `PublishedDefinition`, with the fields of its version record. -/
structure PublishedDefinition where
  definitionID : String
  revision : UInt64
  contentHash : String
  status : DefinitionStatus
  definition : Definition
  publishedBy : String
  publishedAt : Time

structure StoreState where
  drafts : List Definition := []
  revisions : List PublishedDefinition := []
  runs : List Run := []
  runByIdem : List (String × String) := []
  nodes : List NodeExecution := []
  approvals : List (String × Approval) := []

def newStoreState : StoreState := {}

def itoa (n : ℤ) : String := toString n

def nodeIDKey (runID nodeID : String) (attempt : ℤ) : String :=
  runID ++ ":" ++ nodeID ++ ":" ++ itoa attempt

def approvalKey (runID nodeID : String) : String := runID ++ "\x00" ++ nodeID

namespace StoreState

/-! ### Drafts and revisions -/

def saveDraft (s : StoreState) (d : Definition) : Except StoreError StoreState :=
  if d.id = "" then .error .definitionIDRequired
  else .ok { s with drafts := d :: s.drafts.filter (·.id != d.id) }

/-- `s.revisions[definitionID]`. -/
def revisionsOf (s : StoreState) (definitionID : String) : List PublishedDefinition :=
  s.revisions.filter (·.definitionID == definitionID)

/-- A published revision is superseded; the others stay. -/
def supersede (r : PublishedDefinition) : PublishedDefinition :=
  if r.status = .published then { r with status := .superseded } else r

/-- `publishIfUnchanged`; an empty hash asks for no comparison. A definition without a hash fails
with an error that is not the store's. -/
def publishIfUnchanged (s : StoreState) (hash : Definition → Option String)
    (definitionID publishedBy expectedHash : String) (now : Time) :
    Except (Option StoreError) (StoreState × PublishedDefinition) :=
  match s.drafts.find? (·.id == definitionID) with
  | none => .error (some .notFound)
  | some draft => match hash draft with
    | none => .error none
    | some h =>
      if expectedHash ≠ "" ∧ h ≠ expectedHash then .error (some .stateConflict)
      else
        let existing := s.revisionsOf definitionID
        let rev : PublishedDefinition :=
          { definitionID, revision := UInt64.ofNat (existing.length + 1), contentHash := h
            status := .published, definition := draft, publishedBy, publishedAt := now }
        match existing.getLast? with
        | some latest =>
          if latest.status = .published ∧ latest.contentHash = h then .ok (s, latest)
          else
            .ok ({ s with
              revisions := s.revisions.map (fun r =>
                if r.definitionID = definitionID then supersede r else r) ++ [rev] }, rev)
        | none => .ok ({ s with revisions := s.revisions ++ [rev] }, rev)

def supersedeRevision (s : StoreState) (definitionID : String) (revision : UInt64) :
    Except StoreError (StoreState × PublishedDefinition) :=
  match (s.revisionsOf definitionID).find? (·.revision == revision) with
  | none => .error .notFound
  | some r =>
    if r.status ≠ .published then .error .stateConflict
    else
      .ok ({ s with
        revisions := s.revisions.map fun r' =>
          if r'.definitionID = definitionID ∧ r'.revision = revision then supersede r' else r' },
        supersede r)

/-! ### Runs -/

/-- `s.runs[runID]`. -/
def run? (s : StoreState) (runID : String) : Option Run := s.runs.find? (·.id == runID)

/-- The runs of a definition that hold one of its slots. -/
def activeRuns (s : StoreState) (definitionID : String) : ℕ :=
  s.runs.countP fun r => r.definitionID == definitionID && !r.state.terminal

/-- The run that `createRun` stores. -/
def createdRun (run : Run) (now : Time) : Run :=
  { run with
    state := if run.state = .unset then .created else run.state
    createdAt := now
    updatedAt := now }

def createRun (s : StoreState) (run : Run) (now : Time) : Except StoreError StoreState :=
  if run.id = "" then .error .runIDRequired
  else if (s.run? run.id).isSome then .error .alreadyExists
  else if run.idempotencyKey ≠ "" ∧ (s.runByIdem.lookup run.idempotencyKey).isSome then
    .error .idempotencyConflict
  else if 0 < run.definition.settings.maxConcurrentRuns ∧
      run.definition.settings.maxConcurrentRuns ≤ s.activeRuns run.definitionID then
    .error .runLimit
  else
    .ok { s with
      runs := s.runs ++ [createdRun run now]
      runByIdem :=
        if run.idempotencyKey ≠ "" then (run.idempotencyKey, run.id) :: s.runByIdem
        else s.runByIdem }

def getRun (s : StoreState) (runID : String) : Except StoreError Run :=
  match s.run? runID with
  | none => .error .notFound
  | some r => .ok r

def getRunByIdempotency (s : StoreState) (key : String) : Except StoreError Run :=
  match s.runByIdem.lookup key with
  | none => .error .notFound
  | some id => s.getRun id

/-- A run moved to a state. The times of the first start and of the end are set once. -/
def movedRun (r : Run) (state : RunState) (errorCode error : String) (now : Time) : Run :=
  { r with
    startedAt :=
      if r.state ≠ .running ∧ state = .running ∧ r.startedAt = zeroTime then now else r.startedAt
    finishedAt := if state.terminal ∧ r.finishedAt = zeroTime then now else r.finishedAt
    state
    errorCode
    error
    updatedAt := now }

/-- A run in the place of the one with its id. -/
def setRun (s : StoreState) (run : Run) : StoreState :=
  { s with runs := Keyed.replace Run.id run s.runs }

def updateRunState (s : StoreState) (runID : String) (expected state : RunState)
    (errorCode error : String) (now : Time) : Except StoreError (StoreState × Run) :=
  match s.run? runID with
  | none => .error .notFound
  | some r => match runTransitionError r.state state expected with
    | some err => .error err
    | none =>
      let r' := movedRun r state errorCode error now
      .ok (s.setRun r', r')

/-- The order of `listRuns`: by creation, then by id. -/
def runBefore (a b : Run) : Prop :=
  a.createdAt < b.createdAt ∨ a.createdAt = b.createdAt ∧ a.id ≤ b.id

instance : DecidableRel runBefore := fun _ _ => inferInstanceAs (Decidable (_ ∨ _ ∧ _))

structure RunFilter where
  definitionID : String := ""
  state : RunState := .unset
  limit : ℤ := 0

def listRuns (s : StoreState) (filter : RunFilter) : List Run :=
  let out := (s.runs.filter fun r =>
    (filter.definitionID == "" || r.definitionID == filter.definitionID) &&
      (filter.state == .unset || r.state == filter.state)).insertionSort runBefore
  if 0 < filter.limit then out.take filter.limit.toNat else out

/-- A run that `prune` removes. -/
def prunable (before : Time) (r : Run) : Bool :=
  r.state.terminal && r.finishedAt != zeroTime && decide (r.finishedAt < before)

/-- Whether a key of the approvals begins with a run id and a NUL. -/
def keyOfRun (runID key : String) : Bool := (runID ++ "\x00").toList.isPrefixOf key.toList

def prune (s : StoreState) (before : Time) : StoreState × ℕ :=
  let gone := s.runs.filter (prunable before)
  ({ s with
    runs := s.runs.filter (!prunable before ·)
    runByIdem := s.runByIdem.filter fun p => !gone.any fun r => r.idempotencyKey == p.1
    nodes := s.nodes.filter fun e => !gone.any fun r => r.id == e.runID
    approvals := s.approvals.filter fun p => !gone.any fun r => keyOfRun r.id p.1 },
    gone.length)

/-! ### Attempt rows -/

/-- The rows of one node of one run, in the order they were appended. -/
def rowsOf (s : StoreState) (runID nodeID : String) : List NodeExecution :=
  s.nodes.filter fun e => e.runID == runID && e.nodeID == nodeID

/-- The one of two rows with the higher attempt; the earlier one when they are equal. -/
def newer (cur : Option NodeExecution) (e : NodeExecution) : Option NodeExecution :=
  match cur with
  | none => some e
  | some c => if c.attempt < e.attempt then some e else some c

def currentAttempt (s : StoreState) (runID nodeID : String) : Option NodeExecution :=
  (s.rowsOf runID nodeID).foldl newer none

/-- A row in the place of the one with its key. -/
def setRow (s : StoreState) (row : NodeExecution) : StoreState :=
  { s with nodes := Keyed.replace NodeExecution.key row s.nodes }

/-- The row that `appendNodeExecution` adds. -/
def appendedRow (exec : NodeExecution) (attempt : ℤ) (now : Time) : NodeExecution :=
  { exec with
    attempt
    idempotencyKey := nodeIDKey exec.runID exec.nodeID attempt
    createdAt := now
    updatedAt := now
    state := if exec.state = .unset then .pending else exec.state }

/-- The row that an earlier append of the same operation left. -/
def appendedBefore (s : StoreState) (exec : NodeExecution) : Option NodeExecution :=
  if exec.appendOperationID = "" then none
  else (s.rowsOf exec.runID exec.nodeID).find? (·.appendOperationID == exec.appendOperationID)

def nextAttempt (s : StoreState) (runID nodeID : String) : ℤ :=
  match s.currentAttempt runID nodeID with
  | none => 0
  | some cur => cur.attempt + 1

def appendNodeExecution (s : StoreState) (exec : NodeExecution) (now : Time) :
    Except StoreError (StoreState × NodeExecution) :=
  match s.run? exec.runID with
  | none => .error .notFound
  | some _ => match s.appendedBefore exec with
    | some existing => .ok (s, existing)
    | none =>
      let row := appendedRow exec (s.nextAttempt exec.runID exec.nodeID) now
      .ok ({ s with nodes := s.nodes ++ [row] }, row)

/-- What a save makes of the row `cur`: the caller's record, with the identity of the row, and
without a lease when it ends. -/
def savedRow (cur exec : NodeExecution) (now : Time) : NodeExecution :=
  { exec with
    attempt := cur.attempt
    idempotencyKey := cur.idempotencyKey
    appendOperationID := cur.appendOperationID
    createdAt := cur.createdAt
    leaseOwner := if exec.state.terminal then "" else exec.leaseOwner
    leaseUntil := if exec.state.terminal then zeroTime else exec.leaseUntil
    startedAt :=
      if cur.state ≠ .running ∧ exec.state = .running ∧ exec.startedAt = zeroTime then now
      else exec.startedAt
    finishedAt :=
      if exec.state.terminal ∧ exec.finishedAt = zeroTime then now else exec.finishedAt
    updatedAt := now }

def saveNodeExecution (s : StoreState) (exec : NodeExecution) (expected : NodeState) (now : Time) :
    Except StoreError (StoreState × NodeExecution) :=
  match s.currentAttempt exec.runID exec.nodeID with
  | none => .error .notFound
  | some cur => match nodeTransitionError cur.state exec.state expected with
    | some err => .error err
    | none =>
      if exec.attempt ≠ cur.attempt then .error .stateConflict
      else
        let row := savedRow cur exec now
        .ok (s.setRow row, row)

/-- The row a record names by its attempt; the current one when there is no such attempt. -/
def addressed (s : StoreState) (exec : NodeExecution) : Option NodeExecution :=
  ((s.rowsOf exec.runID exec.nodeID).find? (·.attempt == exec.attempt)).or
    (s.currentAttempt exec.runID exec.nodeID)

/-- A save to the row that the record names, which is how the Postgres store reads the same
method. -/
def saveAddressed (s : StoreState) (exec : NodeExecution) (expected : NodeState) (now : Time) :
    Except StoreError (StoreState × NodeExecution) :=
  match s.addressed exec with
  | none => .error .notFound
  | some cur => match nodeTransitionError cur.state exec.state expected with
    | some err => .error err
    | none =>
      let row := savedRow cur exec now
      .ok (s.setRow row, row)

/-- The order of `getNodeExecutions`: by node, then by attempt. -/
def rowBefore (a b : NodeExecution) : Prop :=
  a.nodeID < b.nodeID ∨ a.nodeID = b.nodeID ∧ a.attempt ≤ b.attempt

instance : DecidableRel rowBefore := fun _ _ => inferInstanceAs (Decidable (_ ∨ _ ∧ _))

def getNodeExecutions (s : StoreState) (runID : String) : Except StoreError (List NodeExecution) :=
  match s.run? runID with
  | none => .error .notFound
  | some _ => .ok ((s.nodes.filter (·.runID == runID)).insertionSort rowBefore)

/-- A lease that keeps others from claiming a row. -/
def liveForeignLease (cur : NodeExecution) (owner : String) (now : Time) : Bool :=
  cur.leaseOwner != "" && cur.leaseOwner != owner && cur.leaseUntil != zeroTime &&
    decide (now < cur.leaseUntil)

def claimedRow (cur : NodeExecution) (owner : String) (ttl : Duration) (now : Time) :
    NodeExecution :=
  { cur with state := .claimed, leaseOwner := owner, leaseUntil := now + ttl, updatedAt := now }

/-- `tryClaim`. The answer `none` is a claim that lost. -/
def tryClaim (s : StoreState) (runID nodeID owner : String) (ttl : Duration) (now : Time) :
    Except StoreError (StoreState × Option NodeExecution) :=
  match s.currentAttempt runID nodeID with
  | none => .error .notFound
  | some cur =>
    if cur.state ≠ .pending ∧ cur.state ≠ .claimed then .ok (s, none)
    else if liveForeignLease cur owner now then .ok (s, none)
    else
      let row := claimedRow cur owner ttl now
      .ok (s.setRow row, some row)

/-- The row without its lease. -/
def releasedRow (cur : NodeExecution) : NodeExecution :=
  { cur with leaseOwner := "", leaseUntil := zeroTime }

def releaseLease (s : StoreState) (runID nodeID owner : String) : Except StoreError StoreState :=
  match s.currentAttempt runID nodeID with
  | none => .error .notFound
  | some cur =>
    if cur.leaseOwner = owner then .ok (s.setRow (releasedRow cur)) else .ok s

/-! ### Approvals -/

def recordApproval (s : StoreState) (appr : Approval) (now : Time) :
    Except StoreError (StoreState × Approval) :=
  if appr.decision ≠ "approved" ∧ appr.decision ≠ "rejected" then .error .badDecision
  else if appr.approver ≠ "" ∧ appr.requester ≠ "" ∧ appr.approver = appr.requester then
    .error .selfApproval
  else match s.approvals.lookup (approvalKey appr.runID appr.nodeID) with
    | some prev =>
      if prev.decision = appr.decision ∧ prev.approver = appr.approver then .ok (s, prev)
      else .error .approvalConflict
    | none =>
      let appr' := { appr with decidedAt := now }
      .ok ({ s with approvals := (approvalKey appr.runID appr.nodeID, appr') :: s.approvals }, appr')

def getApproval (s : StoreState) (runID nodeID : String) : Except StoreError Approval :=
  match s.approvals.lookup (approvalKey runID nodeID) with
  | none => .error .noApprovalRecord
  | some appr => .ok appr

/-! ### What the methods can do -/

@[simp] theorem createdRun_id (run : Run) (now : Time) : (createdRun run now).id = run.id := rfl

@[simp] theorem movedRun_id (r : Run) (state : RunState) (code msg : String) (now : Time) :
    (movedRun r state code msg now).id = r.id := rfl

@[simp] theorem savedRow_key (cur exec : NodeExecution) (now : Time) :
    (savedRow cur exec now).key = (exec.runID, exec.nodeID, cur.attempt) := rfl

@[simp] theorem claimedRow_key (cur : NodeExecution) (owner : String) (ttl : Duration) (now : Time) :
    (claimedRow cur owner ttl now).key = cur.key := rfl

@[simp] theorem releasedRow_key (cur : NodeExecution) : (releasedRow cur).key = cur.key := rfl

variable {s s' : StoreState} {runID nodeID : String}

theorem mem_rowsOf :
    e ∈ s.rowsOf runID nodeID ↔ e ∈ s.nodes ∧ e.runID = runID ∧ e.nodeID = nodeID := by
  simp [rowsOf]

theorem foldl_newer {l : List NodeExecution} {cur : Option NodeExecution}
    (h : l.foldl newer cur = some c) :
    (c ∈ l ∨ cur = some c) ∧ (∀ e ∈ l, e.attempt ≤ c.attempt) ∧
      ∀ e, cur = some e → e.attempt ≤ c.attempt := by
  induction l generalizing cur with
  | nil =>
    obtain rfl : cur = some c := h
    simp
  | cons e l ih =>
    obtain ⟨hmem, hle, hcur⟩ := ih h
    cases cur with
    | none =>
      have hec : e.attempt ≤ c.attempt := hcur e rfl
      refine ⟨?_, ?_, by simp⟩
      · rcases hmem with hmem | hmem
        · exact .inl (mem_cons_of_mem e hmem)
        · cases hmem
          exact .inl mem_cons_self
      · simpa [hec] using hle
    | some d =>
      simp only [newer] at hmem hcur
      split at hmem
      · next hlt =>
        rw [if_pos hlt] at hcur
        have hec : e.attempt ≤ c.attempt := hcur e rfl
        refine ⟨?_, by simpa [hec] using hle, ?_⟩
        · rcases hmem with hmem | hmem
          · exact .inl (mem_cons_of_mem e hmem)
          · cases hmem
            exact .inl mem_cons_self
        · intro d' hd'
          cases hd'
          omega
      · next hlt =>
        rw [if_neg hlt] at hcur
        have hdc : d.attempt ≤ c.attempt := hcur d rfl
        refine ⟨?_, ?_, ?_⟩
        · exact hmem.imp (mem_cons_of_mem e) id
        · rintro e' (_ | ⟨_, he'⟩)
          · omega
          · exact hle e' he'
        · intro d' hd'
          cases hd'
          exact hdc

theorem foldl_newer_isSome {l : List NodeExecution} {cur : Option NodeExecution} (h : cur.isSome) :
    (l.foldl newer cur).isSome := by
  induction l generalizing cur with
  | nil => exact h
  | cons e l ih =>
    refine ih ?_
    cases cur with
    | none => cases h
    | some c =>
      rw [newer]
      split <;> rfl

theorem mem_of_currentAttempt (h : s.currentAttempt runID nodeID = some c) :
    c ∈ s.nodes ∧ c.runID = runID ∧ c.nodeID = nodeID := by
  have hmem := (foldl_newer h).1
  simp only [reduceCtorEq, or_false] at hmem
  exact mem_rowsOf.mp hmem

theorem attempt_le_current (h : s.currentAttempt runID nodeID = some c) (he : e ∈ s.nodes)
    (hrun : e.runID = runID) (hnode : e.nodeID = nodeID) :
    e.attempt ≤ c.attempt :=
  (foldl_newer h).2.1 e (mem_rowsOf.mpr ⟨he, hrun, hnode⟩)

theorem currentAttempt_eq_none_iff :
    s.currentAttempt runID nodeID = none ↔
      ∀ e ∈ s.nodes, e.runID = runID → e.nodeID ≠ nodeID := by
  constructor
  · intro h e he hrun hnode
    have hmem : e ∈ s.rowsOf runID nodeID := mem_rowsOf.mpr ⟨he, hrun, hnode⟩
    cases hl : s.rowsOf runID nodeID with
    | nil =>
      rw [hl] at hmem
      cases hmem
    | cons e' l =>
      have hsome : ((e' :: l).foldl newer none).isSome := foldl_newer_isSome (l := l) rfl
      rw [currentAttempt, hl] at h
      rw [h] at hsome
      cases hsome
  · intro h
    have hnil : s.rowsOf runID nodeID = [] := by
      rw [eq_nil_iff_forall_not_mem]
      intro e he
      obtain ⟨hmem, hrun, hnode⟩ := mem_rowsOf.mp he
      exact h e hmem hrun hnode
    rw [currentAttempt, hnil]
    rfl

theorem currentAttempt_eq_some_iff (hd : (s.nodes.map NodeExecution.key).Nodup) :
    s.currentAttempt runID nodeID = some c ↔
      (c ∈ s.nodes ∧ c.runID = runID ∧ c.nodeID = nodeID) ∧
        ∀ e ∈ s.nodes, e.runID = runID → e.nodeID = nodeID → e.attempt ≤ c.attempt := by
  constructor
  · intro h
    exact ⟨mem_of_currentAttempt h, fun e he => attempt_le_current h he⟩
  · rintro ⟨⟨hc, hrun, hnode⟩, hmax⟩
    cases hcur : s.currentAttempt runID nodeID with
    | none => exact absurd hnode (currentAttempt_eq_none_iff.mp hcur c hc hrun)
    | some d =>
      obtain ⟨hd', hdrun, hdnode⟩ := mem_of_currentAttempt hcur
      have hle := hmax d hd' hdrun hdnode
      have hge := attempt_le_current hcur hc hrun hnode
      have hkey : d.key = c.key := by
        simp only [NodeExecution.key, Prod.mk.injEq]
        exact ⟨hdrun.trans hrun.symm, hdnode.trans hnode.symm, by omega⟩
      rw [Keyed.eq_of_key_eq hd hd' hc hkey]

theorem run?_mem (h : s.run? runID = some r) : r ∈ s.runs ∧ r.id = runID :=
  ⟨mem_of_find?_eq_some h, by simpa using find?_some h⟩

theorem run?_of_mem (hd : (s.runs.map Run.id).Nodup) (h : r ∈ s.runs) :
    s.run? r.id = some r :=
  Keyed.find?_eq_some hd h

theorem run?_eq_none_iff : s.run? runID = none ↔ ∀ r ∈ s.runs, r.id ≠ runID := by
  simp [run?]

theorem written_iff {α β : Type*} {f : α → β} {a a' : α} {b : β} :
    f a = b ∧ a = a' ↔ a' = a ∧ b = f a' := by
  constructor
  all_goals
    rintro ⟨rfl, rfl⟩
    exact ⟨rfl, rfl⟩

theorem saveNodeExecution_eq_ok_iff {expected : NodeState} :
    s.saveNodeExecution exec expected now = .ok (s', row) ↔
      ∃ cur, s.currentAttempt exec.runID exec.nodeID = some cur ∧
        (expected = .unset ∨ cur.state = expected) ∧
        validNodeTransition cur.state exec.state = true ∧ exec.attempt = cur.attempt ∧
        row = savedRow cur exec now ∧ s' = s.setRow row := by
  rw [saveNodeExecution]
  cases hcur : s.currentAttempt exec.runID exec.nodeID with
  | none => simp
  | some cur =>
    simp only [Option.some.injEq, exists_eq_left']
    rw [← and_assoc, ← nodeTransitionError_eq_none_iff]
    cases nodeTransitionError cur.state exec.state expected with
    | some err => simp
    | none =>
      by_cases hatt : exec.attempt = cur.attempt
      · simp only [hatt, ne_eq, not_true_eq_false, if_false, true_and, ok.injEq,
          Prod.mk.injEq, written_iff]
      · simp [hatt]

theorem mem_of_addressed {cur : NodeExecution} (h : s.addressed exec = some cur) :
    cur ∈ s.nodes ∧ cur.runID = exec.runID ∧ cur.nodeID = exec.nodeID := by
  rw [addressed, Option.or_eq_some_iff] at h
  rcases h with h | ⟨-, h⟩
  · exact mem_rowsOf.mp (mem_of_find?_eq_some h)
  · exact mem_of_currentAttempt h

theorem saveAddressed_eq_ok_iff {expected : NodeState} :
    s.saveAddressed exec expected now = .ok (s', row) ↔
      ∃ cur, s.addressed exec = some cur ∧ (expected = .unset ∨ cur.state = expected) ∧
        validNodeTransition cur.state exec.state = true ∧
        row = savedRow cur exec now ∧ s' = s.setRow row := by
  rw [saveAddressed]
  cases hcur : s.addressed exec with
  | none => simp
  | some cur =>
    simp only [Option.some.injEq, exists_eq_left']
    rw [← and_assoc, ← nodeTransitionError_eq_none_iff]
    cases nodeTransitionError cur.state exec.state expected with
    | some err => simp
    | none =>
      simp only [true_and, ok.injEq, Prod.mk.injEq, written_iff]

theorem tryClaim_eq_ok_iff {owner : String} {ttl : Duration} :
    s.tryClaim runID nodeID owner ttl now = .ok (s', some row) ↔
      ∃ cur, s.currentAttempt runID nodeID = some cur ∧
        (cur.state = .pending ∨ cur.state = .claimed) ∧ liveForeignLease cur owner now = false ∧
        row = claimedRow cur owner ttl now ∧ s' = s.setRow row := by
  rw [tryClaim]
  cases hcur : s.currentAttempt runID nodeID with
  | none => simp
  | some cur =>
    dsimp only
    split_ifs with hstate hlease
    · simp only [ok.injEq, Prod.mk.injEq, reduceCtorEq, and_false, false_iff]
      rintro ⟨_, h, hst, _⟩
      cases h
      rcases hst with hst | hst
      · exact hstate.1 hst
      · exact hstate.2 hst
    · simp only [ok.injEq, Prod.mk.injEq, reduceCtorEq, and_false, false_iff]
      rintro ⟨_, h, _, hl, _⟩
      cases h
      rw [hlease] at hl
      cases hl
    · simp only [ok.injEq, Prod.mk.injEq, Option.some.injEq]
      constructor
      · rintro ⟨rfl, rfl⟩
        refine ⟨cur, rfl, ?_, by simpa using hlease, rfl, rfl⟩
        by_contra hne
        exact hstate (not_or.mp hne)
      · rintro ⟨_, h, _, _, rfl, rfl⟩
        cases h
        exact ⟨rfl, rfl⟩

theorem eq_of_tryClaim_none {owner : String} {ttl : Duration}
    (h : s.tryClaim runID nodeID owner ttl now = .ok (s', none)) : s' = s := by
  rw [tryClaim] at h
  cases hcur : s.currentAttempt runID nodeID with
  | none => simp [hcur] at h
  | some cur =>
    simp only [hcur] at h
    split_ifs at h
    · simpa using h.symm
    · simpa using h.symm
    · simp at h

theorem updateRunState_eq_ok_iff {expected state : RunState} {code msg : String} :
    s.updateRunState runID expected state code msg now = .ok (s', r) ↔
      ∃ cur, s.run? runID = some cur ∧ (expected = .unset ∨ cur.state = expected) ∧
        validRunTransition cur.state state = true ∧ r = movedRun cur state code msg now ∧
        s' = s.setRun r := by
  rw [updateRunState]
  cases hcur : s.run? runID with
  | none => simp
  | some cur =>
    simp only [Option.some.injEq, exists_eq_left']
    rw [← and_assoc, ← runTransitionError_eq_none_iff]
    cases runTransitionError cur.state state expected with
    | some err => simp
    | none =>
      simp only [true_and, ok.injEq, Prod.mk.injEq, written_iff]

theorem appendNodeExecution_eq_ok_iff :
    s.appendNodeExecution exec now = .ok (s', row) ↔
      (∃ r, s.run? exec.runID = some r) ∧
        (s.appendedBefore exec = some row ∧ s' = s ∨
          s.appendedBefore exec = none ∧
            row = appendedRow exec (s.nextAttempt exec.runID exec.nodeID) now ∧
            s' = { s with nodes := s.nodes ++ [row] }) := by
  rw [appendNodeExecution]
  cases hrun : s.run? exec.runID with
  | none => simp
  | some r =>
    cases hb : s.appendedBefore exec with
    | some existing => simp [and_comm, eq_comm]
    | none =>
      simp only [ok.injEq, Prod.mk.injEq, reduceCtorEq, false_and, false_or, true_and]
      constructor
      · rintro ⟨rfl, rfl⟩
        exact ⟨⟨r, rfl⟩, rfl, rfl⟩
      · rintro ⟨_, rfl, rfl⟩
        exact ⟨rfl, rfl⟩

end StoreState

end NexaRoute.Nexaflow
