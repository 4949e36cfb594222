import NexaRoute.Go.Time

/-!
# The record of a video job

A job is one record in a store that several orchestrators share. A job of one shot is submitted to
the provider as a whole; a job of several shots, an episode, is submitted shot by shot, and each shot
has a checkpoint in the record. Only what the submission, the polling and the cancellation of a job
go by is kept of the record: its state, the ids that the provider gave, the lease and the checkpoints.

A store call is atomic. It may fail, with or without its effect: a caller that is told of a failure
does not know which.

## Main definitions

* `VideoJob` — the record
* `updateRecord`, `claimRecord` — the calls of the store
-/

namespace NexaRoute.Video

open Go

/-- The states of a job, and of each of its shots. -/
inductive JobState
  | queued
  | admitted
  | planning
  | waitingForBudget
  | submitted
  | processing
  | polling
  | composing
  | uploading
  | completed
  | failed
  | cancelRequested
  | cancelled
  | expired
  | needsManualAction
  | dryRun
  deriving DecidableEq, Repr

/-- The states that `CanTransition` lets a state go to, apart from itself. -/
def JobState.successors : JobState → List JobState
  | .queued => [.admitted, .waitingForBudget, .failed, .cancelled, .needsManualAction]
  | .admitted => [.planning, .submitted, .failed, .cancelRequested, .needsManualAction]
  | .planning => [.submitted, .failed, .needsManualAction]
  | .waitingForBudget => [.queued, .failed, .needsManualAction]
  | .submitted => [.processing, .polling, .completed, .composing, .uploading, .cancelRequested,
      .cancelled, .failed, .needsManualAction]
  | .processing | .polling => [.processing, .polling, .composing, .uploading, .completed,
      .cancelRequested, .cancelled, .failed, .expired, .needsManualAction]
  | .composing => [.uploading, .completed, .failed, .needsManualAction]
  | .uploading => [.completed, .cancelled, .failed, .needsManualAction]
  | .cancelRequested => [.cancelled, .failed, .needsManualAction]
  | .needsManualAction => [.cancelled]
  | .failed => [.queued, .cancelled]
  | .completed | .cancelled | .expired | .dryRun => []

/-- `CanTransition`: a state may always stay. -/
def canTransition (s t : JobState) : Bool := s == t || s.successors.contains t

/-- `IsTerminalState`. A failed job is not terminal: it may be queued again. -/
def isTerminalState : JobState → Bool
  | .completed | .cancelled | .expired | .dryRun => true
  | _ => false

/-- `ShotExecution`: the checkpoint of a shot. -/
structure ShotExecution where
  state : JobState := .queued
  providerJobID : String := ""
  deriving DecidableEq, Repr

/-- The record. A job without an owner is free to be claimed. -/
structure VideoJob where
  leaseOwner : String := ""
  leaseUntil : Time := 0
  dryRun : Bool := false
  /-- `Request.ShotPlan`: whether each of its shots has an `OutputAsset`. -/
  shotPlan : List Bool := []
  providerJobID : String := ""
  state : JobState := .queued
  operatorForceFailed : Bool := false
  compositionRetryCount : ℕ := 0
  currentShot : ℕ := 0
  shotExecutions : List ShotExecution := []
  deriving DecidableEq, Repr

/-- `NewJob`, for a request with a number of shots. -/
def newJob (shots : ℕ) (dryRun : Bool) : VideoJob where
  dryRun := dryRun
  shotPlan := List.replicate shots false
  shotExecutions := List.replicate shots {}

namespace VideoJob

variable (j : VideoJob)

/-- A job that an operator failed by force is terminal too. -/
def isTerminal : Bool := isTerminalState j.state || j.operatorForceFailed

/-- `Transition`: fails where the state may not be reached. -/
def transition (dst : JobState) : Option VideoJob :=
  if canTransition j.state dst then some { j with state := dst } else none

/-- The record with another checkpoint for a shot. -/
def setShot (i : ℕ) (f : ShotExecution → ShotExecution) : VideoJob :=
  { j with shotExecutions := j.shotExecutions.modify i f }

/-- Whether the job is submitted shot by shot. -/
def isEpisode : Bool := 1 < j.shotPlan.length

theorem eq_of_transition {j j' : VideoJob} {dst : JobState} (h : j.transition dst = some j') :
    j' = { j with state := dst } := by
  rw [transition] at h
  split at h
  · exact (Option.some.inj h).symm
  · cases h

end VideoJob

/-! ### The store -/

/-- How a call that writes ends: it is done; it is refused and nothing happened; its effect took
place, and its caller is told that it failed. -/
inductive Outcome (α : Type)
  | done (a : α)
  | refused
  | lost (a : α)
  deriving DecidableEq, Repr

/-- What the caller learns. -/
def Outcome.told {α : Type} : Outcome α → Option α
  | .done a => some a
  | .refused | .lost _ => none

/-- What is stored, whatever the caller learns. -/
def Outcome.wrote {α : Type} : Outcome α → Option α
  | .done a | .lost a => some a
  | .refused => none

/-- Whether a store call is answered, fails, or fails after its effect. -/
inductive Fate
  | answered
  | failed
  | lost
  deriving DecidableEq, Repr

/-- The outcome of a call that goes through unless the store fails. -/
def Fate.outcome {α : Type} (a : α) : Fate → Outcome α
  | .answered => .done a
  | .failed => .refused
  | .lost => .lost a

theorem wrote_outcome {α : Type} {a b : α} {fate : Fate} (h : (fate.outcome a).wrote = some b) :
    b = a := by
  cases fate with
  | answered | lost => exact (Option.some.inj h).symm
  | failed => cases h

theorem wrote_of_told {α : Type} {a : α} {out : Outcome α} (h : out.told = some a) :
    out.wrote = some a := by
  cases out with
  | done b => exact h
  | refused | lost b => cases h

/-- The record that a store keeps for the job. -/
abbrev Record := Option VideoJob

/-- The record after a call with an outcome. -/
def Record.after (w : Record) (out : Outcome VideoJob) : Record := out.wrote.or w

/-- `Create`: a job has one record. -/
def createRecord (w : Record) (j : VideoJob) (fate : Fate) : Outcome VideoJob :=
  if w.isSome then .refused else fate.outcome j

/-- `Update`. A terminal record can only be written over by itself; `same` tells whether the rest of
the record is the same too. -/
def updateRecord (w : Record) (j : VideoJob) (same : Bool) (fate : Fate) : Outcome VideoJob :=
  match w with
  | none => .refused
  | some current =>
    if current.isTerminal && !(same && current == j) then .refused else fate.outcome j

/-- A lease can be taken when it is free, when it ended, or by its own owner. -/
def claimable (j : VideoJob) (owner : String) (now : Time) : Bool :=
  j.leaseOwner == "" || !decide (now < j.leaseUntil) || j.leaseOwner == owner

/-- `TryClaim`. -/
def claimRecord (w : Record) (owner : String) (ttl : Duration) (now : Time) (fate : Fate) :
    Outcome VideoJob :=
  match w with
  | none => .refused
  | some j =>
    if claimable j owner now then
      fate.outcome { j with leaseOwner := owner, leaseUntil := now + ttl }
    else .refused

end NexaRoute.Video
