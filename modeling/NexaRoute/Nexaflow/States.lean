import Mathlib.Data.List.Basic

/-!
# Run and node states

The lifecycle of a workflow run and of one attempt of a node in it, the transitions a store lets
through, and the errors it answers with. A state is a string in the source; `unset` is the empty
string, which a record has that nobody filled in and which, as the expected state of a conditional
transition, stands for any state.

A transition to the same state is always let through. `needsManualAction` is no terminal state: an
operator may still cancel or fail what is parked there.

## Main definitions

* `validRunTransition`, `validNodeTransition` — the two state machines
-/

namespace NexaRoute.Nexaflow

/-- `RunState`. `waitingTimer` is reserved and never entered. -/
inductive RunState
  | unset
  | created
  | running
  | waitingForApproval
  | succeeded
  | failed
  | cancelled
  | needsManualAction
  | waitingTimer
  deriving DecidableEq, Repr

def RunState.terminal : RunState → Bool
  | .succeeded => true
  | .failed => true
  | .cancelled => true
  | _ => false

/-- `NodeState`. -/
inductive NodeState
  | unset
  | pending
  | claimed
  | running
  | waiting
  | succeeded
  | failed
  | skipped
  | cancelled
  | needsManualAction
  deriving DecidableEq, Repr

def NodeState.terminal : NodeState → Bool
  | .succeeded => true
  | .failed => true
  | .skipped => true
  | .cancelled => true
  | _ => false

/-- What a store refuses with, and what the store and the engine refuse an argument with. -/
inductive StoreError
  | notFound
  | alreadyExists
  | idempotencyConflict
  | approvalConflict
  | noApprovalRecord
  | runLimit
  | terminalState
  | stateConflict
  | definitionIDRequired
  | runIDRequired
  | badDecision
  | selfApproval
  | unencodable
  deriving DecidableEq, Repr

def StoreError.message : StoreError → String
  | .notFound => "nexaflow: not found"
  | .alreadyExists => "nexaflow: already exists"
  | .idempotencyConflict => "nexaflow: idempotency key already exists"
  | .approvalConflict => "nexaflow: approval already decided differently"
  | .noApprovalRecord => "nexaflow: no approval record"
  | .runLimit => "nexaflow: definition run limit reached"
  | .terminalState => "nexaflow: state is terminal"
  | .stateConflict => "nexaflow: state conflict"
  | .definitionIDRequired => "nexaflow: definition id is required"
  | .runIDRequired => "nexaflow: run id is required"
  | .badDecision => "nexaflow: approval decision must be approved or rejected"
  | .selfApproval => "nexaflow: approver must not be the requester"
  | .unencodable => "nexaflow: encode postgres store JSON: json: error calling MarshalJSON for type " ++
      "time.Time: Time.MarshalJSON: year outside of range [0,9999]"

def validRunTransition (source target : RunState) : Bool :=
  if source = target then true
  else if source.terminal then false
  else match source with
    | .created => target == .running || target == .cancelled
    | .running =>
      target == .succeeded || target == .failed || target == .cancelled ||
        target == .waitingForApproval || target == .needsManualAction
    | .waitingForApproval => target == .running || target == .cancelled || target == .failed
    | .needsManualAction => target == .cancelled || target == .failed
    | _ => false

/-- `validNodeTransition`. From `claimed` to `failed` a node goes that cannot be dispatched, and from
`running` to `pending` one that recovery queues again. -/
def validNodeTransition (source target : NodeState) : Bool :=
  if source = target then true
  else if source.terminal then false
  else match source with
    | .pending => target == .claimed || target == .skipped || target == .cancelled
    | .claimed =>
      target == .running || target == .cancelled || target == .needsManualAction ||
        target == .waiting || target == .pending || target == .failed
    | .running =>
      target == .succeeded || target == .failed || target == .cancelled ||
        target == .needsManualAction || target == .waiting || target == .pending
    | .waiting => target == .pending || target == .cancelled || target == .failed
    | .needsManualAction => target == .cancelled || target == .failed
    | _ => false

@[simp] theorem validRunTransition_self (s : RunState) : validRunTransition s s = true :=
  if_pos rfl

@[simp] theorem validNodeTransition_self (s : NodeState) : validNodeTransition s s = true :=
  if_pos rfl

theorem eq_of_validRunTransition {source target : RunState} (ht : source.terminal = true)
    (h : validRunTransition source target = true) : source = target := by
  by_contra hne
  simp [validRunTransition, hne, ht] at h

theorem eq_of_validNodeTransition {source target : NodeState} (ht : source.terminal = true)
    (h : validNodeTransition source target = true) : source = target := by
  by_contra hne
  simp [validNodeTransition, hne, ht] at h

/-! ### A conditional transition -/

/-- Why a record may not go from one state to another, with the state the caller expects it in: it
is in another state, it is terminal, or there is no such transition. -/
def transitionError {S : Type} [DecidableEq S] (unset : S) (terminal : S → Bool)
    (valid : S → S → Bool) (current target expected : S) : Option StoreError :=
  if expected ≠ unset ∧ current ≠ expected then some .stateConflict
  else if terminal current ∧ current ≠ target then some .terminalState
  else if !valid current target then some .stateConflict
  else none

/-- The check of `SaveNodeExecution`. -/
def nodeTransitionError : NodeState → NodeState → NodeState → Option StoreError :=
  transitionError .unset NodeState.terminal validNodeTransition

/-- The check of `UpdateRunState`. -/
def runTransitionError : RunState → RunState → RunState → Option StoreError :=
  transitionError .unset RunState.terminal validRunTransition

theorem transitionError_eq_none_iff {S : Type} [DecidableEq S] {unset : S} {terminal : S → Bool}
    {valid : S → S → Bool} (hterm : ∀ s t, terminal s = true → valid s t = true → s = t)
    {current target expected : S} :
    transitionError unset terminal valid current target expected = none ↔
      (expected = unset ∨ current = expected) ∧ valid current target = true := by
  unfold transitionError
  split_ifs with hexp hend hvalid
  · simp only [false_iff, not_and]
    rintro (h | h)
    · exact absurd h hexp.1
    · exact absurd h hexp.2
  · simp only [false_iff, not_and]
    intro _ h
    exact hend.2 (hterm current target hend.1 h)
  · simp_all
  · exact ⟨by by_cases h : expected = unset <;> simp_all, by simp⟩

theorem nodeTransitionError_eq_none_iff {current target expected : NodeState} :
    nodeTransitionError current target expected = none ↔
      (expected = .unset ∨ current = expected) ∧ validNodeTransition current target = true :=
  transitionError_eq_none_iff fun _ _ => eq_of_validNodeTransition

theorem runTransitionError_eq_none_iff {current target expected : RunState} :
    runTransitionError current target expected = none ↔
      (expected = .unset ∨ current = expected) ∧ validRunTransition current target = true :=
  transitionError_eq_none_iff fun _ _ => eq_of_validRunTransition

end NexaRoute.Nexaflow
