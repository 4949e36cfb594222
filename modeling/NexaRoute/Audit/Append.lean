import NexaRoute.Audit.Verify
import NexaRoute.Machine

/-!
# Appending to the chain

`planAuditAppend` decides one append against a snapshot: the record to insert, the sequences
pruning removes and the metadata to store. `applyPlanTx` is how an adapter persists a plan, and
`appendAudit` is the transaction around the two, in which an error leaves everything as it was.

Two clock readings enter an append: `clock` stamps a record that came without a timestamp, and
`now` is what the retention age is measured from. Neither is assumed to move forward.

## Main definitions

* `planAuditAppend`, `applyPlanTx` — deciding an append, persisting it
-/

namespace NexaRoute.Audit

open Go

/-- Why an append is refused. -/
inductive AppendError
  | invalidAudit
  | unverified (first : Problem)
  | inconsistentEmpty
  | metadataWithoutChain
  | marshal
  | duplicateKey
  | invalidKey
  | malformedRecord
  | database (text : String)
  deriving DecidableEq, Repr

/-- The gate in front of an append: the chain verifies, and an empty or purely legacy log has the
metadata such a log can have. -/
def appendGate (report : ChainReport) (headState anchorState : RefState) :
    Except AppendError Unit :=
  match report.problems with
  | p :: _ => .error (.unverified p)
  | [] =>
    if report.totalRecords = 0 then
      if (headState = .absent ∧ anchorState = .absent) ∨ (headState = .valid ∧ anchorState = .valid)
      then .ok () else .error .inconsistentEmpty
    else if report.chainedRecords = 0 then
      if headState ≠ .absent ∨ anchorState ≠ .absent then .error .metadataWithoutChain else .ok ()
    else .ok ()

/-- What pruning reads of a record. -/
structure SeqTS where
  seq : UInt64
  ts : ℤ
  deriving DecidableEq, Repr

/-- Sequence order on pruning entries. -/
def SeqTS.le (a b : SeqTS) : Prop := a.seq ≤ b.seq

instance : DecidableRel SeqTS.le := fun a b => inferInstanceAs (Decidable (a.seq ≤ b.seq))

/-- How many entries of a list in sequence order leave: as long as the oldest one is over the
retention age or the list is over the count bound. -/
def pruneCount (cutoff : ℤ) (maxAuditItems : ℕ) : List SeqTS → ℕ
  | [] => 0
  | i :: rest =>
    if i.ts < cutoff ∨ rest.length + 1 > maxAuditItems then
      pruneCount cutoff maxAuditItems rest + 1
    else 0

structure AppendPlan where
  event : AuditEvent
  prunedSeqs : List UInt64
  head : ChainRef
  anchor : ChainRef
  hasAnchor : Bool
  allocator : UInt64
  deriving DecidableEq, Repr

/-- What pruning reads of a stored record. -/
def AuditEvent.seqTS (r : AuditEvent) : SeqTS := ⟨r.seq, unixNano r.timestamp⟩

variable (H : Digest)

/-- The new record: sanitized, at the next sequence, linked to the verified head, and sealed. -/
def newRecord (event : AuditEvent) (allocator : UInt64) (headHash : String) : AuditEvent :=
  let event := { event with seq := allocator + 1, prevHash := headHash }
  { event with hash := canonicalAuditHash H event }

/-- The reference of a pruned record; one that is not stored yet is the record just planned. -/
def prunedRef (records : List AuditEvent) (event : AuditEvent) (s : UInt64) : ChainRef :=
  ⟨s, recordHash H ((records.reverse.find? (·.seq == s)).getD event) s⟩

/-- Pruning and metadata of a plan, once the record to insert is known. -/
def planPrune (st : ChainState) (event : AuditEvent) (maxAuditItems : ℕ) (cutoff : ℤ) :
    AppendPlan :=
  let infos := (st.records.map (·.seqTS) ++ [event.seqTS]).insertionSort SeqTS.le
  let toDelete := pruneCount cutoff maxAuditItems infos
  let prunedSeqs := (infos.take toDelete).map (·.seq)
  let pruned := prunedSeqs.getLast?.map (prunedRef H st.records event)
  let appended : ChainRef := ⟨event.seq, event.hash⟩
  { event
    prunedSeqs
    head := if toDelete = infos.length then pruned.getD appended else appended
    anchor := pruned.getD (if st.anchorState = .valid then st.anchor else .zero)
    hasAnchor := pruned.isSome || st.anchorState == .valid
    allocator := event.seq }

def planAuditAppend (st : ChainState) (event : AuditEvent) (maxAuditItems : ℕ)
    (retention : Duration) (clock now : Time) : Except AppendError AppendPlan :=
  match sanitizeAuditEvent event clock with
  | none => .error .invalidAudit
  | some event => do
    let report := verifyChainState H st
    appendGate report st.headState st.anchorState
    return planPrune H st (newRecord H event st.allocator report.headHash) maxAuditItems
      (unixNano (now - retention))

/-! ### Persisting a plan -/

/-- `parseChainRefMeta`: how a stored reference is read back. A zero reference is malformed. -/
def parseChainRefMeta : Option ChainRef → ChainRef × RefState
  | none => (.zero, .absent)
  | some ref => if ref.hash = "" ∨ ref.seq = 0 then (.zero, .malformed) else (ref, .valid)

/-- `applyPlanTx`, and the snapshot loaded after it: prune, insert the record unless it was pruned
itself, store head, anchor and allocator. Records are loaded back in sequence order, which is
the primary key. -/
def applyPlanTx (st : ChainState) (plan : AppendPlan) : Except AppendError ChainState :=
  let kept := st.records.filter (·.seq ∉ plan.prunedSeqs)
  let head := parseChainRefMeta (some plan.head)
  let anchor := if plan.hasAnchor then parseChainRefMeta (some plan.anchor)
    else (st.anchor, st.anchorState)
  let stored := fun records : List AuditEvent =>
    { records, head := head.1, headState := head.2, anchor := anchor.1, anchorState := anchor.2
      allocator := plan.allocator : ChainState }
  if plan.event.seq ∈ plan.prunedSeqs then .ok (stored kept)
  else if !marshals plan.event then .error .marshal
  else if kept.any (·.seq == plan.event.seq) then .error .duplicateKey
  else .ok (stored (kept.orderedInsert bySeq plan.event))

/-- One call of `AppendAudit`: the event, the configuration of the store it reaches, the two clock
readings, and the database error that fails the transaction, if one does. -/
structure AppendCall where
  event : AuditEvent
  maxAuditItems : ℕ
  retention : Duration
  clock : Time
  now : Time
  fault : Option String
  deriving DecidableEq, Repr

/-- `appendAuditInTx` in its transaction: verify, plan, apply, commit. -/
def appendAudit (st : ChainState) (call : AppendCall) : Except AppendError ChainState := do
  let plan ← planAuditAppend H st call.event call.maxAuditItems call.retention call.clock call.now
  let st' ← applyPlanTx st plan
  match call.fault with
  | some text => .error (.database text)
  | none => .ok st'

/-- The stored state after a call: a failed transaction is rolled back. -/
def append (st : ChainState) (call : AppendCall) : ChainState :=
  Machine.commit st (appendAudit H st call)

/-- A store no record was ever appended to. -/
def ChainState.empty : ChainState := ⟨[], .zero, .absent, .zero, .absent, 0⟩

end NexaRoute.Audit
