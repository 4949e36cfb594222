import NexaRoute.Audit.Event

/-!
# Verifying a chain snapshot

`verifyChainState` of the network-backed stores: the records of a snapshot in sequence order, each
checked against its predecessor, and then the head, the pruning anchor and the allocator.

The source reports problems through a closure that clears `Verified` and appends a message. A
problem is a constructor of `Problem` here and `Problem.message` is its text; a report is verified
when it has none. The checks of the head and of the allocator are the same in both verifiers of
the store, so they are functions of what those checks read.

## Main definitions

* `verifyChainState` — the problems of a snapshot
-/

namespace NexaRoute.Audit

open Go

/-- One record of the chain, by its sequence and its hash. -/
@[ext]
structure ChainRef where
  seq : UInt64
  hash : String
  deriving DecidableEq, Repr

/-- The zero value of a `chainRef`. -/
def ChainRef.zero : ChainRef := ⟨0, ""⟩

/-- Whether a metadata key was never written, is corrupt, or holds a reference. -/
inductive RefState
  | absent
  | malformed
  | valid
  deriving DecidableEq, Repr

/-- A snapshot of one audit chain. -/
structure ChainState where
  records : List AuditEvent
  head : ChainRef
  headState : RefState
  anchor : ChainRef
  anchorState : RefState
  allocator : UInt64
  deriving DecidableEq, Repr

/-- What verification can find wrong. The storage-key problems are found only in a bbolt
database. -/
inductive Problem
  | auditBucketMissing
  | metaBucketMissing
  | anchorMalformed
  | keyLength (key : List UInt8)
  | recordMalformed (key : List UInt8)
  | duplicated (seq : UInt64)
  | keyTimestamp (seq : UInt64)
  | keySequence (seq keySeq : UInt64)
  | gap (seq prevSeq : UInt64)
  | modified (seq : UInt64)
  | unlinked (seq : UInt64)
  | anchorUnlinked (seq anchorSeq : UInt64)
  | anchorGap (anchorSeq seq : UInt64)
  | dangling (seq : UInt64)
  | headMalformed
  | headNotAnchor
  | headMismatch (headSeq lastSeq : UInt64)
  | headMissing
  | prunedHeadMissing (anchorSeq : UInt64)
  | allocatorBelow (allocator evidence : UInt64)
  | allocatorNotHead (allocator headSeq : UInt64)
  deriving DecidableEq, Repr

/-- The result of a verification. -/
structure ChainReport where
  totalRecords : ℕ
  legacyRecords : ℕ
  chainedRecords : ℕ
  firstSeq : UInt64
  lastSeq : UInt64
  headHash : String
  anchorSeq : UInt64
  hasAnchor : Bool
  problems : List Problem
  deriving DecidableEq, Repr

/-- `Verified`: no problem was reported. -/
def ChainReport.verified (r : ChainReport) : Bool := r.problems.isEmpty

/-- The problem, when the check fails. -/
def reportIf (bad : Bool) (p : Problem) : List Problem := if bad then [p] else []

@[simp] theorem reportIf_eq_nil {bad : Bool} {p : Problem} :
    reportIf bad p = [] ↔ bad = false := by
  cases bad <;> simp [reportIf]

/-! ### The checks -/

variable (H : Digest)

/-- A legacy record, from before the chain, has no hash. -/
def AuditEvent.legacy (e : AuditEvent) : Bool := e.hash == ""

/-- `seq <= prevSeq` on a record that has a predecessor. -/
def duplicateProblems (prevSeq : Option UInt64) (seq : UInt64) : List Problem :=
  match prevSeq with
  | some p => reportIf (seq ≤ p) (.duplicated seq)
  | none => []

/-- The checks of a first record that is chained, against the anchor or against nothing. -/
def firstProblems (hasAnchor : Bool) (anchor : ChainRef) (legacyRecords : ℕ) (r : AuditEvent) :
    List Problem :=
  if hasAnchor then
    reportIf (r.prevHash != anchor.hash) (.anchorUnlinked r.seq anchor.seq) ++
      reportIf (r.seq != anchor.seq + 1 && legacyRecords == 0) (.anchorGap anchor.seq r.seq)
  else reportIf (r.prevHash != "") (.dangling r.seq)

/-- The checks of one record, given the record before it. -/
def recordProblems (hasAnchor : Bool) (anchor : ChainRef) (legacyRecords : ℕ)
    (prev : Option AuditEvent) (r : AuditEvent) : List Problem :=
  duplicateProblems (prev.map (·.seq)) r.seq ++
    if r.legacy then []
    else
      (match prev with
        | some p => reportIf (!p.legacy && r.seq != p.seq + 1) (.gap r.seq p.seq)
        | none => []) ++
      reportIf (canonicalAuditHash H r != r.hash) (.modified r.seq) ++
      (match prev with
        | some p => reportIf (r.prevHash != recordHash H p p.seq) (.unlinked r.seq)
        | none => firstProblems hasAnchor anchor legacyRecords r)

/-- The loop over the records in sequence order. -/
def scan (hasAnchor : Bool) (anchor : ChainRef) (legacyRecords : ℕ) :
    Option AuditEvent → List AuditEvent → List Problem
  | _, [] => []
  | prev, r :: rest =>
    recordProblems H hasAnchor anchor legacyRecords prev r ++
      scan hasAnchor anchor legacyRecords (some r) rest

/-- The checks of the stored head. `last` is the sequence and hash of the newest record, `none`
for an empty log. -/
def headProblems (hasAnchor : Bool) (anchor head : ChainRef) (headState : RefState)
    (last : Option ChainRef) (chainedRecords : ℕ) : List Problem :=
  match headState with
  | .malformed => [.headMalformed]
  | .valid =>
    match last with
    | none => reportIf (!hasAnchor || head != anchor) .headNotAnchor
    | some l => reportIf (head.seq != l.seq || head.hash != l.hash) (.headMismatch head.seq l.seq)
  | .absent =>
    reportIf (0 < chainedRecords) .headMissing ++
      reportIf (last.isNone && hasAnchor) (.prunedHeadMissing anchor.seq)

/-- The highest sequence the records and the metadata show was allocated. -/
def evidence (hasAnchor : Bool) (anchor head : ChainRef) (headState : RefState)
    (lastSeq : UInt64) : UInt64 :=
  let e := if hasAnchor ∧ anchor.seq > lastSeq then anchor.seq else lastSeq
  if headState = .valid ∧ head.seq > e then head.seq else e

def allocatorProblems (hasAnchor : Bool) (anchor head : ChainRef) (headState : RefState)
    (lastSeq : UInt64) (totalRecords chainedRecords : ℕ) (allocator : UInt64) : List Problem :=
  let e := evidence hasAnchor anchor head headState lastSeq
  reportIf (allocator < e) (.allocatorBelow allocator e) ++
    reportIf (headState == .valid && (0 < chainedRecords || totalRecords == 0)
      && allocator != head.seq) (.allocatorNotHead allocator head.seq)

/-- The head hash a report shows: of the newest record, or the stored head of an emptied log. -/
def reportHeadHash (last : Option ChainRef) (head : ChainRef) (headState : RefState) : String :=
  match last with
  | some l => l.hash
  | none => if headState = .valid then head.hash else ""

/-- Sequence order; the sort of the source is stable. -/
def bySeq (a b : AuditEvent) : Prop := a.seq ≤ b.seq

instance : DecidableRel bySeq := fun a b => inferInstanceAs (Decidable (a.seq ≤ b.seq))

/-- The reference a record is known by when it is the anchor or the head. -/
def AuditEvent.ref (r : AuditEvent) : ChainRef := ⟨r.seq, recordHash H r r.seq⟩

def verifyChainState (st : ChainState) : ChainReport :=
  let hasAnchor := st.anchorState == .valid
  let records := st.records.insertionSort bySeq
  let legacyRecords := records.countP (·.legacy)
  let chainedRecords := records.countP (!·.legacy)
  let last := records.getLast?.map (·.ref H)
  let lastSeq := (last.map (·.seq)).getD 0
  { totalRecords := records.length
    legacyRecords
    chainedRecords
    firstSeq := (records.head?.map (·.seq)).getD 0
    lastSeq
    headHash := reportHeadHash last st.head st.headState
    anchorSeq := if hasAnchor then st.anchor.seq else 0
    hasAnchor
    problems :=
      reportIf (st.anchorState == .malformed) .anchorMalformed ++
        scan H hasAnchor st.anchor legacyRecords none records ++
        headProblems hasAnchor st.anchor st.head st.headState last chainedRecords ++
        allocatorProblems hasAnchor st.anchor st.head st.headState lastSeq records.length
          chainedRecords st.allocator }

end NexaRoute.Audit
