import NexaRoute.Audit.Append
import NexaRoute.Go.Bucket

/-!
# The bbolt store

`verifyChainTx` and `appendAuditTx` of the embedded store. Records live in a bucket under 16-byte
keys, the timestamp in nanoseconds and then the sequence, so the cursor is timestamp-major and
verification sorts by sequence again. A legacy record has no stored sequence; its key's sequence
counts. A value that does not decode is `none` here.

The loop of `verifyChainTx` counts legacy records as it goes, where `verifyChainState` counts them
all beforehand.

## Main definitions

* `verifyChainTx`, `appendAuditTx` — the transactions of the embedded store
-/

namespace NexaRoute.Audit

open Go

/-- The chain keys of the meta bucket, and the bucket's sequence. A stored reference that does not
decode is `some none`. -/
structure MetaBucket where
  head : Option (Option ChainRef)
  anchor : Option (Option ChainRef)
  sequence : UInt64
  deriving DecidableEq

/-- A database, with the buckets that are there. -/
structure Bolt where
  auditBucket : Option (Bucket (List UInt8) (Option AuditEvent))
  metaBucket : Option MetaBucket
  deriving DecidableEq

def loadChainRefState : Option (Option ChainRef) → ChainRef × RefState
  | none => (.zero, .absent)
  | some none => (.zero, .malformed)
  | some (some ref) => if ref.hash = "" ∨ ref.seq = 0 then (.zero, .malformed) else (ref, .valid)

def auditKeySeq (key : List UInt8) : UInt64 :=
  if key.length ≠ 16 then 0 else uint64 (key.drop 8)

/-- The timestamp of a key, as the signed integer it was written from. -/
@[irreducible] def auditKeyTS (key : List UInt8) : ℤ :=
  Int.bmod (uint64 (key.take 8)).toNat (2 ^ 64)

def auditKey (timestamp : Time) (seq : UInt64) : List UInt8 :=
  putUint64 (UInt64.ofNat (unixNano timestamp % 2 ^ 64).toNat) ++ putUint64 seq

/-- A record with its key. -/
structure Stored where
  event : AuditEvent
  key : List UInt8
  deriving DecidableEq

/-- Chain order: the stored sequence, or the key's for a legacy record. -/
def Stored.seqOf (r : Stored) : UInt64 :=
  if r.event.hash ≠ "" then r.event.seq else auditKeySeq r.key

/-- Sequence order of stored records. -/
def Stored.le (a b : Stored) : Prop := a.seqOf ≤ b.seqOf

instance : DecidableRel Stored.le := fun a b => inferInstanceAs (Decidable (a.seqOf ≤ b.seqOf))

/-- One turn of the reading loop: a record, or why it cannot be verified. -/
def readEntry (entry : List UInt8 × Option AuditEvent) : Except Problem Stored :=
  if entry.1.length ≠ 16 then .error (.keyLength entry.1)
  else match entry.2 with
    | none => .error (.recordMalformed entry.1)
    | some event => .ok ⟨event, entry.1⟩

/-- The problem of an entry that cannot be read. -/
def entryProblem (entry : List UInt8 × Option AuditEvent) : Option Problem :=
  match readEntry entry with
  | .error p => some p
  | .ok _ => none

variable (H : Digest)

/-- The checks of one record, given the record before it and the legacy records so far. -/
def storedProblems (hasAnchor : Bool) (anchor : ChainRef) (legacyRecords : ℕ)
    (prev : Option Stored) (r : Stored) : List Problem :=
  duplicateProblems (prev.map (·.seqOf)) r.seqOf ++
    reportIf (auditKeyTS r.key != unixNano r.event.timestamp) (.keyTimestamp r.seqOf) ++
    reportIf (!r.event.legacy && r.event.seq != auditKeySeq r.key)
      (.keySequence r.event.seq (auditKeySeq r.key)) ++
    if r.event.legacy then []
    else
      (match prev with
        | some p => reportIf (!p.event.legacy && r.seqOf != p.seqOf + 1) (.gap r.seqOf p.seqOf)
        | none => []) ++
      reportIf (canonicalAuditHash H r.event != r.event.hash) (.modified r.seqOf) ++
      (match prev with
        | some p => reportIf (r.event.prevHash != recordHash H p.event (auditKeySeq p.key))
            (.unlinked r.seqOf)
        | none => firstProblems hasAnchor anchor legacyRecords r.event)

/-- The loop over the records in sequence order, counting legacy records as it goes. -/
def scanTx (hasAnchor : Bool) (anchor : ChainRef) :
    ℕ → Option Stored → List Stored → List Problem
  | _, _, [] => []
  | legacyRecords, prev, r :: rest =>
    storedProblems H hasAnchor anchor legacyRecords prev r ++
      scanTx hasAnchor anchor (if r.event.legacy then legacyRecords + 1 else legacyRecords)
        (some r) rest

def Stored.ref (r : Stored) : ChainRef := ⟨r.seqOf, recordHash H r.event (auditKeySeq r.key)⟩

/-- The report on the records of an audit bucket. -/
def verifyRecordsTx (entries : List (List UInt8 × Option AuditEvent)) (anchor : ChainRef)
    (hasAnchor : Bool) (missing : List Problem) (metaBucket : Option MetaBucket) : ChainReport :=
  let unread := entries.filterMap entryProblem
  let records := (entries.filterMap fun e => (readEntry e).toOption).insertionSort Stored.le
  let chainedRecords := records.countP (!·.event.legacy)
  let last := records.getLast?.map (·.ref H)
  let lastSeq := (last.map (·.seq)).getD 0
  let report : ChainReport :=
    { totalRecords := entries.length
      legacyRecords := records.countP (·.event.legacy)
      chainedRecords
      firstSeq := (records.head?.map (·.seqOf)).getD 0
      lastSeq
      headHash := (last.map (·.hash)).getD ""
      anchorSeq := if hasAnchor then anchor.seq else 0
      hasAnchor
      problems := missing ++ unread ++ scanTx H hasAnchor anchor 0 none records }
  match metaBucket with
  | none => report
  | some m =>
    let head := loadChainRefState m.head
    { report with
      headHash := reportHeadHash last head.1 head.2
      problems := report.problems ++
        headProblems hasAnchor anchor head.1 head.2 last chainedRecords ++
        allocatorProblems hasAnchor anchor head.1 head.2 lastSeq entries.length chainedRecords
          m.sequence }

def verifyChainTx (db : Bolt) : ChainReport :=
  let anchor := match db.metaBucket with
    | none => (ChainRef.zero, RefState.absent)
    | some m => loadChainRefState m.anchor
  let hasAnchor := anchor.2 == .valid
  let missing := reportIf db.auditBucket.isNone .auditBucketMissing ++
    reportIf db.metaBucket.isNone .metaBucketMissing ++
    reportIf (anchor.2 == .malformed) .anchorMalformed
  match db.auditBucket with
  | none =>
    { totalRecords := 0, legacyRecords := 0, chainedRecords := 0, firstSeq := 0, lastSeq := 0
      headHash := "", anchorSeq := if hasAnchor then anchor.1.seq else 0, hasAnchor
      problems := missing }
  | some b => verifyRecordsTx H b.entries anchor.1 hasAnchor missing db.metaBucket

/-! ### Appending -/

/-- What pruning reads of a key. -/
structure KeyInfo where
  key : List UInt8
  seq : UInt64
  ts : ℤ
  deriving DecidableEq

/-- Sequence order of keys. -/
def KeyInfo.le (a b : KeyInfo) : Prop := a.seq ≤ b.seq

instance : DecidableRel KeyInfo.le := fun a b => inferInstanceAs (Decidable (a.seq ≤ b.seq))

instance : Std.Total KeyInfo.le := ⟨fun a b => UInt64.le_total a.seq b.seq⟩

instance : IsTrans KeyInfo KeyInfo.le := ⟨fun _ _ _ => UInt64.le_trans⟩

/-- The key of an entry, read. -/
def keyInfo (entry : List UInt8 × Option AuditEvent) : KeyInfo :=
  ⟨entry.1, auditKeySeq entry.1, auditKeyTS entry.1⟩

/-- The pruning loop: delete the keys in order and keep the reference of the last one. -/
def pruneLoop : List KeyInfo → Bucket (List UInt8) (Option AuditEvent) → Option ChainRef →
    Except AppendError (Bucket (List UInt8) (Option AuditEvent) × Option ChainRef)
  | [], audit, pruned => .ok (audit, pruned)
  | info :: infos, audit, _ =>
    match audit.get info.key with
    | some (some old) =>
      pruneLoop infos (audit.delete info.key) (some ⟨info.seq, recordHash H old info.seq⟩)
    | _ => .error .malformedRecord

/-- What a transaction leaves: the record it appended, the keys it deleted in order, and the
buckets. -/
structure TxResult where
  event : AuditEvent
  deleted : List (List UInt8)
  auditBucket : Bucket (List UInt8) (Option AuditEvent)
  metaBucket : MetaBucket
  deriving DecidableEq

/-- The part of `appendAuditTx` that writes, once the record is sealed. -/
def putRecord (audit : Bucket (List UInt8) (Option AuditEvent)) (m : MetaBucket)
    (event : AuditEvent) (maxAuditItems : ℕ) (cutoff : ℤ) : Except AppendError TxResult :=
  if !marshals event then .error .marshal
  else
    let audit := audit.put (auditKey event.timestamp event.seq) (some event)
    if audit.entries.any (·.1.length != 16) then .error .invalidKey
    else
      let infos := (audit.entries.map keyInfo).insertionSort KeyInfo.le
      let toDelete := pruneCount cutoff maxAuditItems (infos.map fun i => ⟨i.seq, i.ts⟩)
      let deleted := infos.take toDelete
      match pruneLoop H deleted audit none with
      | .error err => .error err
      | .ok (audit, pruned) =>
        let appended : ChainRef := ⟨event.seq, event.hash⟩
        .ok
          { event
            deleted := deleted.map (·.key)
            auditBucket := audit
            metaBucket :=
              { head := some (some (if toDelete = infos.length then pruned.getD appended
                  else appended))
                anchor := (pruned.map some).or m.anchor
                sequence := event.seq } }

def appendAuditTx (db : Bolt) (event : AuditEvent) (maxAuditItems : ℕ) (retention : Duration)
    (clock now : Time) : Except AppendError TxResult :=
  match sanitizeAuditEvent event clock with
  | none => .error .invalidAudit
  | some event => do
    let report := verifyChainTx H db
    let m := db.metaBucket.getD ⟨none, none, 0⟩
    appendGate report (loadChainRefState m.head).2 (loadChainRefState m.anchor).2
    match db.auditBucket with
    | none => .error .invalidKey -- not reached: a missing bucket is a problem of the report
    | some audit =>
      putRecord H audit m (newRecord H event m.sequence report.headHash) maxAuditItems
        (unixNano (now - retention))

end NexaRoute.Audit
