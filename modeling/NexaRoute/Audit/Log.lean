import NexaRoute.Audit.Bolt
import NexaRoute.Audit.Rules

/-!
# The two verifiers

The network stores verify a snapshot, the embedded store its database. The two are meant to give
one verdict on the same records and metadata. An `AuditLog` is a bucket whose keys are what the
store writes, so that the storage-key checks have nothing to say, and `chainState` is the snapshot
of such a database. The reports then differ in one rule only: the embedded store meets the first
record before it has counted any legacy record, so that nothing excuses a gap after the anchor.

## Main results

* `verifyChainTx_eq` — the report of the embedded store from that of the snapshot
-/

namespace NexaRoute.Audit

open Go List Stored

structure Stored.WellKeyed (r : Stored) : Prop where
  length : r.key.length = 16
  timestamp : auditKeyTS r.key = unixNano r.event.timestamp
  seq : r.event.hash ≠ "" → r.event.seq = auditKeySeq r.key

/-- The records of an audit bucket in cursor order, under their own keys. -/
structure AuditLog where
  stored : List Stored
  wellKeyed : ∀ r ∈ stored, r.WellKeyed
  nodup : (stored.map (·.key)).Nodup

open AuditLog

/-- A record as the network stores hold it: a legacy record has the sequence of its key. -/
def Stored.record (r : Stored) : AuditEvent := { r.event with seq := r.seqOf }

def Stored.entry (r : Stored) : List UInt8 × Option AuditEvent := (r.key, some r.event)

namespace AuditLog

def bucket (log : AuditLog) : Bucket (List UInt8) (Option AuditEvent) where
  entries := log.stored.map Stored.entry
  nodup := by
    rw [List.map_map]
    exact log.nodup

/-- The database with that bucket. -/
def db (log : AuditLog) (m : MetaBucket) : Bolt := ⟨some log.bucket, some m⟩

/-- The snapshot of the database. -/
def chainState (log : AuditLog) (m : MetaBucket) : ChainState where
  records := log.stored.map Stored.record
  head := (loadChainRefState m.head).1
  headState := (loadChainRefState m.head).2
  anchor := (loadChainRefState m.anchor).1
  anchorState := (loadChainRefState m.anchor).2
  allocator := m.sequence

end AuditLog

variable {H : Digest} {log : AuditLog} {m : MetaBucket} {r p : Stored} {l : List Stored}

/-! ### Records -/

theorem Stored.record_seq (r : Stored) : r.record.seq = r.seqOf := rfl

theorem Stored.record_of_chained (hc : r.event.hash ≠ "") : r.record = r.event := by
  have : r.seqOf = r.event.seq := if_pos hc
  rw [record, this]

namespace Stored.WellKeyed

theorem seqOf (h : r.WellKeyed) : r.seqOf = auditKeySeq r.key := by
  rw [Stored.seqOf]
  split
  · exact h.seq ‹_›
  · rfl

theorem recordHash (h : r.WellKeyed) :
    Audit.recordHash H r.event (auditKeySeq r.key) = Audit.recordHash H r.record r.record.seq := by
  rw [record_seq, h.seqOf]
  rfl

theorem ref (h : r.WellKeyed) : r.ref H = r.record.ref H := by
  rw [Stored.ref, h.recordHash]
  rfl

end Stored.WellKeyed

theorem storedProblems_eq (h : r.WellKeyed) {prev : Option Stored}
    (hp : ∀ p ∈ prev, p.WellKeyed) (hasAnchor : Bool) (anchor : ChainRef) (n : ℕ) :
    storedProblems H hasAnchor anchor n prev r =
      recordProblems H hasAnchor anchor n (prev.map record) r.record := by
  have hts : (auditKeyTS r.key != unixNano r.event.timestamp) = false := by simp [h.timestamp]
  have hseq : (!r.event.legacy && r.event.seq != auditKeySeq r.key) = false := by
    by_cases hl : r.event.hash = ""
    · simp [AuditEvent.legacy, hl]
    · simp [h.seq hl]
  have hok : ∀ q, reportIf false q = [] := fun _ => rfl
  unfold storedProblems recordProblems
  rw [hts, hseq, hok, hok, append_nil, append_nil, Option.map_map]
  refine congrArg₂ (· ++ ·) rfl ?_
  by_cases hl : r.event.legacy = true
  · have hl' : r.record.legacy = true := hl
    rw [if_pos hl, if_pos hl']
  · have hl' : ¬r.record.legacy = true := hl
    have hc : r.event.hash ≠ "" := by simpa [AuditEvent.legacy] using hl
    rw [if_neg hl, if_neg hl', record_of_chained hc]
    have hseqOf : r.seqOf = r.event.seq := if_pos hc
    cases prev with
    | none => rw [hseqOf]; rfl
    | some p =>
      have hrec : recordHash H p.event (auditKeySeq p.key) = recordHash H p.record p.record.seq :=
        (hp p rfl).recordHash
      simp only [hseqOf, hrec, Option.map_some]
      rfl

theorem scanTx_some (hl : ∀ r ∈ l, r.WellKeyed) (hp : p.WellKeyed) (hasAnchor : Bool)
    (anchor : ChainRef) (n k : ℕ) :
    scanTx H hasAnchor anchor n (some p) l =
      scan H hasAnchor anchor k (some p.record) (l.map record) := by
  induction l generalizing p n with
  | nil => rfl
  | cons r l ih =>
    have hr := hl r (mem_cons_self ..)
    rw [scanTx, map_cons, scan, ih (fun q hq => hl q (mem_cons_of_mem r hq)) hr,
      storedProblems_eq hr fun q hq => Option.some.inj hq ▸ hp]
    rfl

theorem scanTx_none (hl : ∀ r ∈ l, r.WellKeyed) (hasAnchor : Bool) (anchor : ChainRef) :
    scanTx H hasAnchor anchor 0 none l =
      scan H hasAnchor anchor 0 none (l.map record) := by
  cases l with
  | nil => rfl
  | cons r l =>
    have hr := hl r (mem_cons_self ..)
    rw [scanTx, map_cons, scan, storedProblems_eq hr (by simp),
      scanTx_some (fun q hq => hl q (mem_cons_of_mem r hq)) hr]
    rfl

/-! ### Reports -/

namespace AuditLog

/-- The records in sequence order. -/
def sorted (log : AuditLog) : List Stored := log.stored.insertionSort Stored.le

theorem wellKeyed_of_mem_sorted (h : r ∈ log.sorted) : r.WellKeyed :=
  log.wellKeyed r ((mem_insertionSort le).mp h)

theorem map_record_sorted : log.sorted.map record = (log.chainState m).sorted :=
  map_insertionSort le bySeq record log.stored fun _ _ _ _ => Iff.rfl

theorem readEntry_entry (hr : r ∈ log.stored) : readEntry r.entry = .ok r := by
  simp [readEntry, entry, (log.wellKeyed r hr).length]

theorem read_eq : (log.bucket.entries.filterMap fun e => (readEntry e).toOption) = log.stored := by
  change (log.stored.map entry).filterMap _ = _
  rw [filterMap_map, filterMap_congr fun r hr => ?_, filterMap_some]
  rw [Function.comp_apply, readEntry_entry hr]
  rfl

theorem unread_eq_nil : log.bucket.entries.filterMap entryProblem = [] := by
  change (log.stored.map entry).filterMap _ = _
  rw [filterMap_map, filterMap_eq_nil_iff]
  intro r hr
  rw [Function.comp_apply, entryProblem, readEntry_entry hr]

theorem getLast?_ref_sorted :
    log.sorted.getLast?.map (·.ref H) = (log.chainState m).sorted.getLast?.map (·.ref H) := by
  rw [← map_record_sorted, getLast?_map, Option.map_map]
  exact Option.map_congr fun r hr => (wellKeyed_of_mem_sorted (mem_of_getLast? hr)).ref

theorem countP_sorted (f : AuditEvent → Bool) (hf : ∀ r : Stored, f r.record = f r.event) :
    log.sorted.countP (fun r => f r.event) = (log.chainState m).sorted.countP f := by
  rw [← map_record_sorted, countP_map]
  exact countP_congr fun r _ => by rw [Function.comp_apply, hf]

theorem length_entries : log.bucket.entries.length = (log.chainState m).sorted.length := by
  rw [← map_record_sorted]
  simp [bucket, sorted]

theorem scanTx_sorted (hasAnchor : Bool) (anchor : ChainRef) :
    scanTx H hasAnchor anchor 0 none log.sorted =
      scan H hasAnchor anchor 0 none (log.chainState m).sorted := by
  rw [scanTx_none fun r => wellKeyed_of_mem_sorted, map_record_sorted]

end AuditLog

/-- **The report of the embedded store**: that of the snapshot, with the rule against a gap after
the anchor applied without exception. -/
theorem verifyChainTx_eq :
    verifyChainTx H (log.db m) =
      { verifyChainState H (log.chainState m) with
        problems := problemsWith H (log.chainState m) 0 } := by
  have hfirst : log.sorted.head?.map (·.seqOf) = (log.chainState m).sorted.head?.map (·.seq) := by
    rw [← map_record_sorted, head?_map, Option.map_map]
    rfl
  have hsorted : log.stored.insertionSort le = log.sorted := rfl
  change verifyRecordsTx H log.bucket.entries (log.chainState m).anchor
    ((log.chainState m).anchorState == .valid)
    (reportIf ((log.chainState m).anchorState == .malformed) .anchorMalformed) (some m) = _
  simp only [verifyRecordsTx, read_eq, unread_eq_nil, append_nil, hsorted,
    scanTx_sorted (m := m), getLast?_ref_sorted (m := m), hfirst,
    length_entries (m := m), countP_sorted (m := m) (·.legacy) fun _ => rfl,
    countP_sorted (m := m) (!·.legacy) fun _ => rfl]
  rfl

end NexaRoute.Audit
