import NexaRoute.Audit.Log
import NexaRoute.Audit.Settle

/-!
# Backend parity

The embedded store and the network stores are meant to do the same with the same log: give one
verdict, take or refuse the same events and, for an event they take, append one record, prune the
same sequences and store the same metadata. They do so outside three cases.

* The gap after the anchor of a log whose first record is chained is excused by a later legacy
  record in the network stores only.
* When the sequence counter wraps onto a sequence that is still stored, a record with the
  timestamp of the old one takes its key in the embedded store; the network stores count both.
* An event of a year that has no JSON text is refused by the embedded store, which marshals it, and
  planned by the network stores.

## Main results

* `parity_iff` — the logs on which the backends agree about every event that marshals
-/

namespace NexaRoute.Audit

open Go List Stored AuditLog

variable {H : Digest} {log : AuditLog} {m : MetaBucket} {r : Stored} {e : AuditEvent}

variable {maxAuditItems : ℕ} {res : TxResult}

/-! ### The new record under its key -/

theorem length_auditKey (t : Time) (s : UInt64) : (auditKey t s).length = 16 := by
  simp [auditKey]

theorem auditKeySeq_auditKey (t : Time) (s : UInt64) : auditKeySeq (auditKey t s) = s := by
  rw [auditKeySeq, if_neg (not_not.mpr (length_auditKey t s)), auditKey,
    drop_left' (length_putUint64 _), uint64_putUint64]

theorem bmod_ofNat_emod {n : ℤ} (h : -2 ^ 63 ≤ n) (h' : n < 2 ^ 63) :
    Int.bmod (UInt64.ofNat (n % 2 ^ 64).toNat).toNat (2 ^ 64) = n := by
  obtain ⟨k, hk⟩ : ∃ k : ℕ, n % 2 ^ 64 = k := Int.eq_ofNat_of_zero_le (by omega)
  rw [hk, Int.toNat_natCast, UInt64.toNat_ofNat', Nat.mod_eq_of_lt (by omega), Int.bmod]
  split <;> omega

theorem auditKeyTS_auditKey (t : Time) (s : UInt64) :
    auditKeyTS (auditKey t s) = unixNano t := by
  have hread : uint64 ((auditKey t s).take 8) = UInt64.ofNat (unixNano t % 2 ^ 64).toNat := by
    unfold auditKey
    generalize UInt64.ofNat (unixNano t % 2 ^ 64).toNat = n
    rw [take_left' (length_putUint64 n), uint64_putUint64]
  have hback := bmod_ofNat_emod (le_unixNano t) (unixNano_lt t)
  unfold auditKeyTS
  rw [hread]
  exact hback

/-- The record about to be written, with its key. -/
def newStored (e : AuditEvent) : Stored := ⟨e, auditKey e.timestamp e.seq⟩

theorem newStored_wellKeyed : (newStored e).WellKeyed where
  length := length_auditKey _ _
  timestamp := auditKeyTS_auditKey _ _
  seq := fun _ => (auditKeySeq_auditKey _ _).symm

/-- The records after the write, in sequence order. -/
def AuditLog.written (log : AuditLog) (e : AuditEvent) : List Stored :=
  (log.stored ++ [newStored e]).insertionSort Stored.le

/-- The new record has a sequence of its own, and so has every other. -/
def AuditLog.Distinct (log : AuditLog) (e : AuditEvent) : Prop :=
  ((log.stored ++ [newStored e]).map (·.seqOf)).Nodup

theorem Stored.WellKeyed.keyInfo_entry (h : r.WellKeyed) :
    keyInfo r.entry = ⟨r.key, r.seqOf, unixNano r.event.timestamp⟩ := by
  unfold keyInfo entry
  rw [h.seqOf, h.timestamp]

theorem newStored_seqOf (e : AuditEvent) : (newStored e).seqOf = e.seq := by
  rw [newStored_wellKeyed.seqOf]
  exact auditKeySeq_auditKey _ _

namespace AuditLog

theorem Distinct.stored (hd : log.Distinct e) : (log.stored.map (·.seqOf)).Nodup := by
  rw [Distinct, map_append] at hd
  exact (nodup_append.mp hd).1

theorem Distinct.ne (hd : log.Distinct e) (hr : r ∈ log.stored) : r.seqOf ≠ e.seq := by
  rw [Distinct, map_append] at hd
  rw [← newStored_seqOf e]
  exact (nodup_append.mp hd).2.2 _ (mem_map_of_mem hr) _ (by simp)

theorem mem_written : r ∈ log.written e ↔ r ∈ log.stored ++ [newStored e] :=
  mem_insertionSort le

theorem wellKeyed_of_mem_append (hr : r ∈ log.stored ++ [newStored e]) : r.WellKeyed := by
  rcases mem_append.mp hr with hr | hr
  · exact log.wellKeyed r hr
  · rw [mem_singleton.mp hr]
    exact newStored_wellKeyed

/-! ### Planning -/

theorem sort_seqTS (he : e.hash ≠ "") :
    ((log.chainState m).records.map (·.seqTS) ++ [e.seqTS]).insertionSort SeqTS.le =
      (log.written e).map (·.record.seqTS) := by
  have hnew : (newStored e).record = e := record_of_chained he
  have hlist : (log.chainState m).records.map (·.seqTS) ++ [e.seqTS] =
      (log.stored ++ [newStored e]).map (·.record.seqTS) := by
    rw [map_append, map_singleton, hnew]
    simp [chainState]
  rw [hlist, written]
  exact (map_insertionSort le SeqTS.le (·.record.seqTS) _ fun _ _ _ _ => Iff.rfl).symm

theorem prunedRef_written (hd : log.Distinct e) (he : e.hash ≠ "") (hr : r ∈ log.written e) :
    prunedRef H (log.chainState m).records e r.seqOf = r.ref H := by
  have hwk := wellKeyed_of_mem_append (mem_written.mp hr)
  have hnodup : ((log.chainState m).records.map (·.seq)).Nodup := by
    simpa [chainState, Function.comp_def, record_seq] using hd.stored
  have hget : ((log.chainState m).records.reverse.find? (·.seq == r.seqOf)).getD e = r.record := by
    rcases mem_append.mp (mem_written.mp hr) with hmem | hmem
    · have hrec : r.record ∈ (log.chainState m).records := mem_map_of_mem hmem
      have := Keyed.find?_reverse_eq_some hnodup hrec
      rw [show (r.record.seq) = r.seqOf from rfl] at this
      rw [this, Option.getD_some]
    · have hnew := mem_singleton.mp hmem
      rw [hnew, record_of_chained he, find?_eq_none.mpr]
      · rfl
      · intro x hx
        obtain ⟨q, hq, rfl⟩ := mem_map.mp (mem_reverse.mp hx)
        simpa [newStored_seqOf, record_seq] using hd.ne hq
  rw [prunedRef, hget, hwk.ref]
  rfl

/-- The newest record among the first `k` after the write. -/
def newest (H : Digest) (log : AuditLog) (e : AuditEvent) (k : ℕ) : Option ChainRef :=
  ((log.written e).take k).getLast?.map (·.ref H)

/-- How many records leave. -/
def toDelete (log : AuditLog) (e : AuditEvent) (maxAuditItems : ℕ) (cutoff : ℤ) : ℕ :=
  pruneCount cutoff maxAuditItems ((log.written e).map (·.record.seqTS))

variable {cutoff : ℤ} {k : ℕ}

theorem planPrune_log (hd : log.Distinct e) (he : e.hash ≠ "")
    (hk : log.toDelete e maxAuditItems cutoff = k) :
    planPrune H (log.chainState m) e maxAuditItems cutoff =
      { event := e
        prunedSeqs := ((log.written e).take k).map (·.seqOf)
        head := if k = (log.written e).length then (log.newest H e k).getD ⟨e.seq, e.hash⟩
          else ⟨e.seq, e.hash⟩
        anchor := (log.newest H e k).getD
          (if (log.chainState m).anchorState = .valid then (log.chainState m).anchor else .zero)
        hasAnchor := (log.newest H e k).isSome || (log.chainState m).anchorState == .valid
        allocator := e.seq } := by
  subst hk
  have hseqs : ∀ k, (((log.written e).map (·.record.seqTS)).take k).map (·.seq) =
      ((log.written e).take k).map (·.seqOf) := by
    intro k
    rw [← map_take, map_map]
    rfl
  have hnewest : ∀ k, (((log.written e).take k).map (·.seqOf)).getLast?.map
      (prunedRef H (log.chainState m).records e) = log.newest H e k := by
    intro k
    rw [getLast?_map, Option.map_map, newest]
    refine Option.map_congr fun r hr => ?_
    exact prunedRef_written hd he (mem_of_mem_take (mem_of_getLast? hr))
  simp only [planPrune, sort_seqTS he, hseqs, hnewest, length_map]
  rfl

/-! ### Writing -/

theorem key_notMem (hd : log.Distinct e) :
    (newStored e).key ∉ log.bucket.entries.map Prod.fst := by
  intro hmem
  obtain ⟨x, hx, hkey⟩ := mem_map.mp hmem
  obtain ⟨r, hr, rfl⟩ := mem_map.mp hx
  have hk : r.key = (newStored e).key := hkey
  refine hd.ne hr ?_
  rw [(log.wellKeyed r hr).seqOf, hk, ← newStored_wellKeyed.seqOf, newStored_seqOf]

theorem perm_put_entries (hd : log.Distinct e) :
    (log.bucket.put (newStored e).key (some e)).entries.Perm
      ((log.stored ++ [newStored e]).map entry) := by
  refine (Bucket.perm_put_of_notMem (key_notMem hd)).trans ?_
  rw [map_append, map_singleton]
  exact (perm_append_singleton _ _).symm

theorem sort_keyInfo (hd : log.Distinct e) :
    ((log.bucket.put (newStored e).key (some e)).entries.map keyInfo).insertionSort KeyInfo.le =
      (log.written e).map (fun r => keyInfo r.entry) := by
  have hseq : ∀ r ∈ log.stored ++ [newStored e], (keyInfo r.entry).seq = r.seqOf :=
    fun r hr => (wellKeyed_of_mem_append hr).seqOf.symm
  rw [written, map_insertionSort le KeyInfo.le (fun r => keyInfo r.entry)]
  · refine (Keyed.insertionSort_eq_of_perm ?_ ?_).symm
    · have := ((perm_put_entries hd).map keyInfo).symm
      rwa [map_map] at this
    · intro a ha b hb hab hba
      obtain ⟨r, hr, rfl⟩ := mem_map.mp ha
      obtain ⟨q, hq, rfl⟩ := mem_map.mp hb
      have hrq : r.seqOf = q.seqOf := by
        rw [← hseq r hr, ← hseq q hq]
        exact UInt64.le_antisymm hab hba
      rw [Keyed.eq_of_key_eq hd hr hq hrq]
  · intro r hr q hq
    rw [KeyInfo.le, hseq r hr, hseq q hq]
    rfl

end AuditLog

theorem pruneLoop_ok {l : List Stored} {audit : Bucket (List UInt8) (Option AuditEvent)}
    (hwk : ∀ r ∈ l, r.WellKeyed) (hmem : ∀ r ∈ l, r.entry ∈ audit.entries)
    (hnodup : (l.map (·.key)).Nodup) (pruned : Option ChainRef) :
    ∃ audit', pruneLoop H (l.map fun r => keyInfo r.entry) audit pruned =
      .ok (audit', (l.getLast?.map (·.ref H)).or pruned) := by
  induction l generalizing audit pruned with
  | nil => exact ⟨audit, rfl⟩
  | cons r l ih =>
    have hget : audit.get r.key = some (some r.event) :=
      Bucket.get_of_mem (hmem r (mem_cons_self ..))
    have href : (⟨auditKeySeq r.key, recordHash H r.event (auditKeySeq r.key)⟩ : ChainRef)
        = r.ref H := by
      rw [ref, (hwk r (mem_cons_self ..)).seqOf]
    rw [map_cons, nodup_cons] at hnodup
    have hrest : ∀ q ∈ l, q.entry ∈ (audit.delete r.key).entries := by
      intro q hq
      have hne : q.key ≠ r.key := fun hk => hnodup.1 (hk ▸ mem_map_of_mem hq)
      exact mem_filter.mpr ⟨hmem q (mem_cons_of_mem r hq), by simp [entry, hne]⟩
    obtain ⟨audit', hloop⟩ := ih (fun q hq => hwk q (mem_cons_of_mem r hq)) hrest hnodup.2
      (some (r.ref H))
    refine ⟨audit', ?_⟩
    have hlast : ((r :: l).getLast?.map (·.ref H)).or pruned =
        (l.getLast?.map (·.ref H)).or (some (r.ref H)) := by
      rw [getLast?_cons]
      cases l.getLast? <;> rfl
    rw [map_cons, pruneLoop]
    simp only [keyInfo, entry, hget, href]
    rw [hlast, ← hloop]
    rfl

namespace AuditLog

theorem nodup_written_key (hd : log.Distinct e) : ((log.written e).map (·.key)).Nodup := by
  have hperm : ((log.written e).map entry).Perm
      (log.bucket.put (newStored e).key (some e)).entries :=
    ((perm_insertionSort le _).map entry).trans (perm_put_entries hd).symm
  have := (hperm.map Prod.fst).nodup_iff.mpr (Bucket.nodup _)
  rwa [map_map] at this

theorem map_seqTS_written :
    ((log.written e).map fun r => keyInfo r.entry).map (fun i => (⟨i.seq, i.ts⟩ : SeqTS)) =
      (log.written e).map (·.record.seqTS) := by
  rw [map_map]
  refine map_congr_left fun r hr => ?_
  rw [Function.comp_apply, (wellKeyed_of_mem_append (mem_written.mp hr)).keyInfo_entry]
  rfl

theorem putRecord_log (hd : log.Distinct e) (hm : marshals e = true)
    (hk : log.toDelete e maxAuditItems cutoff = k) :
    ∃ audit', putRecord H log.bucket m e maxAuditItems cutoff = .ok
      { event := e
        deleted := ((log.written e).take k).map (·.key)
        auditBucket := audit'
        metaBucket :=
          { head := some (some (if k = (log.written e).length
              then (log.newest H e k).getD ⟨e.seq, e.hash⟩ else ⟨e.seq, e.hash⟩))
            anchor := ((log.newest H e k).map some).or m.anchor
            sequence := e.seq } } := by
  have hkeys : (log.bucket.put (newStored e).key (some e)).entries.any (·.1.length != 16)
      = false := by
    rw [any_eq_false]
    intro x hx
    obtain ⟨r, hr, rfl⟩ := mem_map.mp ((perm_put_entries hd).mem_iff.mp hx)
    simp [entry, (wellKeyed_of_mem_append hr).length]
  have hput : log.bucket.put (auditKey e.timestamp e.seq) (some e) =
      log.bucket.put (newStored e).key (some e) := rfl
  have hsub : ((log.written e).take k).Sublist (log.written e) := take_sublist _ _
  obtain ⟨audit', hloop⟩ := pruneLoop_ok (H := H)
    (fun r hr => wellKeyed_of_mem_append (mem_written.mp (hsub.subset hr)))
    (fun r hr => (perm_put_entries hd).mem_iff.mpr
      (mem_map_of_mem (mem_written.mp (hsub.subset hr))))
    ((nodup_written_key hd).sublist (hsub.map _)) none
  refine ⟨audit', ?_⟩
  have hcount : pruneCount cutoff maxAuditItems ((log.written e).map (·.record.seqTS)) = k := hk
  have hnewest : (((log.written e).take k).getLast?.map (·.ref H)).or none = log.newest H e k :=
    Option.or_none
  have hdeleted : (((log.written e).take k).map fun r => keyInfo r.entry).map (·.key) =
      ((log.written e).take k).map (·.key) := by
    rw [map_map]
    rfl
  simp only [putRecord, hm, Bool.not_true, Bool.false_eq_true, if_false, hput, hkeys,
    sort_keyInfo hd, map_seqTS_written, hcount, ← map_take, hloop, hnewest, length_map,
    hdeleted]

end AuditLog

/-! ### Parity -/

/-- The two appends did the same. -/
structure SameAppend (m : MetaBucket) (plan : AppendPlan) (res : TxResult) : Prop where
  event : res.event = plan.event
  pruned : res.deleted.map auditKeySeq = plan.prunedSeqs
  head : res.metaBucket.head = some (some plan.head)
  anchor : res.metaBucket.anchor = if plan.hasAnchor then some (some plan.anchor) else m.anchor
  allocator : res.metaBucket.sequence = plan.allocator

/-- Both stores refuse an event, or both take it and do the same. -/
structure SameAnswer (m : MetaBucket) (planned : Except AppendError AppendPlan)
    (written : Except AppendError TxResult) : Prop where
  accepts : (∃ plan, planned = .ok plan) ↔ ∃ res, written = .ok res
  append : ∀ plan res, planned = .ok plan → written = .ok res → SameAppend m plan res

/-- An event that is refused as it stands, or has a timestamp that marshals. -/
def Dated (event : AuditEvent) (clock : Time) : Prop :=
  ∀ e, sanitizeAuditEvent event clock = some e → marshals e = true

/-- One verdict, and one answer to every event that marshals. -/
structure Parity (H : Digest) (log : AuditLog) (m : MetaBucket) : Prop where
  verdict : (verifyChainTx H (log.db m)).verified =
    (verifyChainState H (log.chainState m)).verified
  append : ∀ event maxAuditItems retention clock now, Dated event clock →
    SameAnswer m
      (planAuditAppend H (log.chainState m) event maxAuditItems retention clock now)
      (appendAuditTx H (log.db m) event maxAuditItems retention clock now)

/-- The first record is chained and not right after the anchor, and a later one is legacy. -/
def MaskedGap (st : ChainState) : Prop := AnchorGap st ∧ ∃ r ∈ st.sorted, r.hash = ""

/-- The next sequence is that of a stored record, in a log an append is not refused to. -/
def WrapsOnto (st : ChainState) : Prop :=
  (∃ r ∈ st.records, r.seq = st.allocator + 1) ∧ ¬AnchorGap st ∧
    ((∃ r ∈ st.records, r.hash ≠ "") ∨ (st.headState = .absent ∧ st.anchorState = .absent))

theorem appendGate_eq_ok {report : ChainReport} {headState anchorState : RefState} :
    appendGate report headState anchorState = .ok () ↔ report.problems = [] ∧
      (report.totalRecords = 0 → (headState = .absent ∧ anchorState = .absent) ∨
        (headState = .valid ∧ anchorState = .valid)) ∧
      (report.totalRecords ≠ 0 → report.chainedRecords = 0 →
        headState = .absent ∧ anchorState = .absent) := by
  cases hp : report.problems with
  | cons p l => simp [appendGate, hp]
  | nil =>
    by_cases ht : report.totalRecords = 0
    · cases headState <;> cases anchorState <;> simp [appendGate, hp, ht]
    · by_cases hc : report.chainedRecords = 0
      · cases headState <;> cases anchorState <;> simp [appendGate, hp, ht]
      · simp [appendGate, hp, ht]

theorem planAuditAppend_eq_ok {st : ChainState} {event : AuditEvent} {retention : Duration}
    {clock now : Time} {plan : AppendPlan} :
    planAuditAppend H st event maxAuditItems retention clock now = .ok plan ↔
      ∃ e, sanitizeAuditEvent event clock = some e ∧
        appendGate (verifyChainState H st) st.headState st.anchorState = .ok () ∧
        plan = planPrune H st (newRecord H e st.allocator (verifyChainState H st).headHash)
          maxAuditItems (unixNano (now - retention)) := by
  cases hs : sanitizeAuditEvent event clock with
  | none => simp [planAuditAppend, hs]
  | some e =>
    cases hg : appendGate (verifyChainState H st) st.headState st.anchorState with
    | error err => simp [planAuditAppend, hs, hg]
    | ok u =>
      simp only [planAuditAppend, hs, hg, bind, Except.bind, pure, Except.pure, Except.ok.injEq,
        Option.some.injEq, true_and, exists_eq_left']
      exact eq_comm

theorem appendAuditTx_eq_ok {event : AuditEvent} {retention : Duration} {clock now : Time} :
    appendAuditTx H (log.db m) event maxAuditItems retention clock now = .ok res ↔
      ∃ e, sanitizeAuditEvent event clock = some e ∧
        appendGate (verifyChainTx H (log.db m)) (log.chainState m).headState
          (log.chainState m).anchorState = .ok () ∧
        putRecord H log.bucket m (newRecord H e (log.chainState m).allocator
          (verifyChainState H (log.chainState m)).headHash) maxAuditItems
          (unixNano (now - retention)) = .ok res := by
  have hhash : (verifyChainTx H (log.db m)).headHash =
      (verifyChainState H (log.chainState m)).headHash := by rw [verifyChainTx_eq]
  cases hs : sanitizeAuditEvent event clock with
  | none =>
    unfold appendAuditTx
    simp [hs]
  | some e =>
    have htx : appendAuditTx H (log.db m) event maxAuditItems retention clock now =
        (appendGate (verifyChainTx H (log.db m)) (log.chainState m).headState
          (log.chainState m).anchorState).bind fun _ => putRecord H log.bucket m
            (newRecord H e m.sequence (verifyChainTx H (log.db m)).headHash) maxAuditItems
            (unixNano (now - retention)) := by
      unfold appendAuditTx
      rw [hs]
      rfl
    rw [htx, hhash]
    cases appendGate (verifyChainTx H (log.db m)) (log.chainState m).headState
        (log.chainState m).anchorState with
    | error err => simp [Except.bind]
    | ok u =>
      simp only [Except.bind, Option.some.injEq, true_and, exists_eq_left']
      rfl

theorem marshals_of_putRecord {cutoff : ℤ}
    (h : putRecord H log.bucket m e maxAuditItems cutoff = .ok res) : marshals e = true := by
  cases hm : marshals e with
  | true => rfl
  | false => simp [putRecord, hm] at h

theorem marshals_newRecord (e : AuditEvent) (a : UInt64) (headHash : String) :
    marshals (newRecord H e a headHash) = marshals e := rfl

theorem anchor_of_valid (h : (log.chainState m).anchorState = .valid) :
    m.anchor = some (some (log.chainState m).anchor) := by
  simp only [chainState] at h ⊢
  cases hm : m.anchor with
  | none => rw [hm] at h; cases h
  | some raw =>
    cases raw with
    | none => rw [hm] at h; cases h
    | some ref =>
      by_cases hz : ref.hash = "" ∨ ref.seq = 0
      · rw [hm, loadChainRefState, if_pos hz] at h; cases h
      · rw [loadChainRefState, if_neg hz]

theorem sameAppend_of_distinct (hd : log.Distinct e) (he : e.hash ≠ "") {cutoff : ℤ}
    (h : putRecord H log.bucket m e maxAuditItems cutoff = .ok res) :
    SameAppend m (planPrune H (log.chainState m) e maxAuditItems cutoff) res := by
  obtain ⟨k, hk⟩ : ∃ k, log.toDelete e maxAuditItems cutoff = k := ⟨_, rfl⟩
  obtain ⟨audit', hput⟩ := putRecord_log hd (marshals_of_putRecord h) hk
  obtain rfl := Except.ok.inj (hput.symm.trans h)
  rw [planPrune_log hd he hk]
  refine ⟨rfl, ?_, rfl, ?_, rfl⟩
  · rw [map_map]
    refine map_congr_left fun r hr => ?_
    have hmem := mem_written.mp (mem_of_mem_take hr)
    exact (wellKeyed_of_mem_append hmem).seqOf.symm
  · cases log.newest H e k with
    | some ref => rfl
    | none =>
      by_cases hv : (log.chainState m).anchorState = .valid
      · simp [hv, anchor_of_valid hv]
      · simp [hv]

theorem AuditLog.distinct_of_consistent (hc : Consistent H (log.chainState m))
    (hfresh : ∀ r ∈ log.stored, r.seqOf ≠ e.seq) : log.Distinct e := by
  have hsorted : (log.chainState m).sorted.Pairwise SeqLt :=
    isChain_iff_pairwise.mp (hc.linked.imp fun _ _ h => h.1)
  have hperm : ((log.chainState m).sorted.map (·.seq)).Perm (log.stored.map (·.seqOf)) := by
    have := (perm_insertionSort bySeq (log.chainState m).records).map (·.seq)
    rwa [chainState, map_map] at this
  rw [Distinct, map_append, nodup_append]
  refine ⟨hperm.nodup_iff.mp (nodup_seq hsorted), nodup_singleton _, fun a ha b hb => ?_⟩
  obtain ⟨r, hr, rfl⟩ := mem_map.mp ha
  rw [map_singleton, newStored_seqOf] at hb
  rw [mem_singleton.mp hb]
  exact hfresh r hr

/-! ### The wrap -/

theorem ofNat_emod_bmod (u : UInt64) :
    UInt64.ofNat (unixNano (Int.bmod u.toNat (2 ^ 64)) % 2 ^ 64).toNat = u := by
  have hlt := u.toNat_lt
  have hmod : (unixNano (Int.bmod u.toNat (2 ^ 64)) % 2 ^ 64).toNat = u.toNat := by
    rw [unixNano, Int.bmod_bmod, Int.bmod]
    split <;> omega
  rw [hmod, UInt64.ofNat_toNat]

theorem Stored.WellKeyed.auditKey_eq (h : r.WellKeyed) :
    auditKey (auditKeyTS r.key) (auditKeySeq r.key) = r.key := by
  have htake : (r.key.take 8).length = 8 := by rw [length_take, h.length]; rfl
  have hdrop : (r.key.drop 8).length = 8 := by rw [length_drop, h.length]
  unfold auditKey auditKeyTS auditKeySeq
  rw [ofNat_emod_bmod, if_neg (not_not.mpr h.length), putUint64_uint64 htake,
    putUint64_uint64 hdrop, take_append_drop]

/-- A login at the timestamp of a stored record. -/
def loginAt (r : Stored) : AuditEvent := { loginEvent with timestamp := auditKeyTS r.key }

theorem auditKeyTS_bounds (key : List UInt8) :
    -2 ^ 63 ≤ auditKeyTS key ∧ auditKeyTS key < 2 ^ 63 := by
  unfold auditKeyTS
  exact ⟨le_unixNano _, unixNano_lt _⟩

theorem sanitize_loginAt (clock : Time) :
    sanitizeAuditEvent (loginAt r) clock = some (loginAt r) := by
  refine sanitize_loginEvent (fun hz => ?_) clock
  have := (auditKeyTS_bounds r.key).1
  rw [hz] at this
  exact absurd this (by decide)

theorem marshals_loginAt : marshals (loginAt r) = true := by
  have hyear : 1600 ≤ (civil (auditKeyTS r.key / day)).year ∧
      (civil (auditKeyTS r.key / day)).year ≤ 2400 := by
    obtain ⟨hlow, hhigh⟩ := auditKeyTS_bounds r.key
    have hday : day = 86400000000000 := by decide
    rw [hday]
    exact civil_year_bounds (by omega) (by omega)
  have hts : (loginAt r).timestamp = auditKeyTS r.key := rfl
  simp only [marshals, hts, Bool.and_eq_true, decide_eq_true_eq]
  omega

theorem unixNano_least : unixNano (-1 - (2 ^ 63 - 1)) = -2 ^ 63 := by decide

theorem putRecord_of_mem (hr : r ∈ log.stored) (hkey : auditKey e.timestamp e.seq = r.key)
    (hm : marshals e = true) :
    ∃ res, putRecord H log.bucket m e log.stored.length (-2 ^ 63) = .ok res ∧
      res.deleted = [] := by
  have hentry : (r.key, some r.event) ∈ log.bucket.entries := mem_map_of_mem hr
  have hlen : (log.bucket.put r.key (some e)).entries.length = log.stored.length := by
    rw [Bucket.length_put_of_mem hentry]
    exact length_map _
  have hkeys : (log.bucket.put r.key (some e)).entries.any (·.1.length != 16) = false := by
    rw [any_eq_false]
    intro x hx
    rcases mem_cons.mp ((log.bucket.perm_put r.key (some e)).mem_iff.mp hx) with rfl | hx
    · simp [(log.wellKeyed r hr).length]
    · obtain ⟨q, hq, rfl⟩ := mem_map.mp (mem_filter.mp hx).1
      simp [entry, (log.wellKeyed q hq).length]
  have hnone : pruneCount (-2 ^ 63) log.stored.length ((((log.bucket.put r.key
      (some e)).entries.map keyInfo).insertionSort KeyInfo.le).map fun i => ⟨i.seq, i.ts⟩) = 0 := by
    rw [pruneCount_of_recent]
    · simp [hlen]
    · intro i hi
      obtain ⟨j, hj, rfl⟩ := mem_map.mp hi
      obtain ⟨x, -, rfl⟩ := mem_map.mp ((mem_insertionSort KeyInfo.le).mp hj)
      exact (auditKeyTS_bounds x.1).1
  simp only [putRecord, hm, Bool.not_true, Bool.false_eq_true, if_false, hkey, hkeys, hnone,
    take_zero, pruneLoop]
  exact ⟨_, rfl, rfl⟩

theorem length_prunedSeqs_of_recent (st : ChainState) (e : AuditEvent)
    (hmax : maxAuditItems = st.records.length) :
    (planPrune H st e maxAuditItems (-2 ^ 63)).prunedSeqs.length = 1 := by
  have hone : pruneCount (-2 ^ 63) maxAuditItems
      ((st.records.map (·.seqTS) ++ [e.seqTS]).insertionSort SeqTS.le) = 1 := by
    rw [pruneCount_of_recent]
    · simp [hmax]
    · intro i hi
      have hmem := (mem_insertionSort SeqTS.le).mp hi
      rw [← map_singleton, ← map_append] at hmem
      obtain ⟨x, -, rfl⟩ := mem_map.mp hmem
      exact le_unixNano x.timestamp
  simp only [planPrune, hone, length_map, length_take, length_insertionSort,
    length_append, length_singleton]
  omega

theorem gate_of_wrapsOnto (hw : WrapsOnto (log.chainState m)) {report : ChainReport}
    (hnil : report.problems = [])
    (htotal : report.totalRecords = (log.chainState m).sorted.length)
    (hchained : report.chainedRecords = (log.chainState m).sorted.countP (!·.legacy)) :
    appendGate report (log.chainState m).headState (log.chainState m).anchorState = .ok () := by
  obtain ⟨⟨r, hr, -⟩, -, hmeta⟩ := hw
  have hpos : r ∈ (log.chainState m).sorted := (mem_insertionSort bySeq).mpr hr
  refine appendGate_eq_ok.mpr ⟨hnil, fun hz => ?_, fun _ hz => ?_⟩
  · rw [htotal, length_eq_zero_iff] at hz
    rw [hz] at hpos
    cases hpos
  · rw [hchained, countP_chained_eq_zero] at hz
    refine hmeta.resolve_left fun ⟨q, hq, hne⟩ => ?_
    exact hne (hz q ((mem_insertionSort bySeq).mpr hq))

/-- When the counter wraps onto a stored record, a login at that record's timestamp is written
over it in the embedded store and beside it in the network stores. -/
theorem not_parity_of_wrapsOnto (hc : Consistent H (log.chainState m))
    (hw : WrapsOnto (log.chainState m)) : ¬Parity H log m := by
  intro hp
  obtain ⟨⟨x, hx, hseq⟩, hgap, -⟩ := id hw
  obtain ⟨r, hr, rfl⟩ := mem_map.mp hx
  have hgate : appendGate (verifyChainState H (log.chainState m)) (log.chainState m).headState
      (log.chainState m).anchorState = .ok () :=
    gate_of_wrapsOnto hw (problemsWith_eq_nil_iff.mpr ⟨hc, fun h => absurd h hgap⟩) rfl rfl
  have hgateTx : appendGate (verifyChainTx H (log.db m)) (log.chainState m).headState
      (log.chainState m).anchorState = .ok () := by
    rw [verifyChainTx_eq]
    exact gate_of_wrapsOnto hw (problemsWith_eq_nil_iff.mpr ⟨hc, fun h => absurd h hgap⟩) rfl rfl
  obtain ⟨e, he⟩ : ∃ e, e = newRecord H (loginAt r) (log.chainState m).allocator
    (verifyChainState H (log.chainState m)).headHash := ⟨_, rfl⟩
  have hkey : auditKey e.timestamp e.seq = r.key := by
    have hwk := log.wellKeyed r hr
    have hts : e.timestamp = auditKeyTS r.key := by rw [he]; rfl
    have hs : e.seq = auditKeySeq r.key := by
      rw [he, ← hwk.seqOf]
      exact hseq.symm
    rw [hts, hs, hwk.auditKey_eq]
  obtain ⟨res, hput, hdel⟩ := putRecord_of_mem hr hkey
    (he ▸ marshals_loginAt)
  have hanswer := hp.append (loginAt r) log.stored.length (2 ^ 63 - 1) 0 (-1) fun e hs => by
    cases (sanitize_loginAt 0).symm.trans hs
    exact marshals_loginAt
  have hsame := hanswer.append (planPrune H (log.chainState m) e log.stored.length (-2 ^ 63)) res
    (planAuditAppend_eq_ok.mpr ⟨_, sanitize_loginAt 0, hgate, by rw [unixNano_least, ← he]⟩)
    (appendAuditTx_eq_ok.mpr
      ⟨_, sanitize_loginAt 0, hgateTx, by rw [unixNano_least, ← he]; exact hput⟩)
  have hmax : log.stored.length = (log.chainState m).records.length :=
    (length_map record).symm
  have hlen := length_prunedSeqs_of_recent (H := H) (log.chainState m) e hmax
  rw [← hsame.pruned, hdel] at hlen
  cases hlen

theorem verifyChainTx_verified :
    (verifyChainTx H (log.db m)).verified = true ↔
      Consistent H (log.chainState m) ∧ ¬AnchorGap (log.chainState m) := by
  have hproblems : (verifyChainTx H (log.db m)).problems =
      problemsWith H (log.chainState m) 0 := by rw [verifyChainTx_eq]
  rw [ChainReport.verified, List.isEmpty_iff, hproblems, problemsWith_eq_nil_iff]
  exact and_congr_right fun _ => ⟨fun h hg => h hg rfl, fun h hg => absurd hg h⟩

theorem verified_eq (hnot : ¬(Consistent H (log.chainState m) ∧ MaskedGap (log.chainState m))) :
    (verifyChainTx H (log.db m)).verified = (verifyChainState H (log.chainState m)).verified := by
  rw [Bool.eq_iff_iff, verifyChainTx_verified, verified_iff]
  refine ⟨fun ⟨hc, hg⟩ => ⟨hc, fun h => absurd h hg⟩, fun ⟨hc, hg⟩ => ⟨hc, fun h => ?_⟩⟩
  exact hnot ⟨hc, h, hg h⟩

theorem gate_iff (hverdict : (verifyChainTx H (log.db m)).verified =
    (verifyChainState H (log.chainState m)).verified) {headState anchorState : RefState} :
    appendGate (verifyChainTx H (log.db m)) headState anchorState = .ok () ↔
      appendGate (verifyChainState H (log.chainState m)) headState anchorState = .ok () := by
  have hnil : (verifyChainTx H (log.db m)).problems = [] ↔
      (verifyChainState H (log.chainState m)).problems = [] := by
    rw [← List.isEmpty_iff, ← List.isEmpty_iff]
    exact Bool.eq_iff_iff.mp hverdict
  rw [appendGate_eq_ok, appendGate_eq_ok, hnil, verifyChainTx_eq]

theorem distinct_of_gate (e : AuditEvent) (headHash : String)
    (hnot : ¬(Consistent H (log.chainState m) ∧ WrapsOnto (log.chainState m)))
    (hgate : appendGate (verifyChainTx H (log.db m)) (log.chainState m).headState
      (log.chainState m).anchorState = .ok ()) :
    log.Distinct (newRecord H e (log.chainState m).allocator headHash) := by
  obtain ⟨hnil, -, hlegacy⟩ := appendGate_eq_ok.mp hgate
  obtain ⟨hc, hgap⟩ := verifyChainTx_verified.mp (isEmpty_iff.mpr hnil)
  refine distinct_of_consistent hc fun r hr heq => ?_
  refine hnot ⟨hc, ⟨r.record, mem_map_of_mem hr, heq⟩, hgap, ?_⟩
  -- a log without chained records has no metadata, or the append had been refused
  by_cases hch : ∃ q ∈ (log.chainState m).records, q.hash ≠ ""
  · exact .inl hch
  · refine .inr (hlegacy ?_ ?_)
    · rw [verifyChainTx_eq]
      have hmem : r.record ∈ (log.chainState m).sorted :=
        (mem_insertionSort bySeq).mpr (mem_map_of_mem hr)
      exact Nat.ne_of_gt (length_pos_of_mem hmem)
    · rw [verifyChainTx_eq]
      refine countP_chained_eq_zero.mpr fun q hq => ?_
      by_contra hne
      exact hch ⟨q, (mem_insertionSort bySeq).mp hq, hne⟩

theorem sameAnswer_of_not
    (hnot : ¬(Consistent H (log.chainState m) ∧
      (MaskedGap (log.chainState m) ∨ WrapsOnto (log.chainState m))))
    {event : AuditEvent} {retention : Duration} {clock now : Time} (hdated : Dated event clock) :
    SameAnswer m
      (planAuditAppend H (log.chainState m) event maxAuditItems retention clock now)
      (appendAuditTx H (log.db m) event maxAuditItems retention clock now) := by
  have hverdict := verified_eq fun h => hnot ⟨h.1, .inl h.2⟩
  have hdistinct : ∀ e, appendGate (verifyChainTx H (log.db m)) (log.chainState m).headState
      (log.chainState m).anchorState = .ok () → log.Distinct (newRecord H e
        (log.chainState m).allocator (verifyChainState H (log.chainState m)).headHash) :=
    fun e => distinct_of_gate e _ fun h => hnot ⟨h.1, .inr h.2⟩
  refine ⟨⟨fun ⟨plan, hplan⟩ => ?_, fun ⟨res, htx⟩ => ?_⟩, fun plan res hplan htx => ?_⟩
  · -- What the network stores take has a sequence of its own, and the embedded store writes it.
    obtain ⟨e, hs, hgate, -⟩ := planAuditAppend_eq_ok.mp hplan
    have hgateTx := (gate_iff hverdict).mpr hgate
    obtain ⟨_, hput⟩ := putRecord_log (m := m) (hdistinct e hgateTx)
      ((marshals_newRecord e _ _).trans (hdated e hs)) rfl
    exact ⟨_, appendAuditTx_eq_ok.mpr ⟨e, hs, hgateTx, hput⟩⟩
  · obtain ⟨e, hs, hgateTx, -⟩ := appendAuditTx_eq_ok.mp htx
    exact ⟨_, planAuditAppend_eq_ok.mpr ⟨e, hs, (gate_iff hverdict).mp hgateTx, rfl⟩⟩
  · obtain ⟨e, hs, -, rfl⟩ := planAuditAppend_eq_ok.mp hplan
    obtain ⟨e', hs', hgateTx, hput⟩ := appendAuditTx_eq_ok.mp htx
    obtain rfl : e = e' := Option.some.inj (hs.symm.trans hs')
    exact sameAppend_of_distinct (hdistinct e hgateTx) (canonicalAuditHash_ne_empty H _) hput

/-- **When the backends agree.** On an audit log they give one verdict, and one answer to every
event that marshals, exactly when it is not the case that the log is consistent and its anchor gap
is masked by a legacy record or its next sequence is still stored. -/
theorem parity_iff :
    Parity H log m ↔ ¬(Consistent H (log.chainState m) ∧
      (MaskedGap (log.chainState m) ∨ WrapsOnto (log.chainState m))) := by
  constructor
  · rintro hp ⟨hc, hmask | hwrap⟩
    · have hstate := verified_iff.mpr ⟨hc, fun _ => hmask.2⟩
      rw [← hp.verdict, verifyChainTx_verified] at hstate
      exact hstate.2 hmask.1
    · exact not_parity_of_wrapsOnto hc hwrap hp
  · intro hnot
    refine ⟨verified_eq fun h => hnot ⟨h.1, .inl h.2⟩, ?_⟩
    exact fun event n retention clock now hdated => sameAnswer_of_not hnot hdated

/-- A chained record at `5`, linked to an anchor at `2`, and a legacy record at `7`. -/
def maskedLog : AuditLog where
  stored := [newStored (newRecord sha256 loginEvent 4 "anchor"),
    newStored { loginEvent with timestamp := 1, seq := 7 }]
  wellKeyed := by
    intro r hr
    rcases List.mem_pair.mp hr with rfl | rfl <;> exact newStored_wellKeyed
  nodup := by decide +kernel

/-- Its metadata: the head is the legacy record. -/
def maskedMeta : MetaBucket :=
  ⟨some (some ⟨7, recordHash sha256 { loginEvent with timestamp := 1 } 7⟩),
    some (some ⟨2, "anchor"⟩), 7⟩

/-- The embedded store reports the gap and refuses; the network stores accept. -/
theorem maskedLog_verdicts_differ :
    (verifyChainTx sha256 (maskedLog.db maskedMeta)).problems = [.anchorGap 2 5] ∧
      (verifyChainState sha256 (maskedLog.chainState maskedMeta)).verified = true := by
  decide +kernel

end NexaRoute.Audit
