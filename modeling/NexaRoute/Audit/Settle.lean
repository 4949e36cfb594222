import NexaRoute.Audit.Append
import NexaRoute.Keyed

/-!
# What one append does

On a snapshot in sequence order, whose allocator is at or above every record, a plan is easy to
read: the new record goes to the end, a prefix leaves, the newest record that left becomes the
anchor and the new record the head. `settle` is that state, and `settle_of_appendAudit` says that
an accepted append produces it. Everything proved about runs is proved about `settle`.

## Main results

* `settle_of_appendAudit`, `appendAudit_of_gate` — what an append does, and when it is accepted
-/

namespace NexaRoute.Audit

open Go List

variable {l : List AuditEvent}

/-- The order of a snapshot's records. -/
def SeqLt (a b : AuditEvent) : Prop := a.seq < b.seq

instance : Trans SeqLt SeqLt SeqLt := ⟨fun h h' => UInt64.lt_trans h h'⟩

/-- A snapshot in strict sequence order whose allocator has reached every record. -/
structure Ordered (st : ChainState) : Prop where
  sorted : st.records.Pairwise SeqLt
  below : ∀ r ∈ st.records, r.seq ≤ st.allocator

variable {H : Digest} {st : ChainState} {e : AuditEvent}

theorem insertionSort_eq_self (h : l.Pairwise SeqLt) :
    l.insertionSort bySeq = l :=
  List.Pairwise.insertionSort_eq (h.imp fun hab => UInt64.le_of_lt hab)

theorem insertionSort_seqTS (h : l.Pairwise SeqLt) :
    (l.map (·.seqTS)).insertionSort SeqTS.le = l.map (·.seqTS) :=
  List.Pairwise.insertionSort_eq (pairwise_map.mpr (h.imp fun hab => UInt64.le_of_lt hab))

theorem nodup_seq (h : l.Pairwise SeqLt) : (l.map (·.seq)).Nodup :=
  pairwise_map.mpr (h.imp fun hab => UInt64.ne_of_lt hab)

theorem pruneCount_le (cutoff : ℤ) (maxAuditItems : ℕ) :
    ∀ l, pruneCount cutoff maxAuditItems l ≤ l.length
  | [] => Nat.le_refl 0
  | i :: rest => by
    have := pruneCount_le cutoff maxAuditItems rest
    simp only [pruneCount, length_cons]
    split <;> omega

theorem length_le_pruneCount_add (cutoff : ℤ) (maxAuditItems : ℕ) :
    ∀ l : List SeqTS, l.length ≤ pruneCount cutoff maxAuditItems l + maxAuditItems
  | [] => Nat.zero_le _
  | i :: rest => by
    have := length_le_pruneCount_add cutoff maxAuditItems rest
    simp only [pruneCount, length_cons]
    split <;> omega

theorem pruneCount_of_recent {cutoff : ℤ} {maxAuditItems : ℕ} :
    ∀ {l : List SeqTS}, (∀ i ∈ l, cutoff ≤ i.ts) →
      pruneCount cutoff maxAuditItems l = l.length - maxAuditItems
  | [], _ => (Nat.zero_sub _).symm
  | i :: rest, h => by
    have hage : ¬i.ts < cutoff := Int.not_lt.mpr (h i (mem_cons_self ..))
    have ih : pruneCount cutoff maxAuditItems rest = rest.length - maxAuditItems :=
      pruneCount_of_recent fun j hj => h j (mem_cons_of_mem i hj)
    simp only [pruneCount, hage, false_or, ih, length_cons]
    split <;> omega

theorem seq_newRecord (h : st.allocator.toNat < 2 ^ 64 - 1) (ev : AuditEvent) (headHash : String) :
    (newRecord H ev st.allocator headHash).seq.toNat = st.allocator.toNat + 1 := by
  have h1 : (1 : UInt64).toNat = 1 := rfl
  simp only [newRecord, UInt64.toNat_add, h1]
  omega

theorem Ordered.append (h : Ordered st) (he : st.allocator < e.seq) :
    (st.records ++ [e]).Pairwise SeqLt := by
  refine pairwise_append.mpr ⟨h.sorted, pairwise_singleton _ _, fun a ha b hb => ?_⟩
  rw [mem_singleton.mp hb]
  exact UInt64.lt_of_le_of_lt (h.below a ha) he

theorem prunedRef_eq (hfull : (st.records ++ [e]).Pairwise SeqLt) {r : AuditEvent}
    (hr : r ∈ st.records ++ [e]) : prunedRef H st.records e r.seq = r.ref H := by
  have hpair := pairwise_append.mp hfull
  have hget : (st.records.reverse.find? (·.seq == r.seq)).getD e = r := by
    rcases mem_append.mp hr with hr | hr
    · rw [Keyed.find?_reverse_eq_some (nodup_seq hpair.1) hr]; rfl
    · rw [mem_singleton.mp hr, find?_eq_none.mpr fun a ha => ?_]
      · rfl
      · have := hpair.2.2 a (mem_reverse.mp ha) e (mem_singleton_self e)
        simpa using UInt64.ne_of_lt this
  rw [prunedRef, hget, AuditEvent.ref]

/-- The newest record among the first `k` after an append, as the reference pruning keeps. -/
def newestPruned (H : Digest) (st : ChainState) (e : AuditEvent) (k : ℕ) : Option ChainRef :=
  ((st.records ++ [e]).take k).getLast?.map (·.ref H)

theorem newestPruned_eq (hfull : (st.records ++ [e]).Pairwise SeqLt) (k : ℕ) :
    (((st.records ++ [e]).take k).map (·.seq)).getLast?.map (prunedRef H st.records e)
      = newestPruned H st e k := by
  rw [getLast?_map, Option.map_map, newestPruned]
  refine Option.map_congr fun r hr => ?_
  exact prunedRef_eq hfull (mem_of_mem_take (mem_of_getLast? hr))

/-- How many records an append to an ordered snapshot prunes. -/
def toDelete (st : ChainState) (e : AuditEvent) (maxAuditItems : ℕ) (cutoff : ℤ) : ℕ :=
  pruneCount cutoff maxAuditItems ((st.records ++ [e]).map (·.seqTS))

theorem toDelete_le (maxAuditItems : ℕ) (cutoff : ℤ) :
    toDelete st e maxAuditItems cutoff ≤ st.records.length + 1 := by
  simpa [toDelete] using pruneCount_le cutoff maxAuditItems ((st.records ++ [e]).map (·.seqTS))

theorem newestPruned_all (he : e.hash ≠ "") :
    newestPruned H st e (st.records.length + 1) = some ⟨e.seq, e.hash⟩ := by
  rw [newestPruned, take_of_length_le (by simp), getLast?_concat, Option.map_some,
    AuditEvent.ref, recordHash_chained H he]

/-- The plan for an ordered snapshot. The head is the new record even when it is pruned at once,
because then it is also the newest pruned one. -/
theorem planPrune_eq (hfull : (st.records ++ [e]).Pairwise SeqLt) (he : e.hash ≠ "")
    (maxAuditItems : ℕ) (cutoff : ℤ) :
    planPrune H st e maxAuditItems cutoff =
      { event := e
        prunedSeqs := ((st.records ++ [e]).take (toDelete st e maxAuditItems cutoff)).map (·.seq)
        head := ⟨e.seq, e.hash⟩
        anchor := (newestPruned H st e (toDelete st e maxAuditItems cutoff)).getD
          (if st.anchorState = .valid then st.anchor else .zero)
        hasAnchor := (newestPruned H st e (toDelete st e maxAuditItems cutoff)).isSome
          || st.anchorState == .valid
        allocator := e.seq } := by
  have hinfos : (st.records.map (·.seqTS) ++ [e.seqTS]).insertionSort SeqTS.le
      = (st.records ++ [e]).map (·.seqTS) := by
    rw [← insertionSort_seqTS hfull, map_append, map_singleton]
  have hpruned : (((st.records ++ [e]).map (·.seqTS)).take
        (toDelete st e maxAuditItems cutoff)).map (·.seq)
      = ((st.records ++ [e]).take (toDelete st e maxAuditItems cutoff)).map (·.seq) := by
    rw [← map_take, map_map]; rfl
  have hhead : ∀ k, (if k = st.records.length + 1
      then (newestPruned H st e k).getD ⟨e.seq, e.hash⟩ else ⟨e.seq, e.hash⟩)
      = (⟨e.seq, e.hash⟩ : ChainRef) := by
    intro k
    split
    · rename_i hk
      rw [hk, newestPruned_all he, Option.getD_some]
    · rfl
  simp only [planPrune, hinfos]
  rw [← toDelete, hpruned, newestPruned_eq hfull]
  simp only [length_map, length_append, length_singleton, hhead]

/-! ### Persisting -/

/-- The snapshot with `e` appended and the first `k` records pruned. -/
def settle (H : Digest) (st : ChainState) (e : AuditEvent) (k : ℕ) : ChainState :=
  let anchor := match newestPruned H st e k with
    | some ref => parseChainRefMeta (some ref)
    | none => (st.anchor, st.anchorState)
  { records := (st.records ++ [e]).drop k
    head := ⟨e.seq, e.hash⟩
    headState := .valid
    anchor := anchor.1
    anchorState := anchor.2
    allocator := e.seq }

/-- A reference that reads back as what was stored. -/
def ChainRef.Storable (ref : ChainRef) : Prop := ref.hash ≠ "" ∧ ref.seq ≠ 0

theorem parseChainRefMeta_of_storable {ref : ChainRef} (h : ref.Storable) :
    parseChainRefMeta (some ref) = (ref, .valid) := by
  simp [parseChainRefMeta, h.1, h.2]

theorem orderedInsert_concat (h : ∀ a ∈ l, a.seq < e.seq) :
    l.orderedInsert bySeq e = l ++ [e] := by
  induction l with
  | nil => rfl
  | cons a l ih =>
    have hlt : ¬bySeq e a := UInt64.not_le.mpr (h a (mem_cons_self ..))
    rw [orderedInsert_cons, if_neg hlt, ih fun b hb => h b (mem_cons_of_mem a hb)]
    rfl

section

variable (hfull : (st.records ++ [e]).Pairwise SeqLt)

include hfull

theorem seq_ne_last {r : AuditEvent} (hr : r ∈ st.records) : r.seq ≠ e.seq :=
  UInt64.ne_of_lt ((pairwise_append.mp hfull).2.2 r hr e (mem_singleton_self e))

theorem filter_pruned (k : ℕ) :
    st.records.filter (·.seq ∉ ((st.records ++ [e]).take k).map (·.seq)) = st.records.drop k := by
  rw [← Keyed.filter_notMem_take (nodup_seq (pairwise_append.mp hfull).1) k]
  refine filter_congr fun r hr => decide_eq_decide.mpr (not_congr ?_)
  rw [take_append, map_append, mem_append]
  refine ⟨fun h => h.resolve_right fun hm => ?_, .inl⟩
  obtain ⟨b, hb, hbr⟩ := mem_map.mp hm
  rw [mem_singleton.mp (mem_of_mem_take hb)] at hbr
  exact seq_ne_last hfull hr hbr.symm

theorem mem_pruned_iff {k : ℕ} :
    e.seq ∈ ((st.records ++ [e]).take k).map (·.seq) ↔ st.records.length < k := by
  constructor
  · intro hm
    by_contra hk
    obtain ⟨r, hr, hre⟩ := mem_map.mp hm
    rw [take_append_of_le_length (by omega)] at hr
    exact seq_ne_last hfull (mem_of_mem_take hr) hre
  · intro hk
    rw [take_of_length_le (by rw [length_append]; exact hk)]
    simp

/-- **Persisting a plan.** The only refusal left is the encoding of a record that is stored. -/
theorem applyPlanTx_planPrune (he : e.hash ≠ "")
    (hseq : e.seq ≠ 0) (hanchor : st.anchorState = .valid → st.anchor.Storable)
    (maxAuditItems : ℕ) (cutoff : ℤ) :
    applyPlanTx st (planPrune H st e maxAuditItems cutoff) =
      if toDelete st e maxAuditItems cutoff ≤ st.records.length ∧ marshals e = false
      then .error .marshal else .ok (settle H st e (toDelete st e maxAuditItems cutoff)) := by
  have hk : toDelete st e maxAuditItems cutoff ≤ st.records.length + 1 := toDelete_le _ _
  rw [planPrune_eq hfull he]
  generalize toDelete st e maxAuditItems cutoff = k at hk ⊢
  have hhead : parseChainRefMeta (some ⟨e.seq, e.hash⟩) = (⟨e.seq, e.hash⟩, .valid) :=
    parseChainRefMeta_of_storable ⟨he, hseq⟩
  have hmeta : (if ((newestPruned H st e k).isSome || st.anchorState == .valid) = true
      then parseChainRefMeta (some ((newestPruned H st e k).getD
        (if st.anchorState = .valid then st.anchor else .zero)))
      else (st.anchor, st.anchorState))
      = match newestPruned H st e k with
        | some ref => parseChainRefMeta (some ref)
        | none => (st.anchor, st.anchorState) := by
    cases newestPruned H st e k with
    | some ref => rfl
    | none =>
      by_cases hv : st.anchorState = .valid
      · simp [hv, parseChainRefMeta_of_storable (hanchor hv)]
      · simp [hv]
  simp only [applyPlanTx, hhead, hmeta, filter_pruned hfull, mem_pruned_iff hfull]
  by_cases hall : st.records.length < k
  · have hnil : (st.records ++ [e]).drop k = st.records.drop k := by
      rw [drop_of_length_le (by rw [length_append]; exact hall),
        drop_of_length_le (by omega)]
    rw [if_pos hall, if_neg (by omega), settle, hnil]
  · have hlt : ∀ r ∈ st.records.drop k, r.seq < e.seq := fun r hr =>
      (pairwise_append.mp hfull).2.2 r (mem_of_mem_drop hr) e (mem_singleton_self e)
    have hany : (st.records.drop k).any (·.seq == e.seq) = false := by
      rw [any_eq_false]
      intro r hr
      simpa using UInt64.ne_of_lt (hlt r hr)
    have hdrop : (st.records ++ [e]).drop k = st.records.drop k ++ [e] :=
      drop_append_of_le_length (by omega)
    rw [if_neg hall, hany, orderedInsert_concat hlt, settle, hdrop]
    cases hm : marshals e <;> simp [Nat.not_lt.mp hall]

end

/-! ### The transaction -/

/-- The record a call would append to a snapshot, once its event is sanitized. -/
def plannedRecord (H : Digest) (st : ChainState) (ev : AuditEvent) : AuditEvent :=
  newRecord H ev st.allocator (verifyChainState H st).headHash

/-- The number of records a call prunes. -/
def AppendCall.prunes (call : AppendCall) (H : Digest) (st : ChainState) (ev : AuditEvent) : ℕ :=
  toDelete st (plannedRecord H st ev) call.maxAuditItems (unixNano (call.now - call.retention))

/-- The allocator has a next sequence. -/
def HasRoom (st : ChainState) : Prop := st.allocator.toNat < 2 ^ 64 - 1

instance : DecidablePred HasRoom := fun st =>
  inferInstanceAs (Decidable (st.allocator.toNat < 2 ^ 64 - 1))

theorem Ordered.plannedRecord (ho : Ordered st) (hroom : HasRoom st) (ev : AuditEvent) :
    (st.records ++ [plannedRecord H st ev]).Pairwise SeqLt := by
  refine ho.append (UInt64.lt_iff_toNat_lt.mpr ?_)
  have := seq_newRecord (H := H) hroom ev (verifyChainState H st).headHash
  rw [Audit.plannedRecord]
  omega

theorem hash_plannedRecord_ne (ev : AuditEvent) : (plannedRecord H st ev).hash ≠ "" :=
  canonicalAuditHash_ne_empty H _

theorem seq_plannedRecord_ne (hroom : HasRoom st) (ev : AuditEvent) :
    (plannedRecord H st ev).seq ≠ 0 := by
  have := seq_newRecord (H := H) hroom ev (verifyChainState H st).headHash
  intro hz
  rw [plannedRecord] at hz
  rw [hz] at this
  exact absurd this (by simp)

section

variable (ho : Ordered st) (hroom : HasRoom st)
  (hanchor : st.anchorState = .valid → st.anchor.Storable)

include ho hroom hanchor

theorem applyPlanTx_planned (call : AppendCall) (ev : AuditEvent) :
    applyPlanTx st (planPrune H st (plannedRecord H st ev) call.maxAuditItems
        (unixNano (call.now - call.retention))) =
      if call.prunes H st ev ≤ st.records.length ∧ marshals ev = false then .error .marshal
      else .ok (settle H st (plannedRecord H st ev) (call.prunes H st ev)) :=
  applyPlanTx_planPrune (ho.plannedRecord hroom ev) (hash_plannedRecord_ne ev)
    (seq_plannedRecord_ne hroom ev) hanchor _ _

/-- **What an accepted append does.** -/
theorem settle_of_appendAudit {call : AppendCall}
    {st' : ChainState} (h : appendAudit H st call = .ok st') :
    ∃ ev, appendGate (verifyChainState H st) st.headState st.anchorState = .ok () ∧
      st' = settle H st (plannedRecord H st ev) (call.prunes H st ev) := by
  cases hs : sanitizeAuditEvent call.event call.clock with
  | none => simp [appendAudit, planAuditAppend, hs, bind, Except.bind] at h
  | some ev =>
    cases hg : appendGate (verifyChainState H st) st.headState st.anchorState with
    | error err => simp [appendAudit, planAuditAppend, hs, hg, bind, Except.bind] at h
    | ok _ =>
      refine ⟨ev, rfl, ?_⟩
      simp only [appendAudit, planAuditAppend, hs, hg, bind, Except.bind, pure, Except.pure] at h
      rw [← plannedRecord, applyPlanTx_planned ho hroom hanchor] at h
      by_cases hm : call.prunes H st ev ≤ st.records.length ∧ marshals ev = false
      · rw [if_pos hm] at h
        simp at h
      · rw [if_neg hm] at h
        cases hf : call.fault with
        | none => simpa [hf] using h.symm
        | some text => simp [hf] at h

/-- **When an append is accepted.** -/
theorem appendAudit_of_gate {call : AppendCall} {ev : AuditEvent}
    (hs : sanitizeAuditEvent call.event call.clock = some ev)
    (hg : appendGate (verifyChainState H st) st.headState st.anchorState = .ok ())
    (hm : marshals ev = true) (hf : call.fault = none) :
    appendAudit H st call = .ok (settle H st (plannedRecord H st ev) (call.prunes H st ev)) := by
  simp only [appendAudit, planAuditAppend, hs, hg, bind, Except.bind, pure, Except.pure]
  rw [← plannedRecord, applyPlanTx_planned ho hroom hanchor, if_neg (by simp [hm]), hf]

end

end NexaRoute.Audit
