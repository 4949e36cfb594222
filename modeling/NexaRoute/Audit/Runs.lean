import NexaRoute.Audit.Invariant

/-!
# Runs of a security store

A run is any list of append calls: events, clocks, bounds and retentions are the callers', and a
call may be refused. The one thing asked of a run is that the sequence counter has room, that is,
that the store has appended fewer than `2 ^ 64 - 1` records.

From an empty store every state reached verifies, with the surviving records contiguous up to the
head. From a legacy log, written before records were chained, the same holds exactly when the
allocator stands at the last record and no record has sequence zero. In the other case one append
can leave a state that every later append refuses: the anchor moves onto a legacy record whose
sequence is not the one before the first chained record, or that does not read back.

## Main results

* `append_run_from_empty` — every state from an empty store verifies
* `legacy_runs_verified_iff` — from a legacy log, exactly if it is migratable
-/

namespace NexaRoute.Audit

open Go Machine List

variable {H : Digest} {st : ChainState} {call : AppendCall} {calls : List AppendCall}

variable {bound : ℕ}

/-- The call appends a record. -/
def accepts (H : Digest) (st : ChainState) (call : AppendCall) : Bool :=
  (appendAudit H st call).isOk

/-- How many calls of a run append a record. -/
def successes (H : Digest) : ChainState → List AppendCall → ℕ
  | _, [] => 0
  | st, call :: calls => (accepts H st call).toNat + successes H (append H st call) calls

theorem append_of_ok {st' : ChainState} (h : appendAudit H st call = .ok st') :
    accepts H st call = true ∧ append H st call = st' := by
  rw [accepts, append, h]
  exact ⟨rfl, rfl⟩

theorem append_of_error {err : AppendError} (h : appendAudit H st call = .error err) :
    accepts H st call = false ∧ append H st call = st := by
  rw [accepts, append, h]
  exact ⟨rfl, rfl⟩

theorem append_cases (hi : ChainInv H st) (hroom : HasRoom st) (call : AppendCall) :
    (accepts H st call = false ∧ append H st call = st) ∨
      (accepts H st call = true ∧ ∃ ev, append H st call =
        settle H st (plannedRecord H st ev) (call.prunes H st ev)) := by
  cases h : appendAudit H st call with
  | error err => exact .inl (append_of_error h)
  | ok st' =>
    obtain ⟨ev, -, heq⟩ := settle_of_appendAudit hi.ordered hroom hi.storable h
    exact .inr ⟨(append_of_ok h).1, ev, (append_of_ok h).2.trans heq⟩

theorem prunes_le (ev : AuditEvent) : call.prunes H st ev ≤ st.records.length + 1 :=
  toDelete_le _ _

theorem length_settle_le (ev : AuditEvent) :
    (settle H st (plannedRecord H st ev) (call.prunes H st ev)).records.length ≤
      call.maxAuditItems := by
  have := length_le_pruneCount_add (unixNano (call.now - call.retention)) call.maxAuditItems
    ((st.records ++ [plannedRecord H st ev]).map (·.seqTS))
  rw [length_map] at this
  change ((st.records ++ [plannedRecord H st ev]).drop (call.prunes H st ev)).length ≤ _
  rw [length_drop, AppendCall.prunes, toDelete]
  omega

theorem ChainInv.append (hi : ChainInv H st) (hroom : HasRoom st) (call : AppendCall) :
    ChainInv H (append H st call) := by
  rcases append_cases hi hroom call with ⟨-, h⟩ | ⟨-, ev, h⟩
  · rwa [h]
  · rw [h]
    exact hi.settle hroom ev (prunes_le ev)

theorem ChainInv.run (hi : ChainInv H st)
    (hroom : Guarded (Audit.append H) (fun st _ => HasRoom st) st calls) :
    ChainInv H (run (Audit.append H) st calls) :=
  run_induction (fun _ call hi hroom => hi.append hroom call) hi hroom

theorem allocator_run (hi : ChainInv H st)
    (hroom : Guarded (append H) (fun st _ => HasRoom st) st calls) :
    (run (append H) st calls).allocator.toNat = st.allocator.toNat + successes H st calls := by
  induction calls generalizing st with
  | nil => rfl
  | cons call calls ih =>
    rw [run_cons, ih (hi.append hroom.1 call) hroom.2, successes]
    rcases append_cases hi hroom.1 call with ⟨ha, h⟩ | ⟨ha, ev, h⟩
    · rw [ha, h, Bool.toNat_false, Nat.zero_add]
    · have hseq : (append H st call).allocator.toNat = st.allocator.toNat + 1 := by
        rw [h]
        exact seq_newRecord (H := H) hroom.1 ev (verifyChainState H st).headHash
      rw [ha, hseq, Bool.toNat_true, Nat.add_assoc]

/-! ### From an empty store -/

/-- What more holds of a store that started empty: no record is legacy, there is a head once a
sequence was allocated, and the bounds the calls came with are kept. -/
structure Grown (H : Digest) (bound : ℕ) (st : ChainState) : Prop where
  inv : ChainInv H st
  chained : ∀ r ∈ st.records, r.hash ≠ ""
  live : st.allocator = 0 ∨ Live H st
  length_le : st.records.length ≤ bound

/-- The calls of a run that `Grown` is kept by. -/
def Within (bound : ℕ) (st : ChainState) (call : AppendCall) : Prop :=
  HasRoom st ∧ call.maxAuditItems ≤ bound

theorem chainInv_empty : ChainInv H .empty where
  linked := isChain_nil
  starts := nofun
  nonzero := nofun
  anchored := .inl rfl
  tail := .inl ⟨rfl, rfl, nofun, nofun⟩

theorem grown_empty (bound : ℕ) : Grown H bound .empty :=
  ⟨chainInv_empty, nofun, .inl rfl, Nat.zero_le _⟩

theorem Grown.append (h : Grown H bound st) (hc : Within bound st call) :
    Grown H bound (append H st call) := by
  rcases append_cases h.inv hc.1 call with ⟨-, heq⟩ | ⟨-, ev, heq⟩
  · rwa [heq]
  · have hi := h.inv.append hc.1 call
    rw [heq] at hi ⊢
    refine ⟨hi, fun r hr => ?_, .inr (hi.tail.resolve_left fun hf => ?_),
      (length_settle_le ev).trans hc.2⟩
    · rcases mem_append.mp (mem_of_mem_drop hr) with hr | hr
      · exact h.chained r hr
      · rw [mem_singleton.mp hr]
        exact hash_plannedRecord_ne ev
    · cases hf.headState

theorem Grown.contiguous (h : Grown H bound st) :
    st.records.IsChain fun a b => b.seq.toNat = a.seq.toNat + 1 := by
  refine h.inv.linked.imp_of_mem_imp fun a b _ hb hab => ?_
  rcases hab with ⟨-, hl, -⟩ | ⟨-, hseq, -⟩
  · exact absurd hl (h.chained b hb)
  · exact hseq

theorem Grown.last_eq_head (h : Grown H bound st) {l : AuditEvent} (hl : l ∈ st.records.getLast?) :
    l.seq = st.head.seq := by
  rcases h.inv.tail with hf | hv
  · exact absurd (hf.legacy l (mem_of_getLast? hl)) (h.chained l (mem_of_getLast? hl))
  · rw [(hv.last l hl).2]
    rfl

theorem Grown.run (h : Grown H bound st)
    (hcalls : Guarded (Audit.append H) (Within bound) st calls) :
    Grown H bound (run (Audit.append H) st calls) :=
  run_induction (fun _ _ h hc => h.append hc) h hcalls

/-- **Runs from an empty store.** Every state reached verifies. Its records are contiguous up to
the head and no more than the bound, the allocator counts the appends and is the head's sequence,
and a refused call changes nothing. -/
theorem append_run_from_empty (bound : ℕ) (calls : List AppendCall)
    (hcalls : Guarded (append H) (Within bound) .empty calls) :
    let st := run (append H) .empty calls
    (verifyChainState H st).verified = true ∧
      (st.records.IsChain (fun a b => b.seq.toNat = a.seq.toNat + 1) ∧
        ∀ l ∈ st.records.getLast?, l.seq = st.head.seq) ∧
      (st.records.length ≤ bound ∧ ∀ call st', HasRoom st → appendAudit H st call = .ok st' →
        st'.records.length ≤ call.maxAuditItems) ∧
      (st.allocator.toNat = successes H .empty calls ∧
        (0 < successes H .empty calls → st.headState = .valid ∧ st.head.seq = st.allocator)) ∧
      ∀ call err, appendAudit H st call = .error err → append H st call = st := by
  intro st
  have hg : Grown H bound st := (grown_empty bound).run hcalls
  have hcount : st.allocator.toNat = successes H .empty calls := by
    rw [allocator_run chainInv_empty (hcalls.imp fun _ _ h => h.1)]
    exact Nat.zero_add _
  refine ⟨hg.inv.verified, ⟨hg.contiguous, fun l => hg.last_eq_head⟩,
    ⟨hg.length_le, fun call st' hroom hok => ?_⟩, ⟨hcount, fun hpos => ?_⟩,
    fun call err herr => (append_of_error herr).2⟩
  · obtain ⟨ev, -, heq⟩ := settle_of_appendAudit hg.inv.ordered hroom hg.inv.storable hok
    rw [heq]
    exact length_settle_le ev
  · rcases hg.live with hz | hv
    · rw [hz] at hcount
      exact absurd hcount (Nat.ne_of_lt hpos)
    · exact ⟨hv.headState, hv.head⟩

/-- A call that prunes by count alone: no record is older than the least instant. -/
def AppendCall.byCount (maxAuditItems : ℕ) : AppendCall :=
  ⟨loginEvent, maxAuditItems, 2 ^ 63 - 1, 0, -1, none⟩

theorem append_run_from_empty_twice :
    successes sha256 .empty [.byCount 1, .byCount 1] = 2 ∧
      (verifyChainState sha256
        (run (append sha256) .empty [.byCount 1, .byCount 1])).verified = true :=
  ⟨by decide +kernel,
    (append_run_from_empty 1 [.byCount 1, .byCount 1]
      ⟨⟨by decide, by decide⟩, ⟨by decide +kernel, by decide⟩, trivial⟩).1⟩

/-! ### From a legacy log -/

/-- A log written before records were chained. Timestamp pruning may have left the allocator above
the surviving records. -/
structure LegacyOnly (st : ChainState) : Prop where
  sorted : st.records.Pairwise SeqLt
  legacy : ∀ r ∈ st.records, r.hash = ""
  headState : st.headState = .absent
  anchorState : st.anchorState = .absent
  below : ∀ r ∈ st.records, r.seq ≤ st.allocator

/-- A legacy log the chain can continue: the next sequence is the one after its last record, and
every record can be an anchor. -/
structure Migratable (st : ChainState) : Prop where
  last : ∀ l ∈ st.records.getLast?, l.seq = st.allocator
  nonzero : ∀ r ∈ st.records, r.seq ≠ 0

section

variable (h : LegacyOnly st)

include h

theorem LegacyOnly.linked : st.records.IsChain (Follows H) :=
  h.sorted.isChain.imp_of_mem_imp fun a b ha hb hab =>
    .inl ⟨h.legacy a ha, h.legacy b hb, hab⟩

theorem LegacyOnly.ordered : Ordered st := ⟨h.sorted, h.below⟩

theorem LegacyOnly.storable (hv : st.anchorState = .valid) : st.anchor.Storable := by
  rw [h.anchorState] at hv
  cases hv

theorem LegacyOnly.chainInv (hm : Migratable st) : ChainInv H st where
  linked := h.linked
  starts := fun r hr => .inl (h.legacy r (mem_of_mem_head? hr))
  nonzero := hm.nonzero
  anchored := .inl h.anchorState
  tail := .inl ⟨h.headState, h.anchorState, h.legacy, hm.last⟩

theorem LegacyOnly.verified : (verifyChainState H st).verified = true := by
  have hsorted := sorted_eq_records h.sorted
  have hhead : st.headState ≠ .valid := by rw [h.headState]; exact nofun
  have hanchor : st.anchorState ≠ .valid := by rw [h.anchorState]; exact nofun
  refine verified_iff.mpr ⟨?_, fun hg => absurd hg.1 hanchor⟩
  constructor <;> try rw [hsorted]
  case anchor => rw [h.anchorState]; exact nofun
  case linked => exact h.linked.imp fun _ _ => Follows.passes
  case first => exact fun r hr hc => absurd (h.legacy r (mem_of_mem_head? hr)) hc
  case headRead => rw [h.headState]; exact nofun
  case headLast => exact fun hv => absurd hv hhead
  case headEmptied => exact fun hv => absurd hv hhead
  case headAbsent => exact fun _ => ⟨h.legacy, fun _ => hanchor⟩
  case allocated => exact fun l hl => h.below l (mem_of_getLast? hl)
  case anchorAllocated => exact fun hv => absurd hv hanchor
  case headAllocated => exact fun hv => absurd hv hhead
  case headExact => exact fun hv => absurd hv hhead

theorem LegacyOnly.gate :
    appendGate (verifyChainState H st) st.headState st.anchorState = .ok () := by
  have hnil : (verifyChainState H st).problems = [] := isEmpty_iff.mp h.verified
  have hchained : (verifyChainState H st).chainedRecords = 0 := by
    change st.sorted.countP (!·.legacy) = 0
    rw [sorted_eq_records h.sorted, countP_chained_eq_zero]
    exact h.legacy
  simp [appendGate, hnil, h.headState, h.anchorState]

end

theorem prunes_byCount (maxAuditItems : ℕ) (ev : AuditEvent) :
    (AppendCall.byCount maxAuditItems).prunes H st ev = st.records.length + 1 - maxAuditItems := by
  have hcut : unixNano (-1 - (2 ^ 63 - 1)) = -2 ^ 63 := by decide
  have hrecent : ∀ i ∈ (st.records ++ [plannedRecord H st ev]).map (·.seqTS), -2 ^ 63 ≤ i.ts := by
    intro i hi
    obtain ⟨r, -, rfl⟩ := mem_map.mp hi
    exact le_unixNano r.timestamp
  change pruneCount (unixNano (-1 - (2 ^ 63 - 1))) maxAuditItems _ = _
  rw [hcut, pruneCount_of_recent hrecent]
  simp

theorem LegacyOnly.append_byCount (h : LegacyOnly st) (hroom : HasRoom st) (maxAuditItems : ℕ) :
    Audit.append H st (.byCount maxAuditItems) = settle H st (plannedRecord H st loginEvent)
      (st.records.length + 1 - maxAuditItems) := by
  have hok : appendAudit H st (.byCount maxAuditItems) = .ok (settle H st
      (plannedRecord H st loginEvent)
      ((AppendCall.byCount maxAuditItems).prunes H st loginEvent)) :=
    appendAudit_of_gate h.ordered hroom h.storable (sanitize_loginEvent (by decide) 0) h.gate
      (by decide) rfl
  rw [(append_of_ok hok).2, prunes_byCount]

theorem LegacyOnly.malformed_of_zero (h : LegacyOnly st) (hroom : HasRoom st) {r : AuditEvent}
    (hr : r ∈ st.records) (hz : r.seq = 0) :
    (verifyChainState H (Audit.append H st (.byCount st.records.length))).verified = false := by
  have hsorted := h.sorted
  obtain ⟨x, rest, hrec⟩ := exists_cons_of_ne_nil (ne_nil_of_mem hr)
  have hx : x.seq = 0 := by
    rw [hrec] at hr hsorted
    rcases mem_cons.mp hr with rfl | hr
    · exact hz
    · have := rel_of_pairwise_cons hsorted hr
      rw [SeqLt, hz] at this
      exact absurd this UInt64.not_lt_zero
  have hparse : parseChainRefMeta (some (x.ref H)) = (.zero, .malformed) := by
    simp [parseChainRefMeta, AuditEvent.ref, hx]
  rw [h.append_byCount hroom, ← Bool.not_eq_true, verified_iff]
  intro hc
  refine hc.1.anchor ?_
  simp [settle, newestPruned, hrec, hparse]

/-- When the allocator is past the last record, pruning all legacy records leaves a gap between
the anchor and the first chained record. -/
theorem LegacyOnly.gap_of_lt (h : LegacyOnly st) (hroom : HasRoom st) {l : AuditEvent}
    (hl : l ∈ st.records.getLast?) (hz : l.seq ≠ 0) (hlt : l.seq < st.allocator) :
    (verifyChainState H (Audit.append H st (.byCount 1))).verified = false := by
  obtain ⟨e, he⟩ : ∃ e, e = plannedRecord H st loginEvent := ⟨_, rfl⟩
  have hseq : e.seq.toNat = st.allocator.toNat + 1 := by
    rw [he]
    exact seq_newRecord hroom loginEvent (verifyChainState H st).headHash
  have hgap : e.seq ≠ l.seq + 1 := by
    intro heq
    have h1 : (1 : UInt64).toNat = 1 := rfl
    have hlt := UInt64.lt_iff_toNat_lt.mp hlt
    rw [heq, UInt64.toNat_add, h1] at hseq
    omega
  have hhash : e.hash ≠ "" := he ▸ hash_plannedRecord_ne loginEvent
  have hparse : parseChainRefMeta (some (l.ref H)) = (l.ref H, .valid) :=
    parseChainRefMeta_of_storable (AuditEvent.ref_storable hz)
  rw [h.append_byCount hroom, Nat.add_sub_cancel, ← he]
  have hsettle : settle H st e st.records.length =
      ⟨[e], ⟨e.seq, e.hash⟩, .valid, l.ref H, .valid, e.seq⟩ := by
    simp [settle, newestPruned, Option.mem_def.mp hl, hparse]
  rw [hsettle, ← Bool.not_eq_true, verified_iff]
  rintro ⟨-, hexcused⟩
  -- the new record is the only one left, so no legacy record excuses the gap
  obtain ⟨r, hr, hlegacy⟩ := hexcused ⟨rfl, e, rfl, hhash, hgap⟩
  rw [mem_singleton.mp hr] at hlegacy
  exact hhash hlegacy

theorem appendAudit_ne_unverified (h : (verifyChainState H st).verified = true)
    (call : AppendCall) (p : Problem) : appendAudit H st call ≠ .error (.unverified p) := by
  have hnil : (verifyChainState H st).problems = [] := isEmpty_iff.mp h
  have hgate : ∀ err, appendGate (verifyChainState H st) st.headState st.anchorState = .error err →
      err ≠ .unverified p := by
    intro err hg
    simp only [appendGate, hnil] at hg
    split_ifs at hg <;> (cases hg; intro herr; cases herr)
  cases hs : sanitizeAuditEvent call.event call.clock with
  | none => simp [appendAudit, planAuditAppend, hs, bind, Except.bind]
  | some ev =>
    cases hg : appendGate (verifyChainState H st) st.headState st.anchorState with
    | error err =>
      simpa [appendAudit, planAuditAppend, hs, hg, bind, Except.bind] using hgate err hg
    | ok _ =>
      simp only [appendAudit, planAuditAppend, hs, hg, bind, Except.bind, pure, Except.pure]
      split
      · rename_i err herr
        simp only [applyPlanTx] at herr
        split_ifs at herr <;> cases herr <;> simp
      · cases call.fault <;> simp

/-- **Runs from a legacy log.** Every state reached verifies, so that no later append is refused
by verification, exactly when the log is migratable. -/
theorem legacy_runs_verified_iff (h : LegacyOnly st) (hroom : HasRoom st) :
    (∀ calls, Guarded (append H) (fun st _ => HasRoom st) st calls →
      (verifyChainState H (run (append H) st calls)).verified = true ∧
        ∀ call p, appendAudit H (run (append H) st calls) call ≠ .error (.unverified p)) ↔
      Migratable st := by
  constructor
  · intro hall
    have hnz : ∀ r ∈ st.records, r.seq ≠ 0 := by
      intro r hr hz
      have hv := (hall [.byCount st.records.length] ⟨hroom, trivial⟩).1
      rw [run_cons, run_nil, h.malformed_of_zero hroom hr hz] at hv
      cases hv
    refine ⟨fun l hl => ?_, hnz⟩
    by_contra hne
    have hmem := mem_of_getLast? hl
    have hlt : l.seq < st.allocator := UInt64.lt_of_le_of_ne (h.below l hmem) hne
    have hv := (hall [.byCount 1] ⟨hroom, trivial⟩).1
    rw [run_cons, run_nil, h.gap_of_lt hroom hl (hnz l hmem) hlt] at hv
    cases hv
  · intro hm calls hcalls
    have hv := ((h.chainInv hm).run hcalls).verified
    exact ⟨hv, appendAudit_ne_unverified hv⟩

/-- A legacy record at `3` under an allocator at `5`: pruning had already removed the newer ones. -/
def gappedLog : ChainState :=
  ⟨[{ loginEvent with seq := 3 }], .zero, .absent, .zero, .absent, 5⟩

/-- A legacy record at the allocator's sequence. -/
def settledLog : ChainState := { gappedLog with allocator := 3 }

theorem legacyOnly_gappedLog : LegacyOnly gappedLog :=
  ⟨pairwise_singleton _ _, by decide, rfl, rfl, by decide⟩

/-- The gate accepts the log, the append succeeds, and every append after it is refused. -/
theorem gappedLog_refuses_appends :
    LegacyOnly gappedLog ∧
      appendGate (verifyChainState sha256 gappedLog) gappedLog.headState gappedLog.anchorState
        = .ok () ∧
      accepts sha256 gappedLog (.byCount 1) = true ∧
      (verifyChainState sha256 (append sha256 gappedLog (.byCount 1))).verified = false ∧
      appendAudit sha256 (append sha256 gappedLog (.byCount 1)) (.byCount 1)
        = .error (.unverified (.anchorGap 3 6)) :=
  ⟨legacyOnly_gappedLog, by decide +kernel⟩

theorem settledLog_runs_verified :
    Migratable settledLog ∧ (verifyChainState sha256
      (run (append sha256) settledLog [.byCount 1, .byCount 1])).verified = true :=
  have hm : Migratable settledLog := ⟨by decide, by decide⟩
  ⟨hm, ((legacy_runs_verified_iff ⟨pairwise_singleton _ _, by decide, rfl, rfl, by decide⟩
    (by decide)).mpr hm [.byCount 1, .byCount 1]
      ⟨by decide, by decide +kernel, trivial⟩).1⟩

end NexaRoute.Audit
