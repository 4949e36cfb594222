import NexaRoute.Audit.Rules
import NexaRoute.Audit.Settle

/-!
# The chain invariant

What holds of a snapshot between appends, and why verification then finds nothing. The records
form a chain in which each may follow the one before: legacy records in any increasing sequence,
then sealed records without gaps, each linked to its predecessor. The first record starts the
chain at the anchor or at nothing, and the metadata is that of a log never appended to or of one
whose head is its newest record.

## Main results

* `ChainInv.verified`, `ChainInv.settle` — the invariant verifies, and appends keep it
-/

namespace NexaRoute.Audit

open Go List

variable {H : Digest} {st : ChainState} {a b e r : AuditEvent}

/-- A chained record whose hash is its own. -/
def Sealed (H : Digest) (r : AuditEvent) : Prop := r.hash ≠ "" ∧ canonicalAuditHash H r = r.hash

/-- `b` may come right after `a`. -/
def Follows (H : Digest) (a b : AuditEvent) : Prop :=
  (a.hash = "" ∧ b.hash = "" ∧ a.seq < b.seq) ∨
    (Sealed H b ∧ b.seq.toNat = a.seq.toNat + 1 ∧ b.prevHash = recordHash H a a.seq)

/-- `r` may come first, after the anchor if there is one. -/
def Starts (H : Digest) (anchor : ChainRef) (anchorState : RefState) (r : AuditEvent) : Prop :=
  r.hash = "" ∨ (Sealed H r ∧
    if anchorState = .valid then r.prevHash = anchor.hash ∧ r.seq.toNat = anchor.seq.toNat + 1
    else r.prevHash = "")

/-- A log no chained record was ever appended to. Its allocator is at its last record: nothing was
allocated that is not there any more at the end. -/
structure Fresh (st : ChainState) : Prop where
  headState : st.headState = .absent
  anchorState : st.anchorState = .absent
  legacy : ∀ r ∈ st.records, r.hash = ""
  last : ∀ l ∈ st.records.getLast?, l.seq = st.allocator

/-- A log with a head: the newest record, or the anchor when pruning took everything. -/
structure Live (H : Digest) (st : ChainState) : Prop where
  headState : st.headState = .valid
  head : st.head.seq = st.allocator
  last : ∀ l ∈ st.records.getLast?, l.hash ≠ "" ∧ st.head = l.ref H
  emptied : st.records = [] → st.anchorState = .valid ∧ st.head = st.anchor

/-- The state of a chain between appends. -/
structure ChainInv (H : Digest) (st : ChainState) : Prop where
  linked : st.records.IsChain (Follows H)
  starts : ∀ r ∈ st.records.head?, Starts H st.anchor st.anchorState r
  nonzero : ∀ r ∈ st.records, r.seq ≠ 0
  anchored : st.anchorState = .absent ∨
    (st.anchorState = .valid ∧ st.anchor.Storable ∧ st.anchor.seq ≤ st.allocator)
  tail : Fresh st ∨ Live H st

/-! ### Order -/

theorem eq_add_one_of_toNat {m n : UInt64} (h : n.toNat = m.toNat + 1) : n = m + 1 := by
  have hlt := n.toNat_lt
  have h1 : (1 : UInt64).toNat = 1 := rfl
  refine UInt64.toNat_inj.mp ?_
  rw [UInt64.toNat_add, h1]
  omega

theorem Follows.lt (h : Follows H a b) : SeqLt a b := by
  rcases h with ⟨-, -, h⟩ | ⟨-, h, -⟩
  · exact h
  · exact UInt64.lt_iff_toNat_lt.mpr (by omega)

theorem pairwise_of_linked {l : List AuditEvent} (h : l.IsChain (Follows H)) :
    l.Pairwise SeqLt :=
  isChain_iff_pairwise.mp (h.imp fun _ _ => Follows.lt)

theorem le_of_mem_getLast? {l : List AuditEvent} (h : l.Pairwise SeqLt) (hr : r ∈ l)
    (hl : a ∈ l.getLast?) : r.seq ≤ a.seq := by
  obtain ⟨init, rfl⟩ : ∃ init, l = init ++ [a] := by
    obtain ⟨hne, rfl⟩ := mem_getLast?_eq_getLast hl
    exact ⟨_, (dropLast_append_getLast hne).symm⟩
  rcases mem_append.mp hr with hr | hr
  · exact UInt64.le_of_lt ((pairwise_append.mp h).2.2 r hr a (mem_singleton_self a))
  · exact mem_singleton.mp hr ▸ UInt64.le_refl _

theorem ChainInv.last_eq_allocator (h : ChainInv H st) (hl : a ∈ st.records.getLast?) :
    a.seq = st.allocator := by
  rcases h.tail with hf | hv
  · exact hf.last a hl
  · rw [← hv.head, (hv.last a hl).2]; rfl

theorem ChainInv.ordered (h : ChainInv H st) : Ordered st := by
  refine ⟨pairwise_of_linked h.linked, fun r hr => ?_⟩
  obtain ⟨l, hl⟩ : ∃ l, l ∈ st.records.getLast? :=
    ⟨_, getLast?_eq_some_getLast (ne_nil_of_mem hr)⟩
  rw [← h.last_eq_allocator hl]
  exact le_of_mem_getLast? (pairwise_of_linked h.linked) hr hl

theorem ChainInv.storable (h : ChainInv H st) (hv : st.anchorState = .valid) :
    st.anchor.Storable := by
  rcases h.anchored with ha | ⟨-, hs, -⟩
  · rw [ha] at hv; cases hv
  · exact hs

/-! ### Verification accepts -/

theorem Follows.passes (h : Follows H a b) : Passes H a b := by
  refine ⟨h.lt, fun hb => ?_⟩
  rcases h with ⟨-, hl, -⟩ | ⟨⟨-, hhash⟩, hseq, hprev⟩
  · exact absurd hl hb
  · exact ⟨fun _ => eq_add_one_of_toNat hseq, hhash, hprev⟩

theorem Starts.passesFirst (h : Starts H st.anchor st.anchorState r) : PassesFirst H st r := by
  intro hr
  rcases h with hl | ⟨⟨-, hhash⟩, h⟩
  · exact absurd hl hr
  · refine ⟨hhash, ?_⟩
    split_ifs at h ⊢
    · exact h.1
    · exact h

theorem sorted_eq_records (h : st.records.Pairwise SeqLt) : st.sorted = st.records :=
  insertionSort_eq_self h

theorem ChainInv.not_anchorGap (h : ChainInv H st) : ¬AnchorGap st := by
  rintro ⟨hv, r, hr, hc, hgap⟩
  rw [sorted_eq_records h.ordered.sorted] at hr
  rcases h.starts r hr with hl | ⟨-, hs⟩
  · exact hc hl
  · rw [if_pos hv] at hs
    exact hgap (eq_add_one_of_toNat hs.2)

theorem ChainInv.consistent (h : ChainInv H st) : Consistent H st := by
  have hsorted := sorted_eq_records h.ordered.sorted
  have hvalid : st.headState = .valid → Live H st := by
    intro hv
    refine h.tail.resolve_left fun hf => ?_
    rw [hf.headState] at hv
    cases hv
  have habsent : st.headState = .absent → Fresh st := by
    intro ha
    refine h.tail.resolve_right fun hv => ?_
    rw [hv.headState] at ha
    cases ha
  constructor <;> try rw [hsorted]
  case anchor => rcases h.anchored with ha | ⟨ha, -⟩ <;> rw [ha] <;> exact nofun
  case linked => exact h.linked.imp fun _ _ => Follows.passes
  case first => exact fun r hr => (h.starts r hr).passesFirst
  case headRead =>
    rcases h.tail with hf | hv
    · rw [hf.headState]; exact nofun
    · rw [hv.headState]; exact nofun
  case headLast => exact fun hv l hl => ((hvalid hv).last l hl).2
  case headEmptied => exact fun hv => (hvalid hv).emptied
  case headAbsent =>
    intro ha
    refine ⟨(habsent ha).legacy, fun _ => ?_⟩
    rw [(habsent ha).anchorState]
    exact nofun
  case allocated => exact fun l hl => h.ordered.below l (mem_of_getLast? hl)
  case anchorAllocated =>
    intro hv
    rcases h.anchored with ha | ⟨-, -, ha⟩
    · rw [ha] at hv; cases hv
    · exact ha
  case headAllocated => exact fun hv => (hvalid hv).head ▸ UInt64.le_refl _
  case headExact => exact fun hv _ => (hvalid hv).head.symm

/-- **The invariant is more than verification asks for.** -/
theorem ChainInv.verified (h : ChainInv H st) : (verifyChainState H st).verified = true :=
  verified_iff.mpr ⟨h.consistent, fun hg => absurd hg h.not_anchorGap⟩

theorem verifyChainState_headHash (h : st.records.Pairwise SeqLt) :
    (verifyChainState H st).headHash =
      reportHeadHash (st.records.getLast?.map (·.ref H)) st.head st.headState := by
  rw [← sorted_eq_records h]
  rfl

/-! ### An append keeps the invariant -/

theorem ChainInv.follows_plannedRecord (h : ChainInv H st) (hroom : HasRoom st)
    (hl : a ∈ st.records.getLast?) (ev : AuditEvent) : Follows H a (plannedRecord H st ev) := by
  refine .inr ⟨⟨hash_plannedRecord_ne ev, rfl⟩, ?_, ?_⟩
  · rw [h.last_eq_allocator hl]
    exact seq_newRecord hroom ev _
  · change (verifyChainState H st).headHash = _
    rw [verifyChainState_headHash h.ordered.sorted, Option.mem_def.mp hl]
    rfl

theorem ChainInv.starts_plannedRecord (h : ChainInv H st) (hroom : HasRoom st)
    (hnil : st.records = []) (ev : AuditEvent) :
    Starts H st.anchor st.anchorState (plannedRecord H st ev) := by
  have hprev : (plannedRecord H st ev).prevHash = if st.headState = .valid then st.head.hash
      else "" := by
    change (verifyChainState H st).headHash = _
    rw [verifyChainState_headHash h.ordered.sorted, hnil]
    rfl
  refine .inr ⟨⟨hash_plannedRecord_ne ev, rfl⟩, ?_⟩
  rcases h.tail with hf | hv
  · rw [if_neg (by simp [hf.anchorState]), hprev, if_neg (by simp [hf.headState])]
  · obtain ⟨ha, hh⟩ := hv.emptied hnil
    rw [if_pos ha, hprev, if_pos hv.headState, hh]
    exact ⟨rfl, by rw [← hh, hv.head]; exact seq_newRecord hroom ev _⟩

theorem ChainInv.linked_append (h : ChainInv H st) (hroom : HasRoom st) (ev : AuditEvent) :
    (st.records ++ [plannedRecord H st ev]).IsChain (Follows H) := by
  refine isChain_append.mpr ⟨h.linked, isChain_singleton _, fun a ha b hb => ?_⟩
  obtain rfl : plannedRecord H st ev = b := by simpa using hb
  exact h.follows_plannedRecord hroom ha ev

theorem ChainInv.starts_append (h : ChainInv H st) (hroom : HasRoom st) (ev : AuditEvent)
    (hr : r ∈ (st.records ++ [plannedRecord H st ev]).head?) :
    Starts H st.anchor st.anchorState r := by
  cases hrec : st.records with
  | nil =>
    obtain rfl : plannedRecord H st ev = r := by simpa [hrec] using hr
    exact h.starts_plannedRecord hroom hrec ev
  | cons x rest =>
    refine h.starts r ?_
    simpa [hrec] using hr

theorem AuditEvent.ref_storable (hr : r.seq ≠ 0) : (r.ref H).Storable :=
  ⟨recordHash_ne_empty H r r.seq, hr⟩

theorem settle_anchor (e : AuditEvent) (k : ℕ)
    (hnz : ∀ r ∈ st.records ++ [e], r.seq ≠ 0) :
    (((st.records ++ [e]).take k = [] ∧ (settle H st e k).anchor = st.anchor ∧
        (settle H st e k).anchorState = st.anchorState) ∨
      ∃ r ∈ ((st.records ++ [e]).take k).getLast?, (settle H st e k).anchor = r.ref H ∧
        (settle H st e k).anchorState = .valid) := by
  cases hl : ((st.records ++ [e]).take k).getLast? with
  | none =>
    refine .inl ⟨getLast?_eq_none_iff.mp hl, ?_⟩
    simp [settle, newestPruned, hl]
  | some r =>
    refine .inr ⟨r, rfl, ?_⟩
    have hr : r ∈ st.records ++ [e] := mem_of_mem_take (mem_of_getLast? hl)
    simp [settle, newestPruned, hl,
      parseChainRefMeta_of_storable (AuditEvent.ref_storable (hnz r hr))]

theorem starts_settle {k : ℕ} (hlinked : (st.records ++ [e]).IsChain (Follows H))
    (hstarts : ∀ r ∈ (st.records ++ [e]).head?, Starts H st.anchor st.anchorState r)
    (hnz : ∀ r ∈ st.records ++ [e], r.seq ≠ 0) (hr : r ∈ ((st.records ++ [e]).drop k).head?) :
    Starts H (settle H st e k).anchor (settle H st e k).anchorState r := by
  rcases settle_anchor e k hnz with ⟨hnil, ha, hs⟩ | ⟨p, hp, ha, hs⟩
  · rw [ha, hs]
    refine hstarts r ?_
    rw [← take_append_drop k (st.records ++ [e]), hnil]
    exact hr
  · rw [← take_append_drop k (st.records ++ [e])] at hlinked
    rcases (isChain_append.mp hlinked).2.2 p hp r hr with ⟨-, hl, -⟩ | ⟨hsealed, hseq, hprev⟩
    · exact .inl hl
    · refine .inr ⟨hsealed, ?_⟩
      rw [if_pos hs, ha]
      exact ⟨hprev, hseq⟩

/-- **An append keeps the invariant**, however much it prunes. -/
theorem ChainInv.settle (h : ChainInv H st) (hroom : HasRoom st) (ev : AuditEvent) {k : ℕ}
    (hk : k ≤ st.records.length + 1) :
    ChainInv H (settle H st (plannedRecord H st ev) k) := by
  have hlinked := h.linked_append hroom ev
  have hnz : ∀ r ∈ st.records ++ [plannedRecord H st ev], r.seq ≠ 0 := by
    intro r hr
    rcases mem_append.mp hr with hr | hr
    · exact h.nonzero r hr
    · rw [mem_singleton.mp hr]
      exact seq_plannedRecord_ne hroom ev
  have hne : (plannedRecord H st ev).hash ≠ "" := hash_plannedRecord_ne ev
  have halloc : st.allocator ≤ (plannedRecord H st ev).seq := by
    have := seq_newRecord (H := H) hroom ev (verifyChainState H st).headHash
    exact UInt64.le_iff_toNat_le.mpr (by rw [plannedRecord]; omega)
  refine ⟨hlinked.drop k, fun r hr => starts_settle hlinked (fun r => h.starts_append hroom ev)
    hnz hr, fun r hr => hnz r (mem_of_mem_drop hr), ?_, .inr ⟨rfl, rfl, ?_, ?_⟩⟩
  · rcases settle_anchor (H := H) _ k hnz with ⟨-, ha, hs⟩ | ⟨r, hr, ha, hs⟩
    · rw [ha, hs]
      refine h.anchored.imp_right ?_
      rintro ⟨hv, hst, hle⟩
      exact ⟨hv, hst, UInt64.le_trans hle halloc⟩
    · have hmem := mem_of_mem_take (mem_of_getLast? hr)
      refine .inr ⟨hs, ha ▸ AuditEvent.ref_storable (hnz r hmem), ?_⟩
      rw [ha]
      exact le_of_mem_getLast? (pairwise_of_linked hlinked) hmem (by simp)
  · intro l hl
    have hlast : l = plannedRecord H st ev := by
      have := getLast?_drop (i := k) (l := st.records ++ [plannedRecord H st ev])
      change l ∈ (drop k _).getLast? at hl
      rw [this] at hl
      split at hl
      · cases hl
      · simpa using hl.symm
    subst hlast
    refine ⟨hne, ?_⟩
    rw [AuditEvent.ref, recordHash_chained H hne]
    rfl
  · intro hnil
    -- nothing is left only when the new record was pruned too, and then it is the anchor
    have hk' : k = st.records.length + 1 := by
      have := drop_eq_nil_iff.mp hnil
      rw [length_append, length_singleton] at this
      omega
    subst hk'
    have hst : ChainRef.Storable ⟨(plannedRecord H st ev).seq, (plannedRecord H st ev).hash⟩ :=
      ⟨hne, seq_plannedRecord_ne (H := H) hroom ev⟩
    simp [Audit.settle, newestPruned_all hne, parseChainRefMeta_of_storable hst]

end NexaRoute.Audit
