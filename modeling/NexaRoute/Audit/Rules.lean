import NexaRoute.Audit.Append

/-!
# What verification accepts

The checks of a snapshot, read as conditions. `Consistent` is every rule but one: that a first
record which is chained comes right after the pruning anchor. That rule is `AnchorGap`, and the
two verifiers of the store apply it under different conditions, so it is kept apart: a list of
problems is empty when the snapshot is consistent and the gap, if there is one, is excused.

## Main results

* `problemsWith_eq_nil_iff` — when a snapshot has no problems
-/

namespace NexaRoute.Audit

open Go List AuditEvent

variable {H : Digest} {st : ChainState} {a b r : AuditEvent} {l : List AuditEvent}

variable {hasAnchor : Bool} {anchor head : ChainRef} {n : ℕ} {headState : RefState}

/-- The records of a snapshot in sequence order. -/
def ChainState.sorted (st : ChainState) : List AuditEvent := st.records.insertionSort bySeq

/-- `b` passes the checks of a record right after `a`. -/
def Passes (H : Digest) (a b : AuditEvent) : Prop :=
  a.seq < b.seq ∧ (b.hash ≠ "" → (a.hash ≠ "" → b.seq = a.seq + 1) ∧
    canonicalAuditHash H b = b.hash ∧ b.prevHash = recordHash H a a.seq)

/-- `r` passes the checks of a first record, the distance to the anchor aside. -/
def PassesFirst (H : Digest) (st : ChainState) (r : AuditEvent) : Prop :=
  r.hash ≠ "" → canonicalAuditHash H r = r.hash ∧
    r.prevHash = if st.anchorState = .valid then st.anchor.hash else ""

/-- The first record is chained and is not the one after the anchor. -/
def AnchorGap (st : ChainState) : Prop :=
  st.anchorState = .valid ∧ ∃ r ∈ st.sorted.head?, r.hash ≠ "" ∧ r.seq ≠ st.anchor.seq + 1

/-- Every rule of verification but the one against `AnchorGap`. -/
structure Consistent (H : Digest) (st : ChainState) : Prop where
  anchor : st.anchorState ≠ .malformed
  linked : st.sorted.IsChain (Passes H)
  first : ∀ r ∈ st.sorted.head?, PassesFirst H st r
  headRead : st.headState ≠ .malformed
  headLast : st.headState = .valid → ∀ l ∈ st.sorted.getLast?, st.head = l.ref H
  headEmptied : st.headState = .valid → st.sorted = [] →
    st.anchorState = .valid ∧ st.head = st.anchor
  headAbsent : st.headState = .absent →
    (∀ r ∈ st.sorted, r.hash = "") ∧ (st.sorted = [] → st.anchorState ≠ .valid)
  allocated : ∀ l ∈ st.sorted.getLast?, l.seq ≤ st.allocator
  anchorAllocated : st.anchorState = .valid → st.anchor.seq ≤ st.allocator
  headAllocated : st.headState = .valid → st.head.seq ≤ st.allocator
  headExact : st.headState = .valid → ((∃ r ∈ st.sorted, r.hash ≠ "") ∨ st.sorted = []) →
    st.allocator = st.head.seq

/-! ### The records -/

theorem recordProblems_some_eq_nil :
    recordProblems H hasAnchor anchor n (some a) b = [] ↔ Passes H a b := by
  simp only [recordProblems, duplicateProblems, legacy, Option.map_some,
    append_eq_nil_iff, reportIf_eq_nil, Passes, decide_eq_false_iff_not, UInt64.not_le]
  refine and_congr_right fun _ => ?_
  by_cases hb : b.hash = ""
  · simp
  · by_cases ha : a.hash = ""
    · simp
    · simp

theorem scan_some_eq_nil :
    scan H hasAnchor anchor n (some a) l = [] ↔ (a :: l).IsChain (Passes H) := by
  induction l generalizing a with
  | nil => simp [scan]
  | cons b l ih =>
    rw [scan, append_eq_nil_iff, recordProblems_some_eq_nil, ih, isChain_cons_cons]

theorem recordProblems_none_eq_nil :
    recordProblems H (st.anchorState == .valid) st.anchor n none r = [] ↔
      PassesFirst H st r ∧
        (st.anchorState = .valid → r.hash ≠ "" → r.seq ≠ st.anchor.seq + 1 → n ≠ 0) := by
  simp only [recordProblems, duplicateProblems, legacy, Option.map_none,
    nil_append, PassesFirst]
  by_cases hr : r.hash = ""
  · simp [hr]
  · by_cases hv : st.anchorState = .valid
    · simp [hr, hv, firstProblems, and_assoc]
    · simp [hv, firstProblems]

theorem scan_none_eq_nil :
    scan H (st.anchorState == .valid) st.anchor n none st.sorted = [] ↔
      st.sorted.IsChain (Passes H) ∧ (∀ r ∈ st.sorted.head?, PassesFirst H st r) ∧
        (AnchorGap st → n ≠ 0) := by
  simp only [AnchorGap]
  cases st.sorted with
  | nil => simp [scan]
  | cons r l =>
    rw [scan, append_eq_nil_iff, recordProblems_none_eq_nil, scan_some_eq_nil]
    simp only [head?_cons, Option.mem_def, Option.some.injEq, forall_eq', exists_eq_left',
      and_imp]
    exact ⟨fun ⟨⟨hf, hg⟩, hl⟩ => ⟨hl, hf, hg⟩, fun ⟨hl, hf, hg⟩ => ⟨⟨hf, hg⟩, hl⟩⟩

/-! ### The metadata -/

theorem countP_chained_eq_zero : l.countP (!·.legacy) = 0 ↔ ∀ r ∈ l, r.hash = "" := by
  simp [legacy]

theorem headProblems_eq_nil {last : Option ChainRef} :
    headProblems hasAnchor anchor head headState last n = [] ↔
      headState ≠ .malformed ∧
        (headState = .valid → (∀ l ∈ last, head = l) ∧
          (last = none → hasAnchor = true ∧ head = anchor)) ∧
        (headState = .absent → n = 0 ∧ (last = none → hasAnchor = false)) := by
  cases headState with
  | malformed => simp [headProblems]
  | absent => cases last <;> simp [headProblems]
  | valid =>
    cases last with
    | none => simp [headProblems]
    | some l => simp [headProblems, ← ChainRef.ext_iff]

theorem evidence_le {lastSeq m : UInt64} :
    evidence hasAnchor anchor head headState lastSeq ≤ m ↔
      lastSeq ≤ m ∧ (hasAnchor = true → anchor.seq ≤ m) ∧ (headState = .valid → head.seq ≤ m) := by
  by_cases hv : headState = .valid
  · cases hasAnchor <;>
      simp only [evidence, hv, true_and, false_and, Bool.false_eq_true, if_false, gt_iff_lt,
        UInt64.lt_iff_toNat_lt, UInt64.le_iff_toNat_le, true_imp_iff, false_imp_iff]
    · split_ifs <;> omega
    · split_ifs <;> omega
  · cases hasAnchor <;>
      simp only [evidence, hv, true_and, false_and, Bool.false_eq_true, if_false, gt_iff_lt,
        UInt64.lt_iff_toNat_lt, UInt64.le_iff_toNat_le, true_imp_iff, false_imp_iff, and_true]
    · split_ifs <;> omega

theorem allocatorProblems_eq_nil {lastSeq allocator : UInt64} {total chained : ℕ} :
    allocatorProblems hasAnchor anchor head headState lastSeq total chained allocator = [] ↔
      (lastSeq ≤ allocator ∧ (hasAnchor = true → anchor.seq ≤ allocator) ∧
        (headState = .valid → head.seq ≤ allocator)) ∧
      (headState = .valid → (0 < chained ∨ total = 0) → allocator = head.seq) := by
  simp only [allocatorProblems, append_eq_nil_iff, reportIf_eq_nil, decide_eq_false_iff_not,
    UInt64.not_lt, evidence_le]
  refine and_congr_right fun _ => ?_
  by_cases hv : headState = .valid
  · simp
  · simp

/-! ### The report -/

/-- The problems of a snapshot when the rule against `AnchorGap` is applied with `n` legacy
records. -/
def problemsWith (H : Digest) (st : ChainState) (n : ℕ) : List Problem :=
  reportIf (st.anchorState == .malformed) .anchorMalformed ++
    scan H (st.anchorState == .valid) st.anchor n none st.sorted ++
    headProblems (st.anchorState == .valid) st.anchor st.head st.headState
      (st.sorted.getLast?.map (·.ref H)) (st.sorted.countP (!·.legacy)) ++
    allocatorProblems (st.anchorState == .valid) st.anchor st.head st.headState
      (((st.sorted.getLast?.map (·.ref H)).map (·.seq)).getD 0) st.sorted.length
      (st.sorted.countP (!·.legacy)) st.allocator

theorem verifyChainState_problems :
    (verifyChainState H st).problems = problemsWith H st (st.sorted.countP (·.legacy)) := rfl

/-- **A snapshot has no problems exactly when it is consistent and a gap after the anchor, if there
is one, is excused.** -/
theorem problemsWith_eq_nil_iff :
    problemsWith H st n = [] ↔ Consistent H st ∧ (AnchorGap st → n ≠ 0) := by
  have hlast : ∀ {m : UInt64}, (((st.sorted.getLast?.map (·.ref H)).map (·.seq)).getD 0) ≤ m ↔
      ∀ l ∈ st.sorted.getLast?, l.seq ≤ m := by
    cases st.sorted.getLast? <;> simp [ref]
  have hchained : 0 < st.sorted.countP (!·.legacy) ↔ ∃ r ∈ st.sorted, r.hash ≠ "" := by
    simp [legacy]
  have hrefs : (∀ ref ∈ st.sorted.getLast?.map (·.ref H), st.head = ref) ↔
      ∀ l ∈ st.sorted.getLast?, st.head = l.ref H := by
    simp only [Option.mem_map, forall_exists_index, and_imp, forall_apply_eq_imp_iff₂]
  simp only [problemsWith, append_eq_nil_iff, scan_none_eq_nil, headProblems_eq_nil,
    allocatorProblems_eq_nil, reportIf_eq_nil, hlast, hchained, hrefs, countP_chained_eq_zero,
    beq_iff_eq, beq_eq_false_iff_ne, Option.map_eq_none_iff, getLast?_eq_none_iff,
    length_eq_zero_iff]
  constructor
  · rintro ⟨⟨⟨hm, hl, hf, hg⟩, hr, hv, ha⟩, ⟨hs, has, hh⟩, hx⟩
    exact ⟨⟨hm, hl, hf, hr, fun h => (hv h).1, fun h => (hv h).2, ha, hs, has, hh, hx⟩, hg⟩
  · rintro ⟨⟨hm, hl, hf, hr, hv, he, ha, hs, has, hh, hx⟩, hg⟩
    exact ⟨⟨⟨hm, hl, hf, hg⟩, hr, fun h => ⟨hv h, he h⟩, ha⟩, ⟨hs, has, hh⟩, hx⟩

theorem verified_iff :
    (verifyChainState H st).verified = true ↔
      Consistent H st ∧ (AnchorGap st → ∃ r ∈ st.sorted, r.hash = "") := by
  have hlegacy : st.sorted.countP (·.legacy) ≠ 0 ↔ ∃ r ∈ st.sorted, r.hash = "" := by
    simp [AuditEvent.legacy]
  rw [ChainReport.verified, List.isEmpty_iff, verifyChainState_problems, problemsWith_eq_nil_iff,
    hlegacy]

end NexaRoute.Audit
