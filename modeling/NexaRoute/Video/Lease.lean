import NexaRoute.Machine
import NexaRoute.Video.Job

/-!
# Leases of a video job

`TryClaim` leases a job to an owner for a while, and refuses it to everyone else. `Update` replaces
the whole record, the lease with it: a caller that read the record before the lease was given puts the
old one back. So the lease excludes others only as long as the copies in circulation are not written
back over it. A renewal may also shorten it, and the owner without a name excludes no one.

The records that callers hold are part of the state. A caller writes one of them back with anything
changed but the lease.

## Main results

* `lease_exclusive` — leases do not overlap
-/

namespace NexaRoute.Video

open Go Machine

variable {j : VideoJob} {owner : String} {ttl : Duration} {now : Time} {fate : Fate}
  {s : LeaseState}

/-- A claim that succeeded. -/
structure Grant where
  owner : String
  time : Time
  ttl : Duration
  deriving DecidableEq

/-- When the lease of a claim runs out. -/
def Grant.until (g : Grant) : Time := g.time + g.ttl

/-- The job, the records its callers hold, the clock of the last claim, and the claims that
succeeded, the last one first. -/
structure LeaseState where
  record : VideoJob
  copies : List VideoJob := []
  clock : Time
  grants : List Grant := []

open LeaseState

/-- A call on the job. An `Update` writes one of the copies, with a change to what is no lease. -/
inductive LeaseOp
  | get
  | tryClaim (owner : String) (ttl : Duration) (now : Time) (fate : Fate)
  | update (copy : ℕ) (change : VideoJob → VideoJob) (same : Bool) (fate : Fate)

/-- A record with the lease it had. -/
def keepLease (change : VideoJob → VideoJob) (j : VideoJob) : VideoJob :=
  { change j with leaseOwner := j.leaseOwner, leaseUntil := j.leaseUntil }

namespace LeaseState

/-- The record after a call with an outcome. -/
def write (s : LeaseState) (out : Outcome VideoJob) : LeaseState :=
  { s with record := out.wrote.getD s.record }

/-- A claim at a time, and what its caller learns. -/
def claim (s : LeaseState) (owner : String) (ttl : Duration) (now : Time) (fate : Fate) :
    LeaseState :=
  let out := claimRecord (some s.record) owner ttl now fate
  let s := { s.write out with clock := now }
  match out.told with
  | none => s
  | some j => { s with copies := j :: s.copies, grants := ⟨owner, now, ttl⟩ :: s.grants }

def step (s : LeaseState) : LeaseOp → LeaseState
  | .get => { s with copies := s.record :: s.copies }
  | .tryClaim owner ttl now fate => s.claim owner ttl now fate
  | .update copy change same fate =>
    match s.copies[copy]? with
    | none => s
    | some j => s.write (updateRecord (some s.record) (keepLease change j) same fate)

end LeaseState

/-- No claim succeeded while another owner's lease had not run out. -/
def Exclusive (grants : List Grant) : Prop :=
  grants.Pairwise fun later earlier =>
    0 < earlier.ttl → later.owner ≠ earlier.owner →
      ¬ (earlier.time ≤ later.time ∧ later.time < earlier.until)

/-- The clock does not go back. -/
def Timely (s : LeaseState) : LeaseOp → Prop
  | .tryClaim _ _ now _ => s.clock ≤ now
  | _ => True

/-- The stored lease has run out. -/
def LeaseState.ended (s : LeaseState) : Prop := s.record.leaseUntil ≤ s.clock

/-- What a step must not do if it takes effect: a claim is made by an owner with a name, and does not
cut short the lease that it renews; a write brings the lease that is stored, unless that one has run
out. -/
def KeepsLease (s : LeaseState) : LeaseOp → Prop
  | .get => True
  | .tryClaim owner ttl now fate =>
    (claimRecord (some s.record) owner ttl now fate).wrote.isSome → owner ≠ "" ∧
      (s.record.leaseOwner = owner → now < s.record.leaseUntil → s.record.leaseUntil ≤ now + ttl)
  | .update copy change same fate => ∀ j, s.copies[copy]? = some j →
    (updateRecord (some s.record) (keepLease change j) same fate).wrote.isSome →
      s.ended ∨ j.leaseOwner = s.record.leaseOwner ∧ s.record.leaseUntil ≤ j.leaseUntil

/-! ### What a step does -/

/-- Every lease that has not run out is the one that is stored. -/
structure Covered (s : LeaseState) : Prop where
  stored : ∀ g ∈ s.grants, s.clock < g.until →
    g.owner ≠ "" ∧ s.record.leaseOwner = g.owner ∧ g.until ≤ s.record.leaseUntil
  exclusive : Exclusive s.grants

theorem claimRecord_wrote {j' : VideoJob}
    (h : (claimRecord (some j) owner ttl now fate).wrote = some j') :
    claimable j owner now = true ∧ j' = { j with leaseOwner := owner, leaseUntil := now + ttl } := by
  simp only [claimRecord] at h
  split_ifs at h with hclaim
  · exact ⟨hclaim, wrote_outcome h⟩
  · cases h

theorem updateRecord_wrote {j' j'' : VideoJob} {same : Bool}
    (h : (updateRecord (some j) j' same fate).wrote = some j'') : j'' = j' := by
  simp only [updateRecord] at h
  split_ifs at h
  · cases h
  · exact wrote_outcome h

section

variable (h : Covered s)

include h

theorem Covered.not_claimable {g : Grant} (hg : g ∈ s.grants)
    (hclock : s.clock ≤ now) (hnow : now < g.until) (howner : owner ≠ g.owner) :
    claimable s.record owner now = false := by
  obtain ⟨hname, hstored, huntil⟩ := h.stored g hg (lt_of_le_of_lt hclock hnow)
  have hlive : now < s.record.leaseUntil := lt_of_lt_of_le hnow huntil
  rw [claimable, hstored]
  simp [hname, hlive, Ne.symm howner]

theorem Covered.claimed (hclock : s.clock ≤ now) (hclaim : claimable s.record owner now = true)
    (hkeep : s.record.leaseOwner = owner → now < s.record.leaseUntil →
      s.record.leaseUntil ≤ now + ttl) {g : Grant} (hg : g ∈ s.grants) (hnow : now < g.until) :
    owner = g.owner ∧ g.until ≤ now + ttl := by
  obtain ⟨-, hstored, huntil⟩ := h.stored g hg (lt_of_le_of_lt hclock hnow)
  have howner : owner = g.owner := by
    by_contra hne
    rw [h.not_claimable hg hclock hnow hne] at hclaim
    cases hclaim
  refine ⟨howner, le_trans huntil ?_⟩
  exact hkeep (hstored.trans howner.symm) (lt_of_lt_of_le hnow huntil)

theorem Covered.unheard (hclock : s.clock ≤ now)
    (hkeep : KeepsLease s (.tryClaim owner ttl now fate)) :
    Covered { s.write (claimRecord (some s.record) owner ttl now fate) with clock := now } := by
  refine ⟨?_, h.exclusive⟩
  intro g hg hnow
  obtain ⟨hname, hstored, huntil⟩ := h.stored g hg (lt_of_le_of_lt hclock hnow)
  cases hwrote : (claimRecord (some s.record) owner ttl now fate).wrote with
  | none =>
    simp only [LeaseState.write, hwrote, Option.getD_none]
    exact ⟨hname, hstored, huntil⟩
  | some j =>
    obtain ⟨hclaim, rfl⟩ := claimRecord_wrote hwrote
    obtain ⟨howner, hle⟩ := h.claimed hclock hclaim (hkeep (hwrote ▸ rfl)).2 hg hnow
    simp only [LeaseState.write, hwrote, Option.getD_some]
    exact ⟨hname, howner, hle⟩

theorem Covered.claim (hclock : s.clock ≤ now)
    (hkeep : KeepsLease s (.tryClaim owner ttl now fate)) :
    Covered (s.claim owner ttl now fate) := by
  have hunheard := h.unheard hclock hkeep
  cases htold : (claimRecord (some s.record) owner ttl now fate).told with
  | none =>
    simp only [LeaseState.claim, htold]
    exact hunheard
  | some j =>
    have hwrote := wrote_of_told htold
    obtain ⟨hclaim, rfl⟩ := claimRecord_wrote hwrote
    simp only [LeaseState.claim, htold]
    constructor
    · intro g hg hnow
      rcases List.mem_cons.mp hg with rfl | hg
      · -- the lease just given is the one just stored
        simp only [LeaseState.write, hwrote, Option.getD_some]
        exact ⟨(hkeep (hwrote ▸ rfl)).1, trivial, le_refl _⟩
      · exact hunheard.stored g hg hnow
    · refine List.pairwise_cons.mpr ⟨?_, h.exclusive⟩
      intro g hg _ hne hin
      rw [h.not_claimable hg hclock hin.2 hne] at hclaim
      cases hclaim

theorem Covered.write {same : Bool}
    (hkeep : (updateRecord (some s.record) j same fate).wrote.isSome →
      s.ended ∨ j.leaseOwner = s.record.leaseOwner ∧ s.record.leaseUntil ≤ j.leaseUntil) :
    Covered (s.write (updateRecord (some s.record) j same fate)) := by
  refine ⟨?_, h.exclusive⟩
  intro g hg hnow
  obtain ⟨hname, hstored, huntil⟩ := h.stored g hg hnow
  cases hwrote : (updateRecord (some s.record) j same fate).wrote with
  | none =>
    simp only [LeaseState.write, hwrote, Option.getD_none]
    exact ⟨hname, hstored, huntil⟩
  | some j' =>
    replace hkeep := hkeep (hwrote ▸ rfl)
    rw [updateRecord_wrote hwrote] at hwrote
    simp only [LeaseState.write, hwrote, Option.getD_some]
    rcases hkeep with hended | ⟨howner, hle⟩
    · exact absurd (lt_of_lt_of_le hnow huntil) (not_lt.mpr hended)
    · exact ⟨hname, howner.trans hstored, le_trans huntil hle⟩

theorem Covered.step {op : LeaseOp} (htimely : Timely s op)
    (hkeep : KeepsLease s op) : Covered (s.step op) := by
  cases op with
  | get => exact ⟨h.stored, h.exclusive⟩
  | tryClaim owner ttl now fate => exact h.claim htimely hkeep
  | update copy change same fate =>
    simp only [LeaseState.step]
    cases hcopy : s.copies[copy]? with
    | none => exact h
    | some j => exact h.write (hkeep j hcopy)

end

/-! ### Whole runs -/

/-- A job before any call, in any state, with any lease. -/
def LeaseState.start (j : VideoJob) (clock : Time) : LeaseState := { record := j, clock := clock }

/-- In every run of claims and writes whose clock does not go back, and whose steps leave the lease
that has not run out alone, no claim succeeds in the time of another owner's. -/
theorem lease_exclusive (j : VideoJob) (clock : Time) (ops : List LeaseOp)
    (htimely : Guarded LeaseState.step Timely (LeaseState.start j clock) ops)
    (hkeep : Guarded LeaseState.step KeepsLease (LeaseState.start j clock) ops) :
    Exclusive (run LeaseState.step (LeaseState.start j clock) ops).grants := by
  have hcovered : Covered (start j clock) :=
    ⟨fun _ hg => absurd hg List.not_mem_nil, List.Pairwise.nil⟩
  exact (run_induction (fun _ _ h hg => h.step hg.1 hg.2) hcovered (htimely.and hkeep)).exclusive

/-- A job that is leased, renewed, written by its owner, refused to another one, and taken over when
the lease has run out. A write from before the lease fails. -/
def handover : List LeaseOp :=
  [.get, .tryClaim "a" 100 0 .answered, .tryClaim "a" 100 50 .answered, .update 0 id false .answered,
    .update 2 id false .failed, .tryClaim "b" 100 60 .answered, .tryClaim "b" 100 150 .answered]

theorem handover_exclusive :
    Exclusive (run LeaseState.step (LeaseState.start (newJob 2 false) 0) handover).grants ∧
      (run LeaseState.step (LeaseState.start (newJob 2 false) 0) handover).grants =
        [⟨"b", 150, 100⟩, ⟨"a", 50, 100⟩, ⟨"a", 0, 100⟩] := by
  refine ⟨lease_exclusive (newJob 2 false) 0 handover ?_ ?_, rfl⟩
  · simp only [handover, guarded_cons, guarded_nil, Timely]
    decide
  · simp only [handover, guarded_cons, guarded_nil, KeepsLease, and_true, true_and]
    refine ⟨by decide, by decide, ?_, ?_, by decide, by decide⟩
    · intro j hj _
      rw [← Option.some.inj hj]
      exact .inr (by decide)
    · intro j hj hwrote
      rw [← Option.some.inj hj] at hwrote
      exact absurd hwrote (by decide)

/-- The record read before the lease is given is written back over it. -/
def staleWrite : List LeaseOp :=
  [.get, .tryClaim "a" 100 0 .answered, .update 1 id false .answered, .tryClaim "b" 100 1 .answered]

/-- Another owner then claims the job in the time of the lease. -/
theorem stale_write_breaks_lease :
    Guarded LeaseState.step Timely (LeaseState.start (newJob 2 false) 0) staleWrite ∧
      ¬ Exclusive (run LeaseState.step (LeaseState.start (newJob 2 false) 0) staleWrite).grants := by
  have hgrants : (run step (start (newJob 2 false) 0) staleWrite).grants =
      [⟨"b", 1, 100⟩, ⟨"a", 0, 100⟩] := rfl
  constructor
  · simp only [staleWrite, guarded_cons, guarded_nil, Timely]
    decide
  · intro h
    exact (List.pairwise_cons.mp h).1 ⟨"a", 0, 100⟩ (by decide) (by decide) (by decide) (by decide)

end NexaRoute.Video
