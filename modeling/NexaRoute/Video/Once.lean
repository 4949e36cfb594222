import NexaRoute.Video.Facts
import Mathlib.Data.List.Chain
import Mathlib.Data.List.Nodup

/-!
# Billable work is submitted at most once

Before a unit of work is submitted, the record is stored in a state that announces it, and a unit that
the record announces is not submitted again. The lease keeps the workers of other instances away in
the meantime, as long as it lasts. `RunJob` renews it while it polls the provider for a job of one
shot; the loop of an episode never does. An episode whose shot takes longer than the lease is claimed
by a second instance, and then two workers read that the next shot is queued, announce it one after the
other and submit it both.

What remains true does not need the lease: if every write that takes effect is made from a copy that
is not behind in what it knows of announcements, a unit is announced once and submitted at most once.

## Main results

* `submitted_at_most_once` — in every interleaving
-/

namespace NexaRoute.Video

open Go Interleave

variable {op : Op} {unit : Option ℕ}

/-- The write announces a submission. -/
def Site.announces (site : Site) : Bool := site.intent?.isSome

/-- The units that records announce. -/
def announcements : Tracking (Option ℕ) where
  Shows j unit := j.Begun unit
  Brings site _ unit := site = .intent unit
  marks := Site.announces
  marks_of_brings := by
    rintro site j unit rfl
    rfl
  shows_of_brings := by
    rintro book c j site unit hrule rfl
    exact hrule.2.2
  keeps := by
    intro book c j site unit hrule _ hc
    exact hrule.extends.begun_of hc
  leased := by
    intro j unit owner until' hj
    cases unit with
    | none => exact hj
    | some i => exact hj

/-- The unit that a step submits. -/
def submission? : Act Op Res Empty Empty → Option (Option ℕ)
  | .call (.createJob unit) _ => some unit
  | _ => none

/-- The units that were submitted, the last one first: the calls of `CreateJob`. -/
def submissions (log : VLog) : List (Option ℕ) := log.filterMap fun e => submission? e.2

/-- A thread that stored an announcement is the only one that may submit the unit. -/
structure Tokens (log : VLog) : Prop where
  announced : ∀ unit ∈ submissions log, announcements.Fact log unit
  token : ∀ t unit, (bookOf log t).token = some unit →
    announcements.Fact log unit ∧ unit ∉ submissions log
  unique : ∀ t t' unit, (bookOf log t).token = some unit → (bookOf log t').token = some unit → t = t'
  nodup : (submissions log).Nodup

theorem submissions_cons (log : VLog) (t : ℕ) (a : Act Op Res Empty Empty) :
    submissions ((t, a) :: log) = (submission? a).toList ++ submissions log := by
  rw [submissions, List.filterMap_cons]
  cases submission? a <;> rfl

theorem token_after_cases {book : Book} {r : Res op} (h : (book.after op r).token = some unit) :
    ((∃ j, op = .update (.intent unit) j) ∧ (stored op r).isSome) ∨
      book.token = some unit ∧ submission? (.call op r) = none := by
  cases op with
  | update site j =>
    simp only [Book.after] at h
    split at h
    · next hsome =>
      obtain ⟨j', hj'⟩ := Option.isSome_iff_exists.mp hsome
      have hstored : (stored (.update site j) r).isSome := by
        rw [show stored (.update site j) r = some j' from wrote_of_told hj']
        rfl
      cases site with
      | intent unit' =>
        obtain rfl : unit' = unit := Option.some.inj h
        exact .inl ⟨⟨j, rfl⟩, hstored⟩
      | submitted unit' | cancel | plain => exact .inr ⟨h, rfl⟩
    · exact .inr ⟨h, rfl⟩
  | cancelJob id =>
    refine .inr ⟨?_, rfl⟩
    cases (r : Bool) with
    | false | true => exact h
  | tryClaim site owner ttl =>
    cases site with
    | start | renewal => exact .inr ⟨h, rfl⟩
  | createJob unit' => cases h
  | get | create j | getJob id | ask q => exact .inr ⟨h, rfl⟩

/-- What holds all along: facts stay, and so do tokens. -/
structure Once (w : Record) (log : VLog) : Prop where
  facts : announcements.Inv w log
  tokens : Tokens log

theorem Once.fresh {w : Record} {log : VLog} (h : Once w log) {t : ℕ} {j : VideoJob}
    (hmay : May (bookOf log t) (.update (.intent unit) j))
    (hcur : Current Site.announces t log = true) : ¬announcements.Fact log unit := by
  intro hfact
  obtain ⟨c, hc, hrule⟩ := hmay
  exact hrule.2.1 (h.facts.copies t c hc hcur unit hfact)

theorem eq_createJob {r : Res op} (h : submission? (.call op r) = some unit) :
    op = .createJob unit := by
  cases op with
  | createJob unit' => rw [Option.some.inj h]
  | _ => cases h

theorem Once.tokens_call {w : Record} {log : VLog} {t : ℕ} {r : Res op} (h : Once w log)
    (hmay : May (bookOf log t) op)
    (hcur : op.updates = true → (stored op r).isSome = true → Current Site.announces t log = true) :
    Tokens ((t, .call op r) :: log) := by
  have hfact : ∀ {unit}, announcements.Fact log unit →
      announcements.Fact ((t, .call op r) :: log) unit :=
    fun hu => announcements.fact_cons.mpr (.inr hu)
  have hmem : ∀ {unit}, unit ∈ submissions ((t, .call op r) :: log) ↔
      submission? (.call op r) = some unit ∨ unit ∈ submissions log := by
    intro unit
    rw [submissions_cons, List.mem_append, Option.mem_toList]
  -- the thread that submits had the token, and nobody else has it
  have hsubmits : ∀ {unit}, submission? (.call op r) = some unit →
      (bookOf log t).token = some unit := by
    intro unit hsub
    obtain rfl := eq_createJob hsub
    exact hmay
  -- a token is new and for a unit that was not announced, or it was there before
  have htoken : ∀ {t' unit}, (bookOf ((t, .call op r) :: log) t').token = some unit →
      (t' = t ∧ announcements.BringsIn (.call op r) unit ∧ ¬announcements.Fact log unit) ∨
      (bookOf log t').token = some unit ∧ submission? (.call op r) ≠ some unit := by
    intro t' unit ht'
    by_cases htt : t = t'
    · subst htt
      rw [bookOf_cons_self] at ht'
      rcases token_after_cases ht' with ⟨⟨j, rfl⟩, hs⟩ | ⟨hold, hnone⟩
      · obtain ⟨j', hj'⟩ := Option.isSome_iff_exists.mp hs
        exact .inl ⟨rfl, ⟨j', hj', rfl⟩, h.fresh hmay (hcur rfl hs)⟩
      · exact .inr ⟨hold, by simp [hnone]⟩
    · rw [bookOf_cons_of_ne log _ htt] at ht'
      exact .inr ⟨ht', fun hsub => htt (h.tokens.unique t t' unit (hsubmits hsub) ht')⟩
  refine ⟨fun unit hunit => ?_, fun t' unit ht' => ?_, fun t₁ t₂ unit h₁ h₂ => ?_, ?_⟩
  · rcases hmem.mp hunit with hsub | hold
    · exact hfact (h.tokens.token t unit (hsubmits hsub)).1
    · exact hfact (h.tokens.announced unit hold)
  · rcases htoken ht' with ⟨rfl, hb, hnew⟩ | ⟨hold, hne⟩
    · refine ⟨announcements.fact_cons.mpr (.inl hb), fun hsub => hnew ?_⟩
      rcases hmem.mp hsub with hsub | hold
      · exact (h.tokens.token t' unit (hsubmits hsub)).1
      · exact h.tokens.announced unit hold
    · obtain ⟨hf, hnot⟩ := h.tokens.token t' unit hold
      exact ⟨hfact hf, fun hsub => (hmem.mp hsub).elim hne hnot⟩
  · rcases htoken h₁ with ⟨rfl, -, hnew⟩ | ⟨hold₁, -⟩
    · rcases htoken h₂ with ⟨rfl, -, -⟩ | ⟨hold₂, -⟩
      · rfl
      · exact absurd (h.tokens.token t₂ unit hold₂).1 hnew
    · rcases htoken h₂ with ⟨rfl, -, hnew⟩ | ⟨hold₂, -⟩
      · exact absurd (h.tokens.token t₁ unit hold₁).1 hnew
      · exact h.tokens.unique t₁ t₂ unit hold₁ hold₂
  · rw [submissions_cons]
    cases hsub : submission? (.call op r) with
    | none => exact h.tokens.nodup
    | some unit =>
      exact List.nodup_cons.mpr ⟨(h.tokens.token t unit (hsubmits hsub)).2, h.tokens.nodup⟩

theorem maintains_once :
    Maintains orchestrators conduct (FromCurrent Site.announces) Base Once where
  call := by
    intro w log t op e hbase h hmay hcur
    exact ⟨announcements.maintains.call e hbase h.facts hmay hcur, h.tokens_call hmay hcur⟩
  fork := fun _ _ h => h.elim
  work := fun _ _ _ _ h _ => h.elim
  join := by
    intro w log t rs hbase h hpost
    refine ⟨announcements.maintains.join hbase h.facts hpost, ?_⟩
    have hfact : ∀ {unit}, announcements.Fact log unit →
        announcements.Fact ((t, .join rs) :: log) unit :=
      fun hu => announcements.fact_cons.mpr (.inr hu)
    refine ⟨fun unit hu => hfact (h.tokens.announced unit hu), fun t' unit ht' => ?_,
      fun t₁ t₂ unit h₁ h₂ => ?_, h.tokens.nodup⟩
    · rw [bookOf_join] at ht'
      exact ⟨hfact (h.tokens.token t' unit ht').1, (h.tokens.token t' unit ht').2⟩
    · rw [bookOf_join] at h₁ h₂
      exact h.tokens.unique t₁ t₂ unit h₁ h₂

theorem once_nil (w : Record) : Once w [] :=
  ⟨announcements.inv_nil w, nofun, nofun, nofun, .nil⟩

/-- **Billable work is submitted at most once**, if every write that takes effect is made from a copy
that no announcement of another call is missing from: `CreateJob` is called at most once for a job
of one shot, and at most once for each shot of an episode. This holds for any orchestrators and any
interleaving of their calls, crashes and failures of the store included. -/
theorem submitted_at_most_once (items : List (Item Env Call))
    (hcur : WritesCurrent Site.announces items) :
    (∀ unit, (submissions (runOrchestrators items).log).count unit ≤ 1) ∧
    ∀ j, (runOrchestrators items).world = some j → j.isEpisode = false →
      (submissions (runOrchestrators items).log).length ≤ 1 := by
  obtain ⟨-, honce⟩ := invariant_run_of keeps_conduct answers_base preserves_base maintains_once
    base_nil (once_nil none) hcur
  have hnodup := honce.tokens.nodup
  refine ⟨fun unit => List.nodup_iff_count_le_one.mp hnodup unit, fun j hj hep => ?_⟩
  -- the units of a job of one shot are all the job itself
  have hnone : ∀ unit ∈ submissions (runOrchestrators items).log, unit = none := by
    intro unit hunit
    obtain ⟨j', hj', hbegun⟩ := honce.facts.record unit (honce.tokens.announced unit hunit)
    cases unit with
    | none => rfl
    | some i =>
      obtain rfl := Option.some.inj (hj.symm.trans hj')
      exact absurd (hep.symm.trans hbegun.1) (by decide)
  rw [← List.count_eq_length.mpr fun unit hunit => (hnone unit hunit).symm]
  exact List.nodup_iff_count_le_one.mp hnodup none

/-! ### Schedules with a clock -/

/-- A thread goes on for a number of steps. -/
def goOn (t n : ℕ) (e : Env) : List (Item Env Call) := List.replicate n (.main t e)

/-- The steps of a schedule: the thread, and the time. -/
def timesOf (items : List (Item Env Call)) : List (ℕ × Time) :=
  items.filterMap fun
    | .main t e => some (t, e.now)
    | _ => none

/-- Time does not go back, and every thread takes its next step within a quarter of the lease. -/
def Punctual (ttl : Duration) (items : List (Item Env Call)) : Prop :=
  ((timesOf items).map Prod.snd).IsChain (· ≤ ·) ∧
    ∀ t ∈ (timesOf items).map Prod.fst,
      (((timesOf items).filter fun s => s.1 == t).map Prod.snd).IsChain fun x y => 4 * (y - x) < ttl

instance (ttl : Duration) (items : List (Item Env Call)) : Decidable (Punctual ttl items) :=
  inferInstanceAs (Decidable (_ ∧ _))

/-- An instance with a lease of 400 time units. -/
def instanceOf (id : String) : Orchestrator := { instanceID := id, leaseTTL := 400 }

/-- The surroundings of a provider that gives an id and reports a state. -/
def provides (now : Time) (id : String) (reported : JobState) : Env where
  now := now
  submission := some { providerJobID := id }
  status := some { state := reported, outputs := 1 }

/-- An episode of two shots. Instance `a` submits the first one and is not heard of until instance `b`
has recovered the job, claimed it after the lease, submitted the second shot and completed the job.
What `a` then writes is refused. -/
def handedOver : List (Item Env Call) :=
  .start (.create 2 false) :: goOn 0 2 {} ++
    .start (.runJob (instanceOf "a")) :: goOn 1 16 (provides 10 "p1" .processing) ++
    .start .recover :: goOn 2 1 (provides 500 "" .processing) ++
    .start (.runJob (instanceOf "b")) :: goOn 3 54 (provides 510 "p2" .completed) ++
    goOn 1 6 (provides 600 "p3" .completed)

theorem submitted_at_most_once_handedOver :
    submissions (runOrchestrators handedOver).log = [some 1, some 0] ∧
      ((runOrchestrators handedOver).world.map fun j => (j.state, j.leaseOwner)) =
        some (.completed, "b") ∧
      ∀ unit, (submissions (runOrchestrators handedOver).log).count unit ≤ 1 :=
  ⟨by decide +kernel, by decide +kernel,
    (submitted_at_most_once handedOver (by decide +kernel)).1⟩

/-- An episode of two shots over two instances. Instance `a` created and submitted it, and polls for
the first shot until its lease has run out. Instance `b` recovers the job and claims it. Both see the
first shot completed and read that the second one is queued, and both submit it. -/
def sharedEpisode : List (Item Env Call) :=
  .start (.create 2 false) :: goOn 0 2 {} ++
    .start (.runJob (instanceOf "a")) :: goOn 1 16 (provides 10 "p1" .processing) ++
    goOn 1 2 (provides 90 "p1" .processing) ++ goOn 1 2 (provides 180 "p1" .processing) ++
    goOn 1 2 (provides 270 "p1" .processing) ++ goOn 1 2 (provides 360 "p1" .processing) ++
    .start .recover :: goOn 2 1 (provides 400 "" .processing) ++
    .start (.runJob (instanceOf "b")) :: goOn 3 16 (provides 420 "p1" .completed) ++
    goOn 1 9 (provides 430 "p1" .completed) ++
    goOn 1 4 (provides 440 "p2" .processing) ++ goOn 3 5 (provides 450 "p3" .processing)

/-- A shot is submitted twice, by instances that are never late. -/
theorem shot_submitted_twice :
    Punctual 400 sharedEpisode ∧
      (submissions (runOrchestrators sharedEpisode).log).count (some 0) = 1 ∧
      (submissions (runOrchestrators sharedEpisode).log).count (some 1) = 2 := by
  refine ⟨?_, ?_, ?_⟩
  all_goals decide +kernel

end NexaRoute.Video
