import NexaRoute.Video.Once

/-!
# Remote work that is lost sight of

The id that the provider gave is what a job can be polled and cancelled by. `Cancel` reads the record,
has the provider cancel the id it read, and writes the whole record back; `RunJob` stores an id in the
meantime. If `Cancel` read before that, its write takes the id out of the record, and the provider is
never asked to cancel it. `ForceFail`, `Recover` and a second `RunJob` can do the same.

If every write that takes effect is made from a copy that is not behind in ids, none of this happens:
an id stays in the record, and `Cancel` has every id of the job cancelled. For an episode the latter
also needs that no earlier shot has an id, since `Cancel` deals with the id of the current shot only.

## Main results

* `remote_work_in_sight` — ids are kept and cancelled
-/

namespace NexaRoute.Video

open Interleave List Option

variable {j : VideoJob} {id : String} {op : Op} {log : VLog} {t : ℕ} {w : Record}

/-- The ids of the provider that a record shows. -/
def VideoJob.ids (j : VideoJob) : List String :=
  (j.providerJobID :: j.shotExecutions.map ShotExecution.providerJobID).filter (· ≠ "")

theorem mem_ids :
    id ∈ j.ids ↔ id ≠ "" ∧ (id = j.providerJobID ∨
      id ∈ j.shotExecutions.map ShotExecution.providerJobID) := by
  simp [VideoJob.ids, and_comm]

theorem VideoJob.Sound.eq_of_mem_ids (h : j.Sound) (hep : j.isEpisode = false) (hid : id ∈ j.ids) :
    id = j.providerJobID := by
  obtain ⟨hne, hid | hid⟩ := mem_ids.mp hid
  · exact hid
  · obtain ⟨s, hs, rfl⟩ := mem_map.mp hid
    exact absurd ((h.single hep).1 s hs) hne

theorem VideoJob.Sound.mem_map_of_mem_ids (h : j.Sound) (hep : j.isEpisode = true)
    (hid : id ∈ j.ids) : id ∈ j.shotExecutions.map ShotExecution.providerJobID := by
  obtain ⟨hne, rfl | hid⟩ := mem_ids.mp hid
  · obtain ⟨s, hs, hs'⟩ := h.parent hep hne
    exact mem_map.mpr ⟨s, hs, hs'⟩
  · exact hid

theorem Rule.ids_subset {book : Book} {c : VideoJob} {site : Site} (h : Rule book c j site)
    (hc : c.Sound) (hid : id ∈ c.ids) : id ∈ j.ids := by
  have hne := (mem_ids.mp hid).1
  cases hep : c.isEpisode with
  | true =>
    obtain ⟨s, hs, rfl⟩ := mem_map.mp (hc.mem_map_of_mem_ids hep hid)
    obtain ⟨s', hs', hfollows⟩ := h.extends.shots.exists_of_mem hs
    exact mem_ids.mpr ⟨hne, .inr (mem_map.mpr ⟨s', hs', hfollows.id hne⟩)⟩
  | false =>
    obtain rfl := hc.eq_of_mem_ids hep hid
    refine mem_ids.mpr ⟨hne, .inl ?_⟩
    cases site with
    | intent unit => exact (h.1.id hep).symm
    | submitted unit => exact absurd (h.2 hep) hne
    | cancel => exact (h.1.id hep).symm
    | plain => exact (Follows.id h hep).symm

theorem Follows.ids_subset {c : VideoJob} (h : Follows c j) (hid : id ∈ j.ids) :
    id ∈ c.ids := by
  have hne := (mem_ids.mp hid).1
  cases hep : j.isEpisode with
  | true =>
    have hmap := h.sound.mem_map_of_mem_ids hep hid
    rw [h.ids] at hmap
    exact mem_ids.mpr ⟨hne, .inr hmap⟩
  | false =>
    obtain rfl := h.sound.eq_of_mem_ids hep hid
    exact mem_ids.mpr ⟨hne, .inl (h.id (h.isEpisode.symm.trans hep))⟩

/-- The write stores an id. -/
def Site.registers : Site → Bool
  | .submitted _ => true
  | _ => false

/-- The ids that records show. -/
def registrations : Tracking String where
  Shows j id := id ∈ j.ids
  Brings site j id := site.registers = true ∧ id ∈ j.ids
  marks := Site.registers
  marks_of_brings := fun h => h.1
  shows_of_brings := fun _ h => h.2
  keeps := fun hrule hc hid => hrule.ids_subset hc hid
  leased := fun _ _ h => h

/-! ### What is claimed -/

/-- The record that a step stores. -/
def storedIn : Act Op Res Empty Empty → Option VideoJob
  | .call op r => stored op r
  | _ => none

/-- The records that were stored, the last one first. -/
def writes (log : VLog) : List VideoJob := log.filterMap fun e => storedIn e.2

/-- The id whose cancellation the provider accepts in a step. -/
def acceptedIn : Act Op Res Empty Empty → Option String
  | .call (.cancelJob id) r => (some id).filter fun _ => r
  | _ => none

/-- The ids whose cancellation the provider accepted. -/
def accepted (log : VLog) : List String := log.filterMap fun e => acceptedIn e.2

/-- The step is a write of `Cancel`. -/
def cancels : Act Op Res Empty Empty → Bool := writesAt (· == .cancel)

/-- A record of a job of one shot carries the id that an earlier record carried. -/
def IDKept (log : VLog) : Prop :=
  (writes log).Pairwise fun later earlier => earlier.isEpisode = false →
    earlier.providerJobID ≠ "" → later.providerJobID = earlier.providerJobID

/-- `Cancel` wrote only after the provider accepted the cancellation of every id that was stored. -/
def Sighted : VLog → Prop
  | [] => True
  | e :: log =>
    (cancels e.2 = true → ∀ j ∈ writes log, ∀ id ∈ j.ids, id ∈ accepted log) ∧ Sighted log

instance (log : VLog) : Decidable (IDKept log) := inferInstanceAs (Decidable (List.Pairwise _ _))

instance decidableSighted : ∀ log : VLog, Decidable (Sighted log)
  | [] => isTrue trivial
  | e :: log =>
    have := decidableSighted log
    inferInstanceAs (Decidable ((cancels e.2 = true → _) ∧ _))

/-- The record has no id but its own. -/
def VideoJob.ownIDOnly (j : VideoJob) : Bool :=
  j.shotExecutions.all fun s => s.providerJobID == "" || s.providerJobID == j.providerJobID

/-- The condition on requests: a write that takes effect is made from a copy that is not behind in ids,
and `Cancel` writes from one that has no id but its own. -/
def InSight (w : Record) (log : VLog) (t : ℕ) (i : Option ℕ) (op : Op) (e : Env) : Prop :=
  FromCurrent Site.registers w log t i op e ∧
    (cancels (.call op (op.exec w e).2) = true → (bookOf log t).copy.all VideoJob.ownIDOnly = true)

instance (w : Record) (log : VLog) (t : ℕ) (i : Option ℕ) (op : Op) (e : Env) :
    Decidable (InSight w log t i op e) :=
  inferInstanceAs (Decidable (_ ∧ _))

/-! ### Where ids come from -/

/-- Every id of a record or a copy was stored as an answer of the provider. -/
structure Origin (w : Record) (log : VLog) : Prop where
  record : ∀ j, w = some j → ∀ id ∈ j.ids, registrations.Fact log id
  copies : ∀ t c, (bookOf log t).copy = some c → ∀ id ∈ c.ids, registrations.Fact log id
  written : ∀ j ∈ writes log, (∀ id ∈ j.ids, registrations.Fact log id) ∧
    ∃ j', w = some j' ∧ j.shotPlan.length = j'.shotPlan.length
  accepted : ∀ t, ∀ id ∈ (bookOf log t).accepted, id ∈ accepted log

theorem writes_cons (log : VLog) (t : ℕ) (a : Act Op Res Empty Empty) :
    writes ((t, a) :: log) = (storedIn a).toList ++ writes log := by
  rw [writes, filterMap_cons]
  cases storedIn a <;> rfl

theorem accepted_cons (log : VLog) (t : ℕ) (a : Act Op Res Empty Empty) :
    accepted ((t, a) :: log) = (acceptedIn a).toList ++ accepted log := by
  rw [accepted, filterMap_cons]
  cases acceptedIn a <;> rfl

theorem accepted_after_cases {book : Book} {r : Res op} (h : id ∈ (book.after op r).accepted) :
    acceptedIn (.call op r) = some id ∨ id ∈ book.accepted := by
  cases op with
  | cancelJob id' =>
    cases (r : Bool) with
    | false => exact .inr h
    | true => exact (mem_cons.mp h).imp_left fun hid => congrArg some hid.symm
  | tryClaim site owner ttl =>
    cases site with
    | start | renewal => exact .inr h
  | _ => exact .inr h

theorem fact_of_fact {a : Act Op Res Empty Empty} (h : registrations.Fact log id) :
    registrations.Fact ((t, a) :: log) id :=
  registrations.fact_cons.mpr (.inr h)

theorem Origin.stored (h : Origin w log) (e : Env) (hmay : May (bookOf log t) op)
    (hj : stored op (op.exec w e).2 = some j) (hid : id ∈ j.ids) :
    registrations.Fact ((t, .call op (op.exec w e).2) :: log) id := by
  rcases stored_cases hj with ⟨rfl, -⟩ | ⟨site, current, rfl, rfl⟩ |
    ⟨site, owner, ttl, until', current, rfl, rfl, rfl⟩
  · obtain ⟨hne, hid | hid⟩ := mem_ids.mp hid
    · exact absurd (hid.trans (VideoJob.New.id hmay)) hne
    · obtain ⟨s, hs, rfl⟩ := mem_map.mp hid
      rw [VideoJob.New.shot hmay s hs] at hne
      exact absurd rfl hne
  · obtain ⟨c, hc, hrule⟩ := hmay
    have hold : Follows c j → registrations.Fact log id :=
      fun hf => h.copies t c hc id (hf.ids_subset hid)
    cases site with
    | intent unit => exact fact_of_fact (hold hrule.1)
    | submitted unit => exact registrations.fact_cons.mpr (.inl ⟨j, hj, rfl, hid⟩)
    | cancel => exact fact_of_fact (hold hrule.1)
    | plain => exact fact_of_fact (hold hrule)
  · exact fact_of_fact (h.record current rfl id hid)

theorem Origin.call (h : Origin w log) (hbase : Base w log) (e : Env)
    (hmay : May (bookOf log t) op) :
    Origin (op.exec w e).1 ((t, .call op (op.exec w e).2) :: log) := by
  have hrecord : ∀ j, (op.exec w e).1 = some j → ∀ id ∈ j.ids,
      registrations.Fact ((t, .call op (op.exec w e).2) :: log) id := by
    intro j hj id hid
    rw [exec_fst] at hj
    cases hs : Video.stored op (op.exec w e).2 with
    | none =>
      rw [hs, none_or] at hj
      exact fact_of_fact (h.record j hj id hid)
    | some j' =>
      rw [hs, some_or, some.injEq] at hj
      exact h.stored e hmay (hj ▸ hs) hid
  refine ⟨hrecord, fun t' c hc => ?_, fun j hj => ?_, fun t' id hid => ?_⟩
  · by_cases htt : t = t'
    · subst htt
      rw [bookOf_cons_self] at hc
      rcases copy_after_cases hc with hw | ⟨hc, -, -⟩
      · exact hrecord c hw
      · exact fun id hid => fact_of_fact (h.copies t c hc id hid)
    · rw [bookOf_cons_of_ne log _ htt] at hc
      exact fun id hid => fact_of_fact (h.copies t' c hc id hid)
  · rw [writes_cons, mem_append, mem_toList] at hj
    rcases hj with hj | hj
    · have hw : (op.exec w e).1 = some j := by
        rw [exec_fst, show Video.stored op (op.exec w e).2 = some j from hj]
        rfl
      exact ⟨hrecord j hw, j, hw, rfl⟩
    · obtain ⟨hids, j', hj', hplan⟩ := h.written j hj
      refine ⟨fun id hid => fact_of_fact (hids id hid), ?_⟩
      have hsome : w.isSome := by
        rw [hj']
        rfl
      obtain ⟨j'', hj''⟩ := isSome_iff_exists.mp (isSome_after op e hsome)
      exact ⟨j'', hj'', hplan.trans ((hbase.after e hmay hj'').2 j' hj').symm⟩
  · rw [accepted_cons, mem_append, mem_toList]
    by_cases htt : t = t'
    · subst htt
      rw [bookOf_cons_self] at hid
      exact (accepted_after_cases hid).imp_right (h.accepted t id)
    · rw [bookOf_cons_of_ne log _ htt] at hid
      exact .inr (h.accepted t' id hid)

/-! ### Runs -/

/-- What holds all along. -/
structure Seen (w : Record) (log : VLog) : Prop where
  facts : registrations.Inv w log
  origin : Origin w log
  kept : IDKept log
  sighted : Sighted log

theorem Seen.kept_call (h : Seen w log) (hbase : Base w log) (e : Env)
    (hmay : May (bookOf log t) op)
    (hfacts : registrations.Inv (op.exec w e).1 ((t, .call op (op.exec w e).2) :: log)) :
    IDKept ((t, .call op (op.exec w e).2) :: log) := by
  rw [IDKept, writes_cons]
  cases hs : storedIn (.call op (op.exec w e).2) with
  | none => exact h.kept
  | some j' =>
    refine pairwise_cons.mpr ⟨fun j hj hep hne => ?_, h.kept⟩
    have hw : (op.exec w e).1 = some j' := by
      rw [exec_fst, show stored op (op.exec w e).2 = some j' from hs]
      rfl
    obtain ⟨hids, j₀, hj₀, hplan⟩ := h.origin.written j hj
    obtain ⟨hsound, hplan'⟩ := hbase.after e hmay hw
    have hep' : j'.isEpisode = false := by
      rw [VideoJob.isEpisode, hplan' j₀ hj₀, ← hplan]
      exact hep
    obtain ⟨j'', hj'', hshows⟩ := hfacts.record j.providerJobID
      (fact_of_fact (hids _ (mem_ids.mpr ⟨hne, .inl rfl⟩)))
    obtain rfl := some.inj (hw.symm.trans hj'')
    exact (hsound.eq_of_mem_ids hep' hshows).symm

theorem Seen.sighted_call (h : Seen w log) (e : Env) (hmay : May (bookOf log t) op)
    (hcond : InSight w log t none op e) :
    Sighted ((t, .call op (op.exec w e).2) :: log) := by
  refine ⟨fun hcancel j hj id hid => ?_, h.sighted⟩
  obtain ⟨⟨j', rfl⟩, hstored⟩ : (∃ j', op = .update .cancel j') ∧
      (stored op (op.exec w e).2).isSome = true := by
    cases op with
    | update site j' =>
      have hboth : (site == Site.cancel) = true ∧ _ := Bool.and_eq_true_iff.mp hcancel
      exact ⟨⟨j', by rw [beq_iff_eq.mp hboth.1]⟩, hboth.2⟩
    | _ => cases hcancel
  obtain ⟨c, hc, hrule⟩ := hmay
  have hown := hcond.2 hcancel
  rw [hc, all_some] at hown
  have hshows : id ∈ c.ids :=
    h.facts.copies t c hc (hcond.1 rfl hstored) id ((h.origin.written j hj).1 id hid)
  obtain ⟨hne, hid' | hid'⟩ := mem_ids.mp hshows
  · rw [hid'] at hne ⊢
    exact h.origin.accepted t _ (hrule.2.2 hne)
  · obtain ⟨s, hs, rfl⟩ := mem_map.mp hid'
    have heq : s.providerJobID = c.providerJobID := by
      simpa [hne] using all_eq_true.mp hown s hs
    rw [heq] at hne ⊢
    exact h.origin.accepted t _ (hrule.2.2 hne)

theorem maintains_seen : Maintains orchestrators conduct InSight Base Seen where
  call := by
    intro w log t op e hbase h hmay hcond
    have hfacts := registrations.maintains.call e hbase h.facts hmay hcond.1
    exact ⟨hfacts, h.origin.call hbase e hmay, h.kept_call hbase e hmay hfacts,
      h.sighted_call e hmay hcond⟩
  fork := fun _ _ h => h.elim
  work := fun _ _ _ _ h _ => h.elim
  join := by
    intro w log t rs hbase h hpost
    refine ⟨registrations.maintains.join hbase h.facts hpost, ⟨?_, ?_, ?_, ?_⟩, h.kept, ?_⟩
    · exact fun j hj id hid => fact_of_fact (h.origin.record j hj id hid)
    · intro t' c hc id hid
      rw [bookOf_join] at hc
      exact fact_of_fact (h.origin.copies t' c hc id hid)
    · intro j hj
      obtain ⟨hids, hplan⟩ := h.origin.written j hj
      exact ⟨fun id hid => fact_of_fact (hids id hid), hplan⟩
    · intro t' id hid
      rw [bookOf_join] at hid
      exact h.origin.accepted t' id hid
    · exact ⟨nofun, h.sighted⟩

theorem seen_nil : Seen none [] :=
  ⟨registrations.inv_nil none, ⟨nofun, nofun, nofun, nofun⟩,
    .nil, trivial⟩

/-- Every request of a schedule, from a store without the job, meets the condition. -/
abbrev StaysInSight (items : List (Item Env Call)) : Prop :=
  Machine.Guarded (Config.step orchestrators) (Config.Meets InSight) { world := none } items

/-- **No remote work is lost sight of**, if every write that takes effect is made from a copy that is
not behind in ids, and `Cancel` writes from one that has no id but its own: an id of a job of one
shot stays in its record, and `Cancel` writes only after the provider accepted the cancellation of
every id that was stored before. -/
theorem remote_work_in_sight (items : List (Item Env Call)) (hcond : StaysInSight items) :
    IDKept (runOrchestrators items).log ∧ Sighted (runOrchestrators items).log := by
  obtain ⟨-, hseen⟩ := invariant_run_of keeps_conduct answers_base preserves_base maintains_seen
    base_nil seen_nil hcond
  exact ⟨hseen.kept, hseen.sighted⟩

/-- A job is submitted, and then cancelled. -/
def cancelledJob : List (Item Env Call) :=
  .start (.create 1 false) :: goOn 0 2 {} ++
    .start (.runJob (instanceOf "a")) :: goOn 1 7 (provides 10 "p1" .processing) ++
    .start .cancel :: goOn 2 5 (provides 20 "" .processing)

theorem remote_work_in_sight_cancelled :
    ((runOrchestrators cancelledJob).world.map fun j => (j.state, j.providerJobID)) =
        some (.cancelled, "p1") ∧
      accepted (runOrchestrators cancelledJob).log = ["p1"] ∧
      IDKept (runOrchestrators cancelledJob).log ∧ Sighted (runOrchestrators cancelledJob).log :=
  ⟨by decide +kernel, by decide +kernel, remote_work_in_sight cancelledJob (by decide +kernel)⟩

/-- `Cancel` reads the queued job; `RunJob` submits it and stores the id; `Cancel` writes. -/
def overtakenCancel : List (Item Env Call) :=
  .start (.create 1 false) :: goOn 0 2 {} ++
    .start .cancel :: goOn 1 1 {} ++
    .start (.runJob (instanceOf "a")) :: goOn 2 7 (provides 10 "p1" .processing) ++ goOn 1 1 {}

/-- The job is stored as cancelled, its id is gone, and the provider was never asked to cancel it. -/
theorem cancel_loses_id :
    ((runOrchestrators overtakenCancel).world.map fun j => (j.state, j.providerJobID)) =
        some (.cancelled, "") ∧
      (writes (runOrchestrators overtakenCancel).log).any (fun j => j.providerJobID == "p1") = true ∧
      accepted (runOrchestrators overtakenCancel).log = [] ∧
      ¬IDKept (runOrchestrators overtakenCancel).log ∧
      ¬Sighted (runOrchestrators overtakenCancel).log := by
  refine ⟨?_, ?_, ?_, ?_, ?_⟩
  all_goals decide +kernel

end NexaRoute.Video
