import NexaRoute.Video.Conduct

/-!
# The programs of an orchestrator keep to its conduct

Every write of every program, with every answer it can get, is one the rules allow. This is a property
of the programs alone: no store and no other orchestrator comes into it.

## Main results

* `keeps_conduct` — the programs obey the protocol
-/

namespace NexaRoute.Video

open Go Interleave Protocol VideoJob Option

variable {s : JobState} {id : String} {run : ShotExecution}

/-! ### Requests -/

section Requests

variable {m : Party Book Empty} {α : Type} {post : Party Book Empty → α → Prop} {j : VideoJob}

/-- The thread has a copy that a record follows from. -/
def Holds (m : Party Book Empty) (j : VideoJob) : Prop := ∃ c, m.own.copy = some c ∧ Follows c j

/-- The copy of the thread is the record. -/
structure Owns (m : Party Book Empty) (j : VideoJob) : Prop where
  copy : m.own.copy = some j
  sound : j.Sound

theorem Owns.of_copy {m' : Party Book Empty} (h : Owns m j)
    (hm : m'.own.copy = m.own.copy) : Owns m' j := ⟨hm.trans h.copy, h.sound⟩

theorem Owns.holds (h : Owns m j) : Holds m j := ⟨j, h.copy, .refl h.sound⟩

theorem obeys_get :
    conduct.Obeys (fun m' r => ∀ j, r = some j →
      Owns m' j ∧ ∀ c, Holds m c → j.isEpisode = c.isEpisode) m get := by
  refine obeys_perform trivial fun r hr j hj => ?_
  obtain ⟨hsound, hplan⟩ := hr j hj
  refine ⟨⟨hj, hsound⟩, fun c hc => ?_⟩
  obtain ⟨c', hc', hfollows⟩ := hc
  rw [hfollows.isEpisode, isEpisode, isEpisode, hplan c' hc']

theorem obeys_create (h : j.New) :
    conduct.Obeys (fun m' ok => ok = true → Owns m' j) m (create j) := by
  refine obeys_bind (obeys_perform h fun r hr => ?_)
  intro hok
  obtain ⟨j', hj'⟩ := isSome_iff_exists.mp hok
  obtain rfl := hr j' hj'
  exact ⟨hj', h.sound⟩

theorem obeys_update {site : Site} {c : VideoJob} (hc : m.own.copy = some c)
    (h : Rule m.own c j site) :
    conduct.Obeys (fun m' ok => ok = true →
      Owns m' j ∧ ∀ unit, site = .intent unit → m'.own.token = some unit) m (update site j) := by
  refine obeys_bind (obeys_perform ⟨c, hc, h⟩ fun r hr => ?_)
  intro hok
  obtain ⟨j', hj'⟩ := isSome_iff_exists.mp hok
  obtain rfl := hr j' hj'
  refine ⟨⟨hj', h.extends.sound⟩, fun unit hsite => ?_⟩
  subst hsite
  exact if_pos hok

theorem obeys_update_plain (h : Holds m j) :
    conduct.Obeys (fun m' ok => ok = true → Holds m' j) m (update .plain j) := by
  obtain ⟨c, hc, hj⟩ := h
  have hrule : Rule m.own c j .plain := hj
  exact (obeys_update hc hrule).mono fun m' ok h' hok => (h' hok).1.holds

theorem obeys_claim_start (o : Orchestrator) :
    conduct.Obeys (fun m' r => ∀ j, r = some j → Owns m' j) m (o.claim .start) := by
  refine obeys_bind (obeys_perform trivial fun r hr => ?_)
  exact fun j hj => ⟨hj, hr j hj⟩

theorem obeys_claim_renewal (o : Orchestrator) :
    conduct.Obeys (fun m' _ => m' = m) m (o.claim .renewal) :=
  obeys_bind (obeys_perform trivial fun _ _ => rfl)

theorem obeys_status (id : String) : conduct.Obeys (fun m' _ => m' = m) m (status id) :=
  obeys_perform trivial fun _ _ => rfl

theorem obeys_submit {unit : Option ℕ} (h : m.own.token = some unit) :
    conduct.Obeys (fun m' _ => m'.own.copy = m.own.copy) m (submit unit) :=
  obeys_perform h fun _ _ => rfl

theorem obeys_withdraw (id : String) :
    conduct.Obeys (fun m' ok => m'.own.copy = m.own.copy ∧ (ok = true → id ∈ m'.own.accepted)) m
      (withdraw id) := by
  refine obeys_perform trivial fun r _ => ?_
  cases (r : Bool) with
  | false => exact ⟨rfl, nofun⟩
  | true => exact ⟨rfl, fun _ => List.mem_cons_self⟩

theorem obeys_ask {q : Question} {f : Bool → VProg α} (h : ∀ b, conduct.Obeys post m (f b)) :
    conduct.Obeys post m (ask q >>= f) :=
  obeys_bind (obeys_perform trivial fun r _ => h r)

theorem obeys_either {c : Prop} [Decidable c] {p q : VProg α} (hp : conduct.Obeys post m p)
    (hq : conduct.Obeys post m q) : conduct.Obeys post m (if c then p else q) :=
  obeys_ite (fun _ => hp) fun _ => hq

/-- The program keeps to the conduct, whatever comes of it. -/
abbrev Behaves (m : Party Book Empty) (p : VProg α) : Prop := conduct.Obeys (fun _ _ => True) m p

theorem obeys_unless {c : Prop} [Decidable c] {q : Question} {p : VProg α} {f : Bool → VProg α}
    (hp : conduct.Obeys post m p) (hf : ∀ b, conduct.Obeys post m (f b)) :
    conduct.Obeys post m (if c then p else ask q >>= f) :=
  obeys_either hp (obeys_ask hf)

theorem obeys_got {f : VideoJob → VProg α} {a : α} (ha : ∀ m', post m' a)
    (hf : ∀ m' j, Owns m' j → (∀ c, Holds m c → j.isEpisode = c.isEpisode) →
      conduct.Obeys post m' (f j)) :
    conduct.Obeys post m (get >>= fun | none => pure a | some j => f j) := by
  refine obeys_get.bind fun m' r hr => ?_
  cases r with
  | none => exact obeys_pure (ha m')
  | some j => exact hf m' j (hr j rfl).1 (hr j rfl).2

theorem obeys_saved {f : VProg α} {a : α} (h : Holds m j)
    (hf : ∀ m', Holds m' j → conduct.Obeys post m' f) (ha : ∀ m', post m' a) :
    conduct.Obeys post m (update .plain j >>= fun ok => if ok = true then f else pure a) := by
  refine (obeys_update_plain h).bind fun m' _ h' => ?_
  exact obeys_ite (fun hok => hf m' (h' hok)) fun _ => obeys_pure (ha m')

theorem obeys_kept {b : VProg Bool} {f : VProg α} {a : α}
    (h : conduct.Obeys (fun m' ok => ok = true → Holds m' j) m b)
    (ha : ∀ m', post m' a) (hf : ∀ m', Holds m' j → conduct.Obeys post m' f) :
    conduct.Obeys post m (b >>= fun ok => if (!ok) = true then pure a else f) := by
  refine h.bind fun m' ok h' => ?_
  exact obeys_ite (fun _ => obeys_pure (ha m')) fun hok => hf m' (h' (by simpa using hok))

theorem of_none {P : Party Book Empty → VideoJob → Prop} : ∀ m' j', none = some j' → P m' j' := by
  rintro m' j' ⟨⟩

theorem of_false {P : Party Book Empty → Prop} : ∀ m', false = true → P m' := by
  rintro m' ⟨⟩

theorem obeys_thenStop {p : VProg Bool} (h : Behaves m p) :
    Behaves m (thenStop p) :=
  h.bind fun _ _ _ => obeys_pure trivial

theorem obeys_stop {p : VProg Bool} {a : α} (h : Behaves m p)
    (ha : ∀ m', post m' a) : conduct.Obeys post m (thenStop p >>= fun _ => pure a) :=
  (obeys_thenStop h).bind fun m' _ _ => obeys_pure (ha m')

end Requests

/-! ### Jobs of one shot -/

section Single

variable {m : Party Book Empty} {j : VideoJob}

section

variable (h : Holds m j)

include h

theorem Holds.withState (hs : s ≠ .queued) : Holds m { j with state := s } := by
  obtain ⟨c, hc, hj⟩ := h
  exact ⟨c, hc, hj.withState hs⟩

theorem Holds.transition {j' : VideoJob} (hj : j.transition s = some j')
    (hs : s ≠ .queued) : Holds m j' :=
  eq_of_transition hj ▸ h.withState hs

theorem obeys_write : Behaves m (update .plain j) :=
  (obeys_update_plain h).mono fun _ _ _ => trivial

theorem obeys_markNeedsManual : Behaves m (markNeedsManual j) := by
  refine obeys_either (obeys_write h) ?_
  split
  · exact obeys_pure trivial
  · next j' hj => exact obeys_write (h.transition hj (by decide))

theorem obeys_fail : Behaves m (fail j) := by
  refine obeys_either (obeys_write h) ?_
  split
  · exact obeys_pure trivial
  · next j' hj => exact obeys_write (h.transition hj (by decide))

theorem obeys_stopManual {α : Type} {post : Party Book Empty → α → Prop} {a : α}
    (ha : ∀ m', post m' a) :
    conduct.Obeys post m (thenStop (markNeedsManual j) >>= fun _ => pure a) :=
  obeys_stop (obeys_markNeedsManual h) ha

theorem obeys_stopManual_unit : Behaves m (thenStop (markNeedsManual j)) :=
  obeys_thenStop (obeys_markNeedsManual h)

theorem obeys_downloadAndComplete (st : ProviderJobStatus) :
    Behaves m (downloadAndComplete j st) := by
  refine obeys_either (obeys_pure trivial) ?_
  refine obeys_unless (obeys_stopManual h fun _ => trivial) fun _ => ?_
  refine obeys_either (obeys_stopManual h fun _ => trivial) ?_
  split
  · exact obeys_stopManual h fun _ => trivial
  · next j' hj =>
    have h' : Holds m j' := by
      split at hj
      · exact some.inj hj ▸ h
      · exact h.transition hj (by decide)
    refine obeys_kept (obeys_update_plain h') (fun _ => trivial) fun m₁ h₁ =>
      obeys_ask fun _ => ?_
    refine obeys_unless (obeys_stop (obeys_write h₁) fun _ => trivial) fun _ => ?_
    refine obeys_either (obeys_stopManual h₁ fun _ => trivial) ?_
    refine obeys_got (fun _ => trivial) fun m₂ latest h₂ _ => ?_
    refine obeys_unless (obeys_pure trivial) fun _ => ?_
    refine obeys_either (obeys_stop (obeys_write h₂.holds) fun _ => trivial) ?_
    split
    · exact obeys_pure trivial
    · next j'' hj'' => exact obeys_write (h₂.holds.transition hj'' (by decide))

theorem Holds.polled {j' : VideoJob} (hj : j.polled s = some j') : Holds m j' := by
  rw [VideoJob.polled] at hj
  split at hj
  · exact some.inj hj ▸ h
  · next hs =>
    split at hj
    · exact some.inj hj ▸ h
    · exact h.transition hj hs

end

variable (o : Orchestrator)

theorem obeys_pollAndFinalize (h : Holds m j) (n : ℕ) : Behaves m (o.pollAndFinalize n j) := by
  induction n generalizing m j with
  | zero => exact obeys_thenStop (obeys_write h)
  | succ n ih =>
    refine (obeys_claim_renewal o).bind fun m₁ r hm => ?_
    subst hm
    cases r with
    | none => exact obeys_pure trivial
    | some claimed =>
      have h : Holds m₁ { j with
          leaseOwner := claimed.leaseOwner, leaseUntil := claimed.leaseUntil } := by
        obtain ⟨c, hc, hj⟩ := h
        exact ⟨c, hc, hj.congr ⟨rfl, rfl, rfl, fun hq => hq⟩⟩
      refine (obeys_status _).bind fun m₂ r hm => ?_
      subst hm
      cases r with
      | none =>
        exact obeys_saved h (fun _ => ih) fun _ => trivial
      | some st =>
        refine obeys_either (obeys_stopManual_unit h) ?_
        refine obeys_either (obeys_stopManual_unit h) ?_
        split
        · exact obeys_thenStop (obeys_fail h)
        · split
          · exact obeys_pure trivial
          · next j' hj => exact obeys_thenStop (obeys_write (h.transition hj (by decide)))
        · refine (obeys_downloadAndComplete h st).bind fun m₃ ok _ => ?_
          refine obeys_either (obeys_pure trivial) ?_
          exact obeys_get.bind fun _ _ _ => obeys_pure trivial
        · refine obeys_either (obeys_stopManual_unit h) ?_
          refine obeys_either (obeys_stopManual_unit h) ?_
          split
          · exact obeys_stopManual_unit h
          · next j' hj =>
            exact obeys_saved (h.polled hj) (fun _ => ih) fun _ => trivial

theorem obeys_attend (h : Holds m j) : Behaves m (o.attend j) := by
  refine obeys_ask fun _ => obeys_either (obeys_thenStop (obeys_fail h)) ?_
  refine obeys_either ?_ <| obeys_pollAndFinalize o h _
  refine (obeys_withdraw _).bind fun m₁ ok hm => ?_
  refine obeys_either (obeys_thenStop (obeys_write ?_)) <| obeys_pure trivial
  obtain ⟨c, hc, hj⟩ := h
  exact ⟨c, hm.1.trans hc, hj.withState (by decide)⟩

theorem obeys_submitJob (h : Owns m j) (hep : j.isEpisode = false)
    (hq : j.state = .queued) : Behaves m (o.submitJob j) := by
  have hfollows : Follows j { j with state := .admitted } :=
    (Follows.refl h.sound).withState (by decide)
  have hrule : Rule m.own j { j with state := .admitted } (.intent none) :=
    ⟨hfollows, fun hb => hb.2 hq, hep, by simp⟩
  refine (obeys_update h.copy hrule).bind fun m₁ ok h₁ => ?_
  refine obeys_ite (fun _ => obeys_pure trivial) fun hok => obeys_ask fun _ => ?_
  obtain ⟨howns, htoken⟩ := h₁ (by simpa using hok)
  refine obeys_either (obeys_thenStop (obeys_fail howns.holds)) ?_
  refine (obeys_submit (htoken none rfl)).bind fun m₂ r hm => ?_
  have howns := howns.of_copy hm
  cases r with
  | none => exact obeys_stopManual_unit howns.holds
  | some s =>
    refine obeys_either (obeys_stopManual_unit howns.holds) ?_
    have hrule : Rule m₂.own { j with state := .admitted }
        { j with providerJobID := trimSpace s.providerJobID, state := .submitted }
        (.submitted none) := by
      refine ⟨⟨rfl, hfollows.shots, fun _ _ => by simp, ?_⟩, fun _ => (h.sound.single hep).2 hq⟩
      exact ⟨h.sound.shot, fun hep' => absurd (hep.symm.trans hep') (by decide),
        fun _ => ⟨(h.sound.single hep).1, nofun⟩⟩
    refine (obeys_update howns.copy hrule).bind fun m₃ ok h₃ => ?_
    refine obeys_ite (fun _ => ?_) fun hok => ?_
    · exact obeys_thenStop ((obeys_withdraw _).mono fun _ _ _ => trivial)
    · have h₃ := (h₃ (by simpa using hok)).1.holds
      exact obeys_either (obeys_stopManual_unit h₃) <| obeys_attend o h₃

theorem obeys_runSingle (h : Owns m j) (hep : j.isEpisode = false) : Behaves m (o.runSingle j) := by
  refine obeys_ask fun _ => obeys_either (obeys_pure trivial) ?_
  have hactive : Behaves m (if j.providerJobID = "" then thenStop (markNeedsManual j) else o.attend j) :=
    obeys_either (obeys_stopManual_unit h.holds) <| obeys_attend o h.holds
  split
  case h_6 hq => exact obeys_submitJob o h hep hq
  case h_7 =>
    refine obeys_either (obeys_stopManual_unit h.holds) ?_
    exact obeys_saved (h.holds.withState (by decide)) (fun _ => obeys_attend o)
      fun _ => trivial
  case h_13 => exact obeys_stopManual_unit h.holds
  all_goals first | exact obeys_pure trivial | exact hactive

end Single

/-! ### Episodes -/

section Episode

variable {m m' : Party Book Empty} {i : ℕ} {j j' : VideoJob}

/-- The thread has a copy of an episode that a record follows from, and shot `i` of it was
submitted. -/
structure Attends (m : Party Book Empty) (i : ℕ) (j : VideoJob) : Prop where
  holds : Holds m j
  episode : j.isEpisode = true
  id : ∀ run, j.shotExecutions[i]? = some run → run.providerJobID ≠ ""

theorem Holds.withoutID (h : Holds m j) (hep : j.isEpisode = true) :
    Holds m { j with providerJobID := "" } := by
  obtain ⟨c, hc, hj⟩ := h
  exact ⟨c, hc, hj.withoutID (hj.isEpisode.symm.trans hep)⟩

theorem Holds.shotState (h : Holds m j) (hep : j.isEpisode = true) (hs : s ≠ .queued)
    (hi : s = .planning ∨ s = .completed ∨
      ∀ run, j.shotExecutions[i]? = some run → run.providerJobID ≠ "") :
    Holds m (j.setShot i fun run => { run with state := s }) := by
  obtain ⟨c, hc, hj⟩ := h
  exact ⟨c, hc, hj.shotState (hj.isEpisode.symm.trans hep) hs hi⟩

section

variable (h : Attends m i j)

include h

theorem Attends.of_holds (h' : Holds m' j) : Attends m' i j :=
  ⟨h', h.episode, h.id⟩

theorem Attends.withState (hs : s ≠ .queued) : Attends m i { j with state := s } :=
  ⟨h.holds.withState hs, h.episode, h.id⟩

theorem Attends.transition (hj : j.transition s = some j') (hs : s ≠ .queued) : Attends m i j' :=
  eq_of_transition hj ▸ h.withState hs

theorem Attends.shotState (hs : s ≠ .queued) :
    Attends m i (j.setShot i fun run => { run with state := s }) := by
  refine ⟨h.holds.shotState h.episode hs (.inr (.inr h.id)), h.episode, fun run hrun => ?_⟩
  simp only [setShot, List.getElem?_modify_eq, map_eq_map,
    map_eq_some_iff] at hrun
  obtain ⟨old, hold, rfl⟩ := hrun
  exact h.id old hold

theorem Attends.advanced (s : JobState) : Attends m i (j.advanced s) := by
  rw [VideoJob.advanced]
  split
  · exact h.withState (by decide)
  · exact h

end

theorem shotPolled_ne_queued (s : JobState) : shotPolled s ≠ .queued := by
  cases s <;> decide

theorem obeys_pollEpisodeShot (h : Attends m i j) (n : ℕ) :
    conduct.Obeys (fun m' r => ∀ j' st, r = some (j', st) → Holds m' j' ∧ j'.isEpisode = true ∧
        (st.state ≠ .cancelled → Attends m' i j')) m (pollEpisodeShot i id n j) := by
  have hnone : ∀ m' : Party Book Empty, ∀ j' st, none = some (j', st) → Holds m' j' ∧
      j'.isEpisode = true ∧ (ProviderJobStatus.state st ≠ .cancelled → Attends m' i j') := by
    rintro m' j' st ⟨⟩
  induction n generalizing m j with
  | zero => exact obeys_stop (obeys_write h.holds) hnone
  | succ n ih =>
    refine (obeys_status id).bind fun m₁ r hm => ?_
    subst hm
    cases r with
    | none =>
      exact obeys_saved h.holds (fun _ h₂ => ih (h.of_holds h₂)) hnone
    | some st =>
      refine obeys_either (obeys_stopManual h.holds hnone) ?_
      refine obeys_either (obeys_stopManual h.holds hnone) ?_
      split
      · exact obeys_stop (obeys_fail (h.shotState (by simp [*])).holds) hnone
      · exact obeys_stop (obeys_fail (h.shotState (by simp [*])).holds) hnone
      · split
        · exact obeys_pure (hnone _)
        · next j' hj =>
          have h' : Attends m₁ i j' := by
            split at hj
            · exact some.inj hj ▸ h
            · exact h.transition hj (by decide)
          refine obeys_saved (h'.holds.withoutID h'.episode) (fun m₂ h₂ => obeys_pure ?_) hnone
          rintro j'' st' ⟨⟩
          exact ⟨h₂, h'.episode, fun hne => absurd (by assumption) hne⟩
      · have h' := h.shotState (s := .completed) (by decide)
        refine obeys_saved h'.holds (fun m₂ h₂ => obeys_pure ?_) hnone
        rintro j'' st' ⟨⟩
        exact ⟨h₂, h'.episode, fun _ => h'.of_holds h₂⟩
      · refine obeys_either (obeys_stopManual h.holds hnone) ?_
        have h' := (h.shotState (shotPolled_ne_queued st.state)).advanced st.state
        exact obeys_saved h'.holds (fun _ h₂ => ih (h'.of_holds h₂)) hnone

theorem Attends.withAsset (h : Attends m i j) : Holds m (j.withAsset i) := by
  obtain ⟨c, hc, hj⟩ := ((h.shotState (s := .completed) (by decide)).holds).withoutID h.episode
  exact ⟨c, hc, hj.congr ⟨by simp [VideoJob.withAsset, VideoJob.setShot], rfl, rfl, fun hq => hq⟩⟩

theorem Holds.afterShot (h : Holds m j) (hj : j.afterShot i = some j') : Holds m j' := by
  rw [VideoJob.afterShot] at hj
  split at hj
  · split at hj
    · exact some.inj hj ▸ h
    · exact h.transition hj (by decide)
  · split at hj
    · exact some.inj hj ▸ h.withState (by decide)
    · exact some.inj hj ▸ h

theorem shotPlan_afterShot (hj : j.afterShot i = some j') : j'.shotPlan = j.shotPlan := by
  rw [afterShot] at hj
  split at hj
  · split at hj
    · rw [← some.inj hj]
    · rw [eq_of_transition hj]
  · split at hj <;> rw [← some.inj hj]

theorem obeys_finishShot (h : Attends m i j) (st : ProviderJobStatus) :
    conduct.Obeys (fun m' r => ∀ j', r = some j' → Holds m' j' ∧ j'.isEpisode = true) m
      (finishShot i j st) := by
  refine obeys_either (obeys_stopManual h.holds of_none) ?_
  have h' := h.shotState (s := .uploading) (by decide)
  refine obeys_kept (obeys_update_plain h'.holds) of_none fun m₁ h₁ =>
    obeys_ask fun _ => ?_
  have h₁ := h'.of_holds h₁
  refine obeys_unless (obeys_stop (obeys_write h₁.holds) of_none) fun _ => ?_
  refine obeys_unless (obeys_stopManual h₁.holds of_none) fun _ => ?_
  refine obeys_unless (obeys_ask fun _ => ?_) fun _ => ?_
  · exact obeys_either (obeys_pure nofun) <| obeys_stop (obeys_write h₁.holds) of_none
  · refine obeys_either (obeys_stopManual h₁.holds of_none) ?_
    split
    · exact obeys_pure nofun
    · next j' hj =>
      refine obeys_saved (h₁.withAsset.afterShot hj) (fun m₂ h₂ => obeys_pure ?_) of_none
      rintro j'' ⟨⟩
      refine ⟨h₂, ?_⟩
      have hep := h₁.episode
      rw [isEpisode] at hep ⊢
      rw [shotPlan_afterShot hj]
      simpa [withAsset] using hep

theorem obeys_capabilitiesRead (loaded : Bool) :
    conduct.Obeys (fun m' _ => m' = m) m (capabilitiesRead loaded) :=
  obeys_either (obeys_pure rfl) <| obeys_perform trivial fun _ _ => rfl

theorem getElem?_registered (hrun : j.shotExecutions[i]? = some run) :
    (j.registered i id).shotExecutions[i]? =
      some { run with providerJobID := id, state := .submitted } := by
  simp [registered, setShot, hrun]

theorem extends_registered (h : j.Sound) (hep : j.isEpisode = true)
    (hrun : j.shotExecutions[i]? = some run) (hid : run.providerJobID = "") (hne : id ≠ "") :
    Extends j (j.registered i id) := by
  have hshot : Extends j (j.setShot i fun run =>
      { run with providerJobID := id, state := .submitted }) := by
    refine (Follows.refl h).toExtends.setShot hep fun run' hrun' =>
      ⟨⟨fun hne' => ?_, fun _ => by simp⟩, fun hid' => absurd hid' hne⟩
    rw [hrun, some.injEq] at hrun'
    exact absurd (hrun' ▸ hid) hne'
  have hget : (j.registered i id).shotExecutions[i]? = _ := getElem?_registered hrun
  refine (hshot.withID hep fun _ => ⟨_, List.mem_of_getElem? hget, rfl⟩).congr
    ⟨rfl, rfl, rfl, fun hq => ?_⟩
  rw [registered] at hq
  split at hq
  · cases hq
  · exact hq

theorem obeys_submitShot {c : VideoJob} (loaded : Bool) (h : Owns m c) (hc : Follows c j)
    (hep : j.isEpisode = true) (hcrun : c.shotExecutions[i]? = some run)
    (hrun : j.shotExecutions[i]? = some run) (hq : run.state = .queued)
    (hid : run.providerJobID = "") :
    conduct.Obeys (fun m' r => ∀ j', r = some j' → Attends m' i j') m (submitShot loaded i j) := by
  have hholds : Holds m j := ⟨c, h.copy, hc⟩
  refine (obeys_capabilitiesRead loaded).bind fun m₀ ok hm => ?_
  subst hm
  refine obeys_unless (obeys_stop (obeys_write hholds) of_none) fun _ => ?_
  refine obeys_unless (obeys_stop (obeys_fail hholds) of_none) fun _ => ?_
  refine obeys_either (obeys_stop (obeys_fail hholds) of_none) ?_
  have hget : (j.planned i).shotExecutions[i]? = some { run with state := .planning } := by
    simp [planned, setShot, hrun]
  have hrule : Rule m₀.own c (j.planned i) (.intent (some i)) := by
    refine ⟨hc.shotState (hc.isEpisode.symm.trans hep) (by decide) (.inl rfl), ?_, hep, _, hget,
      by simp⟩
    rintro ⟨-, s, hs, hne⟩
    rw [hcrun, some.injEq] at hs
    exact hne (hs ▸ hq)
  refine (obeys_update h.copy hrule).bind fun m₁ ok h₁ => ?_
  refine obeys_ite (fun _ => obeys_pure nofun) fun hok => ?_
  obtain ⟨howns, htoken⟩ := h₁ (by simpa using hok)
  refine (obeys_submit (htoken (some i) rfl)).bind fun m₂ r hm => ?_
  have howns := howns.of_copy hm
  cases r with
  | none => exact obeys_stopManual howns.holds of_none
  | some s =>
    refine obeys_ite (fun _ => obeys_stopManual howns.holds of_none) fun hne => ?_
    have hrule : Rule m₂.own (j.planned i) ((j.planned i).registered i (trimSpace s.providerJobID))
        (.submitted (some i)) :=
      ⟨extends_registered howns.sound hep hget hid hne,
        fun hs => absurd (hep.symm.trans hs) (by decide)⟩
    refine (obeys_update howns.copy hrule).bind fun m₃ ok h₃ => ?_
    refine obeys_ite (fun _ => ?_) fun hok => ?_
    · exact obeys_stop ((obeys_withdraw _).mono fun _ _ _ => trivial) of_none
    · have h₃ := (h₃ (by simpa using hok)).1.holds
      refine obeys_either (obeys_stopManual h₃ of_none) <| obeys_pure ?_
      rintro j' ⟨⟩
      refine ⟨h₃, hep, fun run' hrun' => ?_⟩
      rw [getElem?_registered hget, some.injEq] at hrun'
      exact hrun' ▸ hne

theorem obeys_retryEpisodeComposition (h : Holds m j) :
    Behaves m (retryEpisodeComposition j) := by
  have h' : Holds m { j with compositionRetryCount := j.compositionRetryCount + 1 } := by
    obtain ⟨c, hc, hj⟩ := h
    exact ⟨c, hc, hj.congr ⟨rfl, rfl, rfl, fun hq => hq⟩⟩
  refine obeys_kept (obeys_update_plain h') (fun _ => trivial) fun m₁ h₁ => ?_
  exact obeys_either (obeys_thenStop (obeys_fail h₁)) <| obeys_pure trivial

theorem obeys_dropOutdated (h : Holds m j) :
    conduct.Obeys (fun m' ok => ok = true → Holds m' j) m (dropOutdated j) :=
  obeys_ask fun _ => obeys_either (obeys_update_plain h) <| obeys_pure fun _ => h

theorem obeys_retry {post : Party Book Empty → Bool → Prop} (h : Holds m j)
    (hpost : ∀ m', post m' false) :
    conduct.Obeys post m (retryEpisodeComposition j >>= fun _ => pure false) :=
  (obeys_retryEpisodeComposition h).bind fun m' _ _ => obeys_pure (hpost m')

theorem obeys_ensureNarrationAsset (h : Holds m j) :
    conduct.Obeys (fun m' ok => ok = true → Holds m' j) m (ensureNarrationAsset j) := by
  refine obeys_ask fun _ => obeys_either (obeys_pure fun _ => h) <| obeys_ask fun _ => ?_
  refine obeys_either (obeys_ask fun _ => ?_) ?_
  · refine obeys_unless (obeys_stop (obeys_fail h) of_false) fun _ => ?_
    exact obeys_either (obeys_update_plain h) <| obeys_pure fun _ => h
  refine obeys_kept (obeys_dropOutdated h) of_false fun m₁ h₁ =>
    obeys_ask fun _ => ?_
  refine obeys_unless (obeys_stopManual h₁ of_false) fun _ => ?_
  refine obeys_unless (obeys_retry h₁ of_false) fun _ => ?_
  refine obeys_unless (obeys_stopManual h₁ of_false) fun _ => ?_
  refine obeys_unless (obeys_stop (obeys_fail h₁) of_false) fun _ => ?_
  refine obeys_unless (obeys_retry h₁ of_false) fun _ => ?_
  refine obeys_unless (obeys_ask fun _ => ?_) fun _ => ?_
  · exact obeys_either (obeys_pure (by rintro ⟨⟩)) <| obeys_retry h₁ of_false
  · exact obeys_either (obeys_stopManual h₁ of_false) <| obeys_update_plain h₁

theorem obeys_ensureSubtitleAsset (h : Holds m j) :
    conduct.Obeys (fun m' ok => ok = true → Holds m' j) m (ensureSubtitleAsset j) := by
  refine obeys_ask fun _ => obeys_either (obeys_pure fun _ => h) <| obeys_ask fun _ => ?_
  refine obeys_unless (obeys_stopManual h of_false) fun _ => ?_
  refine obeys_either (obeys_ask fun _ => ?_) ?_
  · exact obeys_either (obeys_update_plain h) <| obeys_pure fun _ => h
  refine obeys_kept (obeys_dropOutdated h) of_false fun m₁ h₁ =>
    obeys_ask fun _ => ?_
  refine obeys_unless (obeys_stopManual h₁ of_false) fun _ => ?_
  refine obeys_unless (obeys_ask fun _ => ?_) fun _ => ?_
  · exact obeys_either (obeys_pure (by rintro ⟨⟩)) <| obeys_retry h₁ of_false
  · exact obeys_either (obeys_stopManual h₁ of_false) <| obeys_update_plain h₁

theorem obeys_commitEpisode : Behaves m commitEpisode := by
  refine obeys_got (fun _ => trivial) fun m₁ latest h₁ _ => ?_
  refine obeys_unless (obeys_pure trivial) fun _ => ?_
  refine obeys_either (obeys_thenStop (obeys_write h₁.holds)) ?_
  split
  · exact obeys_pure trivial
  · next j' hj => exact obeys_thenStop (obeys_write (h₁.holds.transition hj (by decide)))

theorem obeys_composeEpisode (h : Holds m j) :
    Behaves m (composeEpisode j) := by
  refine obeys_unless (obeys_stopManual_unit h) fun _ => ?_
  refine obeys_unless (obeys_stopManual_unit h) fun _ => ?_
  refine obeys_either (obeys_thenStop (obeys_fail h)) ?_
  refine obeys_kept (obeys_ensureNarrationAsset h) (fun _ => trivial) fun m₁ h₁ => ?_
  refine obeys_kept (obeys_ensureSubtitleAsset h₁) (fun _ => trivial) fun m₂ h₂ =>
    obeys_ask fun _ => ?_
  refine obeys_unless (obeys_ask fun _ => ?_) fun _ => ?_
  · exact obeys_either (obeys_pure trivial) <| obeys_retryEpisodeComposition h₂
  refine obeys_unless (obeys_thenStop (obeys_fail h₂)) fun _ => ?_
  refine obeys_unless (obeys_ask fun _ => ?_) fun _ => ?_
  · exact obeys_either (obeys_pure trivial) <| obeys_thenStop (obeys_write h₂)
  · exact obeys_either (obeys_stopManual_unit h₂) <| obeys_commitEpisode

theorem obeys_finishEpisode (h : Holds m j) (hep : j.isEpisode = true) :
    Behaves m (finishEpisode j) := by
  rw [finishEpisode]
  split
  · exact obeys_pure trivial
  · next j' hj =>
    have h' : Holds m j' ∧ j'.isEpisode = true := by
      split at hj
      · exact some.inj hj ▸ ⟨h, hep⟩
      · exact ⟨h.transition hj (by decide), eq_of_transition hj ▸ hep⟩
    exact obeys_saved (h'.1.withoutID h'.2) (fun _ => obeys_composeEpisode)
      fun _ => trivial

variable (o : Orchestrator)

theorem obeys_renderShot (h : Attends m i j) :
    conduct.Obeys (fun m' r => ∀ j', r = some j' → Holds m' j' ∧ j'.isEpisode = true) m
      (o.renderShot i id j) := by
  refine (obeys_pollEpisodeShot h _).bind fun m₁ r hr => ?_
  cases r with
  | none => exact obeys_pure nofun
  | some out =>
    obtain ⟨j₁, st⟩ := out
    refine obeys_ite (fun _ => obeys_pure nofun) fun hne => ?_
    exact obeys_finishShot ((hr j₁ st rfl).2.2 hne) st

theorem obeys_episodeShots (p loaded : Bool) (shots : List ℕ) (h : Holds m j)
    (hep : j.isEpisode = true) :
    Behaves m (o.episodeShots p loaded shots j) := by
  induction shots generalizing m j loaded with
  | nil =>
    exact obeys_finishEpisode h hep
  | cons i rest ih =>
    refine obeys_got (fun _ => trivial) fun m₁ latest howns hkind => ?_
    refine obeys_either (obeys_pure trivial) ?_
    have hep₁ : latest.isEpisode = true := (hkind j h).trans hep
    have hfollows : Follows latest { latest with currentShot := i + 1 } :=
      (Follows.refl howns.sound).congr ⟨rfl, rfl, rfl, fun hq => hq⟩
    have h₁ : Holds m₁ { latest with currentShot := i + 1 } := ⟨latest, howns.copy, hfollows⟩
    dsimp only
    split
    · refine obeys_ask fun _ => obeys_either (obeys_stopManual_unit h₁) ?_
      exact ih loaded (h₁.shotState hep₁ (by decide) (.inr (.inl rfl))) hep₁
    · next run hplan hrun =>
      refine obeys_either (obeys_stopManual_unit h₁) ?_
      refine obeys_ite (fun _ => obeys_stopManual_unit h₁) fun hcompleted => ?_
      refine obeys_ite (fun _ => obeys_stopManual_unit h₁) fun hplanning => ?_
      refine obeys_ite (fun hid => ?_) fun hid => ?_
      · refine obeys_either (obeys_stopManual_unit h₁) ?_
        have hq : run.state = .queued := by
          rcases howns.sound.shot run (List.mem_of_getElem? hrun) hid with hq | hq | hq
          · exact hq
          · exact absurd ⟨hq, hid⟩ hplanning
          · exact absurd ⟨hq, hid⟩ hcompleted
        refine (obeys_submitShot loaded howns hfollows hep₁ hrun hrun hq hid).bind fun m₂ r hr => ?_
        cases r with
        | none => exact obeys_pure trivial
        | some j₂ =>
          refine (obeys_renderShot o (hr j₂ rfl)).bind fun m₃ r hr => ?_
          cases r with
          | none => exact obeys_pure trivial
          | some j₃ => exact ih true (hr j₃ rfl).1 (hr j₃ rfl).2
      · refine obeys_either (obeys_pure trivial) ?_
        have hattends : Attends m₁ i { latest with
            currentShot := i + 1, providerJobID := run.providerJobID } := by
          refine ⟨⟨latest, howns.copy, ?_⟩, hep₁, fun run' hrun' => ?_⟩
          · exact hfollows.withID hep₁ fun _ => ⟨run, List.mem_of_getElem? hrun, rfl⟩
          · obtain rfl : run = run' := some.inj (hrun.symm.trans hrun')
            exact hid
        refine (obeys_renderShot o hattends).bind fun m₂ r hr => ?_
        cases r with
        | none => exact obeys_pure trivial
        | some j₂ => exact ih loaded (hr j₂ rfl).1 (hr j₂ rfl).2
    · exact obeys_pure trivial

theorem obeys_runShots (p : Bool) (h : Holds m j) (hep : j.isEpisode = true) :
    Behaves m (o.runShots p j) := by
  refine obeys_either ?_ <| obeys_either ?_ ?_
  · refine obeys_either (obeys_stopManual_unit h) ?_
    refine (obeys_withdraw _).bind fun m₁ ok hm => ?_
    refine obeys_either (obeys_thenStop (obeys_write ?_)) <| obeys_pure trivial
    obtain ⟨c, hc, hj⟩ := (h.withState (s := .cancelled) (by decide)).withoutID hep
    exact ⟨c, hm.1.trans hc, hj⟩
  · refine obeys_saved (h.withState (by decide)) (fun m₁ h₁ => ?_) fun _ => trivial
    exact obeys_episodeShots o p false _ h₁ hep
  · exact obeys_episodeShots o p false _ h hep

theorem obeys_runEpisodeJob (h : Holds m j) (hep : j.isEpisode = true) :
    Behaves m (o.runEpisodeJob j) := by
  rw [Orchestrator.runEpisodeJob]
  split
  case h_6 =>
    refine obeys_unless (obeys_stopManual_unit h) fun _ => ?_
    refine obeys_unless (obeys_stopManual_unit h) fun _ => ?_
    refine obeys_either (obeys_stopManual_unit h) ?_
    refine obeys_either (obeys_ask fun _ => ?_) <| obeys_runShots o false h hep
    refine obeys_unless (obeys_stopManual_unit h) fun _ => ?_
    exact obeys_either (obeys_thenStop (obeys_fail h)) <| obeys_runShots o true h hep
  all_goals exact obeys_pure trivial

end Episode

/-! ### The calls -/

section Calls

variable {m : Party Book Empty}

theorem obeys_runJob (o : Orchestrator) : Behaves m o.runJob := by
  refine obeys_got (fun _ => trivial) fun m₁ _ _ _ => ?_
  refine (obeys_claim_start o).bind fun m₂ r hr => ?_
  cases r with
  | none => exact obeys_pure trivial
  | some j =>
    have h := hr j rfl
    refine obeys_ite (fun hep => obeys_runEpisodeJob o h.holds hep) fun hep => ?_
    exact obeys_runSingle o h (by simpa using hep)

theorem obeys_cancelStored (h : Owns m j)
    (hid : j.providerJobID ≠ "" → j.providerJobID ∈ m.own.accepted) :
    Behaves m (cancelStored j) := by
  rw [cancelStored]
  split
  · exact obeys_pure trivial
  · next j' hj =>
    have hrule : Rule m.own j j' .cancel := by
      refine ⟨(Follows.refl h.sound).transition hj (by decide), ?_, hid⟩
      rw [eq_of_transition hj]
    exact obeys_thenStop ((obeys_update h.copy hrule).mono fun _ _ _ => trivial)

theorem obeys_cancelJob : Behaves m cancelJob := by
  refine obeys_got (fun _ => trivial) fun m₁ j h _ => ?_
  split
  case h_5 =>
    refine obeys_either (obeys_pure trivial) ?_
    refine obeys_ite (fun hid => obeys_cancelStored h fun hne => absurd hid hne) fun _ =>
      obeys_ask fun _ => ?_
    refine obeys_unless (obeys_pure trivial) fun _ => ?_
    refine obeys_either (obeys_pure trivial) ?_
    refine (obeys_withdraw _).bind fun m₂ ok hm => ?_
    refine obeys_ite (fun hok => ?_) fun _ => obeys_pure trivial
    exact obeys_cancelStored (h.of_copy hm.1) fun _ => hm.2 hok
  all_goals exact obeys_pure trivial

theorem obeys_forceFailStored : Behaves m forceFailStored := by
  refine obeys_got (fun _ => trivial) fun m₁ j h _ => ?_
  refine obeys_either (obeys_pure trivial) <| obeys_thenStop (obeys_write ?_)
  exact ⟨j, h.copy, (Follows.refl h.sound).congr ⟨rfl, rfl, rfl, nofun⟩⟩

theorem obeys_forceFailJob : Behaves m forceFailJob := by
  refine obeys_got (fun _ => trivial) fun m₁ j _ _ => ?_
  refine obeys_either (obeys_pure trivial) ?_
  refine obeys_unless obeys_forceFailStored fun _ => ?_
  refine obeys_either obeys_forceFailStored ?_
  exact (obeys_withdraw _).bind fun _ _ _ => obeys_forceFailStored

theorem obeys_recoverStored (h : Owns m j) : Behaves m (recoverStored j) := by
  have hmanual := obeys_stopManual_unit h.holds
  have hactive : Behaves m (if j.providerJobID = "" then thenStop (markNeedsManual j) else pure ()) :=
    obeys_either hmanual <| obeys_pure trivial
  refine obeys_either (obeys_pure trivial) ?_
  split
  case h_6 =>
    refine obeys_either (obeys_either hmanual ?_) ?_
    · split
      all_goals first | exact obeys_pure trivial | exact hmanual
    · split
      case h_2 =>
        refine obeys_either hmanual <| obeys_thenStop (obeys_write ?_)
        exact h.holds.withState (by decide)
      all_goals first | exact obeys_pure trivial | exact hactive | exact hmanual
  all_goals exact obeys_pure trivial

theorem obeys_recoverJob : Behaves m recoverJob := by
  exact obeys_got (fun _ => trivial) fun _ _ h _ => obeys_recoverStored h

theorem new_newJob (shots : ℕ) (dryRun : Bool) : (newJob shots dryRun).New := by
  have hshot : ∀ s ∈ (newJob shots dryRun).shotExecutions, s = {} := fun s hs =>
    List.eq_of_mem_replicate hs
  refine ⟨⟨fun s hs _ => ?_, fun _ hne => absurd rfl hne, fun _ => ⟨fun s hs => ?_, fun _ => rfl⟩⟩,
    rfl, hshot⟩
  · rw [hshot s hs]
    exact .inl rfl
  · rw [hshot s hs]

theorem obeys_createJob (shots : ℕ) (dryRun : Bool) :
    Behaves m (createJob shots dryRun) := by
  have hnew := new_newJob (keptShots shots) dryRun
  have hdry : VideoJob.New { newJob (keptShots shots) dryRun with state := .dryRun } :=
    ⟨hnew.sound.congr ⟨rfl, rfl, rfl, fun _ => rfl⟩, rfl, hnew.shot⟩
  refine obeys_either (obeys_thenStop ?_) ?_
  · exact (obeys_create hdry).mono fun _ _ _ => trivial
  · refine (obeys_create hnew).bind fun m₁ ok h₁ => ?_
    refine obeys_ite (fun hok => obeys_ask fun _ => ?_) fun _ => obeys_pure trivial
    refine obeys_either (obeys_pure trivial) <| obeys_thenStop (obeys_write ?_)
    exact (h₁ hok).holds.withState (by decide)

end Calls

/-- **The programs of an orchestrator keep to its conduct.** -/
theorem keeps_conduct : Keeps orchestrators conduct fun _ _ => True where
  body j := j.elim
  start _ _ := trivial
  prog c m _ := by
    have hprog : Behaves m c.prog := by
      cases c with
      | create shots dryRun => exact obeys_createJob shots dryRun
      | runJob o => exact obeys_runJob o
      | cancel => exact obeys_cancelJob
      | forceFail => exact obeys_forceFailJob
      | recover => exact obeys_recoverJob
    exact hprog.bind fun _ _ _ => obeys_pure fun _ _ => trivial

end NexaRoute.Video
