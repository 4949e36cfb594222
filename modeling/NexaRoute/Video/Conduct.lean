import NexaRoute.Video.Orchestrator

/-!
# The conduct of an orchestrator

What an orchestrator may write, told from what it has read and written before. A thread remembers the
last record it read or stored, its *copy*; whether it stored an intent that it has not yet acted on;
and which cancellations the provider accepted. A write replaces the whole record, and the rules say
how the new record follows from the copy: an id of the provider is never taken out of a checkpoint,
no unit goes back to be queued, an intent is for a unit that the copy shows as queued, and `Cancel`
writes only after the provider accepted the cancellation of the id that its copy has.

The rules say nothing about the record in the store, which may have changed since it was read. That
the programs keep to them is proved in `NexaRoute.Video.Conforms`.

## Main definitions

* `conduct` — the rules as a protocol
-/

namespace NexaRoute.Video

open Interleave List

variable {s : ShotExecution} {l : List ShotExecution} {i : ℕ} {f : ShotExecution → ShotExecution}
  {j' : VideoJob} {j : VideoJob}

/-! ### Records -/

/-- What a checkpoint becomes. -/
structure ShotExecution.Follows (s s' : ShotExecution) : Prop where
  id : s.providerJobID ≠ "" → s'.providerJobID = s.providerJobID
  begun : s.state ≠ .queued → s'.state ≠ .queued

/-- What the checkpoints of a job become. -/
abbrev FollowsAll : List ShotExecution → List ShotExecution → Prop :=
  List.Forall₂ ShotExecution.Follows

/-- What holds of every record, whoever wrote it. -/
structure VideoJob.Sound (j : VideoJob) : Prop where
  /-- A checkpoint without an id is not yet submitted, is being submitted, or has its asset. -/
  shot : ∀ s ∈ j.shotExecutions, s.providerJobID = "" →
    s.state = .queued ∨ s.state = .planning ∨ s.state = .completed
  /-- The id of an episode is the one of a shot. -/
  parent : j.isEpisode = true → j.providerJobID ≠ "" →
    ∃ s ∈ j.shotExecutions, s.providerJobID = j.providerJobID
  /-- A job of one shot has no ids in its checkpoints, and none at all while it is queued. -/
  single : j.isEpisode = false →
    (∀ s ∈ j.shotExecutions, s.providerJobID = "") ∧ (j.state = .queued → j.providerJobID = "")

/-- The record shows that a unit was submitted or is about to be. -/
def VideoJob.Begun (j : VideoJob) : Option ℕ → Prop
  | none => j.isEpisode = false ∧ j.state ≠ .queued
  | some i => j.isEpisode = true ∧ ∃ s, j.shotExecutions[i]? = some s ∧ s.state ≠ .queued

/-- What every write keeps of the copy it is made from. -/
structure Extends (c j : VideoJob) : Prop where
  plan : j.shotPlan.length = c.shotPlan.length
  shots : FollowsAll c.shotExecutions j.shotExecutions
  begun : c.isEpisode = false → c.state ≠ .queued → j.state ≠ .queued
  sound : j.Sound

/-- What a write keeps that stores no new id. -/
structure Follows (c j : VideoJob) : Prop extends Extends c j where
  id : c.isEpisode = false → j.providerJobID = c.providerJobID
  ids : j.shotExecutions.map ShotExecution.providerJobID =
    c.shotExecutions.map ShotExecution.providerJobID

theorem ShotExecution.Follows.refl (s : ShotExecution) : s.Follows s := ⟨fun _ => rfl, fun h => h⟩

theorem ShotExecution.Follows.trans {s' s'' : ShotExecution} (h : s.Follows s')
    (h' : s'.Follows s'') : s.Follows s'' where
  id := fun hne => (h'.id (h.id hne ▸ hne)).trans (h.id hne)
  begun := fun hst => h'.begun (h.begun hst)

theorem FollowsAll.trans {l' l'' : List ShotExecution} (h : FollowsAll l l')
    (h' : FollowsAll l' l'') : FollowsAll l l'' := by
  induction h generalizing l'' with
  | nil => exact h'
  | cons hs _ ih =>
    cases h' with
    | cons hs' hl' => exact .cons (hs.trans hs') (ih hl')

theorem FollowsAll.exists_of_mem {l' : List ShotExecution} (h : FollowsAll l l') (hs : s ∈ l) :
    ∃ s' ∈ l', s.Follows s' := by
  obtain ⟨i, hi, rfl⟩ := mem_iff_getElem.mp hs
  obtain ⟨hlen, hget⟩ := forall₂_iff_get.mp h
  exact ⟨_, getElem_mem (hlen ▸ hi), hget i hi (hlen ▸ hi)⟩

theorem followsAll_modify (hf : ∀ s, l[i]? = some s → s.Follows (f s)) :
    FollowsAll l (l.modify i f) := by
  induction l generalizing i with
  | nil => simp
  | cons s l ih =>
    cases i with
    | zero => exact .cons (hf s rfl) (forall₂_same.mpr fun s _ => .refl s)
    | succ i => exact .cons (.refl s) (ih hf)

theorem mem_modify (h : s ∈ l.modify i f) :
    s ∈ l ∨ ∃ old, l[i]? = some old ∧ s = f old := by
  obtain ⟨k, hk, rfl⟩ := mem_iff_getElem.mp h
  rw [length_modify] at hk
  rw [getElem_modify]
  split
  · next hik => exact .inr ⟨_, hik ▸ getElem?_eq_getElem hk, rfl⟩
  · exact .inl (getElem_mem hk)

theorem Extends.isEpisode {c : VideoJob} (h : Extends c j) : j.isEpisode = c.isEpisode := by
  rw [VideoJob.isEpisode, VideoJob.isEpisode, h.plan]

theorem Extends.begun_of {c : VideoJob} (h : Extends c j) {unit : Option ℕ} (hu : c.Begun unit) :
    j.Begun unit := by
  cases unit with
  | none => exact ⟨h.isEpisode.trans hu.1, h.begun hu.1 hu.2⟩
  | some i =>
    obtain ⟨hep, s, hs, hst⟩ := hu
    obtain ⟨hlen, hget⟩ := forall₂_iff_get.mp h.shots
    obtain ⟨hi, rfl⟩ := List.getElem?_eq_some_iff.mp hs
    refine ⟨h.isEpisode.trans hep, _, getElem?_eq_getElem (hlen ▸ hi), ?_⟩
    exact (hget i hi (hlen ▸ hi)).begun hst

theorem Follows.refl (h : j.Sound) : Follows j j where
  plan := rfl
  shots := forall₂_same.mpr fun s _ => .refl s
  begun := fun _ hs => hs
  sound := h
  id := fun _ => rfl
  ids := rfl

/-- `j'` gives out the same work as `j`, and is queued only when `j` is. -/
structure SameWork (j j' : VideoJob) : Prop where
  plan : j'.shotPlan.length = j.shotPlan.length
  shots : j'.shotExecutions = j.shotExecutions
  id : j'.providerJobID = j.providerJobID
  queued : j'.state = .queued → j.state = .queued

theorem VideoJob.Sound.congr (h : j.Sound) (hsame : SameWork j j') : j'.Sound := by
  obtain ⟨hplan, hshots, hid, hstate⟩ := hsame
  have hep : j'.isEpisode = j.isEpisode := by rw [VideoJob.isEpisode, hplan, VideoJob.isEpisode]
  refine ⟨?_, fun h1 h2 => ?_, fun h1 => ?_⟩
  · rw [hshots]
    exact h.shot
  · rw [hshots, hid]
    exact h.parent (hep ▸ h1) (hid ▸ h2)
  · rw [hshots, hid]
    exact ⟨(h.single (hep ▸ h1)).1, fun hq => (h.single (hep ▸ h1)).2 (hstate hq)⟩

section Changes

variable {c j : VideoJob}

theorem Extends.congr (h : Extends c j) (hsame : SameWork j j') : Extends c j' where
  plan := hsame.plan.trans h.plan
  shots := hsame.shots ▸ h.shots
  begun := fun hep hs hq => h.begun hep hs (hsame.queued hq)
  sound := h.sound.congr hsame

theorem Follows.congr (h : Follows c j) (hsame : SameWork j j') : Follows c j' where
  toExtends := h.toExtends.congr hsame
  id := fun hep => hsame.id.trans (h.id hep)
  ids := hsame.shots ▸ h.ids

theorem Follows.withState (h : Follows c j) {s : JobState} (hs : s ≠ .queued) :
    Follows c { j with state := s } :=
  h.congr ⟨rfl, rfl, rfl, fun hq => absurd hq hs⟩

theorem Follows.transition (h : Follows c j) {s : JobState} (hj : j.transition s = some j')
    (hs : s ≠ .queued) : Follows c j' :=
  VideoJob.eq_of_transition hj ▸ h.withState hs

theorem Extends.withID (h : Extends c j) (hep : c.isEpisode = true) {id : String}
    (hid : id ≠ "" → ∃ s ∈ j.shotExecutions, s.providerJobID = id) :
    Extends c { j with providerJobID := id } where
  plan := h.plan
  shots := h.shots
  begun := h.begun
  sound :=
    have hep' : j.isEpisode = true := h.isEpisode.trans hep
    { shot := h.sound.shot
      parent := fun _ hne => hid hne
      single := fun hs => absurd (hep'.symm.trans hs) (by decide) }

theorem Follows.withID (h : Follows c j) (hep : c.isEpisode = true) {id : String}
    (hid : id ≠ "" → ∃ s ∈ j.shotExecutions, s.providerJobID = id) :
    Follows c { j with providerJobID := id } where
  toExtends := h.toExtends.withID hep hid
  id := fun hs => absurd (hep.symm.trans hs) (by decide)
  ids := h.ids

theorem Follows.withoutID (h : Follows c j) (hep : c.isEpisode = true) :
    Follows c { j with providerJobID := "" } :=
  h.withID hep fun hne => absurd rfl hne

theorem Extends.setShot (h : Extends c j) (hep : c.isEpisode = true)
    (hf : ∀ run, j.shotExecutions[i]? = some run → run.Follows (f run) ∧
      ((f run).providerJobID = "" →
        (f run).state = .queued ∨ (f run).state = .planning ∨ (f run).state = .completed)) :
    Extends c (j.setShot i f) := by
  have hep' : j.isEpisode = true := h.isEpisode.trans hep
  have hshots := followsAll_modify fun run hrun => (hf run hrun).1
  refine ⟨h.plan, h.shots.trans hshots, fun hs => absurd (hep.symm.trans hs) (by decide), ?_⟩
  refine ⟨fun run hrun hid => ?_, fun _ hne => ?_, fun hs => absurd (hep'.symm.trans hs) (by decide)⟩
  · rcases mem_modify hrun with hold | ⟨old, hold, rfl⟩
    · exact h.sound.shot run hold hid
    · exact (hf old hold).2 hid
  · obtain ⟨run, hrun, hid⟩ := h.sound.parent hep' hne
    obtain ⟨run', hrun', hfollows⟩ := hshots.exists_of_mem hrun
    exact ⟨run', hrun', (hfollows.id (hid ▸ hne)).trans hid⟩

theorem map_modify_state (l : List ShotExecution) (i : ℕ) (s : JobState) :
    (l.modify i fun run => { run with state := s }).map ShotExecution.providerJobID =
      l.map ShotExecution.providerJobID := by
  have hid : ∀ run : ShotExecution,
      ShotExecution.providerJobID { run with state := s } = run.providerJobID := fun _ => rfl
  exact map_modify_of_eq hid l i

theorem Follows.shotState (h : Follows c j) (hep : c.isEpisode = true) {s : JobState}
    (hs : s ≠ .queued)
    (hi : s = .planning ∨ s = .completed ∨
      ∀ run, j.shotExecutions[i]? = some run → run.providerJobID ≠ "") :
    Follows c (j.setShot i fun run => { run with state := s }) where
  toExtends := by
    refine h.toExtends.setShot hep fun run hrun => ⟨⟨fun _ => rfl, fun _ => hs⟩, fun hid => ?_⟩
    rcases hi with rfl | rfl | hne
    · exact .inr (.inl rfl)
    · exact .inr (.inr rfl)
    · exact absurd hid (hne run hrun)
  id := fun hsingle => absurd (hep.symm.trans hsingle) (by decide)
  ids := (map_modify_state j.shotExecutions i s).trans h.ids

end Changes

/-! ### The rules -/

/-- What is known of a thread. -/
structure Book where
  /-- The record it last read or stored. -/
  copy : Option VideoJob := none
  /-- The unit whose intent it stored and which it has not submitted since. -/
  token : Option (Option ℕ) := none
  /-- The cancellations that the provider accepted. -/
  accepted : List String := []

/-- How a record that is written follows from the copy. -/
def Rule (book : Book) (c j : VideoJob) : Site → Prop
  | .intent unit => Follows c j ∧ ¬c.Begun unit ∧ j.Begun unit
  | .submitted _ => Extends c j ∧ (c.isEpisode = false → c.providerJobID = "")
  | .cancel => Follows c j ∧ j.providerJobID = c.providerJobID ∧
      (c.providerJobID ≠ "" → c.providerJobID ∈ book.accepted)
  | .plain => Follows c j

theorem Rule.extends {book : Book} {c : VideoJob} {site : Site} (h : Rule book c j site) :
    Extends c j := by
  cases site with
  | intent unit => exact h.1.toExtends
  | submitted unit => exact h.1
  | cancel => exact h.1.toExtends
  | plain => exact Follows.toExtends h

/-- A record that nothing was submitted for. -/
structure VideoJob.New (j : VideoJob) : Prop where
  sound : j.Sound
  id : j.providerJobID = ""
  shot : ∀ s ∈ j.shotExecutions, s = {}

/-- What a thread may request. -/
def May (book : Book) : Op → Prop
  | .create j => j.New
  | .update site j => ∃ c, book.copy = some c ∧ Rule book c j site
  | .createJob unit => book.token = some unit
  | _ => True

/-- The unit whose submission a write announces. -/
def Site.intent? : Site → Option (Option ℕ)
  | .intent unit => some unit
  | _ => none

/-- The provider answered to a cancellation. -/
def Book.cancelled (book : Book) (id : String) (accepted : Bool) : Book :=
  if accepted then { book with accepted := id :: book.accepted } else book

/-- What a request tells about its thread. -/
def Book.after (book : Book) : (op : Op) → Res op → Book
  | .get, r => { book with copy := r }
  | .create _, r => { book with copy := Outcome.told r }
  | .update site _, r =>
    { book with
      copy := Outcome.told r
      token := if (Outcome.told r).isSome then site.intent?.or book.token else book.token }
  | .tryClaim .start _ _, r => { book with copy := Outcome.told r }
  | .tryClaim .renewal _ _, _ => book
  | .createJob _, _ => { book with token := none }
  | .getJob _, _ => book
  | .cancelJob id, r => book.cancelled id r
  | .ask _, _ => book

/-- What a thread may count on in an answer. The plan of a job never changes. -/
def Good (book : Book) : (op : Op) → Res op → Prop
  | .get, r => ∀ j, r = some j →
      j.Sound ∧ ∀ c, book.copy = some c → j.shotPlan.length = c.shotPlan.length
  | .create j, r => ∀ j', Outcome.told r = some j' → j' = j
  | .update _ j, r => ∀ j', Outcome.told r = some j' → j' = j
  | .tryClaim _ _ _, r => ∀ j, Outcome.told r = some j → j.Sound
  | _, _ => True

def conduct : Protocol Op Res Empty Empty Book Empty where
  init := {}
  may m op := May m.own op
  after m op r := { m with own := m.own.after op r }
  mayFork _ _ := False
  slot := id
  job := id
  wMay _ _ := False
  wAfter n _ _ := n
  wPost _ _ := False
  ended n _ := n
  good m op r := Good m.own op r
  job_slot _ := rfl
  job_wAfter _ _ _ := rfl

end NexaRoute.Video
