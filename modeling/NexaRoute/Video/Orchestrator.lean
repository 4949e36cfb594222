import NexaRoute.Interleave
import NexaRoute.Video.Job

/-!
# Video orchestrators over one store

The calls of an orchestrator as programs that read and write the record of one job, call the provider
and ask the surroundings: whether the provider is configured, whether an asset is valid, whether FFmpeg
succeeds. The surroundings may answer anything. Jobs share nothing, so one job is enough.

Records are values, as the Postgres store hands them out and takes them in. The records of the memory
store share their checkpoints with those it handed out before, which is not modelled.

The queue of an instance is not modelled: it decides when `RunJob` is called, and here `RunJob` may be
called at any time, by any instance and any number of times. Neither is the lock of a process around
the last commit of a job; without it there are more interleavings.

A write carries the place it is made from, where that matters: the record that announces a submission
(`intent`), the record with the id that the provider gave (`submitted`), and the record that `Cancel`
writes. The unit of a submission is the job (`none`) or one of its shots.

## Main definitions

* `orchestrators` — the calls as a system of programs
-/

namespace NexaRoute.Video

open Go Interleave

/-! ### Requests -/

/-- The places that write the record. -/
inductive Site
  | intent (unit : Option ℕ)
  | submitted (unit : Option ℕ)
  | cancel
  | plain
  deriving DecidableEq, Repr

/-- The first claim of `RunJob`, or a renewal. -/
inductive ClaimSite
  | start
  | renewal
  deriving DecidableEq, Repr

/-- What an orchestrator goes by that is no part of the record. -/
inductive Question
  /-- The registry has providers, and the one of the job. -/
  | registry
  | provider
  /-- `Assets` and `Composer` are set. -/
  | sink
  | composer
  /-- `Capabilities` answers; the shot is supported; the provider accepts the request of the shot. -/
  | capabilities
  | supported
  | accepted
  /-- The stored asset of a shot has an address, a size and a checksum. -/
  | checkpointed
  /-- `DownloadOutputs` succeeds; what it returned is valid. -/
  | downloaded
  | persisted
  /-- `Assets.Put` succeeds, or fails because the context is done. -/
  | kept
  | shutdown
  /-- The cost was settled. -/
  | settled
  /-- The queue took the job. -/
  | enqueued
  /-- The steps of a composition: a directory for it, the clips, the narration and the subtitles. -/
  | workspace
  | clips
  | narration
  | narrated
  | recovered
  | outdated
  | narrator
  | synthesized
  | readable
  | fitting
  | subtitles
  | captioned
  | composed
  deriving DecidableEq, Repr

/-- `ProviderSubmission`: the id, whether the provider accepted, and whether it names another provider
or another model. -/
structure ProviderSubmission where
  providerJobID : String
  accepted : Bool := true
  otherProvider : Bool := false
  otherModel : Bool := false
  deriving DecidableEq, Repr

/-- The response contradicts the request. -/
def ProviderSubmission.inconsistent (s : ProviderSubmission) : Bool :=
  !s.accepted || s.otherProvider || s.otherModel

structure ProviderJobStatus where
  providerJobID : String := ""
  /-- The progress is a number between `0` and `1`. -/
  progressValid : Bool := true
  state : JobState
  outputs : ℕ := 0
  deriving DecidableEq, Repr

/-- What an orchestrator requests. -/
inductive Op
  | get
  | create (j : VideoJob)
  | update (site : Site) (j : VideoJob)
  | tryClaim (site : ClaimSite) (owner : String) (ttl : Duration)
  | createJob (unit : Option ℕ)
  | getJob (id : String)
  | cancelJob (id : String)
  | ask (q : Question)

/-- The replies. `CreateJob` and `GetJob` may fail. -/
def Res : Op → Type
  | .get => Option VideoJob
  | .create _ => Outcome VideoJob
  | .update .. => Outcome VideoJob
  | .tryClaim .. => Outcome VideoJob
  | .createJob _ => Option ProviderSubmission
  | .getJob _ => Option ProviderJobStatus
  | .cancelJob _ => Bool
  | .ask _ => Bool

/-- What the surroundings contribute to a request. -/
structure Env where
  now : Time := 0
  fate : Fate := .answered
  same : Bool := true
  yes : Bool := true
  submission : Option ProviderSubmission := none
  status : Option ProviderJobStatus := none

/-- What a request does. -/
def Op.exec : (op : Op) → Record → Env → Record × Res op
  | .get, w, env => (w, if env.fate = .answered then w else none)
  | .create j, w, env => (w.after (createRecord w j env.fate), createRecord w j env.fate)
  | .update _ j, w, env =>
    (w.after (updateRecord w j env.same env.fate), updateRecord w j env.same env.fate)
  | .tryClaim _ owner ttl, w, env =>
    (w.after (claimRecord w owner ttl env.now env.fate), claimRecord w owner ttl env.now env.fate)
  | .createJob _, w, env => (w, env.submission)
  | .getJob _, w, env => (w, env.status)
  | .cancelJob _, w, env => (w, env.yes)
  | .ask _, w, env => (w, env.yes)

abbrev VProg := Prog Op Res Empty Empty

def request (op : Op) : VProg (Res op) := Prog.perform op

def get : VProg (Option VideoJob) := request .get

/-- `Store.Create`, as far as the caller learns. -/
def create (j : VideoJob) : VProg Bool := do
  let out ← (request (.create j) : VProg (Outcome VideoJob))
  pure out.told.isSome

/-- `Store.Update`, as far as the caller learns. -/
def update (site : Site) (j : VideoJob) : VProg Bool := do
  let out ← (request (.update site j) : VProg (Outcome VideoJob))
  pure out.told.isSome

def ask (q : Question) : VProg Bool := request (.ask q)

/-- `CreateJob` of the provider. -/
def submit (unit : Option ℕ) : VProg (Option ProviderSubmission) := request (.createJob unit)

/-- `GetJob` of the provider. -/
def status (id : String) : VProg (Option ProviderJobStatus) := request (.getJob id)

/-- `CancelJob` of the provider. -/
def withdraw (id : String) : VProg Bool := request (.cancelJob id)

structure Orchestrator where
  instanceID : String
  leaseTTL : Duration := 0
  maxPolls : ℕ := 0

namespace Orchestrator

variable (o : Orchestrator)

/-- `leaseTTL`, by default five minutes. -/
def lease : Duration := if 0 < o.leaseTTL then o.leaseTTL else 300000000000

/-- The number of polls, by default 300. -/
def polls : ℕ := if 0 < o.maxPolls then o.maxPolls else 300

def claim (site : ClaimSite) : VProg (Option VideoJob) := do
  let out ← (request (.tryClaim site o.instanceID o.lease) : VProg (Outcome VideoJob))
  pure out.told

end Orchestrator

/-! ### Ends of a job -/

/-- `markNeedsManual`, `markNeedsManualAndError`. -/
def markNeedsManual (j : VideoJob) : VProg Bool :=
  if j.state = .needsManualAction then update .plain j
  else
    match j.transition .needsManualAction with
    | none => pure false
    | some j => update .plain j

def fail (j : VideoJob) : VProg Bool :=
  if j.state = .failed then update .plain j
  else
    match j.transition .failed with
    | none => pure false
    | some j => update .plain j

/-- What a caller does that returns an error after a write. -/
def thenStop (p : VProg Bool) : VProg Unit := do
  let _ ← p
  pure ()

/-! ### Jobs of one shot -/

/-- `downloadAndComplete`: whether it returns no error. -/
def downloadAndComplete (j : VideoJob) (st : ProviderJobStatus) : VProg Bool := do
  if j.state = .completed then pure true
  else if st.outputs = 0 then
    thenStop (markNeedsManual j)
    pure false
  else if !(← ask .sink) then
    thenStop (markNeedsManual j)
    pure false
  else
    match if j.state = .uploading then some j else j.transition .uploading with
    | none =>
      thenStop (markNeedsManual j)
      pure false
    | some j =>
      if !(← update .plain j) then pure false
      else if !(← ask .downloaded) then
        thenStop (update .plain j)
        pure false
      else if !(← ask .persisted) then
        thenStop (markNeedsManual j)
        pure false
      else
        match ← get with
        | none => pure false
        | some latest =>
          if latest.isTerminal || latest.state = .failed then pure true
          else if !(← ask .settled) then
            thenStop (update .plain latest)
            pure false
          else
            match latest.transition .completed with
            | none => pure false
            | some j => update .plain j

def JobState.working : JobState → Bool
  | .queued | .submitted | .processing | .polling => true
  | _ => false

/-- The state that a poll brings, while the provider is at work. -/
def VideoJob.polled (j : VideoJob) (reported : JobState) : Option VideoJob :=
  if reported = .queued then some j
  else if reported = .submitted ∧ (j.state = .processing ∨ j.state = .polling) then some j
  else j.transition reported

/-- `pollAndFinalize`: the polls that are left. -/
def Orchestrator.pollAndFinalize (o : Orchestrator) : ℕ → VideoJob → VProg Unit
  | 0, j => thenStop (update .plain j)
  | n + 1, j => do
    match ← o.claim .renewal with
    | none => pure ()
    | some claimed =>
      let j := { j with leaseOwner := claimed.leaseOwner, leaseUntil := claimed.leaseUntil }
      match ← status j.providerJobID with
      | none => if ← update .plain j then o.pollAndFinalize n j else pure ()
      | some st =>
        if st.providerJobID ≠ "" ∧ st.providerJobID ≠ j.providerJobID then
          thenStop (markNeedsManual j)
        else if !st.progressValid then thenStop (markNeedsManual j)
        else
          match st.state with
          | .failed => thenStop (fail j)
          | .cancelled =>
            match j.transition .cancelled with
            | none => pure ()
            | some j => thenStop (update .plain j)
          | .completed =>
            if ← downloadAndComplete j st then pure ()
            else do
              let _ ← get
              pure ()
          | reported =>
            if !reported.working then thenStop (markNeedsManual j)
            else if j.state = .uploading then thenStop (markNeedsManual j)
            else
              match j.polled reported with
              | none => thenStop (markNeedsManual j)
              | some j => if ← update .plain j then o.pollAndFinalize n j else pure ()

/-- The end of `RunJob`: a job with an id of the provider is cancelled or polled. -/
def Orchestrator.attend (o : Orchestrator) (j : VideoJob) : VProg Unit := do
  if !(← ask .provider) then thenStop (fail j)
  else if j.state = .cancelRequested then
    if ← withdraw j.providerJobID then thenStop (update .plain { j with state := .cancelled })
    else pure ()
  else o.pollAndFinalize o.polls j

/-- The case of `RunJob` for a queued job. The intent is stored before the provider is called, and the
id is stored whatever else the provider answered. -/
def Orchestrator.submitJob (o : Orchestrator) (j : VideoJob) : VProg Unit := do
  let j := { j with state := .admitted }
  if !(← update (.intent none) j) then pure ()
  else if !(← ask .provider) then thenStop (fail j)
  else
    match ← submit none with
    | none => thenStop (markNeedsManual j)
    | some s =>
      if trimSpace s.providerJobID = "" then thenStop (markNeedsManual j)
      else do
        let j := { j with providerJobID := trimSpace s.providerJobID, state := .submitted }
        if !(← update (.submitted none) j) then thenStop (withdraw j.providerJobID)
        else if s.inconsistent then thenStop (markNeedsManual j)
        else o.attend j

/-- `RunJob` for a claimed job of one shot. -/
def Orchestrator.runSingle (o : Orchestrator) (j : VideoJob) : VProg Unit := do
  if !(← ask .registry) then pure ()
  else
    match j.state with
    | .completed | .failed | .cancelled | .dryRun | .needsManualAction => pure ()
    | .queued => o.submitJob j
    | .admitted =>
      if j.providerJobID = "" then thenStop (markNeedsManual j)
      else if ← update .plain { j with state := .submitted } then
        o.attend { j with state := .submitted }
      else pure ()
    | .submitted | .processing | .polling | .uploading | .cancelRequested =>
      if j.providerJobID = "" then thenStop (markNeedsManual j) else o.attend j
    | _ => thenStop (markNeedsManual j)

/-! ### Episodes -/

/-- The state of the checkpoint while the provider is at work on a shot. -/
def shotPolled : JobState → JobState
  | .queued => .submitted
  | st => st

/-- A job that is submitted goes on to be processed. -/
def VideoJob.advanced (j : VideoJob) (reported : JobState) : VideoJob :=
  if j.state = .submitted ∧ reported ≠ .queued ∧ reported ≠ .submitted then
    { j with state := .processing }
  else j

/-- `pollEpisodeShot`: the polls that are left. The lease is not renewed. -/
def pollEpisodeShot (i : ℕ) (id : String) :
    ℕ → VideoJob → VProg (Option (VideoJob × ProviderJobStatus))
  | 0, j => do
    thenStop (update .plain j)
    pure none
  | n + 1, j => do
    match ← status id with
    | none => if ← update .plain j then pollEpisodeShot i id n j else pure none
    | some st =>
      if st.providerJobID ≠ "" ∧ st.providerJobID ≠ id then
        thenStop (markNeedsManual j)
        pure none
      else if !st.progressValid then
        thenStop (markNeedsManual j)
        pure none
      else
        match st.state with
        | .failed | .expired =>
          thenStop (fail (j.setShot i fun run => { run with state := st.state }))
          pure none
        | .cancelled =>
          match if j.state = .cancelled then some j else j.transition .cancelled with
          | none => pure none
          | some j =>
            if ← update .plain { j with providerJobID := "" } then
              pure (some ({ j with providerJobID := "" }, st))
            else pure none
        | .completed =>
          let j := j.setShot i fun run => { run with state := .completed }
          if ← update .plain j then pure (some (j, st)) else pure none
        | reported =>
          if !reported.working then
            thenStop (markNeedsManual j)
            pure none
          else
            let j := (j.setShot i fun run => { run with state := shotPolled reported }).advanced reported
            if ← update .plain j then pollEpisodeShot i id n j else pure none

/-- The record once a shot has its asset. -/
def VideoJob.withAsset (j : VideoJob) (i : ℕ) : VideoJob :=
  { j.setShot i fun run => { run with state := .completed } with
    shotPlan := j.shotPlan.set i true, providerJobID := "" }

/-- The stage of the job after shot `i`: it is composed after the last one. -/
def VideoJob.afterShot (j : VideoJob) (i : ℕ) : Option VideoJob :=
  if i + 1 = j.shotPlan.length then
    if j.state = .composing then some j else j.transition .composing
  else if j.state = .submitted then some { j with state := .processing }
  else some j

/-- What `runEpisodeJob` does with a shot that the provider has completed: the asset is downloaded,
stored under a name of its own, and the checkpoint is written. -/
def finishShot (i : ℕ) (j : VideoJob) (st : ProviderJobStatus) : VProg (Option VideoJob) := do
  if st.outputs = 0 then
    thenStop (markNeedsManual j)
    pure none
  else
    let j := j.setShot i fun run => { run with state := .uploading }
    if !(← update .plain j) then pure none
    else if !(← ask .downloaded) then
      thenStop (update .plain j)
      pure none
    else if !(← ask .persisted) then
      thenStop (markNeedsManual j)
      pure none
    else if !(← ask .kept) then
      if ← ask .shutdown then pure none
      else
        thenStop (update .plain j)
        pure none
    else if !(← ask .checkpointed) then
      thenStop (markNeedsManual j)
      pure none
    else
      match (j.withAsset i).afterShot i with
      | none => pure none
      | some j => if ← update .plain j then pure (some j) else pure none

/-- The record that announces the submission of a shot. -/
def VideoJob.planned (j : VideoJob) (i : ℕ) : VideoJob :=
  j.setShot i fun run => { run with state := .planning }

/-- The record with the id that the provider gave for a shot. -/
def VideoJob.registered (j : VideoJob) (i : ℕ) (id : String) : VideoJob :=
  { j.setShot i fun run => { run with providerJobID := id, state := .submitted } with
    providerJobID := id, state := if j.state = .admitted then .submitted else j.state }

/-- The capabilities of the provider are read once. -/
def capabilitiesRead (loaded : Bool) : VProg Bool := if loaded then pure true else ask .capabilities

/-- What `runEpisodeJob` does for a shot that has not been submitted. `loaded` tells whether the
capabilities were read. -/
def submitShot (loaded : Bool) (i : ℕ) (j : VideoJob) : VProg (Option VideoJob) := do
  if !(← capabilitiesRead loaded) then
    thenStop (update .plain j)
    pure none
  else if !(← ask .supported) then
    thenStop (fail j)
    pure none
  else if !(← ask .accepted) then
    thenStop (fail j)
    pure none
  else
    let j := j.planned i
    if !(← update (.intent (some i)) j) then pure none
    else
      match ← submit (some i) with
      | none =>
        thenStop (markNeedsManual j)
        pure none
      | some s =>
        if trimSpace s.providerJobID = "" then
          thenStop (markNeedsManual j)
          pure none
        else
          let id := trimSpace s.providerJobID
          let j := j.registered i id
          if !(← update (.submitted (some i)) j) then
            thenStop (withdraw id)
            pure none
          else if s.inconsistent then
            thenStop (markNeedsManual j)
            pure none
          else pure (some j)

def retryEpisodeComposition (j : VideoJob) : VProg Unit := do
  let j := { j with compositionRetryCount := j.compositionRetryCount + 1 }
  if !(← update .plain j) then pure ()
  else if 3 ≤ j.compositionRetryCount then thenStop (fail j)
  else pure ()

/-- A narration or subtitles that are no longer valid are taken out of the record. -/
def dropOutdated (j : VideoJob) : VProg Bool := do
  if ← ask .outdated then update .plain j else pure true

/-- `ensureNarrationAsset`: whether the composition goes on. -/
def ensureNarrationAsset (j : VideoJob) : VProg Bool := do
  if !(← ask .narration) then pure true
  else if ← ask .narrated then
    if !(← ask .fitting) then
      thenStop (fail j)
      pure false
    else if ← ask .recovered then update .plain j
    else pure true
  else if !(← dropOutdated j) then pure false
  else if !(← ask .narrator) then
    thenStop (markNeedsManual j)
    pure false
  else if !(← ask .synthesized) then
    retryEpisodeComposition j
    pure false
  else if !(← ask .persisted) then
    thenStop (markNeedsManual j)
    pure false
  else if !(← ask .fitting) then
    thenStop (fail j)
    pure false
  else if !(← ask .readable) then
    retryEpisodeComposition j
    pure false
  else if !(← ask .kept) then
    if ← ask .shutdown then pure false
    else
      retryEpisodeComposition j
      pure false
  else if !(← ask .checkpointed) then
    thenStop (markNeedsManual j)
    pure false
  else update .plain j

/-- `ensureSubtitleAsset`: whether the composition goes on. -/
def ensureSubtitleAsset (j : VideoJob) : VProg Bool := do
  if !(← ask .subtitles) then pure true
  else if !(← ask .narrated) then
    thenStop (markNeedsManual j)
    pure false
  else if ← ask .captioned then
    if ← ask .recovered then update .plain j else pure true
  else if !(← dropOutdated j) then pure false
  else if !(← ask .readable) then
    thenStop (markNeedsManual j)
    pure false
  else if !(← ask .kept) then
    if ← ask .shutdown then pure false
    else
      retryEpisodeComposition j
      pure false
  else if !(← ask .checkpointed) then
    thenStop (markNeedsManual j)
    pure false
  else update .plain j

/-- The last commit of `composeEpisode`. -/
def commitEpisode : VProg Unit := do
  match ← get with
  | none => pure ()
  | some latest =>
    if latest.isTerminal || latest.state = .failed then pure ()
    else if !(← ask .settled) then thenStop (update .plain latest)
    else
      match latest.transition .completed with
      | none => pure ()
      | some j => thenStop (update .plain j)

def composeEpisode (j : VideoJob) : VProg Unit := do
  if j.shotPlan.contains false then thenStop (markNeedsManual j)
  else if !(← ask .clips) then thenStop (markNeedsManual j)
  else if !(← ask .workspace) then thenStop (fail j)
  else if !(← ensureNarrationAsset j) then pure ()
  else if !(← ensureSubtitleAsset j) then pure ()
  else if !(← ask .composed) then
    if ← ask .shutdown then pure () else retryEpisodeComposition j
  else if !(← ask .readable) then thenStop (fail j)
  else if !(← ask .kept) then
    if ← ask .shutdown then pure () else thenStop (update .plain j)
  else if !(← ask .persisted) then thenStop (markNeedsManual j)
  else commitEpisode

/-- The end of `runEpisodeJob`, after the last shot. -/
def finishEpisode (j : VideoJob) : VProg Unit := do
  match if j.state = .composing then some j else j.transition .composing with
  | none => pure ()
  | some j =>
    if ← update .plain { j with providerJobID := "" } then
      composeEpisode { j with providerJobID := "" }
    else pure ()

/-- What `runEpisodeJob` does for a shot once it is submitted. -/
def Orchestrator.renderShot (o : Orchestrator) (i : ℕ) (id : String) (j : VideoJob) :
    VProg (Option VideoJob) := do
  match ← pollEpisodeShot i id o.polls j with
  | none => pure none
  | some (j, st) => if st.state = .cancelled then pure none else finishShot i j st

/-- The loop of `runEpisodeJob` over the shots that are left. `p` tells whether the provider was looked
up, and `loaded` whether its capabilities were read. The record is read again for every shot; the
lease is not renewed. -/
def Orchestrator.episodeShots (o : Orchestrator) (p : Bool) :
    Bool → List ℕ → VideoJob → VProg Unit
  | _, [], j => finishEpisode j
  | loaded, i :: rest, _ => do
    match ← get with
    | none => pure ()
    | some latest =>
      if latest.isTerminal || latest.state = .failed then pure ()
      else
        let j := { latest with currentShot := i + 1 }
        match j.shotPlan[i]?, j.shotExecutions[i]? with
        | some true, some _ =>
          if !(← ask .checkpointed) then thenStop (markNeedsManual j)
          else o.episodeShots p loaded rest (j.setShot i fun run => { run with state := .completed })
        | some false, some run =>
          if run.providerJobID = "" ∧ trimSpace j.providerJobID ≠ "" then
            thenStop (markNeedsManual j)
          else if run.state = .completed ∧ run.providerJobID = "" then thenStop (markNeedsManual j)
          else if run.state = .planning ∧ run.providerJobID = "" then thenStop (markNeedsManual j)
          else if run.providerJobID = "" then
            if !p then thenStop (markNeedsManual j)
            else
              match ← submitShot loaded i j with
              | none => pure ()
              | some j =>
                match ← o.renderShot i j.providerJobID j with
                | none => pure ()
                | some j => o.episodeShots p true rest j
          else if !p then
            -- the code calls `GetJob` of no provider and stops in a panic
            pure ()
          else
            match ← o.renderShot i run.providerJobID
              { j with providerJobID := run.providerJobID } with
            | none => pure ()
            | some j => o.episodeShots p loaded rest j
        | _, _ => pure ()

/-- `runEpisodeJob` once the provider is looked up. -/
def Orchestrator.runShots (o : Orchestrator) (p : Bool) (j : VideoJob) : VProg Unit := do
  if j.state = .cancelRequested then
    if trimSpace j.providerJobID = "" then thenStop (markNeedsManual j)
    else if ← withdraw j.providerJobID then
      thenStop (update .plain { j with state := .cancelled, providerJobID := "" })
    else pure ()
  else if j.state = .queued then
    if ← update .plain { j with state := .admitted } then
      o.episodeShots p false (List.range j.shotPlan.length) { j with state := .admitted }
    else pure ()
  else o.episodeShots p false (List.range j.shotPlan.length) j

def Orchestrator.runEpisodeJob (o : Orchestrator) (j : VideoJob) : VProg Unit := do
  match j.state with
  | .completed | .failed | .cancelled | .dryRun | .needsManualAction => pure ()
  | _ =>
    if j.shotPlan.length < 2 ∨ j.shotExecutions.length ≠ j.shotPlan.length then
      thenStop (markNeedsManual j)
    else if !(← ask .sink) then thenStop (markNeedsManual j)
    else if !(← ask .composer) then thenStop (markNeedsManual j)
    else if j.state = .cancelRequested ∨ j.shotPlan.contains false then
      if !(← ask .registry) then thenStop (markNeedsManual j)
      else if !(← ask .provider) then thenStop (fail j)
      else o.runShots true j
    else o.runShots false j

/-! ### The calls -/

def Orchestrator.runJob (o : Orchestrator) : VProg Unit := do
  match ← get with
  | none => pure ()
  | some _ =>
    match ← o.claim .start with
    | none => pure ()
    | some j => if j.isEpisode then o.runEpisodeJob j else o.runSingle j

/-- `Cancel`, from the point where the provider is dealt with. -/
def cancelStored (j : VideoJob) : VProg Unit :=
  match j.transition .cancelled with
  | none => pure ()
  | some j => thenStop (update .cancel j)

/-- `Cancel`. -/
def cancelJob : VProg Unit := do
  match ← get with
  | none => pure ()
  | some j =>
    match j.state with
    | .completed | .failed | .cancelled | .dryRun => pure ()
    | _ =>
      if j.isEpisode ∧ j.state = .composing then pure ()
      else if j.providerJobID = "" then cancelStored j
      else if !(← ask .registry) then pure ()
      else if !(← ask .provider) then pure ()
      else if ← withdraw j.providerJobID then cancelStored j
      else pure ()

/-- The commit of `ForceFail`: the record is read again. -/
def forceFailStored : VProg Unit := do
  match ← get with
  | none => pure ()
  | some j =>
    if j.isTerminal || j.state = .failed then pure ()
    else thenStop (update .plain { j with state := .failed, operatorForceFailed := true })

/-- `ForceFail`. The provider is asked to cancel, whatever it answers. -/
def forceFailJob : VProg Unit := do
  match ← get with
  | none => pure ()
  | some j =>
    if j.isTerminal || j.state = .failed then pure ()
    else if j.providerJobID = "" then forceFailStored
    else if !(← ask .provider) then forceFailStored
    else
      let _ ← withdraw j.providerJobID
      forceFailStored

/-- A shot may have been submitted without a trace. -/
def VideoJob.unknownSubmission (j : VideoJob) : Bool :=
  (j.shotPlan.zip j.shotExecutions).any fun s =>
    !s.1 && s.2.providerJobID == "" && s.2.state != .queued

/-- The id of an episode is not the one of its current shot. -/
def VideoJob.strayID (j : VideoJob) : Bool :=
  j.providerJobID != "" && (j.currentShot == 0 ||
    (j.shotExecutions[j.currentShot - 1]?.map ShotExecution.providerJobID) != some j.providerJobID)

/-- What `Recover` does with a job. -/
def recoverStored (j : VideoJob) : VProg Unit :=
  if j.dryRun then pure ()
  else
    match j.state with
    | .dryRun | .completed | .failed | .cancelled | .needsManualAction => pure ()
    | _ =>
      if j.isEpisode then
        if j.shotExecutions.length ≠ j.shotPlan.length ∨ j.strayID ∨ j.unknownSubmission then
          thenStop (markNeedsManual j)
        else
          match j.state with
          | .queued | .admitted | .submitted | .processing | .polling | .uploading | .composing
          | .cancelRequested => pure ()
          | _ => thenStop (markNeedsManual j)
      else
        match j.state with
        | .queued => pure ()
        | .admitted =>
          if j.providerJobID = "" then thenStop (markNeedsManual j)
          else thenStop (update .plain { j with state := .submitted })
        | .submitted | .processing | .polling | .uploading | .cancelRequested =>
          if j.providerJobID = "" then thenStop (markNeedsManual j) else pure ()
        | _ => thenStop (markNeedsManual j)

/-- `Recover`. -/
def recoverJob : VProg Unit := do
  match ← get with
  | none => pure ()
  | some j => recoverStored j

/-- The shots that a request keeps in its plan: `Create` folds a single one into the request itself,
and leaves no plan. -/
def keptShots (shots : ℕ) : ℕ := if shots = 1 then 0 else shots

/-- `Create`, for a request with a number of shots that passed its checks. -/
def createJob (shots : ℕ) (dryRun : Bool) : VProg Unit := do
  let j := newJob (keptShots shots) dryRun
  if dryRun then thenStop (create { j with state := .dryRun })
  else if ← create j then
    if ← ask .enqueued then pure ()
    else thenStop (update .plain { j with state := .failed })
  else pure ()

inductive Call
  | create (shots : ℕ) (dryRun : Bool)
  | runJob (o : Orchestrator)
  | cancel
  | forceFail
  | recover

def Call.prog : Call → VProg Unit
  | .create shots dryRun => createJob shots dryRun
  | .runJob o => o.runJob
  | .cancel => cancelJob
  | .forceFail => forceFailJob
  | .recover => recoverJob

/-- Orchestrators over one store. -/
def orchestrators : System Record Env Op Res Empty Empty Call where
  exec := Op.exec
  body := Empty.elim
  prog c := do
    c.prog
    pure none
  entry _ := true

abbrev VConfig := Config Record Op Res Empty Empty Call

abbrev VLog := Log Op Res Empty Empty

/-- The configuration after a schedule, from a store without the job. -/
def runOrchestrators (items : List (Item Env Call)) : VConfig :=
  Machine.run (Config.step orchestrators) { world := none } items

end NexaRoute.Video
