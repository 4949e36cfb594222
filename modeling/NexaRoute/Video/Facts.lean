import NexaRoute.Video.Conforms

/-!
# What the store and the copies show

Every write replaces the whole record, and is made from a copy that may be behind the store. What one
call has stored is taken back by another that wrote from an older copy. Where no call does, what was
once stored stays stored: a fact that a write brings is shown by every later record and by every copy
that is not behind.

A copy is behind, for the facts of a kind, if another call has stored such a fact since the copy was
read. `Current` tells this from the steps so far.

## Main results

* `Tracking.maintains` — facts stay
* `sound_run` — records are sound in every run
-/

namespace NexaRoute.Video

open Interleave Option

variable {op : Op} {w : Record} {t : ℕ}

/-! ### Writes -/

/-- The record that a request stores. -/
def stored : (op : Op) → Res op → Option VideoJob
  | .create _, r => Outcome.wrote r
  | .update _ _, r => Outcome.wrote r
  | .tryClaim _ _ _, r => Outcome.wrote r
  | _, _ => none

/-- The request takes a new copy of the record. -/
def Op.reads : Op → Bool
  | .get => true
  | .create _ => true
  | .tryClaim .start _ _ => true
  | _ => false

/-- The request is a write of `Update`. -/
def Op.updates : Op → Bool
  | .update _ _ => true
  | _ => false

theorem exec_fst (op : Op) (w : Record) (e : Env) :
    (op.exec w e).1 = (stored op (op.exec w e).2).or w := by
  cases op <;> rfl

theorem stored_cases {e : Env} {j : VideoJob} (h : stored op (op.exec w e).2 = some j) :
    (op = .create j ∧ w = none) ∨
    (∃ site current, op = .update site j ∧ w = some current) ∨
    ∃ site owner ttl until' current, op = .tryClaim site owner ttl ∧ w = some current ∧
      j = { current with leaseOwner := owner, leaseUntil := until' } := by
  cases op with
  | create j' =>
    replace h : (createRecord w j' e.fate).wrote = some j := h
    rw [createRecord] at h
    split at h
    · cases h
    · next hw =>
      rw [wrote_outcome h]
      exact .inl ⟨rfl, by simpa using hw⟩
  | update site j' =>
    replace h : (updateRecord w j' e.same e.fate).wrote = some j := h
    cases w with
    | none => cases h
    | some current =>
      simp only [updateRecord] at h
      split at h
      · cases h
      · rw [wrote_outcome h]
        exact .inr (.inl ⟨site, current, rfl, rfl⟩)
  | tryClaim site owner ttl =>
    replace h : (claimRecord w owner ttl e.now e.fate).wrote = some j := h
    cases w with
    | none => cases h
    | some current =>
      simp only [claimRecord] at h
      split at h
      · exact .inr (.inr ⟨site, owner, ttl, _, current, rfl, rfl, wrote_outcome h⟩)
      · cases h
  | get | createJob unit | getJob id | cancelJob id | ask q => cases h

theorem copy_after_cases {book : Book} {e : Env} {c : VideoJob}
    (h : (book.after op (op.exec w e).2).copy = some c) :
    (op.exec w e).1 = some c ∨ book.copy = some c ∧ op.reads = false ∧ op.updates = false := by
  have hwrote : ∀ {out : Outcome VideoJob}, out.told = some c → w.after out = some c := by
    intro out hout
    rw [Record.after, wrote_of_told hout]
    rfl
  cases op with
  | get =>
    replace h : (if e.fate = .answered then w else none) = some c := h
    split at h
    · exact .inl h
    · cases h
  | create j | update site j => exact .inl (hwrote h)
  | tryClaim site owner ttl =>
    cases site with
    | start => exact .inl (hwrote h)
    | renewal => exact .inr ⟨h, rfl, rfl⟩
  | createJob unit | getJob id | ask q => exact .inr ⟨h, rfl, rfl⟩
  | cancelJob id =>
    refine .inr ⟨?_, rfl, rfl⟩
    replace h : (book.cancelled id e.yes).copy = some c := h
    rw [Book.cancelled] at h
    split at h <;> exact h

/-! ### Records and copies -/

/-- What is known of a thread. -/
abbrev bookOf (log : VLog) (t : ℕ) : Book := (conduct.partyOf log t).own

/-- What holds of the record and of every copy of it. -/
structure Base (w : Record) (log : VLog) : Prop where
  sound : ∀ j, w = some j → j.Sound
  copies : ∀ t c, (bookOf log t).copy = some c →
    c.Sound ∧ ∃ j, w = some j ∧ c.shotPlan.length = j.shotPlan.length

theorem bookOf_cons_self (log : VLog) (t : ℕ) (op : Op) (r : Res op) :
    bookOf ((t, .call op r) :: log) t = (bookOf log t).after op r := by
  rw [bookOf, conduct.partyOf_cons_self]
  rfl

theorem bookOf_cons_of_ne (log : VLog) {t' : ℕ} (a : Act Op Res Empty Empty) (h : t ≠ t') :
    bookOf ((t, a) :: log) t' = bookOf log t' := by
  rw [bookOf, conduct.partyOf_cons_of_ne log a h]

theorem bookOf_join (log : VLog) (t : ℕ) (rs : List Empty) (t' : ℕ) :
    bookOf ((t, .join rs) :: log) t' = bookOf log t' := by
  by_cases htt : t = t'
  · subst htt
    rw [bookOf, conduct.partyOf_cons_self]
    rfl
  · exact bookOf_cons_of_ne log _ htt

theorem Base.after {log : VLog} (h : Base w log) (e : Env) (hmay : May (bookOf log t) op)
    {j' : VideoJob} (hj' : (op.exec w e).1 = some j') :
    j'.Sound ∧ ∀ j, w = some j → j'.shotPlan.length = j.shotPlan.length := by
  rw [exec_fst] at hj'
  cases hs : stored op (op.exec w e).2 with
  | none =>
    rw [hs, none_or] at hj'
    exact ⟨h.sound j' hj', fun j hj => by rw [some.inj (hj'.symm.trans hj)]⟩
  | some j₁ =>
    rw [hs, some_or, some.injEq] at hj'
    subst hj'
    rcases stored_cases hs with ⟨rfl, rfl⟩ | ⟨site, current, rfl, rfl⟩ |
      ⟨site, owner, ttl, until', current, rfl, rfl, rfl⟩
    · exact ⟨VideoJob.New.sound hmay, nofun⟩
    · obtain ⟨c, hc, hrule⟩ := hmay
      obtain ⟨-, j, hj, hplan⟩ := h.copies t c hc
      refine ⟨hrule.extends.sound, fun j₀ hj₀ => ?_⟩
      rw [hrule.extends.plan, hplan, some.inj (hj.symm.trans hj₀)]
    · refine ⟨(h.sound current rfl).congr ⟨rfl, rfl, rfl, fun hq => hq⟩, fun j hj => ?_⟩
      rw [← some.inj hj]

theorem isSome_after (op : Op) (e : Env) (h : w.isSome) : (op.exec w e).1.isSome := by
  rw [exec_fst]
  cases stored op (op.exec w e).2 with
  | none => exact h
  | some j => rfl

theorem preserves_base : Preserves orchestrators conduct anyRequest Base where
  call := by
    intro w log t op e h hmay _
    refine ⟨fun j hj => (h.after e hmay hj).1, fun t' c hc => ?_⟩
    have hold : (bookOf log t').copy = some c →
        c.Sound ∧ ∃ j, (op.exec w e).1 = some j ∧ c.shotPlan.length = j.shotPlan.length := by
      intro hc
      obtain ⟨hsound, j, hj, hplan⟩ := h.copies t' c hc
      have hsome : w.isSome := by
        rw [hj]
        rfl
      obtain ⟨j', hj'⟩ := isSome_iff_exists.mp (isSome_after op e hsome)
      exact ⟨hsound, j', hj', hplan.trans ((h.after e hmay hj').2 j hj).symm⟩
    by_cases htt : t = t'
    · subst htt
      rw [bookOf_cons_self] at hc
      rcases copy_after_cases hc with hw | ⟨hc, -, -⟩
      · exact ⟨(h.after e hmay hw).1, c, hw, rfl⟩
      · exact hold hc
    · rw [bookOf_cons_of_ne log _ htt] at hc
      exact hold hc
  fork := fun _ h => h.elim
  work := fun _ _ _ h _ => h.elim
  join := by
    intro w log t rs h _
    refine ⟨h.sound, fun t' c hc => h.copies t' c ?_⟩
    rwa [bookOf_join] at hc

theorem answers_base : Answers orchestrators conduct Base := by
  intro w log t op e h hmay
  have hwrote : ∀ {j}, stored op (op.exec w e).2 = some j → (op.exec w e).1 = some j := by
    intro j hj
    rw [exec_fst, hj]
    rfl
  cases op with
  | get =>
    intro j hj
    replace hj : (if e.fate = .answered then w else none) = some j := hj
    split at hj
    · refine ⟨h.sound j hj, fun c hc => ?_⟩
      obtain ⟨-, j', hj', hplan⟩ := h.copies t c hc
      rw [hplan, some.inj (hj.symm.trans hj')]
    · cases hj
  | create j =>
    intro j' hj'
    have hs : stored (.create j) ((Op.create j).exec w e).2 = some j' := wrote_of_told hj'
    rcases stored_cases hs with ⟨heq, -⟩ | ⟨_, _, heq, -⟩ | ⟨_, _, _, _, _, heq, -⟩
    · exact (Op.create.inj heq).symm
    · cases heq
    · cases heq
  | update site j =>
    intro j' hj'
    have hs : stored (.update site j) ((Op.update site j).exec w e).2 = some j' := wrote_of_told hj'
    rcases stored_cases hs with ⟨heq, -⟩ | ⟨_, _, heq, -⟩ | ⟨_, _, _, _, _, heq, -⟩
    · cases heq
    · exact (Op.update.inj heq).2.symm
    · cases heq
  | tryClaim site owner ttl =>
    intro j' hj'
    have hmay' : May (bookOf log t) (.tryClaim site owner ttl) := hmay
    exact (h.after e hmay' (hwrote (wrote_of_told hj'))).1
  | createJob unit | getJob id | cancelJob id | ask q => trivial

/-! ### Copies that are not behind -/

/-- The step is a write at a place of a kind. -/
def writesAt (marks : Site → Bool) : Act Op Res Empty Empty → Bool
  | .call (.update site _) r => marks site && (Outcome.wrote r).isSome
  | _ => false

/-- The step takes a new copy of the record. -/
def readsRecord : Act Op Res Empty Empty → Bool
  | .call op _ => op.reads
  | _ => false

/-- No other thread has written at a place of the kind since the thread last read the record. -/
def Current (marks : Site → Bool) (t : ℕ) : VLog → Bool
  | [] => true
  | (t', a) :: log =>
    if t' = t then readsRecord a || Current marks t log
    else !writesAt marks a && Current marks t log

/-- Writes that take effect are only made from copies that are not behind. -/
def FromCurrent (marks : Site → Bool) (w : Record) (log : VLog) (t : ℕ) (_ : Option ℕ) (op : Op)
    (e : Env) : Prop :=
  op.updates = true → (stored op (op.exec w e).2).isSome = true → Current marks t log = true

instance (marks : Site → Bool) (w : Record) (log : VLog) (t : ℕ) (i : Option ℕ) (op : Op) (e : Env) :
    Decidable (FromCurrent marks w log t i op e) :=
  inferInstanceAs (Decidable (_ → _))

/-! ### Facts -/

/-- A kind of facts: which records show one, and which writes bring one. -/
structure Tracking (κ : Type) where
  Shows : VideoJob → κ → Prop
  Brings : Site → VideoJob → κ → Prop
  /-- The places whose writes bring facts. -/
  marks : Site → Bool
  marks_of_brings : ∀ {site j k}, Brings site j k → marks site = true
  shows_of_brings : ∀ {book c j site k}, Rule book c j site → Brings site j k → Shows j k
  /-- A write keeps the facts that its copy shows. -/
  keeps : ∀ {book c j site k}, Rule book c j site → c.Sound → Shows c k → Shows j k
  leased : ∀ {j k} owner until', Shows j k →
    Shows { j with leaseOwner := owner, leaseUntil := until' } k

namespace Tracking

variable {κ : Type} (T : Tracking κ)

/-- The facts that a step brings. -/
def BringsIn : Act Op Res Empty Empty → κ → Prop
  | .call (.update site _) r, k => ∃ j, Outcome.wrote r = some j ∧ T.Brings site j k
  | _, _ => False

/-- A fact that some write has brought. -/
def Fact (log : VLog) (k : κ) : Prop := ∃ e ∈ log, T.BringsIn e.2 k

/-- The record shows every fact, and so does every copy that is not behind. -/
structure Inv (w : Record) (log : VLog) : Prop where
  record : ∀ k, T.Fact log k → ∃ j, w = some j ∧ T.Shows j k
  copies : ∀ t c, (bookOf log t).copy = some c → Current T.marks t log = true →
    ∀ k, T.Fact log k → T.Shows c k

theorem fact_cons {log : VLog} {a : Act Op Res Empty Empty} {k : κ} :
    T.Fact ((t, a) :: log) k ↔ T.BringsIn a k ∨ T.Fact log k := by
  simp [Fact]

theorem writesAt_of_bringsIn {a : Act Op Res Empty Empty} {k : κ} (h : T.BringsIn a k) :
    writesAt T.marks a = true := by
  cases a with
  | call op r =>
    cases op with
    | update site j =>
      obtain ⟨j', hj', hb⟩ := h
      simp [writesAt, T.marks_of_brings hb, hj']
    | _ => exact h.elim
  | _ => exact h.elim

theorem inv_nil (w : Record) : T.Inv w [] :=
  ⟨fun k hk => by simp [Fact] at hk, fun t c _ _ k hk => by simp [Fact] at hk⟩

/-- **Facts stay.** Where writes only take effect from copies that are not behind, the record shows every
fact that was brought, and so does every copy that is not behind. -/
theorem maintains : Maintains orchestrators conduct (FromCurrent T.marks) Base T.Inv where
  call := by
    intro w log t op e hbase h hmay hcur
    have hrecord : ∀ k, T.Fact ((t, .call op (op.exec w e).2) :: log) k →
        ∃ j, (op.exec w e).1 = some j ∧ T.Shows j k := by
      intro k hk
      rw [exec_fst]
      cases hs : stored op (op.exec w e).2 with
      | none =>
        refine h.record k (((fact_cons T).mp hk).resolve_left fun hb => ?_)
        cases op with
        | update site j =>
          obtain ⟨j', hj', -⟩ := hb
          exact absurd (hj'.symm.trans hs) (by simp)
        | _ => exact hb.elim
      | some j₁ =>
        refine ⟨j₁, rfl, ?_⟩
        rcases stored_cases hs with ⟨rfl, rfl⟩ | ⟨site, current, rfl, rfl⟩ |
          ⟨site, owner, ttl, until', current, rfl, rfl, rfl⟩
        · obtain ⟨j, hj, -⟩ := h.record k (((fact_cons T).mp hk).resolve_left fun hb => hb.elim)
          cases hj
        · obtain ⟨c, hc, hrule⟩ := hmay
          rcases (fact_cons T).mp hk with hb | hold
          · obtain ⟨j', hj', hb⟩ := hb
            obtain rfl : j₁ = j' := some.inj (hs.symm.trans hj')
            exact T.shows_of_brings hrule hb
          · exact T.keeps hrule (hbase.copies t c hc).1 (h.copies t c hc (hcur rfl (hs ▸ rfl)) k hold)
        · obtain ⟨j, hj, hshows⟩ :=
            h.record k (((fact_cons T).mp hk).resolve_left fun hb => hb.elim)
          obtain rfl := some.inj hj
          exact T.leased owner until' hshows
    refine ⟨hrecord, fun t' c hc hcur' k hk => ?_⟩
    by_cases htt : t = t'
    · subst htt
      rw [bookOf_cons_self] at hc
      rcases copy_after_cases hc with hw | ⟨hc, hreads, hupdates⟩
      · obtain ⟨j, hj, hshows⟩ := hrecord k hk
        rwa [some.inj (hw.symm.trans hj)]
      · have hcur'' : Current T.marks t log = true := by
          simpa [Current, readsRecord, hreads] using hcur'
        refine h.copies t c hc hcur'' k (((fact_cons T).mp hk).resolve_left fun hb => ?_)
        cases op with
        | update site j => cases hupdates
        | _ => exact hb.elim
    · rw [bookOf_cons_of_ne log _ htt] at hc
      rw [Current, if_neg htt, Bool.and_eq_true, Bool.not_eq_true'] at hcur'
      refine h.copies t' c hc hcur'.2 k (((fact_cons T).mp hk).resolve_left fun hb => ?_)
      exact absurd (T.writesAt_of_bringsIn hb) (by simp [hcur'.1])
  fork := fun _ _ h => h.elim
  work := fun _ _ _ _ h _ => h.elim
  join := by
    intro w log t rs _ h _
    have hfact : ∀ {k}, T.Fact ((t, .join rs) :: log) k → T.Fact log k :=
      fun hk => ((fact_cons T).mp hk).resolve_left fun hb => hb.elim
    refine ⟨fun k hk => h.record k (hfact hk), fun t' c hc hcur k hk => ?_⟩
    rw [bookOf_join] at hc
    exact h.copies t' c hc (by simpa [Current, readsRecord, writesAt] using hcur) k (hfact hk)

end Tracking

/-- Every write of a schedule that takes effect, from a store without the job, is made from a copy that
is not behind. -/
abbrev WritesCurrent (marks : Site → Bool) (items : List (Item Env Call)) : Prop :=
  Machine.Guarded (Config.step orchestrators) (Config.Meets (FromCurrent marks)) { world := none }
    items

theorem base_nil : Base none [] := ⟨nofun, nofun⟩

/-- Jobs stay sound in every run. -/
theorem sound_run (items : List (Item Env Call)) :
    Base (runOrchestrators items).world (runOrchestrators items).log :=
  invariant_run keeps_conduct answers_base preserves_base base_nil
    (Machine.guarded_of_forall fun _ _ _ _ _ _ _ => trivial)

end NexaRoute.Video
