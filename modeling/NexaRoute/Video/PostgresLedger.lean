import NexaRoute.Video.Ledger

/-!
# The cost ledger in PostgreSQL

`internal/video/cost/pg_ledger.go` keeps one row for each job where `Ledger` keeps a map and three
totals. A call is one transaction, taken to be atomic and to succeed. A settlement first inserts a
placeholder, so that it has a row to lock, and an error takes the placeholder back. The totals are
summed up from the rows when they are asked for.

The table is a map from job ids, its primary key, to rows. `Mirrors` is the simulation: the table
holds the record the ledger in memory has of every job.

## Main results

* `postgres_mirrors_ledger` — the two ledgers answer alike
-/

namespace NexaRoute.Video

open Go List

/-- A row of the cost table: `costRow`, and `created_at`. -/
structure CostRow extends Reservation where
  entryListed : Bool
  createdAt : ℤ
  deriving DecidableEq

abbrev CostTable := Map String CostRow

inductive PostgresError
  | ledger (e : LedgerError)
  | vanished (jobID : String)
  deriving DecidableEq, Repr

namespace PostgresLedger

/-- The table after a call, and the error it returned. -/
abbrev Committed := CostTable × Option PostgresError

/-- `UPDATE … WHERE job_id = $1`. -/
def update (t : CostTable) (jobID : String) (f : CostRow → CostRow) : CostTable :=
  t.mapVals fun id r => if id = jobID then f r else r

def reserveForJob (t : CostTable) (now : ℤ) (jobID : String) (e : CostEstimate) (max : ℚ) :
    Committed :=
  if jobID = "" then (t, some (.ledger .jobIDRequired))
  else if ¬ validEstimate e then
    (t, some (.ledger (if e.priceKnown then .invalidEstimate else .unknownPrice)))
  else if max < 0 then (t, some (.ledger .invalidEstimate))
  else if 0 < max ∧ max < e.upperBoundUSD then (t, some (.ledger .budgetExceeded))
  else
    -- ON CONFLICT (job_id) DO NOTHING
    let t' := t.insertNew jobID
      { estimate := e, state := .reserved, entryListed := true, createdAt := now }
    match t'.lookup jobID with
    | none => (t, some (.vanished jobID))
    | some r => if r.state ≠ .reserved then (t, some (.ledger (.finalized jobID))) else (t', none)

/-- `ReleaseForJobChecked`. -/
def releaseForJob (t : CostTable) (jobID : String) : CostTable :=
  update t jobID fun r => if r.state = .reserved then { r with state := .released } else r

/-- `SET state = $2, estimated_usd = $3, actual_usd = $4`. -/
def settled (w : ReservationState × ℚ × ℚ) (r : CostRow) : CostRow :=
  { r with
    state := w.1
    estimate := { r.estimate with estimatedUSD := w.2.1 }
    actual := w.2.2 }

def settle (t : CostTable) (now : ℤ) (jobID : String) (placeholder : CostEstimate)
    (apply : CostRow → Except LedgerError (ReservationState × ℚ × ℚ)) : Committed :=
  let t' := t.insertNew jobID
    { estimate := placeholder, state := .reserved, entryListed := false, createdAt := now }
  match t'.lookup jobID with
  | none => (t, some (.vanished jobID))
  | some r => match apply r with
    | .error e => (t, some (.ledger e))
    | .ok w => (update t' jobID (settled w), none)

def settleActual (t : CostTable) (now : ℤ) (jobID : String) (actual fallback : ℚ) : Committed :=
  if jobID = "" ∨ actual < 0 ∨ fallback < 0 then (t, some (.ledger .invalidEstimate))
  else settle t now jobID (fallbackEstimate fallback) fun r =>
    if r.state = .actualSettled then
      if r.actual = actual then .ok (r.state, r.estimate.estimatedUSD, r.actual)
      else .error (.conflictingActual jobID)
    else .ok (.actualSettled,
      if r.estimate.estimatedUSD = 0 then fallback else r.estimate.estimatedUSD, actual)

def settleEstimate (t : CostTable) (now : ℤ) (jobID : String) (usd : ℚ) : Committed :=
  if jobID = "" ∨ usd < 0 then (t, some (.ledger .invalidEstimate))
  else settle t now jobID (fallbackEstimate usd) fun r =>
    if r.state = .estimateSettled ∨ r.state = .actualSettled then
      .ok (r.state, r.estimate.estimatedUSD, r.actual)
    else .ok (.estimateSettled, usd, r.actual)

def book (t : CostTable) (now : ℤ) : LedgerCall → Committed
  | .reserve jobID e max => reserveForJob t now jobID e max
  | .release jobID => (releaseForJob t jobID, none)
  | .settleActual jobID actual fallback => settleActual t now jobID actual fallback
  | .settleEstimate jobID usd => settleEstimate t now jobID usd

/-- The calls, each with the time it is made at. -/
def run (calls : List (ℤ × LedgerCall)) : CostTable :=
  calls.foldl (fun t c => (book t c.1 c.2).1) ∅

/-- `SELECT COALESCE(SUM(column), 0) … WHERE state = $1`. -/
def sumWhere (t : CostTable) (state : ReservationState) (column : CostRow → ℚ) : ℚ :=
  t.sum fun _ r => if r.state = state then column r else 0

def spent (t : CostTable) : ℚ := sumWhere t .actualSettled (·.actual)

def estimatedSpent (t : CostTable) : ℚ := sumWhere t .estimateSettled (·.estimate.estimatedUSD)

def reserved (t : CostTable) : ℚ := sumWhere t .reserved (·.estimate.upperBoundUSD)

end PostgresLedger

/-- What `Reconciliation` returns; `ok` says that there is a record. -/
structure Reconciliation where
  estimate : ℚ := 0
  actual : ℚ := 0
  delta : ℚ := 0
  reconciled : Bool := false
  ok : Bool := false

/-- `Reconciliation`, from the record of the job. -/
def reconcile : Option Reservation → Reconciliation
  | none => {}
  | some r =>
    let est := cutOff r.estimate.estimatedUSD
    let act := cutOff r.actual
    match r.state with
    | .actualSettled =>
      if r.estimate.estimatedUSD < 0 ∨ r.actual < 0 then ⟨est, act, 0, false, true⟩
      else ⟨est, act, act - est, true, true⟩
    | _ => ⟨est, 0, 0, false, true⟩

def CostLedger.reconciliation (l : CostLedger) (jobID : String) : Reconciliation :=
  reconcile (l.byJob.lookup jobID)

def PostgresLedger.reconciliation (t : CostTable) (jobID : String) : Reconciliation :=
  reconcile ((t.lookup jobID).map (·.toReservation))

/-! ### The simulation -/

/-- The table holds the record of every job. -/
def Mirrors (l : CostLedger) (t : CostTable) : Prop :=
  ∀ job, l.byJob.lookup job = (t.lookup job).map (·.toReservation)

section Step

open PostgresLedger hiding reserved spent

variable {l l' : CostLedger} {t t' : CostTable} {job : String}

theorem lookup_update (t : CostTable) (job j : String) (f : CostRow → CostRow) :
    (PostgresLedger.update t job f).lookup j = if j = job then (t.lookup job).map f else t.lookup j := by
  rw [PostgresLedger.update, Map.lookup_mapVals]
  split_ifs with hj
  · rw [hj]
  · exact Option.map_id'

/-- The row of one job is written: as it was, or as its record is. -/
theorem Mirrors.put (h : Mirrors l t) {row : Option CostRow}
    (ht : ∀ j, t'.lookup j = if j = job then row else t.lookup j)
    (hl : l' = l ∧ row = t.lookup job ∨
      ∃ r, row = some r ∧ l'.byJob = l.byJob.insert job r.toReservation) : Mirrors l' t' := by
  intro j
  rw [ht]
  rcases hl with ⟨rfl, rfl⟩ | ⟨r, rfl, hl⟩
  · rw [h j]
    split_ifs with hj
    · rw [hj]
    · rfl
  · rw [hl, Map.lookup_insert, h j]
    split_ifs <;> rfl

theorem Mirrors.settle (h : Mirrors l t) (now : ℤ) (placeholder : CostEstimate)
    {apply : CostRow → Except LedgerError (ReservationState × ℚ × ℚ)} {b : Booked}
    (hb : ∀ r, r = (t.lookup job).getD ⟨⟨placeholder, .reserved, 0⟩, false, now⟩ →
      (∃ e, apply r = .error e ∧ b = (l, some e)) ∨ ∃ w, apply r = .ok w ∧ b.2 = none ∧
        (b.1 = l ∧ some (settled w r) = t.lookup job ∨
          b.1.byJob = l.byJob.insert job (settled w r).toReservation)) :
    Mirrors b.1 (settle t now job placeholder apply).1 ∧
      (settle t now job placeholder apply).2 = b.2.map .ledger := by
  simp only [PostgresLedger.settle, Map.lookup_insertNew, if_true]
  rcases hb _ rfl with ⟨e, happly, rfl⟩ | ⟨w, happly, herr, hl⟩
  · rw [happly]
    exact ⟨h, rfl⟩
  · rw [happly, herr]
    refine ⟨h.put (fun j => ?_) (hl.imp_right fun hl => ⟨_, rfl, hl⟩), rfl⟩
    rw [lookup_update, Map.lookup_insertNew, Map.lookup_insertNew, if_pos rfl]
    split_ifs <;> rfl

theorem Mirrors.book (h : Mirrors l t) (now : ℤ) (c : LedgerCall) :
    Mirrors (c.book cutOff l).1 (book t now c).1 ∧
      (book t now c).2 = (c.book cutOff l).2.map .ledger := by
  cases c with
  | reserve job e max =>
    simp only [LedgerCall.book, PostgresLedger.book, reserveForJob, PostgresLedger.reserveForJob,
      Map.lookup_insertNew, if_true, h job]
    cases hrow : t.lookup job with
    | none =>
      simp only [Option.map_none, Option.getD_none, ne_eq, not_true, if_false]
      split_ifs <;> first | exact ⟨h, rfl⟩ | skip
      exact ⟨h.put (Map.lookup_insertNew t job · _) (.inr ⟨_, rfl, by rw [hrow]; rfl⟩), rfl⟩
    | some row =>
      simp only [Option.map_some, Option.getD_some, ne_eq, ite_not]
      split_ifs <;> first | exact ⟨h, rfl⟩ | skip
      exact ⟨h.put (Map.lookup_insertNew t job · _) (.inl ⟨rfl, by rw [hrow]; rfl⟩), rfl⟩
  | release job =>
    refine ⟨h.put (lookup_update t job · _) ?_, rfl⟩
    simp only [LedgerCall.book, releaseForJob, h job]
    cases hrow : t.lookup job with
    | none => exact .inl ⟨rfl, rfl⟩
    | some r =>
      dsimp only [Option.map]
      split_ifs
      · exact .inr ⟨_, rfl, rfl⟩
      · exact .inl ⟨rfl, rfl⟩
  | settleActual job actual fallback =>
    simp only [LedgerCall.book, PostgresLedger.book, settleActual, PostgresLedger.settleActual, h job]
    split_ifs with hvalid
    · exact ⟨h, rfl⟩
    refine h.settle now _ ?_
    rintro r rfl
    cases hrow : t.lookup job with
    | none =>
      refine .inr ⟨_, if_neg (by simp), rfl, .inr ?_⟩
      by_cases hzero : fallback = 0 <;> simp [bookActual, settled, fallbackEstimate, hzero]
    | some row =>
      dsimp only [Option.map, Option.getD]
      split_ifs with hs ha hzero
      · exact .inr ⟨_, rfl, rfl, .inl ⟨rfl, rfl⟩⟩
      · exact .inl ⟨_, rfl, rfl⟩
      · exact .inr ⟨_, rfl, rfl, .inr (by rw [bookActual, without_byJob, if_pos hzero]; rfl)⟩
      · exact .inr ⟨_, rfl, rfl, .inr (by rw [bookActual, without_byJob, if_neg hzero]; rfl)⟩
  | settleEstimate job usd =>
    simp only [LedgerCall.book, PostgresLedger.book, settleEstimate, PostgresLedger.settleEstimate, h job]
    split_ifs with hvalid
    · exact ⟨h, rfl⟩
    refine h.settle now _ ?_
    rintro r rfl
    cases hrow : t.lookup job with
    | none => exact .inr ⟨_, if_neg (by simp), rfl, .inr rfl⟩
    | some row =>
      dsimp only [Option.map, Option.getD]
      split_ifs with hs
      · exact .inr ⟨_, rfl, rfl, .inl ⟨rfl, rfl⟩⟩
      · exact .inr ⟨_, rfl, rfl, .inr (by rw [bookEstimate, without_byJob]; rfl)⟩

theorem mirrors_run (calls : List (ℤ × LedgerCall)) :
    Mirrors (runLedger cutOff {} (calls.map (·.2))) (run calls) := by
  suffices h : ∀ l t, Mirrors l t → Mirrors (runLedger cutOff l (calls.map (·.2)))
      (calls.foldl (fun t c => (PostgresLedger.book t c.1 c.2).1) t) from h {} ∅ fun _ => rfl
  induction calls with
  | nil => exact fun _ _ h => h
  | cons c calls ih => exact fun _ _ h => ih _ _ (h.book c.1 c.2).1

theorem Mirrors.sum_eq (h : Mirrors l t) (f : Reservation → ℚ) :
    (t.sum fun _ r => f r.toReservation) = l.byJob.sum fun _ r => f r := by
  have hsum : l.byJob.sum (fun _ r => f r) = (t.mapVals fun _ r => r.toReservation).sum fun _ r => f r :=
    Map.sum_eq_of_lookup fun job => by rw [h job, Map.lookup_mapVals]
  rw [hsum, Map.sum, Map.sum, Map.mapVals, map_map]
  rfl

end Step

/-- After any calls, made at any times, the two ledgers answer every call alike and report the same
totals and the same reconciliation of every job. -/
theorem postgres_mirrors_ledger (calls : List (ℤ × LedgerCall)) :
    let l := runLedger cutOff {} (calls.map (·.2))
    let t := PostgresLedger.run calls
    (∀ now c, (PostgresLedger.book t now c).2 = (c.book cutOff l).2.map .ledger) ∧
      PostgresLedger.reserved t = l.reserved ∧ PostgresLedger.spent t = l.spent ∧
      PostgresLedger.estimatedSpent t = l.estimatedSpent ∧
      ∀ job, PostgresLedger.reconciliation t job = l.reconciliation job := by
  intro l t
  have h : Mirrors l t := mirrors_run calls
  have hbalanced : Balanced l := (conserves_run balanced_empty _).1
  refine ⟨fun now c => (h.book now c).2, ?_, ?_, ?_, fun job => ?_⟩
  · exact (h.sum_eq Reservation.held).trans hbalanced.reserved.symm
  · exact (h.sum_eq Reservation.paid).trans hbalanced.spent.symm
  · exact (h.sum_eq Reservation.guessed).trans hbalanced.estimatedSpent.symm
  · rw [PostgresLedger.reconciliation, ← h job]
    rfl

end NexaRoute.Video
