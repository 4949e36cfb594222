import NexaRoute.Go.Map
import NexaRoute.Machine
import Mathlib.Tactic.Linarith

/-!
# The cost ledger of the video jobs

`internal/video/cost/ledger.go`: what is reserved for a job before it is submitted, and what it cost
in the end. A job is reserved for, released, settled with its estimate or settled with its actual
cost. The ledger keeps three totals beside the reservations and changes them as it goes; each
subtraction is cut off at zero. Amounts are exact.

The subtractions go through a function `cut`, so that the ledger with the cut and the ledger without
it are the same definitions.

## Main results

* `ledger_conservation` — totals are sums over the jobs
-/

namespace NexaRoute.Video

open Go List

variable {actual fallback a : ℚ}

/-! ### The ledger -/

/-- `CostEstimate`, as far as the ledger goes by it. -/
structure CostEstimate where
  estimatedUSD : ℚ := 0
  upperBoundUSD : ℚ := 0
  priceKnown : Bool := false
  deriving DecidableEq

/-- How far the reservation of a job came. -/
inductive ReservationState
  | reserved
  | actualSettled
  | estimateSettled
  | released
  deriving DecidableEq, Repr

/-- What the ledger keeps of a job. -/
structure Reservation where
  estimate : CostEstimate
  state : ReservationState
  actual : ℚ := 0
  deriving DecidableEq

open Reservation

/-- `Ledger`. -/
structure CostLedger where
  spent : ℚ := 0
  estimatedSpent : ℚ := 0
  reserved : ℚ := 0
  entries : List CostEstimate := []
  byJob : Map String Reservation := ∅

/-- The errors of the calls. -/
inductive LedgerError
  | jobIDRequired
  | unknownPrice
  | invalidEstimate
  | budgetExceeded
  | finalized (jobID : String)
  | conflictingActual (jobID : String)
  deriving DecidableEq, Repr

/-- An estimate that can be reserved: its price is known and its bounds are in order. -/
def validEstimate (e : CostEstimate) : Prop :=
  e.priceKnown = true ∧ 0 ≤ e.estimatedUSD ∧ e.estimatedUSD ≤ e.upperBoundUSD ∧ 0 ≤ e.upperBoundUSD

instance (e : CostEstimate) : Decidable (validEstimate e) :=
  inferInstanceAs (Decidable (_ ∧ _ ∧ _ ∧ _))

/-- A total below zero is set to zero. -/
def cutOff (x : ℚ) : ℚ := if x < 0 then 0 else x

/-- The ledger after a call, and the error it returned. -/
abbrev Booked := CostLedger × Option LedgerError

/-- The estimate of a job nothing was reserved for. -/
def fallbackEstimate (usd : ℚ) : CostEstimate :=
  { estimatedUSD := usd, upperBoundUSD := usd, priceKnown := true }

/-- `ReserveForJob`: again is of no effect while the job is reserved; `max` 0 is no limit. -/
def reserveForJob (l : CostLedger) (jobID : String) (e : CostEstimate) (max : ℚ) : Booked :=
  if jobID = "" then (l, some .jobIDRequired)
  else if ¬ validEstimate e then
    (l, some (if e.priceKnown then .invalidEstimate else .unknownPrice))
  else if max < 0 then (l, some .invalidEstimate)
  else if 0 < max ∧ max < e.upperBoundUSD then (l, some .budgetExceeded)
  else match l.byJob.lookup jobID with
    | some old => (l, if old.state = .reserved then none else some (.finalized jobID))
    | none =>
      ({ l with
          byJob := l.byJob.insert jobID { estimate := e, state := .reserved }
          reserved := l.reserved + e.upperBoundUSD
          entries := l.entries ++ [e] }, none)

section Cut

variable (cut : ℚ → ℚ)

/-- The totals without what a job contributes to the reservations and to the estimated costs. -/
def CostLedger.without (l : CostLedger) (r : Reservation) : CostLedger :=
  match r.state with
  | .reserved => { l with reserved := cut (l.reserved - r.estimate.upperBoundUSD) }
  | .estimateSettled =>
    { l with estimatedSpent := cut (l.estimatedSpent - r.estimate.estimatedUSD) }
  | _ => l

/-- `ReleaseForJob`: only a job that is still reserved is released. -/
def releaseForJob (l : CostLedger) (jobID : String) : CostLedger :=
  match l.byJob.lookup jobID with
  | none => l
  | some r =>
    if r.state = .reserved then
      { l.without cut r with byJob := l.byJob.insert jobID { r with state := .released } }
    else l

/-- The end of `SettleActual`: the actual cost is booked. -/
def bookActual (l : CostLedger) (jobID : String) (r : Reservation) (actual fallback : ℚ) :
    CostLedger :=
  { l with
    spent := l.spent + actual
    byJob := l.byJob.insert jobID
      { state := .actualSettled
        actual := actual
        estimate := if r.estimate.estimatedUSD = 0 then
          { r.estimate with estimatedUSD := fallback } else r.estimate } }

/-- `SettleActual`. A second cost for a job must be the first. -/
def settleActual (l : CostLedger) (jobID : String) (actual fallback : ℚ) : Booked :=
  if jobID = "" ∨ actual < 0 ∨ fallback < 0 then (l, some .invalidEstimate)
  else match l.byJob.lookup jobID with
    | none =>
      (bookActual l jobID { estimate := fallbackEstimate fallback, state := .released }
        actual fallback, none)
    | some r =>
      if r.state = .actualSettled then
        (l, if r.actual = actual then none else some (.conflictingActual jobID))
      else (bookActual (l.without cut r) jobID r actual fallback, none)

/-- The end of `SettleEstimate`: the estimate is booked. -/
def bookEstimate (l : CostLedger) (jobID : String) (r : Reservation) (usd : ℚ) : CostLedger :=
  { l with
    estimatedSpent := l.estimatedSpent + usd
    byJob := l.byJob.insert jobID
      { r with state := .estimateSettled, estimate := { r.estimate with estimatedUSD := usd } } }

/-- `SettleEstimate`: of no effect once a job is settled. -/
def settleEstimate (l : CostLedger) (jobID : String) (usd : ℚ) : Booked :=
  if jobID = "" ∨ usd < 0 then (l, some .invalidEstimate)
  else match l.byJob.lookup jobID with
    | none =>
      (bookEstimate l jobID { estimate := fallbackEstimate usd, state := .released } usd, none)
    | some r =>
      if r.state = .estimateSettled ∨ r.state = .actualSettled then (l, none)
      else (bookEstimate (l.without cut r) jobID r usd, none)

/-- The calls that change the ledger. -/
inductive LedgerCall
  | reserve (jobID : String) (e : CostEstimate) (max : ℚ)
  | release (jobID : String)
  | settleActual (jobID : String) (actual fallback : ℚ)
  | settleEstimate (jobID : String) (usd : ℚ)

/-- The job that a call is about. -/
def LedgerCall.jobID : LedgerCall → String
  | .reserve jobID .. => jobID
  | .release jobID => jobID
  | .settleActual jobID .. => jobID
  | .settleEstimate jobID _ => jobID

/-- What a call does to the ledger. -/
def LedgerCall.book (l : CostLedger) : LedgerCall → Booked
  | .reserve jobID e max => reserveForJob l jobID e max
  | .release jobID => (releaseForJob cut l jobID, none)
  | .settleActual jobID actual fallback => Video.settleActual cut l jobID actual fallback
  | .settleEstimate jobID usd => Video.settleEstimate cut l jobID usd

/-- The ledger after a number of calls. -/
def runLedger (l : CostLedger) (calls : List LedgerCall) : CostLedger :=
  calls.foldl (fun l c => (c.book cut l).1) l

end Cut

/-! ### Totals -/

/-- The jobs in a state, each with its reservation. -/
def CostLedger.inState (l : CostLedger) (s : ReservationState) : List (String × Reservation) :=
  (l.byJob.entries.map fun e => (e.1, e.2)).filter (·.2.state = s)

/-- The totals are the sums over the jobs, and no job is in two of them. -/
structure Conserves (l : CostLedger) : Prop where
  reserved : l.reserved = ((l.inState .reserved).map (·.2.estimate.upperBoundUSD)).sum
  spent : l.spent = ((l.inState .actualSettled).map (·.2.actual)).sum
  estimatedSpent :
    l.estimatedSpent = ((l.inState .estimateSettled).map (·.2.estimate.estimatedUSD)).sum
  once : ((l.inState .reserved ++ l.inState .actualSettled ++ l.inState .estimateSettled).map
    (·.1)).Nodup

/-- What a job contributes to the reservations. -/
def Reservation.held (r : Reservation) : ℚ :=
  if r.state = .reserved then r.estimate.upperBoundUSD else 0

/-- What a job contributes to the costs. -/
def Reservation.paid (r : Reservation) : ℚ := if r.state = .actualSettled then r.actual else 0

/-- What a job contributes to the estimated costs. -/
def Reservation.guessed (r : Reservation) : ℚ :=
  if r.state = .estimateSettled then r.estimate.estimatedUSD else 0

/-- The estimate of a reservation is not negative. -/
def Reservation.Sound (r : Reservation) : Prop :=
  0 ≤ r.estimate.estimatedUSD ∧ 0 ≤ r.estimate.upperBoundUSD

/-- The totals, as sums over the whole map. -/
structure Balanced (l : CostLedger) : Prop where
  reserved : l.reserved = Map.sum (fun _ r => r.held) l.byJob
  spent : l.spent = Map.sum (fun _ r => r.paid) l.byJob
  estimatedSpent : l.estimatedSpent = Map.sum (fun _ r => r.guessed) l.byJob
  sound : ∀ job r, l.byJob.lookup job = some r → r.Sound

theorem sum_inState (l : CostLedger) (s : ReservationState) (f : Reservation → ℚ) :
    ((l.inState s).map fun e => f e.2).sum =
      Map.sum (fun _ r => if r.state = s then f r else 0) l.byJob := by
  unfold CostLedger.inState Map.sum
  induction l.byJob.entries with
  | nil => rfl
  | cons e es ih =>
    rw [map_cons, map_cons, sum_cons, ← ih]
    by_cases h : e.2.state = s
    · rw [filter_cons_of_pos (by simpa using h), map_cons, sum_cons]
      simp only [if_pos h]
    · rw [filter_cons_of_neg (by simpa using h)]
      simp only [if_neg h, zero_add]

theorem nodup_inState (l : CostLedger) :
    ((l.inState .reserved ++ l.inState .actualSettled ++ l.inState .estimateSettled).map
      (·.1)).Nodup := by
  have hkeys : (l.byJob.entries.map fun e => (e.1, e.2)).map (·.1) = l.byJob.keys := by
    rw [map_map]
    rfl
  have hnodup : ((l.byJob.entries.map fun e => (e.1, e.2)).map (·.1)).Nodup := by
    rw [hkeys]
    exact l.byJob.keys_nodup
  have hsub : ∀ s, ((l.inState s).map (·.1)).Nodup :=
    fun s => hnodup.sublist (filter_sublist.map _)
  -- the same job under two states would be one pair with two states
  have hdisjoint : ∀ s t, s ≠ t → ∀ a ∈ (l.inState s).map (·.1), ∀ b ∈ (l.inState t).map (·.1),
      a ≠ b := by
    rintro s t hst a ha b hb rfl
    obtain ⟨e, he, hea⟩ := mem_map.mp ha
    obtain ⟨e', he', hea'⟩ := mem_map.mp hb
    obtain ⟨hmem, hs⟩ := mem_filter.mp he
    obtain ⟨hmem', ht⟩ := mem_filter.mp he'
    obtain rfl := inj_on_of_nodup_map hnodup hmem hmem' (hea.trans hea'.symm)
    exact hst ((of_decide_eq_true hs).symm.trans (of_decide_eq_true ht))
  rw [map_append, map_append]
  refine nodup_append.mpr ⟨nodup_append.mpr ⟨hsub _, hsub _, ?_⟩, hsub _, ?_⟩
  · exact hdisjoint _ _ (by decide)
  · intro a ha b hb
    rcases mem_append.mp ha with ha | ha
    · exact hdisjoint _ _ (by decide) a ha b hb
    · exact hdisjoint _ _ (by decide) a ha b hb

variable {l : CostLedger}

theorem Balanced.conserves (h : Balanced l) : Conserves l where
  reserved := h.reserved.trans (sum_inState l .reserved (·.estimate.upperBoundUSD)).symm
  spent := h.spent.trans (sum_inState l .actualSettled (·.actual)).symm
  estimatedSpent :=
    h.estimatedSpent.trans (sum_inState l .estimateSettled (·.estimate.estimatedUSD)).symm
  once := nodup_inState l

theorem balanced_empty : Balanced {} where
  reserved := rfl
  spent := rfl
  estimatedSpent := rfl
  sound _ _ h := by cases h

theorem Reservation.Sound.held_nonneg {r : Reservation} (h : r.Sound) : 0 ≤ r.held := by
  unfold held
  split_ifs
  · exact h.2
  · exact le_refl 0

theorem Reservation.Sound.guessed_nonneg {r : Reservation} (h : r.Sound) : 0 ≤ r.guessed := by
  unfold guessed
  split_ifs
  · exact h.1
  · exact le_refl 0

/-! ### What a call does -/

section Step

variable {l : CostLedger} {job : String} {r : Reservation}

theorem cutOff_of_nonneg {x : ℚ} (h : 0 ≤ x) : cutOff x = x := if_neg (not_lt.mpr h)

theorem Balanced.without_eq (h : Balanced l) (hr : l.byJob.lookup job = some r) :
    l.without cutOff r = l.without id r := by
  have hheld : r.held ≤ l.reserved := by
    rw [h.reserved]
    exact Map.le_sum (fun k a hk => (h.sound k a hk).held_nonneg) hr
  have hguessed : r.guessed ≤ l.estimatedSpent := by
    rw [h.estimatedSpent]
    exact Map.le_sum (fun k a hk => (h.sound k a hk).guessed_nonneg) hr
  unfold CostLedger.without
  cases hs : r.state with
  | reserved =>
    rw [held, if_pos hs] at hheld
    simp only [cutOff_of_nonneg (sub_nonneg.mpr hheld), id]
  | estimateSettled =>
    rw [guessed, if_pos hs] at hguessed
    simp only [cutOff_of_nonneg (sub_nonneg.mpr hguessed), id]
  | _ => rfl

theorem without_id (l : CostLedger) (r : Reservation) :
    l.without id r =
      { l with reserved := l.reserved - r.held, estimatedSpent := l.estimatedSpent - r.guessed } := by
  unfold CostLedger.without held guessed
  cases hs : r.state <;> simp

theorem Balanced.put {l' : CostLedger} {r' : Reservation} (h : Balanced l) (hr' : r'.Sound)
    (hbyJob : l'.byJob = l.byJob.insert job r')
    (hreserved : l'.reserved = l.reserved - ((l.byJob.lookup job).map (·.held)).getD 0 + r'.held)
    (hspent : l'.spent = l.spent - ((l.byJob.lookup job).map (·.paid)).getD 0 + r'.paid)
    (hestimated : l'.estimatedSpent =
      l.estimatedSpent - ((l.byJob.lookup job).map (·.guessed)).getD 0 + r'.guessed) :
    Balanced l' where
  reserved := by rw [hreserved, hbyJob, Map.sum_insert, h.reserved]
  spent := by rw [hspent, hbyJob, Map.sum_insert, h.spent]
  estimatedSpent := by rw [hestimated, hbyJob, Map.sum_insert, h.estimatedSpent]
  sound job' r'' hlookup := by
    rw [hbyJob, Map.lookup_insert] at hlookup
    split_ifs at hlookup
    · obtain rfl := Option.some.inj hlookup
      exact hr'
    · exact h.sound job' r'' hlookup

theorem Balanced.reserveForJob (h : Balanced l) (e : CostEstimate) (max : ℚ) :
    Balanced (Video.reserveForJob l job e max).1 := by
  unfold Video.reserveForJob
  by_cases hvalid : validEstimate e
  · cases hlookup : l.byJob.lookup job with
    | some old =>
      split_ifs <;> exact h
    | none =>
      split_ifs
      · exact h
      · exact h
      · exact h
      · refine h.put ⟨hvalid.2.1, hvalid.2.2.2⟩ rfl ?_ ?_ ?_ <;>
          simp [hlookup, held, paid, guessed]
  · split_ifs <;> exact h

theorem Balanced.release (h : Balanced l) (hr : l.byJob.lookup job = some r)
    (hs : r.state = .reserved) :
    Balanced { l.without id r with byJob := l.byJob.insert job { r with state := .released } } := by
  have hr' : ({ r with state := .released } : Reservation).Sound := h.sound job r hr
  rw [without_id]
  refine h.put hr' rfl ?_ ?_ ?_ <;>
    simp [hr, hs, held, paid, guessed]

theorem Reservation.Sound.filled (h : r.Sound) (hfallback : 0 ≤ fallback) :
    (mk (if r.estimate.estimatedUSD = 0 then
      { r.estimate with estimatedUSD := fallback } else r.estimate) .actualSettled actual).Sound := by
  constructor
  · show 0 ≤ CostEstimate.estimatedUSD (ite _ _ _)
    split_ifs
    · exact hfallback
    · exact h.1
  · show 0 ≤ CostEstimate.upperBoundUSD (ite _ _ _)
    split_ifs <;> exact h.2

theorem Balanced.bookActual (h : Balanced l) (hr : l.byJob.lookup job = some r)
    (hs : r.state ≠ .actualSettled) (hfallback : 0 ≤ fallback) :
    Balanced (Video.bookActual (l.without id r) job r actual fallback) := by
  rw [without_id]
  refine h.put ((h.sound job r hr).filled hfallback) rfl ?_ ?_ ?_ <;>
    simp [Video.bookActual, hr, hs, held, paid, guessed]

theorem Balanced.bookActual_new (h : Balanced l) (hr : l.byJob.lookup job = none)
    (hfallback : 0 ≤ fallback) :
    Balanced (Video.bookActual l job { estimate := fallbackEstimate fallback, state := .released }
      actual fallback) := by
  have hsound : ({ estimate := fallbackEstimate fallback, state := .released } :
      Reservation).Sound := ⟨hfallback, hfallback⟩
  refine h.put (hsound.filled hfallback) rfl ?_ ?_ ?_ <;>
    simp [Video.bookActual, hr, held, paid, guessed]

theorem Balanced.bookEstimate (h : Balanced l) (hr : l.byJob.lookup job = some r)
    (hs : r.state ≠ .actualSettled) {usd : ℚ} (husd : 0 ≤ usd) :
    Balanced (Video.bookEstimate (l.without id r) job r usd) := by
  have hsound : (Reservation.mk { r.estimate with estimatedUSD := usd } .estimateSettled
      r.actual).Sound := ⟨husd, (h.sound job r hr).2⟩
  rw [without_id]
  refine h.put hsound rfl ?_ ?_ ?_ <;>
    simp [Video.bookEstimate, hr, hs, held, paid, guessed]

theorem Balanced.bookEstimate_new (h : Balanced l) (hr : l.byJob.lookup job = none) {usd : ℚ}
    (husd : 0 ≤ usd) :
    Balanced (Video.bookEstimate l job { estimate := fallbackEstimate usd, state := .released }
      usd) := by
  have hsound : (Reservation.mk (fallbackEstimate usd) .estimateSettled 0).Sound := ⟨husd, husd⟩
  refine h.put hsound rfl ?_ ?_ ?_ <;>
    simp [Video.bookEstimate, hr, fallbackEstimate, held, paid,
      guessed]

theorem Balanced.book (h : Balanced l) (c : LedgerCall) :
    Balanced (c.book cutOff l).1 ∧ c.book cutOff l = c.book id l := by
  cases c with
  | reserve job e max => exact ⟨h.reserveForJob e max, rfl⟩
  | release job =>
    simp only [LedgerCall.book, releaseForJob]
    cases hr : l.byJob.lookup job with
    | none => exact ⟨h, rfl⟩
    | some r =>
      simp only [h.without_eq hr, and_true]
      split_ifs with hs
      · exact h.release hr hs
      · exact h
  | settleActual job actual fallback =>
    simp only [LedgerCall.book, settleActual]
    split_ifs with hvalid
    · exact ⟨h, rfl⟩
    · have hfallback : 0 ≤ fallback := not_lt.mp fun hneg => hvalid (.inr (.inr hneg))
      cases hr : l.byJob.lookup job with
      | none => exact ⟨h.bookActual_new hr hfallback, rfl⟩
      | some r =>
        simp only [h.without_eq hr, and_true]
        split_ifs with hs
        · exact h
        · exact h
        · exact h.bookActual hr hs hfallback
  | settleEstimate job usd =>
    simp only [LedgerCall.book, settleEstimate]
    split_ifs with hvalid
    · exact ⟨h, rfl⟩
    · have husd : 0 ≤ usd := not_lt.mp fun hneg => hvalid (.inr hneg)
      cases hr : l.byJob.lookup job with
      | none => exact ⟨h.bookEstimate_new hr husd, rfl⟩
      | some r =>
        simp only [h.without_eq hr, and_true]
        split_ifs with hs
        · exact h
        · exact h.bookEstimate hr (fun hs' => hs (.inr hs')) husd

end Step

theorem conserves_run (h : Balanced l) (calls : List LedgerCall) :
    Balanced (runLedger cutOff l calls) ∧ runLedger cutOff l calls = runLedger id l calls := by
  induction calls generalizing l with
  | nil => exact ⟨h, rfl⟩
  | cons c calls ih =>
    obtain ⟨hbook, heq⟩ := h.book c
    obtain ⟨hrun, hruns⟩ := ih hbook
    refine ⟨hrun, hruns.trans ?_⟩
    show runLedger id (c.book cutOff l).1 calls = runLedger id (c.book id l).1 calls
    rw [heq]

variable (cut : ℚ → ℚ)

theorem without_byJob (l : CostLedger) (r : Reservation) : (l.without cut r).byJob = l.byJob := by
  unfold CostLedger.without
  split <;> rfl

/-- A call leaves the ledger alone, or succeeds and changes the entry of its job only. -/
theorem book_cases (l : CostLedger) (c : LedgerCall) :
    (c.book cut l).1 = l ∨ (c.book cut l).2 = none ∧
      ∃ r, (c.book cut l).1.byJob = l.byJob.insert c.jobID r := by
  cases c with
  | reserve job e max =>
    simp only [LedgerCall.book, reserveForJob]
    cases l.byJob.lookup job with
    | some old => split_ifs <;> exact .inl rfl
    | none => split_ifs <;> first | exact .inl rfl | exact .inr ⟨rfl, _, rfl⟩
  | release job =>
    simp only [LedgerCall.book, releaseForJob]
    cases l.byJob.lookup job with
    | none => exact .inl rfl
    | some r =>
      simp only
      split_ifs
      · exact .inr ⟨trivial, _, rfl⟩
      · exact .inl rfl
  | settleActual job actual fallback =>
    simp only [LedgerCall.book, settleActual]
    cases l.byJob.lookup job with
    | none => split_ifs <;> first | exact .inl rfl | exact .inr ⟨rfl, _, rfl⟩
    | some r =>
      simp only
      split_ifs
      · exact .inl rfl
      · exact .inl rfl
      · exact .inl rfl
      · exact .inr ⟨rfl, _, by rw [← without_byJob cut l r]; rfl⟩
  | settleEstimate job usd =>
    simp only [LedgerCall.book, settleEstimate]
    cases l.byJob.lookup job with
    | none => split_ifs <;> first | exact .inl rfl | exact .inr ⟨rfl, _, rfl⟩
    | some r =>
      simp only
      split_ifs
      · exact .inl rfl
      · exact .inl rfl
      · exact .inr ⟨rfl, _, by rw [← without_byJob cut l r]; rfl⟩

theorem book_of_error (l : CostLedger) (c : LedgerCall)
    (h : (c.book cut l).2 ≠ none) : (c.book cut l).1 = l := by
  rcases book_cases cut l c with hsame | ⟨hnone, _⟩
  · exact hsame
  · exact absurd hnone h

/-! ### Jobs that are settled -/

/-- A job is settled with its actual cost. -/
def CostLedger.SettledAt (l : CostLedger) (job : String) (a : ℚ) : Prop :=
  ∃ r, l.byJob.lookup job = some r ∧ r.state = .actualSettled ∧ r.actual = a

theorem lookup_book_of_ne (l : CostLedger) (c : LedgerCall) {job : String}
    (h : job ≠ c.jobID) : (c.book cut l).1.byJob.lookup job = l.byJob.lookup job := by
  rcases book_cases cut l c with hsame | ⟨-, r, hbyJob⟩
  · rw [hsame]
  · rw [hbyJob, AList.lookup_insert_ne h]

theorem CostLedger.SettledAt.book {job : String} (h : l.SettledAt job a)
    (cut : ℚ → ℚ) (c : LedgerCall) : (c.book cut l).1.SettledAt job a := by
  by_cases hjob : job = c.jobID
  · obtain ⟨r, hr, hs, ha⟩ := h
    have hsame : (c.book cut l).1 = l := by
      cases c with
      | reserve job' e max =>
        obtain rfl : job = job' := hjob
        simp only [LedgerCall.book, reserveForJob, hr]
        split_ifs <;> rfl
      | release job' =>
        obtain rfl : job = job' := hjob
        simp only [LedgerCall.book, releaseForJob, hr, hs, reduceCtorEq, if_false]
      | settleActual job' actual fallback =>
        obtain rfl : job = job' := hjob
        simp only [LedgerCall.book, Video.settleActual, hr, hs, if_true]
        split_ifs <;> rfl
      | settleEstimate job' usd =>
        obtain rfl : job = job' := hjob
        simp only [LedgerCall.book, Video.settleEstimate, hr, hs, reduceCtorEq, or_true, if_true]
        split_ifs <;> rfl
    rw [hsame]
    exact ⟨r, hr, hs, ha⟩
  · rw [SettledAt, lookup_book_of_ne cut l c hjob]
    exact h

theorem settled_run {job : String} (h : l.SettledAt job a) (cut : ℚ → ℚ)
    (calls : List LedgerCall) : (runLedger cut l calls).SettledAt job a := by
  induction calls generalizing l with
  | nil => exact h
  | cons c calls ih => exact ih (h.book cut c)

theorem settledAt_of_settleActual {job : String}
    (h : (settleActual cut l job a fallback).2 = none) :
    (settleActual cut l job a fallback).1.SettledAt job a := by
  unfold settleActual at h ⊢
  cases hr : l.byJob.lookup job with
  | none =>
    split_ifs at h ⊢
    exact ⟨_, AList.lookup_insert _, rfl, rfl⟩
  | some r =>
    simp only [hr] at h ⊢
    split_ifs at h ⊢ with hvalid hs ha
    · exact ⟨r, hr, hs, ha⟩
    · exact ⟨_, AList.lookup_insert _, rfl, rfl⟩

/-- After any calls the totals are the sums over the jobs, each job in one of them; a call that
returns an error changes nothing; nothing is ever cut off; and once a job is settled with its actual
cost, further calls leave it at that. -/
theorem ledger_conservation (calls : List LedgerCall) :
    Conserves (runLedger cutOff {} calls) ∧
      (∀ c : LedgerCall, (c.book cutOff (runLedger cutOff {} calls)).2 ≠ none →
        (c.book cutOff (runLedger cutOff {} calls)).1 = runLedger cutOff {} calls) ∧
      runLedger cutOff {} calls = runLedger id {} calls ∧
      ∀ job a fallback, (settleActual cutOff (runLedger cutOff {} calls) job a fallback).2 = none →
        ∀ more, (runLedger cutOff
          (settleActual cutOff (runLedger cutOff {} calls) job a fallback).1 more).SettledAt job a := by
  obtain ⟨hbalanced, hcut⟩ := conserves_run balanced_empty calls
  refine ⟨hbalanced.conserves, fun c => book_of_error cutOff _ c, hcut, ?_⟩
  intro job a fallback h more
  exact settled_run (settledAt_of_settleActual cutOff h) cutOff more

/-- A job that is reserved for, settled with its estimate, and then with its actual cost. -/
theorem ledger_conservation_upgraded :
    Conserves (runLedger cutOff {}
      [.reserve "j" ⟨2, 3, true⟩ 0, .settleEstimate "j" 2, .settleActual "j" 1 2]) ∧
    (runLedger cutOff {}
      [.reserve "j" ⟨2, 3, true⟩ 0, .settleEstimate "j" 2, .settleActual "j" 1 2]).spent = 1 :=
  ⟨(ledger_conservation _).1, by decide +kernel⟩

end NexaRoute.Video
