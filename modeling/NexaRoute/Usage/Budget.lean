import NexaRoute.Go.Time
import Mathlib.Algebra.Order.Ring.Rat

/-!
# The budget ledger

`BudgetLedger`: one row for each key with its committed and its reserved spend and the reservations
that are open. Amounts are exact rationals. The counter of reservations has 64 bits and comes round,
to the identifier that stands for no reservation; `Room` says that it does not.

## Main definitions

* `BudgetLedger.step` — the calls of the ledger
-/

namespace NexaRoute.Usage

open Go

/-- An open reservation: its amount, and when it was made. -/
structure BudgetReservation where
  amount : ℚ
  since : Time
  deriving DecidableEq, Repr

/-- The row of a key. -/
structure BudgetRow where
  committed : ℚ
  reserved : ℚ
  reservations : List (UInt64 × BudgetReservation)
  deriving DecidableEq, Repr

structure BudgetLedger where
  seq : UInt64
  rows : String → Option BudgetRow

/-- `NewBudgetLedger`. -/
def BudgetLedger.new : BudgetLedger := ⟨0, fun _ => none⟩

/-- Fifteen minutes. -/
def budgetReservationTTL : Duration := 900 * second

/-- `1e-9`. -/
def budgetEpsilon : ℚ := 1 / 1000000000

/-- A row that was never used. -/
def BudgetRow.new : BudgetRow := ⟨0, 0, []⟩

/-- `rowLocked`: the row of a key, or a new one. -/
def BudgetLedger.row (l : BudgetLedger) (key : String) : BudgetRow := (l.rows key).getD .new

/-- Store a row. -/
def BudgetLedger.put (l : BudgetLedger) (key : String) (row : BudgetRow) : BudgetLedger :=
  { l with rows := Function.update l.rows key (some row) }

def BudgetRow.get (row : BudgetRow) (id : UInt64) : Option BudgetReservation :=
  (row.reservations.find? (·.1 == id)).map (·.2)

/-- `delete(row.reservations, id)`. -/
def BudgetRow.delete (row : BudgetRow) (id : UInt64) : BudgetRow :=
  { row with reservations := row.reservations.filter (·.1 != id) }

/-- `snapReserved`: what is within rounding of nothing is nothing. -/
def snapReserved (row : BudgetRow) : BudgetRow :=
  if row.reserved < budgetEpsilon ∧ row.reserved > -budgetEpsilon then { row with reserved := 0 }
  else row

/-- Whether a reservation has stood for its whole time. -/
def BudgetReservation.stale (res : BudgetReservation) (now : Time) : Bool :=
  decide (now - res.since ≥ budgetReservationTTL)

/-- One turn of the loop of `expireLocked`. -/
def expireOne (now : Time) (row : BudgetRow) (e : UInt64 × BudgetReservation) : BudgetRow :=
  if e.2.stale now then
    { row.delete e.1 with
      reserved := row.reserved - e.2.amount
      committed := row.committed + e.2.amount }
  else row

def expireLocked (row : BudgetRow) (now : Time) : BudgetRow :=
  snapReserved (row.reservations.foldl (expireOne now) row)

/-- `evictIfEmptyLocked`, for a row that was just changed. -/
def BudgetLedger.evictIfEmptyLocked (l : BudgetLedger) (key : String) (row : BudgetRow) :
    BudgetLedger :=
  if row.committed = 0 ∧ row.reserved = 0 ∧ row.reservations.length = 0 then
    { l with rows := Function.update l.rows key none }
  else l.put key row

/-- `Reserve`: the ledger, the identifier of the reservation and whether it is admitted. -/
def BudgetLedger.reserve (l : BudgetLedger) (key : String) (limit amount : ℚ) (now : Time) :
    BudgetLedger × UInt64 × Bool :=
  if amount ≤ 0 ∨ limit ≤ 0 then (l, 0, true)
  else
    let row := expireLocked (l.row key) now
    if row.committed + row.reserved + amount > limit + budgetEpsilon then
      (l.evictIfEmptyLocked key row, 0, false)
    else
      let id := l.seq + 1
      let row := { row.delete id with
        reserved := row.reserved + amount
        reservations := (row.delete id).reservations ++ [(id, ⟨amount, now⟩)] }
      ({ l.put key row with seq := id }, id, true)

def BudgetLedger.settle (l : BudgetLedger) (key : String) (id : UInt64) (actual : ℚ) : BudgetLedger :=
  if id = 0 then l
  else
    let actual := if actual < 0 then 0 else actual
    match l.rows key with
    | none => l
    | some row =>
      match row.get id with
      | none => l
      | some res =>
        let row := snapReserved { row with reserved := row.reserved - res.amount }
        let row := { row with committed := row.committed + actual }
        l.evictIfEmptyLocked key (row.delete id)

def BudgetLedger.release (l : BudgetLedger) (key : String) (id : UInt64) : BudgetLedger :=
  if id = 0 then l
  else match l.rows key with
    | none => l
    | some row =>
      match row.get id with
      | none => l
      | some res =>
        let row := snapReserved { row with reserved := row.reserved - res.amount }
        l.evictIfEmptyLocked key (row.delete id)

/-- `Snapshot`: the ledger, and the committed and the reserved spend of the key. -/
def BudgetLedger.snapshot (l : BudgetLedger) (key : String) (now : Time) :
    BudgetLedger × ℚ × ℚ :=
  match l.rows key with
  | none => (l, 0, 0)
  | some row =>
    let row := expireLocked row now
    (l.put key row, row.committed, row.reserved)

/-! ### Calls in sequence -/

/-- The calls. -/
inductive Call
  | reserve (key : String) (amount : ℚ) (now : Time)
  | settle (key : String) (id : UInt64) (actual : ℚ)
  | release (key : String) (id : UInt64)
  | snapshot (key : String) (now : Time)
  deriving DecidableEq, Repr

/-- What a call returns. -/
inductive Answer
  | reserved (id : UInt64) (admitted : Bool)
  | totals (committed reserved : ℚ)
  | done
  deriving DecidableEq, Repr

/-- One call, with the limits of the keys. -/
def BudgetLedger.step (limit : String → ℚ) (l : BudgetLedger) : Call → BudgetLedger × Answer
  | .reserve key amount now =>
    let r := l.reserve key (limit key) amount now
    (r.1, .reserved r.2.1 r.2.2)
  | .settle key id actual => (l.settle key id actual, .done)
  | .release key id => (l.release key id, .done)
  | .snapshot key now =>
    let r := l.snapshot key now
    (r.1, .totals r.2.1 r.2.2)

/-- Another `n` reservations do not bring a counter round. -/
def Room (seq : UInt64) (n : ℕ) : Prop := seq.toNat + n < 2 ^ 64

instance (seq : UInt64) (n : ℕ) : Decidable (Room seq n) :=
  inferInstanceAs (Decidable (seq.toNat + n < 2 ^ 64))

end NexaRoute.Usage
