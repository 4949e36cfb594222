import Mathlib.Algebra.Order.Ring.Int
import Mathlib.Tactic.Ring
import NexaRoute.Go.Map

/-!
# The budget ledger

`internal/budget/ledger.go`: limits on keys, amounts reserved against them and settled later, and
alerts when the use of a key reaches a share of its limit. Amounts are machine integers, which wrap
around; the methods are written so that they never do, and `remainingBudget`, `saturatingAdd` and
`thresholdReached` say what that rests on.

## Main definitions

* `Ledger.step` — the calls of the ledger
-/

namespace NexaRoute.Budget

open Go Int64

/-! ### Machine integers -/

theorem toInt_add_of_le {a b : Int64} (hlo : -2 ^ 63 ≤ a.toInt + b.toInt)
    (hhi : a.toInt + b.toInt < 2 ^ 63) : (a + b).toInt = a.toInt + b.toInt := by
  rw [toInt_add, Int.bmod_eq_of_le] <;> omega

theorem toInt_sub_of_le {a b : Int64} (hlo : -2 ^ 63 ≤ a.toInt - b.toInt)
    (hhi : a.toInt - b.toInt < 2 ^ 63) : (a - b).toInt = a.toInt - b.toInt := by
  rw [toInt_sub, Int.bmod_eq_of_le] <;> omega

/-! ### Amounts -/

def maxInt64 : Int64 := Int64.maxValue

def remainingBudget (limit used reserved : Int64) : Int64 :=
  if limit < used then -1
  else if limit - used < reserved then -1
  else limit - used - reserved

def saturatingAdd (a b : Int64) : Int64 :=
  if 0 < b ∧ maxInt64 - b < a then maxInt64 else a + b

def thresholdReached (used limit threshold : Int64) : Bool :=
  let q := limit / 100
  let r := limit % 100
  let need := q * threshold + r * threshold / 100
  let need := if r * threshold % 100 ≠ 0 then need + 1 else need
  need ≤ used

theorem toInt_maxInt64 : maxInt64.toInt = 2 ^ 63 - 1 := toInt_maxValue

/-- **Admission.** -/
theorem not_remainingBudget_lt_iff {limit used reserved amount : Int64} (hl : 0 ≤ limit.toInt)
    (hu : 0 ≤ used.toInt) (hr : 0 ≤ reserved.toInt) (ha : 0 < amount.toInt) :
    ¬remainingBudget limit used reserved < amount ↔
      used.toInt + reserved.toInt + amount.toInt ≤ limit.toInt := by
  have hlimit := limit.toInt_lt
  have hone : (-1 : Int64).toInt = -1 := by decide
  unfold remainingBudget
  rw [lt_iff_toInt_lt]
  split
  · next h =>
    rw [lt_iff_toInt_lt] at h
    omega
  · next h =>
    rw [lt_iff_toInt_lt] at h
    have hfree : (limit - used).toInt = limit.toInt - used.toInt :=
      toInt_sub_of_le (by omega) (by omega)
    split
    · next h' =>
      rw [lt_iff_toInt_lt] at h'
      omega
    · next h' =>
      rw [lt_iff_toInt_lt] at h'
      have hleft : (limit - used - reserved).toInt = (limit - used).toInt - reserved.toInt :=
        toInt_sub_of_le (by omega) (by omega)
      omega

theorem toInt_saturatingAdd {a b : Int64} (ha : 0 ≤ a.toInt) (hb : 0 ≤ b.toInt) :
    (saturatingAdd a b).toInt = min (a.toInt + b.toInt) (2 ^ 63 - 1) := by
  have hmax := toInt_maxInt64
  have hzero : (0 : Int64).toInt = 0 := rfl
  have hroom : (maxInt64 - b).toInt = maxInt64.toInt - b.toInt :=
    toInt_sub_of_le (by have := b.toInt_lt; omega) (by omega)
  unfold saturatingAdd
  simp only [lt_iff_toInt_lt]
  split
  · next h => omega
  · next h =>
    have ha' := a.toInt_lt
    rw [toInt_add_of_le (by omega) (by omega)]
    omega

/-! ### The ledger -/

/-- What a method refuses with. -/
inductive BudgetError
  | budgetExceeded
  | reservationNotFound
  | reservationClosed
  | invalidLimit
  deriving DecidableEq, Repr

structure Limit where
  key : String
  amount : Int64
  deriving DecidableEq

structure Reservation where
  id : String
  key : String
  reserved : Int64
  settled : Int64 := 0
  closed : Bool := false
  deriving DecidableEq

structure Alert where
  key : String
  threshold : Int64
  used : Int64
  limit : Int64
  deriving DecidableEq

structure Ledger where
  limits : Map String Limit := ∅
  used : Map String Int64 := ∅
  reserved : Map String Int64 := ∅
  reservations : Map String Reservation := ∅
  alerted : Map String (Map Int64 Bool) := ∅

def newLedger (limits : List Limit) : Except BudgetError Ledger :=
  limits.foldlM (fun l limit =>
    if limit.key = "" ∨ limit.amount < 0 then .error .invalidLimit
    else .ok { l with limits := l.limits.insert limit.key limit }) {}

namespace Ledger

/-- `l.used[key]`. -/
def usedOf (l : Ledger) (key : String) : Int64 := (l.used.lookup key).getD 0

/-- `l.reserved[key]`. -/
def reservedOf (l : Ledger) (key : String) : Int64 := (l.reserved.lookup key).getD 0

def reserve (l : Ledger) (id key : String) (amount : Int64) :
    Ledger × Except BudgetError Reservation :=
  if id = "" ∨ key = "" ∨ amount ≤ 0 then (l, .error .budgetExceeded)
  else if (l.reservations.lookup id).isSome then (l, .error .reservationClosed)
  else
    match l.limits.lookup key with
    | none => (l, .error .budgetExceeded)
    | some limit =>
      if remainingBudget limit.amount (l.usedOf key) (l.reservedOf key) < amount then
        (l, .error .budgetExceeded)
      else
        let r : Reservation := { id := id, key := key, reserved := amount }
        ({ l with
            reservations := l.reservations.insert id r
            reserved := l.reserved.insert key (l.reservedOf key + amount) }, .ok r)

/-- The body of the loop of `alertsLocked`. -/
def alertAt (key : String) (used limit : Int64) (acc : Ledger × List Alert) (threshold : Int64) :
    Ledger × List Alert :=
  let (l, out) := acc
  let raised := (l.alerted.lookup key).getD ∅
  if thresholdReached used limit threshold && !(raised.lookup threshold).getD false then
    ({ l with alerted := l.alerted.insert key (raised.insert threshold true) },
      out ++ [{ key := key, threshold := threshold, used := used, limit := limit }])
  else (l, out)

def alertsLocked (l : Ledger) (key : String) : Ledger × List Alert :=
  let limit := ((l.limits.lookup key).map (·.amount)).getD 0
  if limit ≤ 0 then (l, [])
  else
    let (l, out) := [50, 80, 95, 100].foldl (alertAt key (l.usedOf key) limit) (l, [])
    (l, out.mergeSort fun a b => a.threshold ≤ b.threshold)

def settle (l : Ledger) (id : String) (actual : Int64) :
    Ledger × Except BudgetError (List Alert) :=
  let actual := if actual < 0 then 0 else actual
  match l.reservations.lookup id with
  | none => (l, .error .reservationNotFound)
  | some r =>
    if r.closed then (l, .error .reservationClosed)
    else
      let l := { l with reserved := l.reserved.insert r.key (l.reservedOf r.key - r.reserved) }
      let l := { l with used := l.used.insert r.key (saturatingAdd (l.usedOf r.key) actual) }
      let r := { r with settled := actual, closed := true }
      let l := { l with reservations := l.reservations.insert id r }
      let (l, alerts) := l.alertsLocked r.key
      (l, .ok alerts)

def release (l : Ledger) (id : String) : Ledger × Except BudgetError Unit :=
  match l.reservations.lookup id with
  | none => (l, .error .reservationNotFound)
  | some r =>
    if r.closed then (l, .error .reservationClosed)
    else
      let l := { l with reserved := l.reserved.insert r.key (l.reservedOf r.key - r.reserved) }
      let r := { r with closed := true }
      ({ l with reservations := l.reservations.insert id r }, .ok ())

end Ledger

/-! ### The ledger as a machine -/

/-- A call of the ledger. -/
inductive Op
  | reserve (id key : String) (amount : Int64)
  | settle (id : String) (actual : Int64)
  | release (id : String)
  deriving DecidableEq

/-- What a call that succeeds returns. -/
inductive Reply
  | reservation (r : Reservation)
  | alerts (alerts : List Alert)
  | done
  deriving DecidableEq

/-- A call and what it returns. -/
def Ledger.step (l : Ledger) : Op → Ledger × Except BudgetError Reply
  | .reserve id key amount => let (l', r) := l.reserve id key amount; (l', r.map .reservation)
  | .settle id actual => let (l', r) := l.settle id actual; (l', r.map .alerts)
  | .release id => let (l', r) := l.release id; (l', r.map fun _ => .done)

end NexaRoute.Budget
