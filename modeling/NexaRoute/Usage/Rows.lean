import NexaRoute.Usage.Budget
import NexaRoute.Machine
import Mathlib.Algebra.BigOperators.Group.List.Basic
import Mathlib.Tactic.Linarith

/-!
# The ledger, row by row

A call on the ledger changes the row of its key and no other, and a row that was dropped reads like
one that was never used. `BudgetRow.step` is what a call does to the row; what is proved of rows
holds of ledgers by `row_step`.

## Main results

* `row_step` — a call changes the row of its key
-/

namespace NexaRoute.Usage

open Go Machine BudgetLedger BudgetRow Function

def Call.key : Call → String
  | .reserve k _ _ => k
  | .settle k _ _ => k
  | .release k _ => k
  | .snapshot k _ => k

/-- A row with a reservation more. -/
def BudgetRow.accept (row : BudgetRow) (id : UInt64) (res : BudgetReservation) : BudgetRow :=
  { row.delete id with
    reserved := row.reserved + res.amount
    reservations := (row.delete id).reservations ++ [(id, res)] }

/-- A row without one of its reservations, for which an amount is committed. -/
def BudgetRow.close (row : BudgetRow) (id : UInt64) (actual : ℚ) : BudgetRow :=
  if id = 0 then row
  else (row.get id).elim row fun res =>
    let row := snapReserved { row with reserved := row.reserved - res.amount }
    { row with committed := row.committed + actual }.delete id

/-- What a call does to the row of its key. -/
def BudgetRow.step (limit : ℚ) (seq : UInt64) (row : BudgetRow) : Call → BudgetRow
  | .reserve _ amount now =>
    if amount ≤ 0 ∨ limit ≤ 0 then row
    else
      let row := expireLocked row now
      if row.committed + row.reserved + amount > limit + budgetEpsilon then row
      else row.accept (seq + 1) ⟨amount, now⟩
  | .settle _ id actual => row.close id (max actual 0)
  | .release _ id => row.close id 0
  | .snapshot _ now => expireLocked row now

variable {limit : String → ℚ} {key : String} {id : UInt64} {l : BudgetLedger} {row : BudgetRow}
  {call : Call} (now : Time)

/-! ### Expiry -/

theorem foldl_expireOne (m : List (UInt64 × BudgetReservation)) (row : BudgetRow) :
    m.foldl (expireOne now) row =
      ⟨row.committed + ((m.filter (·.2.stale now)).map (·.2.amount)).sum,
        row.reserved - ((m.filter (·.2.stale now)).map (·.2.amount)).sum,
        row.reservations.filter fun e => e.1 ∉ (m.filter (·.2.stale now)).map (·.1)⟩ := by
  induction m generalizing row with
  | nil => simp
  | cons e m ih =>
    rw [List.foldl_cons, ih]
    by_cases he : e.2.stale now = true
    · simp only [expireOne, he, if_true, BudgetRow.delete, List.filter_cons, List.map_cons,
        List.sum_cons, List.filter_filter, BudgetRow.mk.injEq]
      refine ⟨by ring, by ring, ?_⟩
      refine List.filter_congr fun e' _ => ?_
      by_cases heq : e'.1 = e.1
      · simp [heq]
      · simp [bne, Bool.and_comm]
    · simp only [expireOne, he, Bool.false_eq_true, if_false, List.filter_cons]

theorem reservations_snapReserved : (snapReserved row).reservations = row.reservations := by
  unfold snapReserved
  split <;> rfl

theorem expireLocked_new : expireLocked .new now = .new := by
  unfold expireLocked snapReserved
  split <;> rfl

/-! ### Reading rows -/

theorem BudgetLedger.row_put : (l.put key row).row = Function.update l.row key row := by
  funext k
  by_cases hk : k = key
  · subst hk
    simp [BudgetLedger.row, BudgetLedger.put]
  · simp [BudgetLedger.row, BudgetLedger.put, hk]

theorem BudgetLedger.row_evictIfEmptyLocked :
    (l.evictIfEmptyLocked key row).row = Function.update l.row key row := by
  unfold BudgetLedger.evictIfEmptyLocked
  split
  · rename_i hempty
    obtain ⟨hc, hr, hl⟩ := hempty
    have hnew : row = .new := by
      cases row
      simp_all [BudgetRow.new]
    funext k
    by_cases hk : k = key
    · subst hk
      simp [BudgetLedger.row, hnew]
    · simp [BudgetLedger.row, hk]
  · exact row_put

theorem BudgetLedger.seq_evictIfEmptyLocked : (l.evictIfEmptyLocked key row).seq = l.seq := by
  unfold evictIfEmptyLocked
  split <;> rfl

theorem row_eq_new (h : l.rows key = none) : l.row key = .new := by rw [row, h]; rfl

theorem row_eq_of_rows (h : l.rows key = some row) : l.row key = row := by
  rw [BudgetLedger.row, h]
  rfl

theorem row_settle (actual : ℚ) :
    (l.settle key id actual).row =
      update l.row key ((l.row key).close id (max actual 0)) := by
  have hactual : (if actual < 0 then 0 else actual) = max actual 0 := by
    split
    · rw [max_eq_right (by linarith)]
    · rw [max_eq_left (by linarith)]
  unfold settle close
  split
  · rw [update_eq_self]
  · cases hrow : l.rows key with
    | none =>
      have hget : (l.row key).get id = none := by rw [row_eq_new hrow]; rfl
      rw [hget, Option.elim_none, update_eq_self]
    | some row =>
      rw [row_eq_of_rows hrow]
      cases hget : row.get id with
      | none =>
        simp only [hget, Option.elim_none]
        rw [← row_eq_of_rows hrow, update_eq_self]
      | some res =>
        simp only [hget, hactual]
        exact row_evictIfEmptyLocked

theorem release_eq_settle : l.release key id = l.settle key id 0 := by
  simp [release, settle]

theorem row_release :
    (l.release key id).row = update l.row key ((l.row key).close id 0) := by
  rw [release_eq_settle, row_settle, max_self]

theorem row_reserve (amount : ℚ) (now : Time) :
    (next (step limit) l (.reserve key amount now)).row =
      update l.row key
        ((l.row key).step (limit key) l.seq (.reserve key amount now)) := by
  unfold next BudgetLedger.step BudgetLedger.reserve BudgetRow.step
  by_cases hnoop : amount ≤ 0 ∨ limit key ≤ 0
  · simp only [if_pos hnoop]
    rw [update_eq_self]
  by_cases hover : (expireLocked (l.row key) now).committed +
      (expireLocked (l.row key) now).reserved + amount > limit key + budgetEpsilon
  · simp only [if_neg hnoop, if_pos hover]
    exact row_evictIfEmptyLocked
  · simp only [if_neg hnoop, if_neg hover]
    exact row_put

theorem row_snapshot : (next (BudgetLedger.step limit) l (.snapshot key now)).row =
      Function.update l.row key (expireLocked (l.row key) now) := by
  simp only [next, BudgetLedger.step, BudgetLedger.snapshot]
  cases hrow : l.rows key with
  | none => rw [row_eq_new hrow, expireLocked_new, ← row_eq_new hrow, Function.update_eq_self]
  | some row =>
    rw [row_eq_of_rows hrow]
    exact row_put

theorem snapshot_totals : (l.snapshot key now).2 =
      ((expireLocked (l.row key) now).committed, (expireLocked (l.row key) now).reserved) := by
  unfold snapshot
  cases hrow : l.rows key with
  | none =>
    rw [row_eq_new hrow, expireLocked_new]
    rfl
  | some row => rw [row_eq_of_rows hrow]

theorem row_step (call : Call) :
    (next (step limit) l call).row = update l.row call.key
      ((l.row call.key).step (limit call.key) l.seq call) := by
  cases call with
  | reserve k amount now => exact row_reserve amount now
  | settle k i actual => exact row_settle actual
  | release k i => exact row_release
  | snapshot k now => exact row_snapshot now

/-! ### The counter -/

theorem seq_settle (actual : ℚ) : (l.settle key id actual).seq = l.seq := by
  unfold settle
  split
  · rfl
  · cases l.rows key with
    | none => rfl
    | some row =>
      simp only
      cases row.get id with
      | none => rfl
      | some res => exact seq_evictIfEmptyLocked

theorem seq_release : (l.release key id).seq = l.seq := by rw [release_eq_settle, seq_settle]

theorem seq_snapshot {now : Time} : (l.snapshot key now).1.seq = l.seq := by
  unfold snapshot
  cases l.rows key <;> rfl

theorem seq_step : (next (step limit) l call).seq = l.seq ∨
    (next (step limit) l call).seq = l.seq + 1 := by
  cases call with
  | reserve k amount now =>
    unfold next BudgetLedger.step BudgetLedger.reserve
    by_cases hnoop : amount ≤ 0 ∨ limit k ≤ 0
    · exact .inl (by simp only [if_pos hnoop])
    by_cases hover : (expireLocked (l.row k) now).committed +
        (expireLocked (l.row k) now).reserved + amount > limit k + budgetEpsilon
    · simp only [if_neg hnoop, if_pos hover]
      exact .inl seq_evictIfEmptyLocked
    · exact .inr (by simp only [if_neg hnoop, if_neg hover])
  | settle k i actual => exact .inl (seq_settle actual)
  | release k i => exact .inl seq_release
  | snapshot k now => exact .inl seq_snapshot

section

variable {seq seq' : UInt64} {m n : ℕ}

theorem Room.mono (h : Room seq n) (hmn : m ≤ n) : Room seq m :=
  (Nat.add_le_add_left hmn _).trans_lt h

theorem Room.toNat_succ (h : Room seq 1) : (seq + 1).toNat = seq.toNat + 1 := by
  rw [UInt64.toNat_add, UInt64.toNat_one, Nat.mod_eq_of_lt h]

theorem Room.succ_ne_zero (h : Room seq 1) : seq + 1 ≠ 0 := by
  intro hzero
  have hnext := h.toNat_succ
  rw [hzero] at hnext
  exact Nat.succ_ne_zero _ hnext.symm

theorem Room.toNat_le (h : Room seq 1) (hseq : seq' = seq ∨ seq' = seq + 1) :
    seq.toNat ≤ seq'.toNat := by
  rcases hseq with rfl | rfl
  · exact le_rfl
  · rw [h.toNat_succ]
    exact Nat.le_succ _

theorem Room.step (h : Room seq (n + 1)) (hseq : seq' = seq ∨ seq' = seq + 1) : Room seq' n := by
  have hnext := (h.mono (Nat.le_add_left 1 n)).toNat_succ
  unfold Room at h ⊢
  rcases hseq with rfl | rfl <;> omega

theorem Room.guarded {calls : List Call} (h : Room l.seq calls.length) :
    Guarded (next (BudgetLedger.step limit)) (fun l _ => Room l.seq 1) l calls := by
  induction calls generalizing l with
  | nil => exact guarded_nil
  | cons call calls ih => exact ⟨h.mono (Nat.le_add_left 1 _), ih (h.step seq_step)⟩

theorem Room.run {calls : List Call} (h : Room l.seq (calls.length + n)) :
    Room (Machine.run (next (BudgetLedger.step limit)) l calls).seq n := by
  induction calls generalizing l with
  | nil => rwa [List.length_nil, Nat.zero_add] at h
  | cons call calls ih =>
    rw [List.length_cons, Nat.add_right_comm] at h
    exact ih (h.step seq_step)

end

theorem BudgetLedger.reserve_new_ok (key : String) {limit amount : ℚ} (h : amount ≤ limit)
    (now : Time) : (new.reserve key limit amount now).2.2 = true := by
  have hrow : new.row key = .new := rfl
  have hle :
      ¬ BudgetRow.new.committed + BudgetRow.new.reserved + amount > limit + budgetEpsilon := by
    show ¬ (0 : ℚ) + 0 + amount > limit + 1 / 1000000000
    linarith
  unfold reserve
  split
  · rfl
  · simp only [hrow, expireLocked_new]
    rw [if_neg hle]

end NexaRoute.Usage
