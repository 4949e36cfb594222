import NexaRoute.Usage.Accounts

/-!
# What a reservation is charged

A reservation turns into committed spend in one of two ways: it is settled, or a later call looks at
the row of its key when the reservation is stale. The calls of other requests never settle or
release it, so what becomes of it is a question of when they look.

What is committed because of a reservation is told by comparison: a call is made on the ledger as it
is, and on the ledger in which the reservation was released just before.

## Main results

* `Stands.committed_step` — what a call of another request commits for a reservation
* `Stands.uncharged_some_iff`, `Stands.uncharged_none` — whole sequences of calls
-/

namespace NexaRoute.Usage

open Go Machine List BudgetRow Call

/-- When a call looks at the row of its key, and what is stale then expires. -/
def Call.looksAt (limit : ℚ) : Call → Option Time
  | .reserve _ amount now => if 0 < amount ∧ 0 < limit then some now else none
  | .snapshot _ now => some now
  | _ => none

/-- A call of another request: it has no business with the reservation. -/
def Call.Foreign (key : String) (id : UInt64) : Call → Prop
  | .settle k i _ => ¬(k = key ∧ i = id)
  | .release k i => ¬(k = key ∧ i = id)
  | _ => True

instance (key : String) (id : UInt64) : DecidablePred (Call.Foreign key id)
  | .settle k i _ => inferInstanceAs (Decidable (¬(k = key ∧ i = id)))
  | .release k i => inferInstanceAs (Decidable (¬(k = key ∧ i = id)))
  | .reserve .. => isTrue trivial
  | .snapshot .. => isTrue trivial

variable {limit : String → ℚ} {key : String} {id : UInt64} {l : BudgetLedger} {row : BudgetRow}
  {res : BudgetReservation} {call : Call} {calls : List Call} {o : Option BudgetReservation}

/-! ### Looks at a row -/

theorem BudgetRow.step_of_looksAt {limit : ℚ} {now : Time} (h : call.looksAt limit = some now)
    (seq : UInt64) :
    row.step limit seq call = expireLocked row now ∨
      ∃ res, row.step limit seq call = (expireLocked row now).accept (seq + 1) res := by
  cases call with
  | reserve k amount t =>
    obtain ⟨⟨hamount, hlimit⟩, ht⟩ := Option.ite_none_right_eq_some.mp h
    cases ht
    simp only [step, not_le.mpr hamount, not_le.mpr hlimit, or_self, if_false]
    split
    · exact .inl rfl
    · exact .inr ⟨_, rfl⟩
  | snapshot k t =>
    cases h
    exact .inl rfl
  | settle k i actual | release k i => cases h

theorem BudgetRow.step_reserve_of_looksAt_eq_none {limit amount : ℚ} {now : Time}
    (h : (reserve key amount now).looksAt limit = none) (seq : UInt64) :
    row.step limit seq (.reserve key amount now) = row := by
  have hnot : ¬(0 < amount ∧ 0 < limit) := by
    intro hpos
    rw [looksAt, if_pos hpos] at h
    cases h
  rw [step, if_pos (by rwa [not_and_or, not_lt, not_lt] at hnot)]

/-! ### What becomes of one reservation -/

def BudgetRow.Holds (row : BudgetRow) (id : UInt64) (o : Option BudgetReservation) : Prop :=
  row.reservations.filter (·.1 == id) = (o.map fun res => (id, res)).toList

theorem BudgetRow.Holds.get_eq (h : row.Holds id o) : row.get id = o := by
  rw [get, ← head?_filter, h]
  cases o <;> rfl

theorem BudgetRow.Holds.mono {row' : BudgetRow} (h : row.Holds id o)
    (heq : row'.reservations.filter (·.1 == id) = row.reservations.filter (·.1 == id)) :
    row'.Holds id o := heq.trans h

theorem filter_bne_filter_beq {i : UInt64} (hi : i ≠ id) (m : List (UInt64 × BudgetReservation)) :
    (m.filter (·.1 != i)).filter (·.1 == id) = m.filter (·.1 == id) := by
  rw [filter_filter]
  refine filter_congr fun e _ => ?_
  by_cases he : e.1 = id
  · simp [he, hi.symm]
  · simp [he]

theorem BudgetRow.Holds.accept {i : UInt64} (h : row.Holds id o) (hi : i ≠ id)
    (res : BudgetReservation) : (row.accept i res).Holds id o := by
  refine h.mono ?_
  show (row.reservations.filter (·.1 != i) ++ [(i, res)]).filter (·.1 == id) = _
  rw [filter_append, filter_bne_filter_beq hi]
  simp [hi]

theorem BudgetRow.Holds.close {i : UInt64} (h : row.Holds id o) (hi : i ≠ id) (actual : ℚ) :
    (row.close i actual).Holds id o := by
  unfold BudgetRow.close
  split
  · exact h
  · cases row.get i with
    | none => exact h
    | some res =>
      refine h.mono ?_
      simp only [Option.elim_some, delete, reservations_snapReserved]
      exact filter_bne_filter_beq hi _

theorem BudgetRow.Holds.expire (h : row.Holds id o) (now : Time) :
    (expireLocked row now).Holds id (o.filter fun res => !res.stale now) := by
  unfold BudgetRow.Holds
  rw [expireLocked, reservations_snapReserved, foldl_expireOne, filter_comm, h]
  cases o with
  | none => rfl
  | some res =>
    -- Entries are deleted by identifier, and this one has its identifier for itself.
    have hmem : id ∈ (row.reservations.filter (·.2.stale now)).map (·.1) ↔
        res.stale now = true := by
      have hentry : ∀ e, e ∈ row.reservations ∧ e.1 = id ↔ e = (id, res) := by
        intro e
        have := congrArg (e ∈ ·) h
        simpa using this
      constructor
      · intro hid
        obtain ⟨e, he, rfl⟩ := mem_map.mp hid
        obtain ⟨hin, hstale⟩ := mem_filter.mp he
        rw [(hentry e).mp ⟨hin, rfl⟩] at hstale
        exact hstale
      · intro hstale
        have hin := ((hentry (id, res)).mpr rfl).1
        exact mem_map.mpr ⟨(id, res), mem_filter.mpr ⟨hin, hstale⟩, rfl⟩
    by_cases hstale : res.stale now = true
    · simp [hmem.mpr hstale, hstale]
    · simp [mt hmem.mp hstale, hstale, Option.filter]

theorem BudgetRow.Holds.step {limit : ℚ} {seq : UInt64} (h : row.Holds id o) (hseq : seq + 1 ≠ id)
    (hforeign : call.Foreign call.key id) :
    (row.step limit seq call).Holds id
      (o.filter fun res => !(call.looksAt limit).any res.stale) := by
  cases hlook : call.looksAt limit with
  | some now =>
    have hexpire := h.expire now
    rcases step_of_looksAt hlook seq with heq | ⟨res, heq⟩ <;> rw [heq]
    · exact hexpire
    · exact hexpire.accept hseq res
  | none =>
    have hkeep : (o.filter fun res => !(none : Option Time).any res.stale) = o := by
      cases o <;> rfl
    rw [hkeep]
    cases call with
    | reserve k amount now => rwa [step_reserve_of_looksAt_eq_none hlook]
    | settle k i actual | release k i => exact h.close (fun hi => hforeign ⟨rfl, hi⟩) _
    | snapshot k now => cases hlook

/-! ### What a call commits -/

/-- What expires of a reservation when its row is looked at, or not. -/
def expiring (o : Option BudgetReservation) (look : Option Time) : ℚ :=
  o.elim 0 fun res => if look.any res.stale then res.amount else 0

theorem expiring_none_right : expiring o none = 0 := by cases o <;> rfl

/-- What is stale in a row at some time. -/
def BudgetRow.staleAmount (row : BudgetRow) (now : Time) : ℚ :=
  ((row.reservations.filter (·.2.stale now)).map (·.2.amount)).sum

theorem committed_snapReserved : (snapReserved row).committed = row.committed := by
  unfold snapReserved
  split <;> rfl

theorem committed_close {i : UInt64} {actual : ℚ} : (row.close i actual).committed =
    row.committed + if i ≠ 0 ∧ (row.get i).isSome then actual else 0 := by
  unfold BudgetRow.close
  by_cases hi : i = 0
  · simp [hi]
  · cases row.get i <;> simp [hi, delete, committed_snapReserved]

theorem committed_expireLocked (now : Time) :
    (expireLocked row now).committed = row.committed + row.staleAmount now := by
  rw [expireLocked, committed_snapReserved, foldl_expireOne, staleAmount]

theorem committed_step_of_looksAt {limit : ℚ} {now : Time} (h : call.looksAt limit = some now)
    (seq : UInt64) : (row.step limit seq call).committed = row.committed + row.staleAmount now := by
  rcases step_of_looksAt h seq with heq | ⟨res, heq⟩ <;> rw [heq]
  · exact committed_expireLocked now
  · exact committed_expireLocked now

/-- A released reservation is no longer among those of its row, and nothing else is different. -/
theorem BudgetRow.Holds.close_self (h : row.Holds id o) (hid : id ≠ 0) :
    (row.close id 0).committed = row.committed ∧
      (row.close id 0).reservations = row.reservations.filter (·.1 != id) := by
  refine ⟨by rw [committed_close, ite_self, add_zero], ?_⟩
  rw [BudgetRow.close, if_neg hid, h.get_eq]
  cases o with
  | none =>
    refine (filter_eq_self.mpr fun e he => ?_).symm
    have hempty : row.reservations.filter (·.1 == id) = [] := h
    simpa using filter_eq_nil_iff.mp hempty e he
  | some res => simp [delete, reservations_snapReserved]

theorem BudgetRow.Holds.staleAmount_close (h : row.Holds id o) (hid : id ≠ 0) (now : Time) :
    row.staleAmount now =
      (row.close id 0).staleAmount now + expiring o (some now) := by
  have hperm := (filter_append_perm (·.1 == id) row.reservations).filter (·.2.stale now)
  have hsum := (hperm.map (·.2.amount)).sum_eq
  rw [filter_append, map_append, sum_append, h] at hsum
  have hrest : row.reservations.filter (fun e => !(e.1 == id)) = (row.close id 0).reservations :=
    (h.close_self hid).2.symm
  rw [staleAmount, ← hsum, hrest, add_comm, staleAmount]
  congr 1
  cases o with
  | none => rfl
  | some res => by_cases hstale : res.stale now = true <;> simp [expiring, hstale]

theorem BudgetRow.Holds.get_close (h : row.Holds id o) (hid : id ≠ 0) {i : UInt64} (hi : i ≠ id) :
    (row.close id 0).get i = row.get i := by
  rw [get, get, (h.close_self hid).2, find?_filter]
  congr 2
  funext e
  by_cases he : e.1 = i
  · simp [he, hi]
  · simp [he]

theorem BudgetRow.Holds.committed_step {limit : ℚ} {seq : UInt64} (h : row.Holds id o) (hid : id ≠ 0)
    (hforeign : call.Foreign call.key id) :
    (row.step limit seq call).committed = ((row.close id 0).step limit seq call).committed +
      expiring o (call.looksAt limit) := by
  cases hlook : call.looksAt limit with
  | some now =>
    rw [committed_step_of_looksAt hlook, committed_step_of_looksAt hlook,
      h.staleAmount_close hid now, (h.close_self hid).1, add_assoc]
  | none =>
    rw [expiring_none_right, add_zero]
    cases call with
    | reserve k amount now =>
      rw [step_reserve_of_looksAt_eq_none hlook, step_reserve_of_looksAt_eq_none hlook,
        (h.close_self hid).1]
    | settle k i actual | release k i =>
      have hi : i ≠ id := fun hi => hforeign ⟨rfl, hi⟩
      simp only [BudgetRow.step, committed_close (i := i), h.get_close hid hi, (h.close_self hid).1]
    | snapshot k now => cases hlook

/-! ### Ledgers -/

/-- When a call looks at the row of a key. -/
def Call.looks (limit : String → ℚ) (key : String) (call : Call) : Option Time :=
  if call.key = key then call.looksAt (limit key) else none

/-- A reservation was made under an identifier, and this is what is left of it. -/
structure Stands (key : String) (id : UInt64) (o : Option BudgetReservation) (l : BudgetLedger) :
    Prop where
  seq : id.toNat ≤ l.seq.toNat
  row : (l.row key).Holds id o

theorem Stands.of_reserve {l' : BudgetLedger} {limit amount : ℚ} {now : Time}
    (h : l.reserve key limit amount now = (l', id, true)) (hlimit : 0 < limit)
    (hamount : 0 < amount) : id = l.seq + 1 ∧ Stands key id (some ⟨amount, now⟩) l' := by
  unfold BudgetLedger.reserve at h
  rw [if_neg (by rw [not_or, not_le, not_le]; exact ⟨hamount, hlimit⟩)] at h
  dsimp only at h
  split at h <;> cases h
  refine ⟨rfl, le_rfl, ?_⟩
  have hrow : ∀ row, BudgetLedger.row { l.put key row with seq := l.seq + 1 } key = row := by
    intro row
    show (l.put key row).row key = row
    rw [BudgetLedger.row_put, Function.update_self]
  rw [hrow]
  simp [BudgetRow.Holds, delete]

/-- **One call** of another request. -/
theorem Stands.step (h : Stands key id o l) (hroom : Room l.seq 1)
    (hforeign : call.Foreign key id) :
    Stands key id (o.filter fun res => !(call.looks limit key).any res.stale)
      (next (BudgetLedger.step limit) l call) := by
  have hnew : l.seq + 1 ≠ id := by
    rintro rfl
    have hle := h.seq
    rw [hroom.toNat_succ] at hle
    omega
  refine ⟨h.seq.trans (hroom.toNat_le seq_step), ?_⟩
  rw [row_step]
  by_cases hkey : call.key = key
  · subst hkey
    rw [Function.update_self, looks, if_pos rfl]
    exact h.row.step hnew hforeign
  · rw [Function.update_of_ne (Ne.symm hkey), looks, if_neg hkey]
    have hkeep : (o.filter fun res => !(none : Option Time).any res.stale) = o := by
      cases o <;> rfl
    rw [hkeep]
    exact h.row

/-- What a call commits for a reservation, if anything: the committed spend of the key afterwards,
and what it were had the reservation been released before the call. -/
def Commits (limit : String → ℚ) (key : String) (id : UInt64) (l : BudgetLedger) (call : Call) (x : ℚ) :
    Prop :=
  ((next (BudgetLedger.step limit) l call).row key).committed =
    ((next (BudgetLedger.step limit) (l.release key id) call).row key).committed + x

/-- **One call** commits for a reservation of another request its amount if it finds it stale, and
nothing otherwise. -/
theorem Stands.committed_step (h : Stands key id o l) (hid : id ≠ 0)
    (hforeign : call.Foreign key id) :
    Commits limit key id l call (expiring o (call.looks limit key)) := by
  rw [Commits, row_step, row_step, row_release, seq_release]
  by_cases hkey : call.key = key
  · subst hkey
    rw [Function.update_self, Function.update_self, Function.update_self, looks, if_pos rfl]
    exact h.row.committed_step hid hforeign
  · rw [Function.update_of_ne (Ne.symm hkey), Function.update_of_ne (Ne.symm hkey),
      Function.update_self, looks, if_neg hkey, expiring_none_right, (h.row.close_self hid).1, add_zero]

/-- The release of a reservation commits nothing. -/
theorem commits_release : Commits limit key id l (.release key id) 0 := by
  have hrow : ∀ l : BudgetLedger,
      ((next (BudgetLedger.step limit) l (.release key id)).row key).committed =
        (l.row key).committed := by
    intro l
    show ((l.release key id).row key).committed = _
    rw [row_release, Function.update_self, committed_close, ite_self, add_zero]
  rw [Commits, hrow, hrow, row_release, Function.update_self, committed_close, ite_self, add_zero,
    add_zero]

/-- No call of a run commits anything for a reservation. -/
def Uncharged (limit : String → ℚ) (key : String) (id : UInt64) (l : BudgetLedger)
    (calls : List Call) : Prop :=
  Guarded (next (BudgetLedger.step limit)) (Commits limit key id · · 0) l calls

theorem Stands.uncharged_none (h : Stands key id none l) (hid : id ≠ 0)
    (hroom : Room l.seq calls.length) (hforeign : ∀ call ∈ calls, call.Foreign key id) :
    Uncharged limit key id l calls := by
  induction calls generalizing l with
  | nil => exact guarded_nil
  | cons call calls ih =>
    have hcall := hforeign call mem_cons_self
    have hone : Room l.seq 1 := hroom.mono (Nat.le_add_left 1 _)
    refine ⟨h.committed_step hid hcall, ih (h.step hone hcall) (hroom.step seq_step) ?_⟩
    exact fun c hc => hforeign c (mem_cons_of_mem call hc)

theorem Stands.uncharged_some_iff (h : Stands key id (some res) l) (hid : id ≠ 0)
    (hpos : 0 < res.amount) (hroom : Room l.seq calls.length)
    (hforeign : ∀ call ∈ calls, call.Foreign key id) :
    Uncharged limit key id l calls ↔
      ∀ call ∈ calls, (call.looks limit key).any res.stale = false := by
  induction calls generalizing l with
  | nil => simp [Uncharged]
  | cons call calls ih =>
    have hcall := hforeign call mem_cons_self
    have hcommits : Commits limit key id l call _ := h.committed_step hid hcall
    rw [Uncharged, guarded_cons, forall_mem_cons]
    by_cases hstale : (call.looks limit key).any res.stale = true
    · have hcharged : ¬Commits limit key id l call 0 := by
        unfold Commits at hcommits ⊢
        rw [hcommits]
        simp [expiring, hstale, hpos.ne']
      simp [hcharged, hstale]
    · have hfree : Commits limit key id l call 0 := by
        simpa [expiring, hstale] using hcommits
      have hstep : Stands key id _ (next (BudgetLedger.step limit) l call) :=
        h.step (hroom.mono (Nat.le_add_left 1 _)) hcall
      simp only [hstale, Option.filter_some, Bool.not_false, if_true] at hstep
      have hrest := ih hstep (hroom.step seq_step) fun c hc =>
        hforeign c (mem_cons_of_mem call hc)
      simp only [hfree, hstale, true_and]
      exact hrest

theorem Stands.run_some (h : Stands key id (some res) l) (hroom : Room l.seq calls.length)
    (hforeign : ∀ call ∈ calls, call.Foreign key id)
    (htimely : ∀ call ∈ calls, (call.looks limit key).any res.stale = false) :
    Stands key id (some res) (run (next (BudgetLedger.step limit)) l calls) := by
  induction calls generalizing l with
  | nil => exact h
  | cons call calls ih =>
    have hstep : Stands key id _ (next (BudgetLedger.step limit) l call) :=
      h.step (hroom.mono (Nat.le_add_left 1 _)) (hforeign call mem_cons_self)
    have hstale := htimely call mem_cons_self
    simp only [hstale, Option.filter_some, Bool.not_false, if_true] at hstep
    refine ih hstep (hroom.step seq_step) (fun c hc => hforeign c (mem_cons_of_mem call hc)) ?_
    exact fun c hc => htimely c (mem_cons_of_mem call hc)

theorem Stands.release (h : Stands key id (some res) l) (hid : id ≠ 0) :
    Stands key id none (next (BudgetLedger.step limit) l (.release key id)) := by
  refine ⟨h.seq.trans (seq_release ▸ le_rfl), ?_⟩
  rw [row_step]
  show BudgetRow.Holds (Function.update l.row key _ key) id none
  rw [Function.update_self]
  show BudgetRow.Holds ((l.row key).close id 0) id none
  rw [close, if_neg hid, h.row.get_eq]
  simp [BudgetRow.Holds, delete]

end NexaRoute.Usage
