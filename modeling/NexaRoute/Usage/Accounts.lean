import NexaRoute.Usage.Rows
import NexaRoute.Escrow

/-!
# What the ledger accounts for

The ledger keeps running totals, commits what has expired only when a key is next looked at, rounds
small remainders away and drops rows that are empty. Beside it runs a book that forgets nothing: of
every admitted reservation it keeps the amount and what became of it. The two give the same answers
to every sequence of calls, and the totals of a row are sums over the book.

## Main results

* `ledger_accounts` — totals are sums over the book
-/

namespace NexaRoute.Usage

open Go Escrow Machine List Function

/-- The reservations of a key, in the order of their admission. -/
abbrev Account := List (Hold UInt64 ℚ Time)

/-- The book: every admitted reservation of every key. -/
structure Book where
  seq : UInt64
  accounts : String → Account

def Book.new : Book := ⟨0, fun _ => []⟩

/-- Replace the account of a key. -/
def Book.put (b : Book) (key : String) (a : Account) : Book :=
  { b with accounts := Function.update b.accounts key a }

/-- Whether a hold has stood for its whole time. -/
def stale (now : Time) (h : Hold UInt64 ℚ Time) : Bool := decide (now - h.since ≥ budgetReservationTTL)

/-- An account when its stale holds have expired. -/
def expire (now : Time) (a : Account) : Account := conclude (stale now) .expired a

/-- One call. A hold is settled or released only while it is live, so the first settlement
counts. -/
def Book.step (limit : String → ℚ) (b : Book) : Call → Book × Answer
  | .reserve key amount now =>
    if amount ≤ 0 ∨ limit key ≤ 0 then (b, .reserved 0 true)
    else
      let a := expire now (b.accounts key)
      if spent a + held a + amount > limit key + budgetEpsilon then
        (b.put key a, .reserved 0 false)
      else
        ({ b.put key (a ++ [⟨b.seq + 1, amount, now, .live⟩]) with seq := b.seq + 1 },
          .reserved (b.seq + 1) true)
  | .settle key id actual =>
    (b.put key (concludeId id (.settled (max actual 0)) (b.accounts key)), .done)
  | .release key id => (b.put key (concludeId id .released (b.accounts key)), .done)
  | .snapshot key now =>
    let a := expire now (b.accounts key)
    (b.put key a, .totals (spent a) (held a))

/-! ### Rows and accounts -/

/-- A live hold as the ledger stores it. -/
def entry (h : Hold UInt64 ℚ Time) : UInt64 × BudgetReservation := (h.id, ⟨h.amount, h.since⟩)

/-- The totals of a row are the sums of an account, and its reservations are the live holds. -/
structure RowMirrors (row : BudgetRow) (a : Account) : Prop where
  committed : row.committed = spent a
  reserved : row.reserved = held a
  reservations : row.reservations = (live a).map entry

/-- An account that can come about: identifiers are not used twice, and no hold is so small that
rounding would lose it. -/
structure Account.Sound (a : Account) : Prop where
  nodup : (a.map Hold.id).Nodup
  amount : ∀ h ∈ a, budgetEpsilon ≤ h.amount

variable {row : BudgetRow} {a : Account} {now : Time} {id : UInt64} {h : Hold UInt64 ℚ Time}
  {fate : Fate ℚ} {select : Hold UInt64 ℚ Time → Bool}

theorem budgetEpsilon_pos : 0 < budgetEpsilon := by norm_num [budgetEpsilon]

theorem Account.Sound.conclude (ha : Account.Sound a) : Account.Sound (conclude select fate a) where
  nodup := by rw [map_id_conclude]; exact ha.nodup
  amount h hh := by
    obtain ⟨h', hh', rfl⟩ := mem_map.mp hh
    rw [Hold.amount_conclude]
    exact ha.amount h' hh'

theorem Account.Sound.held_cases (ha : Account.Sound a) : held a = 0 ∨ budgetEpsilon ≤ held a := by
  rw [held_eq_sum_live]
  cases hlive : live a with
  | nil => exact .inl rfl
  | cons h l =>
    right
    have hall : ∀ h' ∈ h :: l, budgetEpsilon ≤ h'.amount := by
      intro h' hh'
      rw [← hlive] at hh'
      exact ha.amount h' (mem_of_mem_filter hh')
    have hrest : 0 ≤ (l.map Hold.amount).sum := by
      refine sum_nonneg fun x hx => ?_
      obtain ⟨h', hh', rfl⟩ := mem_map.mp hx
      exact budgetEpsilon_pos.le.trans (hall h' (mem_cons_of_mem h hh'))
    have hhead := hall h mem_cons_self
    rw [map_cons, sum_cons]
    linarith

theorem snapReserved_eq (ha : Account.Sound a) (hr : row.reserved = held a) :
    snapReserved row = row := by
  unfold snapReserved
  split
  · rename_i hsmall
    have hzero : row.reserved = 0 := by
      rcases ha.held_cases with h | h
      · rw [hr, h]
      · rw [← hr] at h
        exact absurd hsmall.1 (not_lt.mpr h)
    rw [← hzero]
  · rfl

/-! ### Expiry -/

theorem nodup_entries (ha : Account.Sound a) (hr : row.reservations = (live a).map entry) :
    (row.reservations.map (·.1)).Nodup := by
  rw [hr, map_map]
  exact ha.nodup.sublist (List.Sublist.map Hold.id filter_sublist)

theorem filter_notMem_stale (hnodup : (row.reservations.map (·.1)).Nodup) (now : Time) :
    (row.reservations.filter fun e =>
      e.1 ∉ (row.reservations.filter (·.2.stale now)).map (·.1)) =
      row.reservations.filter fun e => !e.2.stale now := by
  refine filter_congr fun e he => ?_
  by_cases hs : e.2.stale now = true
  · have hmem : e.1 ∈ (row.reservations.filter (·.2.stale now)).map (·.1) :=
      mem_map_of_mem (mem_filter.mpr ⟨he, hs⟩)
    simp [hmem, hs]
  · have hmem : e.1 ∉ (row.reservations.filter (·.2.stale now)).map (·.1) := by
      intro hmem
      obtain ⟨e', he', hid⟩ := mem_map.mp hmem
      obtain ⟨hin, hstale⟩ := mem_filter.mp he'
      rw [Keyed.eq_of_key_eq hnodup hin he hid] at hstale
      exact hs hstale
    simp [hmem, hs]

theorem RowMirrors.expire (hm : RowMirrors row a) (ha : Account.Sound a) (now : Time) :
    RowMirrors (expireLocked row now) (expire now a) := by
  have hstale : (row.reservations.filter (·.2.stale now)).map (·.2.amount) =
      ((live a).filter (stale now)).map Hold.amount := by
    rw [hm.reservations, filter_map, map_map]
    rfl
  have hfold : RowMirrors (row.reservations.foldl (expireOne now) row) (Usage.expire now a) := by
    rw [foldl_expireOne, hstale, filter_notMem_stale (nodup_entries ha hm.reservations)]
    refine ⟨?_, ?_, ?_⟩
    · rw [hm.committed, Usage.expire, spent_conclude]
      rfl
    · have hheld : held (conclude (stale now) .expired a) + _ = held a := held_conclude (by simp)
      simp only [hm.reserved, Usage.expire]
      linarith
    · simp only [hm.reservations, Usage.expire]
      rw [live_conclude (by simp), filter_map]
      rfl
  have hsnap : expireLocked row now = row.reservations.foldl (expireOne now) row :=
    snapReserved_eq ha.conclude hfold.reserved
  rw [hsnap]
  exact hfold

/-! ### Settling and releasing -/

section

variable (hm : RowMirrors row a)

include hm

theorem RowMirrors.get_eq (id : UInt64) : row.get id = (find a id).map fun h => ⟨h.amount, h.since⟩ := by
  rw [BudgetRow.get, hm.reservations, find?_map, Option.map_map]
  rfl

theorem RowMirrors.conclude (ha : Account.Sound a)
    (hf : find a id = some h) (hfate : fate ≠ .live) :
    RowMirrors
      ⟨row.committed + fate.value h.amount, row.reserved - h.amount, (row.delete id).reservations⟩
      (concludeId id fate a) := by
  have hselect := filter_live_eq_of_find ha.nodup hf
  refine ⟨?_, ?_, ?_⟩
  · rw [hm.committed, concludeId, spent_conclude, hselect]
    simp
  · have hheld : held (Escrow.conclude (·.id == id) fate a) + _ = held a := held_conclude hfate
    rw [hselect, map_singleton, sum_singleton] at hheld
    simp only [hm.reserved, concludeId]
    linarith
  · rw [BudgetRow.delete, concludeId, live_conclude hfate, hm.reservations, filter_map]
    rfl

theorem RowMirrors.close (ha : Account.Sound a) (hzero : find a 0 = none)
    {actual : ℚ} (hfate : fate ≠ .live) (hvalue : ∀ amount, fate.value amount = actual) (id : UInt64) :
    RowMirrors (row.close id actual) (concludeId id fate a) := by
  have hget := hm.get_eq id
  cases hf : find a id with
  | none =>
    -- What was settled, released or has expired before stays as it is.
    have hsame : row.close id actual = row := by
      rw [BudgetRow.close, hget, hf]
      exact ite_self row
    rw [concludeId_of_find_eq_none hf, hsame]
    exact hm
  | some h =>
    have hid : id ≠ 0 := by
      rintro rfl
      rw [hzero] at hf
      cases hf
    have hconcluded := hm.conclude ha hf hfate
    have hsnap : snapReserved { row with reserved := row.reserved - h.amount } =
        { row with reserved := row.reserved - h.amount } :=
      snapReserved_eq ha.conclude hconcluded.reserved
    have hclosed : row.close id actual =
        ⟨row.committed + fate.value h.amount, row.reserved - h.amount,
          (row.delete id).reservations⟩ := by
      rw [BudgetRow.close, if_neg hid, hget, hf, hvalue]
      simp only [Option.map_some, Option.elim_some]
      rw [hsnap]
      rfl
    rw [hclosed]
    exact hconcluded

theorem RowMirrors.delete_fresh (hfresh : ∀ h ∈ a, h.id ≠ id) : row.delete id = row := by
  have hkeep : row.reservations.filter (·.1 != id) = row.reservations := by
    refine filter_eq_self.mpr fun e he => ?_
    rw [hm.reservations] at he
    obtain ⟨h, hh, rfl⟩ := mem_map.mp he
    simpa [entry] using hfresh h (mem_of_mem_filter hh)
  rw [BudgetRow.delete, hkeep]

theorem RowMirrors.accept (hfresh : ∀ h ∈ a, h.id ≠ id) (amount : ℚ) (now : Time) :
    RowMirrors (row.accept id ⟨amount, now⟩) (a ++ [⟨id, amount, now, .live⟩]) := by
  rw [BudgetRow.accept, hm.delete_fresh hfresh]
  refine ⟨?_, ?_, ?_⟩
  · rw [spent_append_singleton, hm.committed]
    exact (add_zero _).symm
  · rw [held_append_singleton, hm.reserved]
    rfl
  · rw [hm.reservations, live, live, filter_append, map_append]
    rfl

end

/-! ### One key -/

/-- The row of a key and its account, when `seq` identifiers were given out. -/
structure KeyMirrors (limit : ℚ) (seq : UInt64) (row : BudgetRow) (a : Account) : Prop where
  row : RowMirrors row a
  sound : Account.Sound a
  fresh : ∀ h ∈ a, 0 < h.id.toNat ∧ h.id.toNat ≤ seq.toNat
  within : balance a ≤ max limit 0 + budgetEpsilon

variable {cap amount : ℚ} {seq seq' : UInt64} {row' : BudgetRow}

section

variable (hk : KeyMirrors cap seq row a)

include hk

theorem KeyMirrors.mono (hle : seq.toNat ≤ seq'.toNat) : KeyMirrors cap seq' row a where
  row := hk.row
  sound := hk.sound
  fresh h hh := ⟨(hk.fresh h hh).1, (hk.fresh h hh).2.trans hle⟩
  within := hk.within

theorem KeyMirrors.find_zero : find a 0 = none := by
  rw [find, find?_eq_none]
  intro h hh hid
  have hpos := (hk.fresh h (mem_of_mem_filter hh)).1
  rw [beq_iff_eq.mp hid] at hpos
  exact lt_irrefl _ hpos

theorem KeyMirrors.conclude (hm : RowMirrors row' (conclude select fate a)) :
    KeyMirrors cap seq row' (conclude select fate a) where
  row := hm
  sound := hk.sound.conclude
  fresh h hh := by
    obtain ⟨h', hh', rfl⟩ := mem_map.mp hh
    rw [Hold.id_conclude]
    exact hk.fresh h' hh'
  within := by
    refine (balance_conclude_le fun h hh => ?_).trans hk.within
    exact budgetEpsilon_pos.le.trans (hk.sound.amount h hh)

theorem KeyMirrors.expire (now : Time) :
    KeyMirrors cap seq (expireLocked row now) (Usage.expire now a) :=
  hk.conclude (hk.row.expire hk.sound now)

theorem KeyMirrors.close {actual : ℚ} (hfate : fate ≠ .live)
    (hvalue : ∀ amount, fate.value amount = actual) (id : UInt64) :
    KeyMirrors cap seq (row.close id actual) (concludeId id fate a) :=
  hk.conclude (hk.row.close hk.sound hk.find_zero hfate hvalue id)

end

theorem Account.Sound.append (ha : Account.Sound a) (hfresh : ∀ h ∈ a, h.id ≠ id)
    (hamount : budgetEpsilon ≤ amount) (now : Time) :
    Account.Sound (a ++ [⟨id, amount, now, .live⟩]) := by
  constructor
  · rw [map_append, map_singleton, nodup_append]
    refine ⟨ha.nodup, nodup_singleton _, ?_⟩
    intro i hi j hj
    obtain ⟨h, hh, rfl⟩ := mem_map.mp hi
    rw [mem_singleton.mp hj]
    exact hfresh h hh
  · intro h hh
    rcases mem_append.mp hh with hh | hh
    · exact ha.amount h hh
    · rw [mem_singleton.mp hh]
      exact hamount

theorem KeyMirrors.accept (hk : KeyMirrors cap seq row a) (hseq : Room seq 1)
    (hamount : budgetEpsilon ≤ amount)
    (hroom : spent a + held a + amount ≤ cap + budgetEpsilon) (now : Time) :
    KeyMirrors cap (seq + 1) (row.accept (seq + 1) ⟨amount, now⟩)
      (a ++ [⟨seq + 1, amount, now, .live⟩]) := by
  have hnext := hseq.toNat_succ
  have hfresh : ∀ h ∈ a, h.id ≠ seq + 1 := by
    intro h hh heq
    have hle := (hk.fresh h hh).2
    rw [heq] at hle
    omega
  refine ⟨hk.row.accept hfresh amount now, hk.sound.append hfresh hamount now, ?_, ?_⟩
  · intro h hh
    rcases mem_append.mp hh with hh | hh
    · have := hk.fresh h hh
      omega
    · rw [mem_singleton.mp hh]
      exact ⟨hnext ▸ Nat.succ_pos _, le_rfl⟩
  · have hspent : spent (a ++ [⟨seq + 1, amount, now, .live⟩]) = spent a := by
      rw [spent_append_singleton]
      exact add_zero _
    have hheld : held (a ++ [⟨seq + 1, amount, now, .live⟩]) = held a + amount := by
      rw [held_append_singleton]
      rfl
    have hexcess : 0 ≤ excess (a ++ [⟨seq + 1, amount, now, .live⟩]) := excess_nonneg
    rw [balance_eq, hspent, hheld]
    linarith [le_max_left cap 0]

/-! ### Ledger and book -/

/-- The rows of a ledger are the sums of a book, and the book is one that can come about. -/
structure Mirrors (limit : String → ℚ) (l : BudgetLedger) (b : Book) : Prop where
  seq : l.seq = b.seq
  keys : ∀ key, KeyMirrors (limit key) l.seq (l.row key) (b.accounts key)

variable {limit : String → ℚ} {l l' : BudgetLedger} {b b' : Book} {key : String}

theorem Mirrors.update (hM : Mirrors limit l b) (hseq : l'.seq = b'.seq)
    (hle : l.seq.toNat ≤ l'.seq.toNat) (hrow : l'.row = update l.row key row)
    (haccounts : b'.accounts = update b.accounts key a)
    (hk : KeyMirrors (limit key) l'.seq row a) : Mirrors limit l' b' := by
  refine ⟨hseq, fun k => ?_⟩
  rw [hrow, haccounts]
  by_cases hkey : k = key
  · subst hkey
    rw [update_self, update_self]
    exact hk
  · rw [update_of_ne hkey, update_of_ne hkey]
    exact (hM.keys k).mono hle

theorem Mirrors.put (hM : Mirrors limit l b) (hseq : l'.seq = l.seq)
    (hrow : l'.row = Function.update l.row key row)
    (hk : KeyMirrors (limit key) l.seq row a) : Mirrors limit l' (b.put key a) :=
  hM.update (hseq.trans hM.seq) (hseq ▸ le_rfl) hrow rfl (by rwa [hseq])

/-! ### Every call -/

/-- A reservation is at least the rounding of the ledger. -/
def Call.Sound : Call → Prop
  | .reserve _ amount _ => amount ≤ 0 ∨ budgetEpsilon ≤ amount
  | _ => True

instance : DecidablePred Call.Sound
  | .reserve _ amount _ => inferInstanceAs (Decidable (amount ≤ 0 ∨ budgetEpsilon ≤ amount))
  | .settle .. => isTrue trivial
  | .release .. => isTrue trivial
  | .snapshot .. => isTrue trivial

theorem Mirrors.reserve (hM : Mirrors limit l b) (hroom : Room l.seq 1)
    (hsound : amount ≤ 0 ∨ budgetEpsilon ≤ amount) (key : String) (now : Time) :
    Mirrors limit (l.step limit (.reserve key amount now)).1
        (b.step limit (.reserve key amount now)).1 ∧
      (l.step limit (.reserve key amount now)).2 = (b.step limit (.reserve key amount now)).2 := by
  have hk := (hM.keys key).expire now
  simp only [BudgetLedger.step, BudgetLedger.reserve, Book.step]
  by_cases hnoop : amount ≤ 0 ∨ limit key ≤ 0
  · simp only [if_pos hnoop]
    exact ⟨hM, trivial⟩
  simp only [if_neg hnoop]
  by_cases hover : (expireLocked (l.row key) now).committed +
      (expireLocked (l.row key) now).reserved + amount > limit key + budgetEpsilon
  · have hover' := hover
    rw [hk.row.committed, hk.row.reserved] at hover'
    simp only [if_pos hover, if_pos hover']
    exact ⟨hM.put BudgetLedger.seq_evictIfEmptyLocked BudgetLedger.row_evictIfEmptyLocked hk,
      trivial⟩
  · have hover' := hover
    rw [hk.row.committed, hk.row.reserved] at hover'
    simp only [if_neg hover, if_neg hover']
    have hamount : budgetEpsilon ≤ amount := hsound.resolve_left fun h => hnoop (.inl h)
    have haccept := hk.accept hroom hamount (not_lt.mp hover') now
    rw [← hM.seq]
    exact ⟨hM.update rfl (hroom.toNat_le (.inr rfl)) BudgetLedger.row_put rfl haccept, rfl⟩

theorem Mirrors.snapshot (hM : Mirrors limit l b) (key : String) (now : Time) :
    Mirrors limit (l.step limit (.snapshot key now)).1 (b.step limit (.snapshot key now)).1 ∧
      (l.step limit (.snapshot key now)).2 = (b.step limit (.snapshot key now)).2 := by
  have hk := (hM.keys key).expire now
  refine ⟨hM.put seq_snapshot (row_snapshot now) hk, ?_⟩
  simp only [BudgetLedger.step, Book.step, snapshot_totals, hk.row.committed, hk.row.reserved]

/-- **One call.** Ledger and book stay together and answer alike. -/
theorem Mirrors.step (hM : Mirrors limit l b) (call : Call) (hsound : call.Sound)
    (hroom : Room l.seq 1) :
    Mirrors limit (l.step limit call).1 (b.step limit call).1 ∧
      (l.step limit call).2 = (b.step limit call).2 := by
  cases call with
  | reserve key amount now => exact hM.reserve hroom hsound key now
  | settle key id actual =>
    have hk : KeyMirrors _ _ _ (concludeId id (.settled (max actual 0)) (b.accounts key)) :=
      (hM.keys key).close (by simp) (fun _ => rfl) id
    exact ⟨hM.put (seq_settle actual) (row_settle actual) hk, rfl⟩
  | release key id =>
    have hk : KeyMirrors _ _ _ (concludeId id .released (b.accounts key)) :=
      (hM.keys key).close (by simp) (fun _ => rfl) id
    exact ⟨hM.put seq_release row_release hk, rfl⟩
  | snapshot key now => exact hM.snapshot key now

theorem mirrors_new (limit : String → ℚ) : Mirrors limit .new .new := by
  refine ⟨rfl, fun key => ⟨⟨rfl, rfl, rfl⟩, ⟨nodup_nil, ?_⟩, ?_, ?_⟩⟩
  · intro h hh
    cases hh
  · intro h hh
    cases hh
  · exact add_nonneg (le_max_right _ _) budgetEpsilon_pos.le

/-! ### Every sequence of calls -/

/-- What the answer to a call admits on a key: an identifier and an amount. -/
def admits (key : String) : Call → Answer → List (UInt64 × ℚ)
  | .reserve k amount _, .reserved id true => if k = key ∧ id ≠ 0 then [(id, amount)] else []
  | _, _ => []

/-- What the answers to calls admit on a key, in order. -/
def admissions (key : String) (calls : List Call) (answers : List Answer) : List (UInt64 × ℚ) :=
  (calls.zip answers).flatMap fun c => admits key c.1 c.2

def admission (h : Hold UInt64 ℚ Time) : UInt64 × ℚ := (h.id, h.amount)

theorem map_admission_conclude : (conclude select fate a).map admission = a.map admission := by
  simp [conclude, admission]

theorem map_admission_put (b : Book) (k key : String) :
    ((b.put k (conclude select fate (b.accounts k))).accounts key).map admission =
      (b.accounts key).map admission := by
  by_cases hk : key = k
  · subst hk
    simp [Book.put, map_admission_conclude]
  · simp [Book.put, hk]

theorem Book.seq_step (limit : String → ℚ) (b : Book) (call : Call) :
    (next (Book.step limit) b call).seq = b.seq ∨
      (next (Book.step limit) b call).seq = b.seq + 1 := by
  cases call with
  | reserve k amount now =>
    simp only [Machine.next, Book.step]
    split
    · exact .inl rfl
    split
    · exact .inl rfl
    · exact .inr rfl
  | settle k id actual | release k id | snapshot k now => exact .inl rfl

theorem map_admission_step (limit : String → ℚ) (b : Book) (call : Call) (hroom : Room b.seq 1)
    (key : String) :
    ((b.step limit call).1.accounts key).map admission =
      (b.accounts key).map admission ++ admits key call (b.step limit call).2 := by
  cases call with
  | reserve k amount now =>
    simp only [Book.step]
    split
    · simp [admits]
    split
    · exact (map_admission_put b k key).trans (append_nil _).symm
    · by_cases hk : key = k
      · subst hk
        simp [Book.put, admits, expire, map_admission_conclude, admission, hroom.succ_ne_zero]
      · simp [Book.put, admits, hk, Ne.symm hk]
  | settle k id actual | release k id | snapshot k now =>
    exact (map_admission_put b k key).trans (append_nil _).symm

theorem map_admission_run (limit : String → ℚ) (calls : List Call) (b : Book)
    (hroom : Room b.seq calls.length) (key : String) :
    ((run (next (Book.step limit)) b calls).accounts key).map admission =
      (b.accounts key).map admission ++
        admissions key calls (outputs (Book.step limit) b calls) := by
  induction calls generalizing b with
  | nil => simp [admissions]
  | cons call calls ih =>
    have hone : Room b.seq 1 := hroom.mono (Nat.le_add_left 1 _)
    rw [run_cons, ih _ (hroom.step (Book.seq_step limit b call)), Machine.next,
      map_admission_step limit b call hone, outputs, append_assoc]
    simp [admissions]

/-- What a ledger accounts for on a key, beside the book of the same calls and what they admitted.
A hold of the book has one fate, so an admitted reservation is live, settled, released or expired
and counts once. A limit below zero is none, and holds nothing. -/
structure Accounted (limit : String → ℚ) (l : BudgetLedger) (b : Book)
    (admitted : List (UInt64 × ℚ)) (key : String) : Prop where
  once : (b.accounts key).map admission = admitted ∧ (admitted.map Prod.fst).Nodup
  open_eq : (l.row key).reservations = (live (b.accounts key)).map entry
  reserved : (l.row key).reserved = ((live (b.accounts key)).map Hold.amount).sum
  committed : (l.row key).committed = spent (b.accounts key)
  within : (l.row key).committed + (l.row key).reserved ≤
    max (limit key) 0 + budgetEpsilon + excess (b.accounts key)
  dropped : l.rows key = none →
    live (b.accounts key) = [] ∧ held (b.accounts key) = 0 ∧ spent (b.accounts key) = 0

theorem Mirrors.accounted (hM : Mirrors limit l b) (key : String) :
    Accounted limit l b ((b.accounts key).map admission) key := by
  have hk := hM.keys key
  refine ⟨⟨rfl, ?_⟩, hk.row.reservations, ?_, hk.row.committed, ?_, ?_⟩
  · rw [map_map]
    exact hk.sound.nodup
  · rw [hk.row.reserved, held_eq_sum_live]
  · have hbalance := hk.within
    rw [balance_eq] at hbalance
    rw [hk.row.committed, hk.row.reserved]
    linarith
  · intro hrow
    have hm := hk.row
    rw [row_eq_new hrow] at hm
    exact ⟨map_eq_nil_iff.mp hm.reservations.symm, hm.reserved.symm, hm.committed.symm⟩

/-- After every sequence of calls too short to bring the counter round, with fixed limits, the totals
of every key are those of the reservations its answers admitted. -/
theorem ledger_accounts (limit : String → ℚ) (calls : List Call)
    (hcalls : ∀ call ∈ calls, call.Sound) (hlength : calls.length < 2 ^ 64) (key : String) :
    Accounted limit (run (next (BudgetLedger.step limit)) .new calls)
      (run (next (Book.step limit)) .new calls)
      (admissions key calls (outputs (BudgetLedger.step limit) .new calls)) key := by
  have hroom : Room 0 calls.length := by rwa [Room, UInt64.toNat_zero, Nat.zero_add]
  have hstep : ∀ l b call, Mirrors limit l b → call.Sound ∧ Room l.seq 1 →
      Mirrors limit (l.step limit call).1 (b.step limit call).1 ∧
        (l.step limit call).2 = (b.step limit call).2 :=
    fun _ _ call hM ⟨hsound, hroom⟩ => hM.step call hsound hroom
  obtain ⟨hM, hout⟩ :=
    simulation hstep (mirrors_new limit) ((guarded_of_mem hcalls).and (Room.guarded hroom))
  have haccepted := map_admission_run limit calls .new hroom key
  rw [← hout] at haccepted
  have h := hM.accounted key
  rwa [haccepted] at h

/-- Two holds of one half against a limit of one. A third is refused, the first is settled for three
quarters, the second expires. -/
def overrunCalls : List Call :=
  [.reserve "vk" (1 / 2) 0, .reserve "vk" (1 / 2) 0, .reserve "vk" (1 / 4) 0,
    .settle "vk" 1 (3 / 4), .release "vk" 1, .snapshot "vk" (900 * second)]

theorem ledger_accounts_overrun :
    Accounted (fun _ => 1) (run (next (BudgetLedger.step fun _ => 1)) .new overrunCalls)
        (run (next (Book.step fun _ => 1)) .new overrunCalls) [(1, 1 / 2), (2, 1 / 2)] "vk" ∧
      (run (next (BudgetLedger.step fun _ => 1)) .new overrunCalls).row "vk" = ⟨5 / 4, 0, []⟩ := by
  have h := ledger_accounts (fun _ => 1) overrunCalls (by decide +kernel) (by decide) "vk"
  have haccepted : admissions "vk" overrunCalls
      (outputs (BudgetLedger.step fun _ => 1) .new overrunCalls) = [(1, 1 / 2), (2, 1 / 2)] := by
    decide +kernel
  rw [haccepted] at h
  exact ⟨h, by decide +kernel⟩

end NexaRoute.Usage
