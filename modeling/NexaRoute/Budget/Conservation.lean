import NexaRoute.Budget.Ledger
import NexaRoute.Escrow
import NexaRoute.Machine

/-!
# Conservation in the budget ledger

Beside the ledger runs a book over the integers: of every key it keeps the reservations that were
made, each with what became of it. The book learns of a call only that it succeeded. The ledger's
totals are the sums of the book, capped where the ledger caps, so no total ever wraps.

## Main results

* `ledger_conserves` — totals are sums over the calls that succeeded
-/

namespace NexaRoute.Budget

open Go Escrow Machine Map List Option Function Ledger

variable {l l' : Ledger} {op : Op} {id key : String}

variable {r : Reservation} {fate : Fate ℤ}

/-! ### What a call does -/

/-- What a call that succeeds does to a ledger, but for the alerts it has raised. -/
inductive Moves (l : Ledger) : Op → Ledger → Prop
  | reserve {id key : String} {amount : Int64} {limit : Limit}
      (hfresh : l.reservations.lookup id = none) (hlimit : l.limits.lookup key = some limit)
      (hpos : 0 < amount.toInt)
      (hfits : ¬remainingBudget limit.amount (l.usedOf key) (l.reservedOf key) < amount) :
      Moves l (.reserve id key amount) { l with
        reservations := l.reservations.insert id { id := id, key := key, reserved := amount }
        reserved := l.reserved.insert key (l.reservedOf key + amount) }
  | settle {id : String} {actual : Int64} {r : Reservation} {alerted : Map String (Map Int64 Bool)}
      (hopen : l.reservations.lookup id = some r) (hclosed : r.closed = false) :
      Moves l (.settle id actual) { l with
        reserved := l.reserved.insert r.key (l.reservedOf r.key - r.reserved)
        used := l.used.insert r.key
          (saturatingAdd (l.usedOf r.key) (if actual < 0 then 0 else actual))
        reservations := l.reservations.insert id
          { r with settled := if actual < 0 then 0 else actual, closed := true }
        alerted := alerted }
  | release {id : String} {r : Reservation}
      (hopen : l.reservations.lookup id = some r) (hclosed : r.closed = false) :
      Moves l (.release id) { l with
        reserved := l.reserved.insert r.key (l.reservedOf r.key - r.reserved)
        reservations := l.reservations.insert id { r with closed := true } }

theorem reservedOf_insert {key' : String} {amount : Int64}
    (h : l'.reserved = l.reserved.insert key amount) :
    l'.reservedOf key' = if key' = key then amount else l.reservedOf key' := by
  rw [reservedOf, h, lookup_insert]
  split <;> rfl

/-- Whether a threshold of a key was alerted. -/
def Ledger.raised (l : Ledger) (key : String) (threshold : Int64) : Bool :=
  (((l.alerted.lookup key).getD ∅).lookup threshold).getD false

def Ledger.limitOf (l : Ledger) (key : String) : Int64 :=
  ((l.limits.lookup key).map (·.amount)).getD 0

/-- The loop over the thresholds alerts those that are reached and were not alerted before. -/
theorem foldl_alertAt_spec (key : String) (used limit : Int64) {ts : List Int64} (hts : ts.Nodup)
    (l : Ledger) (out : List Alert) :
    ∃ alerted, ts.foldl (alertAt key used limit) (l, out) = ({ l with alerted := alerted },
        out ++ (ts.filter fun t => thresholdReached used limit t && !l.raised key t).map
          fun t => ⟨key, t, used, limit⟩) ∧
      ∀ key' t, raised { l with alerted := alerted } key' t = true ↔
        l.raised key' t = true ∨ key' = key ∧ t ∈ ts ∧ thresholdReached used limit t = true := by
  induction ts generalizing l out with
  | nil => exact ⟨l.alerted, by simp, by simp⟩
  | cons t ts ih =>
    obtain ⟨ht, hts⟩ := nodup_cons.mp hts
    rw [foldl_cons, filter_cons]
    by_cases hdue : (thresholdReached used limit t && !l.raised key t) = true
    · let l₁ : Ledger :=
        { l with alerted := l.alerted.insert key (((l.alerted.lookup key).getD ∅).insert t true) }
      have hstep : alertAt key used limit (l, out) t = (l₁, out ++ [⟨key, t, used, limit⟩]) :=
        if_pos hdue
      have hraised₁ : ∀ key' t', l₁.raised key' t' = true ↔
          l.raised key' t' = true ∨ key' = key ∧ t' = t := by
        intro key' t'
        simp only [raised, l₁, lookup_insert]
        by_cases hkey : key' = key
        · subst hkey
          rw [if_pos rfl, getD_some, lookup_insert]
          by_cases ht : t' = t <;> simp [ht]
        · simp [hkey]
      obtain ⟨alerted, hfold, hraised⟩ := ih hts l₁ (out ++ [⟨key, t, used, limit⟩])
      refine ⟨alerted, ?_, fun key' t' => ?_⟩
      · have hsame : ∀ t' ∈ ts, l₁.raised key t' = l.raised key t' := by
          intro t' ht'
          rw [Bool.eq_iff_iff, hraised₁]
          exact or_iff_left fun h => ht (h.2 ▸ ht')
        rw [hstep, hfold, if_pos hdue, append_assoc]
        rw [filter_congr fun t' ht' => by rw [hsame t' ht']]
        rfl
      · grind
    · obtain ⟨alerted, hfold, hraised⟩ := ih hts l out
      have hstep : alertAt key used limit (l, out) t = (l, out) := if_neg hdue
      refine ⟨alerted, by rw [hstep, hfold, if_neg hdue], fun key' t' => ?_⟩
      grind

theorem alertsLocked_spec (l : Ledger) (key : String) :
    ∃ alerted, l.alertsLocked key = ({ l with alerted := alerted },
        if 0 < l.limitOf key then ([50, 80, 95, 100].filter fun t =>
            thresholdReached (l.usedOf key) (l.limitOf key) t && !l.raised key t).map
          fun t => ⟨key, t, l.usedOf key, l.limitOf key⟩ else []) ∧
      ∀ key' t, raised { l with alerted := alerted } key' t = true ↔
        l.raised key' t = true ∨ key' = key ∧ 0 < l.limitOf key ∧ t ∈ [(50 : Int64), 80, 95, 100] ∧
          thresholdReached (l.usedOf key) (l.limitOf key) t = true := by
  obtain ⟨alerted, hfold, hraised⟩ :=
    foldl_alertAt_spec key (l.usedOf key) (l.limitOf key)
      (show [(50 : Int64), 80, 95, 100].Nodup by decide) l []
  have hlimit : l.limitOf key ≤ 0 ↔ ¬0 < l.limitOf key := by
    rw [Int64.le_iff_toInt_le, Int64.lt_iff_toInt_lt, not_lt]
  have heq : l.alertsLocked key = if l.limitOf key ≤ 0 then (l, []) else
      let acc := [50, 80, 95, 100].foldl (alertAt key (l.usedOf key) (l.limitOf key)) (l, [])
      (acc.1, acc.2.mergeSort fun a b => a.threshold ≤ b.threshold) := rfl
  by_cases hpos : 0 < l.limitOf key
  · refine ⟨alerted, ?_, by simpa [hpos] using hraised⟩
    rw [heq, if_neg (by rwa [hlimit, not_not]), if_pos hpos, hfold, nil_append]
    refine Prod.ext rfl (mergeSort_of_pairwise (pairwise_map.mpr ?_))
    have hsorted : [(50 : Int64), 80, 95, 100].Pairwise fun a b => decide (a ≤ b) = true := by decide
    exact hsorted.sublist filter_sublist
  · refine ⟨l.alerted, ?_, by simp [hpos]⟩
    rw [heq, if_pos (hlimit.mpr hpos), if_neg hpos]

theorem step_cases (l : Ledger) (op : Op) :
    (∃ e, l.step op = (l, .error e)) ∨
      ∃ l' reply, l.step op = (l', .ok reply) ∧ Moves l op l' := by
  cases op with
  | reserve id key amount =>
    simp only [step, reserve]
    by_cases harg : id = "" ∨ key = "" ∨ amount ≤ 0
    · rw [if_pos harg]
      exact .inl ⟨_, rfl⟩
    rw [if_neg harg]
    cases hid : l.reservations.lookup id with
    | some r => exact .inl ⟨_, rfl⟩
    | none =>
      cases hlimit : l.limits.lookup key with
      | none => exact .inl ⟨_, rfl⟩
      | some limit =>
        simp only [isSome_none, Bool.false_eq_true, if_false]
        split
        · exact .inl ⟨_, rfl⟩
        · next hfits =>
          have hpos : ¬amount ≤ 0 := fun ha => harg (.inr (.inr ha))
          rw [Int64.le_iff_toInt_le] at hpos
          exact .inr ⟨_, _, rfl, .reserve hid hlimit (not_le.mp hpos) hfits⟩
  | settle id actual =>
    simp only [step, settle]
    cases hopen : l.reservations.lookup id with
    | none => exact .inl ⟨_, rfl⟩
    | some r =>
      dsimp only
      split
      · exact .inl ⟨_, rfl⟩
      · next hclosed =>
        refine .inr ⟨_, _, rfl, ?_⟩
        obtain ⟨alerted, hlocked, -⟩ := alertsLocked_spec _ r.key
        rw [hlocked]
        exact .settle hopen (Bool.eq_false_iff.mpr hclosed)
  | release id =>
    simp only [step, release]
    cases hopen : l.reservations.lookup id with
    | none => exact .inl ⟨_, rfl⟩
    | some r =>
      dsimp only
      split
      · exact .inl ⟨_, rfl⟩
      · next hclosed => exact .inr ⟨_, _, rfl, .release hopen (Bool.eq_false_iff.mpr hclosed)⟩

/-! ### The book -/

/-- The reservations of a key, in the order in which they were made. -/
abbrev Account := List (Hold String ℤ Unit)

/-- What a call that succeeds means for the accounts. -/
def Op.book (accounts : String → Account) : Op → String → Account
  | .reserve id key amount =>
    Function.update accounts key (accounts key ++ [⟨id, amount.toInt, (), .live⟩])
  | .settle id actual => fun key => concludeId id (.settled (max actual.toInt 0)) (accounts key)
  | .release id => fun key => concludeId id .released (accounts key)

/-- A ledger and its book. -/
structure Audited where
  ledger : Ledger
  accounts : String → Account

/-- One call. The book is told whether it succeeded. -/
def Audited.step (s : Audited) (op : Op) : Audited :=
  match s.ledger.step op with
  | (l, .ok _) => ⟨l, op.book s.accounts⟩
  | (l, .error _) => ⟨l, s.accounts⟩

/-- What a hold and a reservation have in common. -/
def holdView (h : Hold String ℤ Unit) : ℤ × Bool := (h.amount, !h.isLive)

@[inherit_doc holdView]
def reservationView (r : Reservation) : ℤ × Bool := (r.reserved.toInt, r.closed)

/-- The totals of the ledger are the sums of the book. -/
structure Balanced (s : Audited) : Prop where
  /-- The reservations are the holds of their key. -/
  records : ∀ key id, ((s.accounts key).find? (·.id == id)).map holdView =
    ((s.ledger.reservations.lookup id).filter (·.key = key)).map reservationView
  /-- An id is used once. -/
  nodup : ∀ key, ((s.accounts key).map Hold.id).Nodup
  amount_pos : ∀ key, ∀ h ∈ s.accounts key, 0 < h.amount
  spent_nonneg : ∀ key, 0 ≤ spent (s.accounts key)
  reserved : ∀ key, (s.ledger.reservedOf key).toInt = held (s.accounts key)
  used : ∀ key, (s.ledger.usedOf key).toInt = min (spent (s.accounts key)) (2 ^ 63 - 1)
  limits : ∀ key limit, s.ledger.limits.lookup key = some limit → 0 ≤ limit.amount.toInt

variable {s : Audited}

theorem held_nonneg {a : Account} (h : ∀ hold ∈ a, 0 < hold.amount) : 0 ≤ held a := by
  rw [held_eq_sum_live]
  refine sum_nonneg fun x hx => ?_
  obtain ⟨hold, hmem, rfl⟩ := mem_map.mp hx
  exact (h hold (mem_filter.mp hmem).1).le

theorem Balanced.used_nonneg (h : Balanced s) (key : String) : 0 ≤ (s.ledger.usedOf key).toInt := by
  have := h.spent_nonneg key
  have := h.used key
  omega

theorem Balanced.reserved_nonneg (h : Balanced s) (key : String) :
    0 ≤ (s.ledger.reservedOf key).toInt := by
  rw [h.reserved]
  exact held_nonneg (h.amount_pos key)

theorem Balanced.find?_eq_none (h : Balanced s) (hid : s.ledger.reservations.lookup id = none) :
    (s.accounts key).find? (·.id == id) = none := by
  have := h.records key id
  rw [hid] at this
  simpa using this

theorem Balanced.find_of_open (h : Balanced s) (hopen : s.ledger.reservations.lookup id = some r)
    (hclosed : r.closed = false) :
    ∃ hold, find (s.accounts r.key) id = some hold ∧ hold.amount = r.reserved.toInt := by
  have hrec := h.records r.key id
  rw [hopen] at hrec
  simp only [filter_some, decide_true, if_true, map_some, map_eq_some_iff,
    holdView, reservationView, hclosed, Prod.mk.injEq, Bool.not_eq_false'] at hrec
  obtain ⟨hold, hfind, hamount, hlive⟩ := hrec
  have hid : hold.id = id := by simpa using find?_some hfind
  refine ⟨hold, ?_, hamount⟩
  rw [find, ← hid]
  exact Keyed.find?_eq_some ((h.nodup r.key).sublist (filter_sublist.map Hold.id))
    (mem_filter.mpr ⟨mem_of_find?_eq_some hfind, hlive⟩)

theorem Balanced.find_of_ne (h : Balanced s) (hopen : s.ledger.reservations.lookup id = some r)
    (hkey : r.key ≠ key) :
    find (s.accounts key) id = none := by
  have hrec := h.records key id
  rw [hopen, filter_some, if_neg (by simpa using hkey)] at hrec
  have hnone : (s.accounts key).find? (·.id == id) = none := map_eq_none_iff.mp hrec
  rw [find, List.find?_eq_none]
  intro hold hmem
  exact List.find?_eq_none.mp hnone hold (mem_filter.mp hmem).1

theorem sums_concludeId {a : Account} {hold : Hold String ℤ Unit} (hnodup : (a.map Hold.id).Nodup)
    (hfind : find a id = some hold) (hfate : fate ≠ .live) :
    held (concludeId id fate a) = held a - hold.amount ∧
      spent (concludeId id fate a) = spent a + fate.value hold.amount := by
  have hone := filter_live_eq_of_find hnodup hfind
  have hheld : held (concludeId id fate a) + _ = held a := held_conclude hfate
  have hspent : spent (concludeId id fate a) = spent a + _ := spent_conclude
  rw [hone] at hheld hspent
  simp only [map_cons, map_nil, sum_cons, sum_nil, add_zero] at hheld hspent
  exact ⟨eq_sub_of_add_eq hheld, hspent⟩

theorem holdView_conclude (hfate : fate ≠ .live) (hold : Hold String ℤ Unit) :
    holdView (hold.conclude (·.id == id) fate) =
      if hold.id = id then (hold.amount, true) else holdView hold := by
  rw [holdView, Hold.amount_conclude, Hold.isLive_conclude hfate]
  by_cases hid : hold.id = id <;> simp [hid, holdView]

theorem Balanced.records_close (h : Balanced s) {r' : Reservation}
    (hopen : s.ledger.reservations.lookup id = some r) (hfate : fate ≠ .live)
    (hr' : r'.key = r.key ∧ r'.reserved = r.reserved ∧ r'.closed = true) (key id' : String) :
    ((concludeId id fate (s.accounts key)).find? (·.id == id')).map holdView =
      (((s.ledger.reservations.insert id r').lookup id').filter (·.key = key)).map
        reservationView := by
  have hrec := h.records key id'
  rw [Map.lookup_insert, find?_concludeId, Option.map_map]
  by_cases hid : id' = id
  · subst hid
    rw [hopen] at hrec
    cases hf : (s.accounts key).find? (·.id == id') with
    | none =>
      rw [hf] at hrec
      by_cases hkey : r.key = key
      · simp [hkey] at hrec
      · simp [hr'.1, hkey]
    | some hold =>
      rw [hf] at hrec
      have hhold : hold.id = id' := by simpa using List.find?_some hf
      by_cases hkey : r.key = key
      · simp only [hkey, Option.filter_some, decide_true, if_true, Option.map_some,
          Option.some.injEq] at hrec
        have hamount : hold.amount = r.reserved.toInt := congrArg Prod.fst hrec
        simp [hr', hkey, holdView_conclude hfate, hhold, reservationView, hamount]
      · simp [hkey] at hrec
  · rw [if_neg hid, ← hrec]
    refine Option.map_congr fun hold hf => ?_
    have hhold : hold.id = id' := by simpa using List.find?_some hf
    rw [Function.comp_apply, holdView_conclude hfate, hhold, if_neg hid]

/-- **Closing a reservation** in the ledger and in the book. -/
theorem Balanced.close (h : Balanced s) {r' : Reservation}
    (hopen : s.ledger.reservations.lookup id = some r) (hclosed : r.closed = false)
    (hfate : fate ≠ .live) (hvalue : 0 ≤ fate.value r.reserved.toInt)
    (hreservations : l'.reservations = s.ledger.reservations.insert id r')
    (hr' : r'.key = r.key ∧ r'.reserved = r.reserved ∧ r'.closed = true)
    (hreserved : l'.reserved =
      s.ledger.reserved.insert r.key (s.ledger.reservedOf r.key - r.reserved))
    (hused : ∀ key, (l'.usedOf key).toInt =
      if key = r.key then
        min ((s.ledger.usedOf key).toInt + fate.value r.reserved.toInt) (2 ^ 63 - 1)
      else (s.ledger.usedOf key).toInt) (hlimits : l'.limits = s.ledger.limits) :
    Balanced ⟨l', fun key => concludeId id fate (s.accounts key)⟩ := by
  obtain ⟨hold, hfind, hamount⟩ := h.find_of_open hopen hclosed
  obtain ⟨hheld, hspent⟩ := sums_concludeId (h.nodup r.key) hfind hfate
  have hother : ∀ key, key ≠ r.key → concludeId id fate (s.accounts key) = s.accounts key :=
    fun key hkey => concludeId_of_find_eq_none (h.find_of_ne hopen (Ne.symm hkey))
  rw [hamount] at hheld hspent
  have hamounts : ∀ key, ∀ k ∈ concludeId id fate (s.accounts key), 0 < k.amount := by
    intro key k hk
    obtain ⟨k', hk', rfl⟩ := mem_map.mp hk
    rw [Hold.amount_conclude]
    exact h.amount_pos key k' hk'
  have hheld' := held_nonneg (hamounts r.key)
  refine ⟨fun key id' => ?_, fun key => ?_, hamounts, fun key => ?_, fun key => ?_, fun key => ?_,
    hlimits ▸ h.limits⟩
  · show ((concludeId id fate (s.accounts key)).find? (·.id == id')).map holdView =
      ((l'.reservations.lookup id').filter (·.key = key)).map reservationView
    rw [hreservations]
    exact h.records_close hopen hfate hr' key id'
  · show ((concludeId id fate (s.accounts key)).map Hold.id).Nodup
    rw [concludeId, map_id_conclude]
    exact h.nodup key
  · show 0 ≤ spent (concludeId id fate (s.accounts key))
    by_cases hkey : key = r.key
    · subst hkey
      rw [hspent]
      exact add_nonneg (h.spent_nonneg _) hvalue
    · rw [hother key hkey]
      exact h.spent_nonneg key
  · show (l'.reservedOf key).toInt = held (concludeId id fate (s.accounts key))
    rw [reservedOf_insert hreserved]
    by_cases hkey : key = r.key
    · subst hkey
      have hbound := (s.ledger.reservedOf r.key).toInt_lt
      have hpos := h.amount_pos r.key hold (mem_of_mem_filter (mem_of_find?_eq_some hfind))
      rw [if_pos rfl, hheld, ← h.reserved]
      rw [hheld, ← h.reserved] at hheld'
      exact toInt_sub_of_le (by omega) (by omega)
    · rw [if_neg hkey, hother key hkey]
      exact h.reserved key
  · show (l'.usedOf key).toInt = min (spent (concludeId id fate (s.accounts key))) (2 ^ 63 - 1)
    rw [hused]
    by_cases hkey : key = r.key
    · subst hkey
      rw [if_pos rfl, hspent, h.used]
      omega
    · rw [if_neg hkey, hother key hkey]
      exact h.used key

/-- **Making a reservation** in the ledger and in the book. -/
theorem Balanced.reserve (h : Balanced s) {amount : Int64} {limit : Limit}
    (hfresh : s.ledger.reservations.lookup id = none)
    (hlimit : s.ledger.limits.lookup key = some limit) (hpos : 0 < amount.toInt)
    (hfits : (s.ledger.usedOf key).toInt + (s.ledger.reservedOf key).toInt + amount.toInt ≤
      limit.amount.toInt) :
    Balanced ⟨{ s.ledger with
        reservations :=
          s.ledger.reservations.insert id { id := id, key := key, reserved := amount }
        reserved := s.ledger.reserved.insert key (s.ledger.reservedOf key + amount) },
      (Op.reserve id key amount).book s.accounts⟩ := by
  have hused := h.used_nonneg key
  have hreserved := h.reserved_nonneg key
  have hbound := limit.amount.toInt_lt
  have hnone : ∀ key, (s.accounts key).find? (·.id == id) = none := fun key =>
    h.find?_eq_none hfresh
  refine ⟨fun key' id' => ?_, fun key' => ?_, fun key' => ?_, fun key' => ?_, fun key' => ?_,
    fun key' => ?_, h.limits⟩
  · simp only [Op.book, lookup_insert, update_apply]
    have hrec := h.records key' id'
    by_cases hkey : key' = key
    · subst hkey
      rw [if_pos rfl, find?_append]
      by_cases hid : id' = id
      · subst hid
        rw [if_pos rfl, hnone]
        simp [holdView, reservationView, Hold.isLive]
      · rw [if_neg hid, ← hrec]
        have hid' : id ≠ id' := Ne.symm hid
        cases (s.accounts key').find? (·.id == id') <;> simp [hid']
    · rw [if_neg hkey]
      by_cases hid : id' = id
      · subst hid
        rw [if_pos rfl, hnone]
        simp [Ne.symm hkey]
      · rw [if_neg hid, hrec]
  · simp only [Op.book, update_apply]
    split
    · next hkey =>
      subst hkey
      rw [map_append, map_singleton, nodup_append]
      refine ⟨h.nodup key', nodup_singleton _, fun a ha b hb hab => ?_⟩
      obtain ⟨k, hk, rfl⟩ := mem_map.mp ha
      rw [mem_singleton.mp hb] at hab
      exact List.find?_eq_none.mp (hnone key') k hk (by simpa using hab)
    · exact h.nodup key'
  · simp only [Op.book, update_apply]
    split
    · exact forall_mem_append.mpr ⟨h.amount_pos key, by simpa using hpos⟩
    · exact h.amount_pos key'
  · simp only [Op.book, update_apply]
    split
    · rw [spent_append_singleton]
      exact (h.spent_nonneg key).trans_eq (add_zero _).symm
    · exact h.spent_nonneg key'
  · simp only [Op.book, update_apply]
    rw [reservedOf_insert rfl]
    split
    · next hkey =>
      rw [held_append_singleton, ← h.reserved]
      exact toInt_add_of_le (by omega) (by omega)
    · exact h.reserved key'
  · simp only [Op.book, update_apply]
    split
    · next hkey =>
      subst hkey
      rw [spent_append_singleton]
      exact (h.used key').trans (by rw [Hold.spent_of_live rfl, add_zero])
    · exact h.used key'

/-- **Every call** keeps ledger and book together. -/
theorem Balanced.step (h : Balanced s) (op : Op) : Balanced (s.step op) := by
  rcases step_cases s.ledger op with ⟨e, herr⟩ | ⟨l', reply, hok, hmoves⟩
  · simpa only [Audited.step, herr] using h
  · simp only [Audited.step, hok]
    cases hmoves with
    | reserve hfresh hlimit hpos hfits =>
      refine h.reserve hfresh hlimit hpos ?_
      exact (not_remainingBudget_lt_iff (h.limits _ _ hlimit) (h.used_nonneg _)
        (h.reserved_nonneg _) hpos).mp hfits
    | @settle id actual r alerted hopen hclosed =>
      have hactual : (if actual < 0 then (0 : Int64) else actual).toInt = max actual.toInt 0 := by
        have hzero : (0 : Int64).toInt = 0 := rfl
        simp only [Int64.lt_iff_toInt_lt]
        split <;> omega
      refine h.close hopen hclosed (by simp) (le_max_right _ _) rfl ⟨rfl, rfl, rfl⟩ rfl
        (fun key => ?_) rfl
      simp only [usedOf, lookup_insert]
      split
      · next hkey =>
        subst hkey
        exact (toInt_saturatingAdd (h.used_nonneg _) (hactual ▸ le_max_right _ _)).trans
          (by rw [hactual]; rfl)
      · rfl
    | release hopen hclosed =>
      refine h.close hopen hclosed (by simp) le_rfl rfl ⟨rfl, rfl, rfl⟩ rfl (fun key => ?_) rfl
      have hbound := (s.ledger.usedOf key).toInt_lt
      split
      · show (s.ledger.usedOf key).toInt = min ((s.ledger.usedOf key).toInt + 0) (2 ^ 63 - 1)
        omega
      · rfl

/-- A ledger with limits, none of them negative, and nothing else. -/
def Fresh (l : Ledger) : Prop :=
  l.used = ∅ ∧ l.reserved = ∅ ∧ l.reservations = ∅ ∧
    ∀ key limit, l.limits.lookup key = some limit → 0 ≤ limit.amount.toInt

theorem fresh_newLedger {limits : List Limit} (h : newLedger limits = .ok l) : Fresh l := by
  refine foldlM_invariant ?_ ⟨rfl, rfl, rfl, by simp⟩ h
  rintro l limit l' ⟨hused, hreserved, hreservations, hlimits⟩ hstep
  split at hstep
  · cases hstep
  · next hvalid =>
    cases hstep
    refine ⟨hused, hreserved, hreservations, fun key limit' hlookup => ?_⟩
    rw [lookup_insert] at hlookup
    split at hlookup
    · cases hlookup
      have hneg : ¬limit.amount < 0 := fun hn => hvalid (.inr hn)
      rw [Int64.lt_iff_toInt_lt] at hneg
      exact not_lt.mp hneg
    · exact hlimits key limit' hlookup

theorem Fresh.balanced (h : Fresh l) : Balanced ⟨l, fun _ => []⟩ where
  records key id := by simp [h.2.2.1]
  nodup key := nodup_nil
  amount_pos key hold hmem := by cases hmem
  spent_nonneg key := le_rfl
  reserved key := by simp [reservedOf, h.2.1, held]
  used key := by simp [usedOf, h.1, spent]
  limits := h.2.2.2

theorem ledger_run (s : Audited) (calls : List Op) :
    (run Audited.step s calls).ledger = run (next step) s.ledger calls := by
  induction calls generalizing s with
  | nil => rfl
  | cons op calls ih =>
    rw [run_cons, run_cons, ih]
    unfold Audited.step Machine.next
    split <;> simp_all

/-! ### Closing once -/

/-- The reservation a call closes. -/
def Op.closes : Op → Option String
  | .reserve _ _ _ => none
  | .settle id _ | .release id => some id

def Closed (id : String) (l : Ledger) : Prop :=
  ∃ r, l.reservations.lookup id = some r ∧ r.closed = true

theorem closed_of_closes {reply : Reply} (hid : op.closes = some id)
    (hok : (l.step op).2 = .ok reply) : Closed id (l.step op).1 := by
  rcases step_cases l op with ⟨e, herr⟩ | ⟨l', reply', hstep, hmoves⟩
  · rw [herr] at hok
    cases hok
  · rw [hstep]
    cases hmoves with
    | reserve => cases hid
    | settle | release =>
      cases hid
      exact ⟨_, by rw [lookup_insert, if_pos rfl], rfl⟩

theorem closed_step (h : Closed id l) (op : Op) : Closed id (l.step op).1 := by
  obtain ⟨r, hr, hclosed⟩ := h
  rcases step_cases l op with ⟨e, herr⟩ | ⟨l', reply, hstep, hmoves⟩
  · rw [herr]
    exact ⟨r, hr, hclosed⟩
  · rw [hstep]
    cases hmoves with
    | @reserve id' key amount limit hfresh =>
      refine ⟨r, ?_, hclosed⟩
      rw [lookup_insert, if_neg, hr]
      rintro rfl
      rw [hr] at hfresh
      cases hfresh
    | @settle id' _ r' | @release id' r' =>
      by_cases hid : id = id'
      · exact ⟨_, by rw [lookup_insert, if_pos hid], rfl⟩
      · exact ⟨r, by rw [lookup_insert, if_neg hid, hr], hclosed⟩

theorem not_ok_of_closed (h : Closed id l) (hid : op.closes = some id) :
    (l.step op).2.isOk = false := by
  obtain ⟨r, hr, hclosed⟩ := h
  rcases step_cases l op with ⟨e, herr⟩ | ⟨l', reply, hstep, hmoves⟩
  · rw [herr]
    rfl
  · cases hmoves with
    | reserve => cases hid
    | settle hopen hopen' | release hopen hopen' =>
      cases hid
      rw [hr] at hopen
      cases hopen
      rw [hclosed] at hopen'
      cases hopen'

/-- Of the calls that close a reservation at most one succeeds. -/
def ClosesOnce (l₀ : Ledger) (calls : List Op) : Prop :=
  ∀ made op between op' rest id, calls = made ++ op :: between ++ op' :: rest →
    op.closes = some id → op'.closes = some id →
    ((run (next Ledger.step) l₀ made).step op).2.isOk = true →
    ((run (next Ledger.step) l₀ (made ++ op :: between)).step op').2.isOk = false

theorem closesOnce (l₀ : Ledger) (calls : List Op) : ClosesOnce l₀ calls := by
  rintro made op between op' rest id - hop hop' hok
  cases hstep : ((run (next step) l₀ made).step op).2 with
  | error e =>
    rw [hstep] at hok
    cases hok
  | ok reply =>
    refine not_ok_of_closed ?_ hop'
    rw [run_append, run_cons]
    exact run_invariant (fun l op h => closed_step h op) (closed_of_closes hop hstep)

/-! ### The headline -/

/-- **Conservation.** From any new ledger, after any calls: what is reserved on a key is the sum of
its open reservations, what is used is the sum of its settlements, capped, and neither is negative;
the reservations are those of the book; a reservation is admitted within the limit, taken as
integers; a call that fails changes nothing; and a reservation is closed at most once. -/
theorem ledger_conserves {limits : List Limit} {l₀ : Ledger} (hnew : newLedger limits = .ok l₀)
    (calls : List Op) :
    let l := run (next Ledger.step) l₀ calls
    let accounts := (run Audited.step ⟨l₀, fun _ => []⟩ calls).accounts
    (∀ key, (l.reservedOf key).toInt = held (accounts key) ∧ 0 ≤ (l.reservedOf key).toInt ∧
      (l.usedOf key).toInt = min (spent (accounts key)) (2 ^ 63 - 1) ∧
      0 ≤ (l.usedOf key).toInt) ∧
    (∀ key id, ((accounts key).find? (·.id == id)).map holdView =
      ((l.reservations.lookup id).filter (·.key = key)).map reservationView) ∧
    (∀ id key amount, (l.reserve id key amount).2.isOk = true →
      ∃ limit, l.limits.lookup key = some limit ∧
        (l.usedOf key).toInt + (l.reservedOf key).toInt + amount.toInt ≤ limit.amount.toInt) ∧
    (∀ op, (l.step op).2.isOk = false → (l.step op).1 = l) ∧
    ClosesOnce l₀ calls := by
  intro l accounts
  have hl : (run Audited.step ⟨l₀, fun _ => []⟩ calls).ledger = l := ledger_run _ calls
  have h : Balanced (run Audited.step ⟨l₀, fun _ => []⟩ calls) :=
    run_invariant (fun s op hs => hs.step op) (fresh_newLedger hnew).balanced
  refine ⟨fun key => ⟨?_, ?_, ?_, ?_⟩, ?_, fun id key amount hok => ?_, fun op hop => ?_,
    closesOnce l₀ calls⟩
  · exact hl ▸ h.reserved key
  · exact hl ▸ h.reserved_nonneg key
  · exact hl ▸ h.used key
  · exact hl ▸ h.used_nonneg key
  · exact hl ▸ h.records
  · rcases step_cases l (.reserve id key amount) with ⟨e, herr⟩ | ⟨l', reply, -, hmoves⟩
    · have herr' : (l.reserve id key amount).2.map Reply.reservation = .error e :=
        congrArg Prod.snd herr
      cases hr : (l.reserve id key amount).2 with
      | error e' =>
        rw [hr] at hok
        cases hok
      | ok r =>
        rw [hr] at herr'
        cases herr'
    · cases hmoves with
      | @reserve _ _ _ limit hfresh hlimit hpos hfits =>
        refine ⟨limit, hlimit, ?_⟩
        rw [← hl] at hlimit hfits ⊢
        exact (not_remainingBudget_lt_iff (h.limits _ _ hlimit) (h.used_nonneg key)
          (h.reserved_nonneg key) hpos).mp hfits
  · rcases step_cases l op with ⟨e, herr⟩ | ⟨l', reply, hok, -⟩
    · rw [herr]
    · rw [hok] at hop
      cases hop

/-- A ledger with one limit. -/
def hundred : Ledger := { limits := AList.insert "k" ⟨"k", 100⟩ ∅ }

/-- Settled for more than was reserved, and for more than fits. -/
theorem ledger_conserves_overrun :
    newLedger [⟨"k", 100⟩] = .ok hundred ∧
      ((run (next Ledger.step) hundred [.reserve "a" "k" 60, .reserve "b" "k" 40,
        .settle "a" Int64.maxValue, .settle "b" 70]).usedOf "k").toInt = 2 ^ 63 - 1 := by
  have hnew : newLedger [⟨"k", 100⟩] = .ok hundred := rfl
  refine ⟨hnew, (((ledger_conserves hnew _).1 "k").2.2.1).trans ?_⟩
  decide

end NexaRoute.Budget
