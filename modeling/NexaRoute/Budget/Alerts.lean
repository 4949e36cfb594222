import Mathlib.Data.List.Induction
import NexaRoute.Budget.Conservation

/-!
# Alerts of the budget ledger

A threshold of a key is alerted by the first settlement after which the use of the key reaches it,
and by no later one. That it is reached is decided without a product that could overflow.

## Main results

* `alerts_by_first_settlement` — a threshold is alerted once
-/

namespace NexaRoute.Budget

open Machine Ledger Int64

theorem toInt_div_hundred {a : Int64} (h : 0 ≤ a.toInt) :
    (a / 100).toInt = a.toInt / 100 ∧ (a % 100).toInt = a.toInt % 100 := by
  have hbound := a.toInt_lt
  have h100 : (100 : Int64).toInt = 100 := rfl
  constructor
  · rw [toInt_div, h100, Int.tdiv_eq_ediv_of_nonneg h, Int.bmod_eq_of_le] <;> omega
  · rw [toInt_mod, h100, Int.tmod_eq_emod_of_nonneg h]

/-- **The threshold**, computed without an overflow. -/
theorem thresholdReached_iff {used limit threshold : Int64} (hl : 0 ≤ limit.toInt)
    (ht : 0 ≤ threshold.toInt) (ht' : threshold.toInt ≤ 100) :
    thresholdReached used limit threshold = true ↔
      limit.toInt * threshold.toInt ≤ used.toInt * 100 := by
  have hbound := limit.toInt_lt
  obtain ⟨hq, hr⟩ := toInt_div_hundred hl
  simp only [thresholdReached, decide_eq_true_eq, le_iff_toInt_le]
  set q := limit / 100
  set r := limit % 100
  -- `limit * threshold` is `100 * (q * threshold) + r * threshold`, and neither product is large
  have hqt : 0 ≤ q.toInt * threshold.toInt ∧ q.toInt * threshold.toInt ≤ q.toInt * 100 :=
    ⟨mul_nonneg (by omega) ht, mul_le_mul_of_nonneg_left ht' (by omega)⟩
  have hrt : 0 ≤ r.toInt * threshold.toInt ∧ r.toInt * threshold.toInt ≤ r.toInt * 100 :=
    ⟨mul_nonneg (by omega) ht, mul_le_mul_of_nonneg_left ht' (by omega)⟩
  have hsplit : limit.toInt * threshold.toInt =
      100 * (q.toInt * threshold.toInt) + r.toInt * threshold.toInt := by
    rw [← mul_assoc, ← add_mul]
    congr 1
    omega
  have hm : (q * threshold).toInt = q.toInt * threshold.toInt := by
    rw [toInt_mul, Int.bmod_eq_of_le] <;> omega
  have hn : (r * threshold).toInt = r.toInt * threshold.toInt := by
    rw [toInt_mul, Int.bmod_eq_of_le] <;> omega
  obtain ⟨hdiv, hmod⟩ := toInt_div_hundred (hn ▸ hrt.1 : 0 ≤ (r * threshold).toInt)
  have hneed : (q * threshold + r * threshold / 100).toInt =
      q.toInt * threshold.toInt + r.toInt * threshold.toInt / 100 := by
    rw [toInt_add_of_le] <;> omega
  have hzero : r * threshold % 100 ≠ 0 ↔ r.toInt * threshold.toInt % 100 ≠ 0 := by
    rw [← hn, ← hmod, ne_eq, ← toInt_inj]
    rfl
  split
  · next hrest =>
    rw [hzero] at hrest
    have hone : (1 : Int64).toInt = 1 := rfl
    rw [toInt_add_of_le] <;> omega
  · next hrest =>
    rw [hzero] at hrest
    omega

/-! ### One call -/

variable {l : Ledger} {op : Op} {key : String} {t : Int64}

/-- The call settles a reservation on the key. -/
def Op.settles (l : Ledger) (key : String) : Op → Prop
  | .settle id _ => ∃ r, l.reservations.lookup id = some r ∧ r.closed = false ∧ r.key = key
  | _ => False

def thresholds : List Int64 := [50, 80, 95, 100]

theorem bounds_thresholds (ht : t ∈ thresholds) : 0 ≤ t.toInt ∧ t.toInt ≤ 100 := by
  simp only [thresholds, List.mem_cons, List.not_mem_nil, or_false] at ht
  rcases ht with rfl | rfl | rfl | rfl <;> decide

/-- The call is a settlement on the key after which the threshold is reached, over the integers. -/
def Reaches (key : String) (t : Int64) (l : Ledger) (op : Op) : Prop :=
  op.settles l key ∧ 0 < (l.limitOf key).toInt ∧ t ∈ thresholds ∧
    (l.limitOf key).toInt * t.toInt ≤ ((l.step op).1.usedOf key).toInt * 100

def alertsOf : Except BudgetError Reply → List Alert
  | .ok (.alerts alerts) => alerts
  | _ => []

theorem step_quiet (h : ∀ key, ¬op.settles l key) :
    alertsOf (l.step op).2 = [] ∧ (l.step op).1.alerted = l.alerted := by
  rcases step_cases l op with ⟨e, herr⟩ | ⟨l', reply, hok, hmoves⟩
  · rw [herr]
    exact ⟨rfl, rfl⟩
  · have hreply := congrArg Prod.snd hok
    rw [hok]
    cases hmoves with
    | settle hopen hclosed => exact absurd ⟨_, hopen, hclosed, rfl⟩ (h _)
    | reserve | release =>
      obtain ⟨_, -, rfl⟩ := ok_of_map hreply
      exact ⟨rfl, rfl⟩

theorem step_settles {id : String} {r : Reservation} (hopen : l.reservations.lookup id = some r)
    (hclosed : r.closed = false) (actual : Int64) :
    ∃ l' out, l.step (.settle id actual) = (l', .ok (.alerts out)) ∧
      (out = if 0 < l.limitOf r.key then (thresholds.filter fun t =>
          thresholdReached (l'.usedOf r.key) (l.limitOf r.key) t && !l.raised r.key t).map
          fun t => ⟨r.key, t, l'.usedOf r.key, l.limitOf r.key⟩ else []) ∧
      ∀ key t, l'.raised key t = true ↔ l.raised key t = true ∨ key = r.key ∧
        0 < l.limitOf r.key ∧ t ∈ thresholds ∧
          thresholdReached (l'.usedOf r.key) (l.limitOf r.key) t = true := by
  obtain ⟨alerted, hlocked, hraised⟩ := alertsLocked_spec { l with
    reserved := l.reserved.insert r.key (l.reservedOf r.key - r.reserved)
    used := l.used.insert r.key
      (saturatingAdd (l.usedOf r.key) (if actual < 0 then 0 else actual))
    reservations := l.reservations.insert id
      { r with settled := if actual < 0 then 0 else actual, closed := true } } r.key
  refine ⟨_, _, ?_, rfl, hraised⟩
  simp only [step, settle, hopen, hclosed, Bool.false_eq_true, if_false]
  exact congrArg (fun p : Ledger × List Alert => (p.1, Except.ok (Reply.alerts p.2))) hlocked

/-- A call raises the thresholds it reaches, and alerts those that were not raised before. -/
theorem alerts_step (l : Ledger) (op : Op) :
    (∀ key t, (l.step op).1.raised key t = true ↔ l.raised key t = true ∨ Reaches key t l op) ∧
      ((alertsOf (l.step op).2).map fun a => (a.key, a.threshold)).Nodup ∧
      ∀ a, a ∈ alertsOf (l.step op).2 ↔ (Reaches a.key a.threshold l op ∧
        l.raised a.key a.threshold = false) ∧
        a.used = (l.step op).1.usedOf a.key ∧ a.limit = l.limitOf a.key := by
  by_cases hsettles : ∃ key, op.settles l key
  · obtain ⟨_, hsettles⟩ := hsettles
    cases op with
    | reserve | release => cases hsettles
    | settle id actual =>
    obtain ⟨r, hopen, hclosed, rfl⟩ := hsettles
    obtain ⟨l', out, hstep, hout, hraised⟩ := step_settles hopen hclosed actual
    have hkey : ∀ key, (Op.settle id actual).settles l key ↔ key = r.key := by
      intro key
      constructor
      · rintro ⟨r', hr', -, rfl⟩
        rw [hopen] at hr'
        cases hr'
        rfl
      · rintro rfl
        exact ⟨r, hopen, hclosed, rfl⟩
    have hreach : ∀ key t, Reaches key t l (.settle id actual) ↔ key = r.key ∧ 0 < l.limitOf r.key ∧
        t ∈ thresholds ∧ thresholdReached (l'.usedOf r.key) (l.limitOf r.key) t = true := by
      intro key t
      rw [Reaches, hkey, hstep]
      refine and_congr_right ?_
      rintro rfl
      rw [lt_iff_toInt_lt]
      refine and_congr_right fun hpos => and_congr_right fun ht => ?_
      obtain ⟨hlow, hhigh⟩ := bounds_thresholds ht
      exact (thresholdReached_iff hpos.le hlow hhigh).symm
    rw [hstep]
    refine ⟨fun key t => by rw [hraised, hreach], ?_, fun a => ?_⟩
    · rw [alertsOf, hout]
      split
      · rw [List.map_map]
        refine List.Nodup.map (fun t t' h => (Prod.ext_iff.mp h).2) ?_
        exact List.Nodup.filter _ (by decide)
      · exact List.nodup_nil
    · obtain ⟨key, t, used, limit⟩ := a
      rw [hreach, alertsOf, hout]
      by_cases hpos : 0 < l.limitOf r.key
      · grind
      · simp [hpos]
  · obtain ⟨hquiet, halerted⟩ := step_quiet (not_exists.mp hsettles)
    have hreach : ∀ key t, ¬Reaches key t l op := fun key t h => hsettles ⟨key, h.1⟩
    rw [hquiet]
    simp [hreach, raised, halerted]

/-! ### The history -/

theorem raised_run {l₀ : Ledger} (h₀ : l₀.raised key t = false) (made : List Op) :
    (run (next step) l₀ made).raised key t = false ↔
      Guarded (next step) (fun l op => ¬Reaches key t l op) l₀ made := by
  induction made using List.reverseRecOn with
  | nil => exact iff_of_true h₀ trivial
  | append_singleton made op ih =>
    rw [run_append, guarded_append, ← ih, run_cons, run_nil, next, ← Bool.not_eq_true,
      (alerts_step _ op).1, not_or, Bool.not_eq_true]
    exact and_congr_right fun _ => (and_iff_left trivial).symm

theorem alerted_newLedger {limits : List Limit} (h : newLedger limits = .ok l) : l.alerted = ∅ := by
  refine foldlM_invariant (P := fun l => l.alerted = ∅) (fun l limit l' hl hstep => ?_) rfl h
  split at hstep <;> cases hstep
  exact hl

open scoped Classical in
/-- **Alerts.** Whether a threshold is reached is decided as over the integers. In any history of a
new ledger a call alerts a threshold of a key, once, if it is the first settlement on the key after
which the threshold is reached, and no other call alerts it. -/
theorem alerts_by_first_settlement {limits : List Limit} {l₀ : Ledger}
    (hnew : newLedger limits = .ok l₀) :
    (∀ used limit threshold : Int64, 0 ≤ used → 0 ≤ limit → 0 ≤ threshold → threshold ≤ 100 →
      (thresholdReached used limit threshold = true ↔
        limit.toInt * threshold.toInt ≤ used.toInt * 100)) ∧
    ∀ (made : List Op) (op : Op),
      let l := run (next Ledger.step) l₀ made
      (∀ key t, ((alertsOf (l.step op).2).map fun a => (a.key, a.threshold)).count (key, t) =
        if Reaches key t l op ∧
          Guarded (next Ledger.step) (fun l op => ¬Reaches key t l op) l₀ made then 1 else 0) ∧
      ∀ a ∈ alertsOf (l.step op).2,
        a.used = (l.step op).1.usedOf a.key ∧ a.limit = l.limitOf a.key := by
  refine ⟨fun used limit threshold _ hl ht ht' => ?_, fun made op => ?_⟩
  · exact thresholdReached_iff (le_iff_toInt_le.mp hl) (le_iff_toInt_le.mp ht)
      (le_iff_toInt_le.mp ht')
  intro l
  obtain ⟨-, hnodup, hmem⟩ := alerts_step l op
  refine ⟨fun key t => ?_, fun a ha => ((hmem a).mp ha).2⟩
  have h₀ : l₀.raised key t = false := by rw [raised, alerted_newLedger hnew]; rfl
  rw [hnodup.count]
  refine if_congr ?_ rfl rfl
  rw [List.mem_map, ← raised_run h₀ made]
  constructor
  · rintro ⟨a, ha, heq⟩
    cases heq
    exact ((hmem a).mp ha).1
  · intro h
    exact ⟨⟨key, t, (l.step op).1.usedOf key, l.limitOf key⟩, (hmem _).mpr ⟨h, rfl, rfl⟩, rfl⟩

/-- The second settlement crosses half of the limit. -/
theorem alerts_of_hundred :
    let l := run (next Ledger.step) hundred
      [.reserve "a" "k" 60, .reserve "b" "k" 40, .settle "a" 40]
    alertsOf (l.step (.settle "b" 20)).2 = [⟨"k", 50, 60, 100⟩] ∧
      (l.step (.settle "b" 20)).1.usedOf "k" = 60 := by
  intro l
  have hnew : newLedger [⟨"k", 100⟩] = .ok hundred := rfl
  have halert : alertsOf (l.step (.settle "b" 20)).2 = [⟨"k", 50, 60, 100⟩] := by decide +kernel
  have hmem : (⟨"k", 50, 60, 100⟩ : Alert) ∈ alertsOf (l.step (.settle "b" 20)).2 := by
    simp [halert]
  exact ⟨halert, (((alerts_by_first_settlement hnew).2 _ _).2 _ hmem).1.symm⟩

end NexaRoute.Budget
