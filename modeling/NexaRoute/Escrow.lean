import NexaRoute.Keyed
import Mathlib.Algebra.Order.BigOperators.Group.List
import Mathlib.Algebra.Order.Group.Defs
import Mathlib.Algebra.Order.Sub.Basic
import Mathlib.Tactic.Abel

/-!
# Holds and what becomes of them

An account of holds: amounts set aside when they are admitted, each of which is later settled for
an actual amount, released, or expires at its own amount. A hold keeps its one fate in the account
for ever, so that sums over the account say what was spent and what is still held.

## Main definitions

* `Fate`, `Hold`
* `spent`, `held`, `excess` — sums over an account
* `conclude` — give a fate to live holds
* `find` — the live hold with an identifier

## Main results

* `live_conclude`, `spent_conclude`, `held_conclude` — what concluding holds does to the sums
* `balance_conclude_le` — concluding holds spends no more than was held, but for the excess of
  settlements over their holds
* `filter_live_eq_of_find` — an identifier selects one hold
-/

namespace NexaRoute.Escrow

open List

/-- What became of a hold. -/
inductive Fate (α : Type*)
  | live
  | settled (actual : α)
  | released
  | expired
  deriving DecidableEq, Repr

/-- An amount set aside. -/
structure Hold (ι α τ : Type*) where
  id : ι
  amount : α
  since : τ
  fate : Fate α
  deriving DecidableEq, Repr

open Hold

variable {ι α τ : Type*}

/-- Whether a hold still stands. -/
def Hold.isLive (h : Hold ι α τ) : Bool :=
  match h.fate with
  | .live => true
  | _ => false

/-- Give a fate to a hold, if it is live and selected. -/
def Hold.conclude (select : Hold ι α τ → Bool) (fate : Fate α) (h : Hold ι α τ) : Hold ι α τ :=
  if h.isLive && select h then { h with fate := fate } else h

/-- Give a fate to the live holds that are selected. -/
def conclude (select : Hold ι α τ → Bool) (fate : Fate α) (l : List (Hold ι α τ)) :
    List (Hold ι α τ) :=
  l.map (Hold.conclude select fate)

/-- The live holds of an account. -/
def live (l : List (Hold ι α τ)) : List (Hold ι α τ) := l.filter Hold.isLive

variable {l : List (Hold ι α τ)} {h : Hold ι α τ} {select : Hold ι α τ → Bool} {fate : Fate α}

theorem Hold.fate_eq_live (hl : h.isLive = true) : h.fate = .live := by
  unfold isLive at hl
  cases hf : h.fate <;> simp_all

theorem Hold.conclude_of_not (hs : ¬(h.isLive && select h) = true) : h.conclude select fate = h :=
  if_neg hs

theorem Hold.conclude_of_live (hl : h.isLive = true) (hs : select h = true) :
    h.conclude select fate = { h with fate := fate } := by
  rw [conclude, if_pos (by rw [hl, hs]; rfl)]

@[simp] theorem Hold.id_conclude : (h.conclude select fate).id = h.id := by
  unfold conclude
  split <;> rfl

@[simp] theorem Hold.amount_conclude : (h.conclude select fate).amount = h.amount := by
  unfold conclude
  split <;> rfl

theorem Hold.isLive_conclude (hfate : fate ≠ .live) :
    (h.conclude select fate).isLive = (h.isLive && !select h) := by
  by_cases hs : (h.isLive && select h) = true
  · have hsel := (Bool.and_eq_true_iff.mp hs).2
    rw [conclude, if_pos hs, hsel, Bool.not_true, Bool.and_false]
    cases fate with
    | live => exact absurd rfl hfate
    | _ => rfl
  · rw [conclude_of_not hs]
    cases hl : h.isLive <;> simp_all

theorem map_id_conclude : (conclude select fate l).map Hold.id = l.map Hold.id := by
  simp [conclude]

theorem live_conclude (hfate : fate ≠ .live) :
    live (conclude select fate l) = (live l).filter fun h => !select h := by
  induction l with
  | nil => rfl
  | cons h l ih =>
    simp only [live, conclude, map_cons, filter_cons, isLive_conclude hfate]
      at ih ⊢
    rw [ih]
    by_cases hl : h.isLive = true
    · by_cases hs : select h = true
      · simp [hl, hs]
      · rw [conclude_of_not (by simp [hs])]
        simp [hl, hs]
    · simp [hl]

/-! ### One hold -/

section Find

variable [DecidableEq ι] {i : ι}

/-- The live hold with an identifier. -/
def find (l : List (Hold ι α τ)) (i : ι) : Option (Hold ι α τ) := (live l).find? (·.id == i)

/-- Conclude the hold with an identifier. -/
def concludeId (i : ι) (fate : Fate α) (l : List (Hold ι α τ)) : List (Hold ι α τ) :=
  conclude (·.id == i) fate l

theorem find?_concludeId {j : ι} : (concludeId i fate l).find? (·.id == j) =
    (l.find? (·.id == j)).map (Hold.conclude (·.id == i) fate) := by
  have hid : (fun h : Hold ι α τ => h.id == j) ∘ Hold.conclude (·.id == i) fate = (·.id == j) :=
    funext fun h => congrArg (· == j) h.id_conclude
  rw [concludeId, conclude, List.find?_map, hid]

theorem filter_live_eq_of_find (hnodup : (l.map Hold.id).Nodup) (hf : find l i = some h) :
    (live l).filter (·.id == i) = [h] :=
  Keyed.filter_eq_of_find? (hnodup.sublist (List.Sublist.map Hold.id filter_sublist)) hf

theorem concludeId_of_find_eq_none (hf : find l i = none) : concludeId i fate l = l := by
  refine (map_congr_left fun h hh => ?_).trans (map_id l)
  refine conclude_of_not fun hs => ?_
  obtain ⟨hl, hid⟩ := Bool.and_eq_true_iff.mp hs
  exact find?_eq_none.mp hf h (mem_filter.mpr ⟨hh, hl⟩) hid

end Find

/-! ### Sums -/

section Sums

variable [AddCommGroup α]

/-- What a hold of an amount is spent as. -/
def Fate.value (amount : α) : Fate α → α
  | .settled actual => actual
  | .expired => amount
  | _ => 0

def Hold.spent (h : Hold ι α τ) : α := h.fate.value h.amount

/-- What a hold still sets aside. -/
def Hold.held (h : Hold ι α τ) : α := if h.isLive then h.amount else 0

def spent (l : List (Hold ι α τ)) : α := (l.map Hold.spent).sum

/-- What an account still sets aside. -/
def held (l : List (Hold ι α τ)) : α := (l.map Hold.held).sum

theorem Hold.spent_of_live (hl : h.isLive = true) : h.spent = 0 := by
  rw [spent, fate_eq_live hl]
  rfl

theorem spent_append_singleton : spent (l ++ [h]) = spent l + h.spent := by simp [spent]

theorem held_append_singleton : held (l ++ [h]) = held l + h.held := by simp [held]

theorem held_eq_sum_live : held l = ((live l).map Hold.amount).sum := by
  induction l with
  | nil => rfl
  | cons h l ih =>
    simp only [held, live, map_cons, sum_cons, filter_cons] at ih ⊢
    rw [ih]
    by_cases hl : h.isLive = true <;> simp [Hold.held, hl]

theorem held_conclude (hfate : fate ≠ .live) :
    held (conclude select fate l) + (((live l).filter select).map amount).sum = held l := by
  rw [held_eq_sum_live, held_eq_sum_live, live_conclude hfate]
  induction live l with
  | nil => simp
  | cons h m ih =>
    by_cases hs : select h = true
    · simp only [filter_cons, hs, Bool.not_true, Bool.false_eq_true, if_false, if_true,
        map_cons, sum_cons, ← ih]
      abel
    · simp only [filter_cons, hs, Bool.not_false, Bool.false_eq_true, if_false, if_true,
        map_cons, sum_cons, ← ih]
      abel

theorem spent_conclude :
    spent (conclude select fate l) =
      spent l + (((live l).filter select).map fun h => fate.value h.amount).sum := by
  induction l with
  | nil => simp [conclude, live]
  | cons h l ih =>
    simp only [spent, conclude, live, map_cons, sum_cons, filter_cons] at ih ⊢
    rw [ih]
    by_cases hl : h.isLive = true
    · by_cases hs : select h = true
      · rw [Hold.conclude_of_live hl hs, Hold.spent_of_live hl]
        simp only [Hold.spent, hl, hs, if_true, filter_cons, map_cons, sum_cons]
        abel
      · rw [Hold.conclude_of_not (by simp [hs])]
        simp only [hl, hs, if_true, filter_cons, Bool.false_eq_true, if_false]
        abel
    · rw [Hold.conclude_of_not (by simp [hl])]
      simp only [hl, Bool.false_eq_true, if_false]
      abel

variable [LinearOrder α] [IsOrderedAddMonoid α]

/-- By how much a settlement went over its hold. -/
def Hold.excess (h : Hold ι α τ) : α :=
  match h.fate with
  | .settled actual => max 0 (actual - h.amount)
  | _ => 0

/-- By how much the settlements of an account went over their holds. -/
def excess (l : List (Hold ι α τ)) : α := (l.map Hold.excess).sum

/-- What a hold was spent as and sets aside, but for the excess. -/
def Hold.balance (h : Hold ι α τ) : α := h.spent + h.held - h.excess

/-- What an account spent and holds, but for the excess. -/
def balance (l : List (Hold ι α τ)) : α := (l.map Hold.balance).sum

omit [IsOrderedAddMonoid α] in
theorem balance_eq : balance l = spent l + held l - excess l := by
  induction l with
  | nil => simp [balance, spent, held, excess]
  | cons h l ih =>
    simp only [balance, spent, held, excess, map_cons, sum_cons] at ih ⊢
    rw [ih, Hold.balance]
    abel

theorem excess_nonneg : 0 ≤ excess l := by
  refine sum_nonneg fun x hx => ?_
  obtain ⟨h, -, rfl⟩ := mem_map.mp hx
  unfold Hold.excess
  split
  · exact le_max_left _ _
  · exact le_rfl

omit [IsOrderedAddMonoid α] in
theorem Hold.balance_of_live (hl : h.isLive = true) : h.balance = h.amount := by
  simp [balance, spent_of_live hl, held, hl, excess, fate_eq_live hl]

theorem Hold.balance_conclude_le (hpos : 0 ≤ h.amount) :
    (h.conclude select fate).balance ≤ h.balance := by
  by_cases hs : (h.isLive && select h) = true
  · obtain ⟨hl, hsel⟩ := Bool.and_eq_true_iff.mp hs
    rw [conclude_of_live hl hsel, balance_of_live hl]
    cases fate with
    | live => simp [balance, spent, held, excess, isLive, Fate.value]
    | settled actual =>
      have hmax : actual - h.amount ≤ max 0 (actual - h.amount) := le_max_right _ _
      simp only [balance, spent, held, excess, isLive, Fate.value,
        Bool.false_eq_true, if_false, add_zero]
      rwa [sub_le_comm]
    | released =>
      simpa [balance, spent, held, excess, isLive, Fate.value] using hpos
    | expired => simp [balance, spent, held, excess, isLive, Fate.value]
  · rw [conclude_of_not hs]

theorem balance_conclude_le (hpos : ∀ h ∈ l, 0 ≤ h.amount) :
    balance (conclude select fate l) ≤ balance l := by
  rw [balance, conclude, map_map]
  exact sum_le_sum fun h hh => Hold.balance_conclude_le (hpos h hh)

end Sums

end NexaRoute.Escrow
