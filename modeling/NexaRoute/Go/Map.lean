import Mathlib.Algebra.Order.BigOperators.Group.List
import Mathlib.Data.List.AList

/-!
# Maps

A Go map is an association list with distinct keys. Ranging over a map meets its entries in no
particular order, so a loop is modelled only where the order does not show: changing every value,
and deleting the entries that fail a test.

## Main results

* `lookup_mapVals`, `lookup_keep` — reading after a loop
* `mem_keys_iff` — the keys are those that can be read
* `sum_insert`, `le_sum`, `sum_eq_of_lookup` — what the entries have to do with the sum
-/

namespace NexaRoute.Go

open AList

abbrev Map (κ α : Type) := AList fun _ : κ => α

namespace Map

variable {κ α β : Type} (m : Map κ α)

/-- The map with every value changed. -/
def mapVals (f : κ → α → β) (m : Map κ α) : Map κ β where
  entries := m.entries.map fun e => ⟨e.1, f e.1 e.2⟩
  nodupKeys := by
    have hkeys : (m.entries.map fun e => (⟨e.1, f e.1 e.2⟩ : Sigma fun _ : κ => β)).keys =
        m.entries.keys := by simp [List.keys]
    rw [List.NodupKeys, hkeys]
    exact m.nodupKeys

/-- The map without the entries that fail a test. -/
def keep (p : κ → α → Bool) (m : Map κ α) : Map κ α where
  entries := m.entries.filter fun e => p e.1 e.2
  nodupKeys := m.nodupKeys.sublist List.filter_sublist

/-- The map with an entry for a key that has none. -/
def insertNew [DecidableEq κ] (k : κ) (a : α) (m : Map κ α) : Map κ α :=
  if (m.lookup k).isSome then m else m.insert k a

/-- `len(m)`. -/
def len (m : Map κ α) : ℕ := m.entries.length

/-- Whether some entry passes a test. -/
def any (p : κ → α → Bool) (m : Map κ α) : Bool := m.entries.any fun e => p e.1 e.2

theorem len_eq_length_keys : m.len = m.keys.length :=
  (List.length_map _).symm

variable [DecidableEq κ]

@[simp] theorem lookup_mapVals (f : κ → α → β) (m : Map κ α) (k : κ) :
    (m.mapVals f).lookup k = (m.lookup k).map (f k) :=
  List.dlookup_map₂ k

theorem lookup_keep (p : κ → α → Bool) (m : Map κ α) (k : κ) :
    (m.keep p).lookup k = (m.lookup k).filter (p k) := by
  ext a
  have hmem : a ∈ (m.keep p).lookup k ↔ a ∈ m.lookup k ∧ p k a = true := by
    rw [mem_lookup_iff, mem_lookup_iff]
    exact List.mem_filter
  rw [Option.mem_def, Option.mem_def] at hmem
  rw [hmem, Option.filter_eq_some_iff]

theorem mem_keys_iff (k : κ) : k ∈ m.keys ↔ ∃ a, m.lookup k = some a := by
  rw [← mem_keys, ← lookup_isSome, Option.isSome_iff_exists]

theorem lookup_insert (k k' : κ) (a : α) :
    (m.insert k a).lookup k' = if k' = k then some a else m.lookup k' := by
  split
  · next h =>
    subst h
    exact AList.lookup_insert m
  · next h => exact lookup_insert_ne h

theorem lookup_erase (k k' : κ) : (m.erase k).lookup k' = if k' = k then none else m.lookup k' := by
  split
  · next h =>
    subst h
    exact AList.lookup_erase k' m
  · next h => exact lookup_erase_ne h

theorem lookup_insertNew (k k' : κ) (a : α) :
    (m.insertNew k a).lookup k' = if k' = k then some ((m.lookup k).getD a) else m.lookup k' := by
  unfold insertNew
  cases h : m.lookup k with
  | none => exact lookup_insert m k k' a
  | some a' =>
    rw [Option.isSome_some, if_pos rfl]
    split
    · next hk => rw [hk, h, Option.getD_some]
    · rfl

/-! ### Sums -/

/-- The sum of an amount over the entries. -/
def sum [AddMonoid β] (f : κ → α → β) (m : Map κ α) : β := (m.entries.map fun e => f e.1 e.2).sum

theorem sum_kerase [AddCommGroup β] (f : κ → α → β) (k : κ) :
    ∀ l : List (Sigma fun _ : κ => α), ((l.kerase k).map fun e => f e.1 e.2).sum =
      (l.map fun e => f e.1 e.2).sum - ((l.dlookup k).map (f k)).getD 0
  | [] => by simp
  | ⟨k', a⟩ :: l => by
    by_cases h : k = k'
    · subst h
      simp
    · rw [List.kerase_cons_ne h, List.dlookup_cons_ne _ _ h, List.map_cons, List.sum_cons,
        sum_kerase f k l, List.map_cons, List.sum_cons, add_sub_assoc]

theorem sum_insert [AddCommGroup β] (f : κ → α → β) (m : Map κ α) (k : κ) (a : α) :
    sum f (m.insert k a) = sum f m - ((m.lookup k).map (f k)).getD 0 + f k a := by
  have hcons : sum f (m.insert k a) =
      f k a + ((m.entries.kerase k).map fun e => f e.1 e.2).sum := by
    rfl
  rw [hcons, sum_kerase, add_comm]
  rfl

theorem sum_eq_of_lookup [AddCommMonoid β] {f : κ → α → β} {m m' : Map κ α}
    (h : ∀ k, m.lookup k = m'.lookup k) : sum f m = sum f m' := by
  have hperm : m.entries.Perm m'.entries :=
    List.lookup_ext m.nodupKeys m'.nodupKeys fun k a => by rw [← lookup, h k, lookup]
  exact (hperm.map _).sum_eq

theorem le_sum [AddCommMonoid β] [PartialOrder β] [IsOrderedAddMonoid β] {f : κ → α → β}
    {m : Map κ α} (hf : ∀ k a, m.lookup k = some a → 0 ≤ f k a) {k : κ} {a : α}
    (h : m.lookup k = some a) : f k a ≤ sum f m := by
  refine List.single_le_sum ?_ _ (List.mem_map.mpr ⟨⟨k, a⟩, mem_lookup_iff.mp h, rfl⟩)
  intro x hx
  obtain ⟨e, he, rfl⟩ := List.mem_map.mp hx
  exact hf e.1 e.2 (mem_lookup_iff.mpr he)

end Map

end NexaRoute.Go
