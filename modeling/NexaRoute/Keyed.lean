import Mathlib.Data.List.Sort

/-!
# Lists with distinct keys

A store that is loaded in key order is a list whose keys are distinct. What the proofs about such
a store need: looking a key up finds the one element that has it, writing an element replaces the
one with its key, deleting the keys of a prefix deletes the prefix, and sorting by key does not
depend on the order before.

## Main results

* `find?_eq_some`, `find?_reverse_eq_some` — lookup in a list with distinct keys
* `filter_eq_of_find?`, `toList_find?_reverse` — a key selects one element
* `mem_replace`, `map_key_replace`, `find?_replace`, `kept_replace_iff` — what a write leaves
* `filter_notMem_take` — deleting by key deletes a prefix
* `insertionSort_eq_of_perm` — one sorted list for all orders
* `collect_groups` — groups of elements come out one by one when their keys are distinct
-/

namespace NexaRoute.Keyed

variable {α κ : Type*} {key : α → κ} {l : List α}

theorem eq_of_key_eq (h : (l.map key).Nodup) {a b : α} (ha : a ∈ l) (hb : b ∈ l)
    (hk : key a = key b) : a = b :=
  List.inj_on_of_nodup_map h ha hb hk

theorem insertionSort_eq_of_perm {l' : List α} {r : α → α → Prop} [DecidableRel r] [Std.Total r]
    [IsTrans α r] (h : l.Perm l') (hr : ∀ a ∈ l, ∀ b ∈ l, r a b → r b a → a = b) :
    l.insertionSort r = l'.insertionSort r := by
  have hperm : (l.insertionSort r).Perm (l'.insertionSort r) :=
    (List.perm_insertionSort r l).trans (h.trans (List.perm_insertionSort r l').symm)
  refine hperm.eq_of_pairwise (fun a b ha hb hab hba => ?_) (List.pairwise_insertionSort r l)
    (List.pairwise_insertionSort r l')
  exact hr a ((List.mem_insertionSort r).mp ha) b
    (h.mem_iff.mpr ((List.mem_insertionSort r).mp hb)) hab hba

variable [DecidableEq κ]

theorem find?_eq_some (h : (l.map key).Nodup) {a : α} (ha : a ∈ l) :
    l.find? (fun b => key b == key a) = some a := by
  cases hf : l.find? (fun b => key b == key a) with
  | none =>
    have := List.find?_eq_none.mp hf a ha
    simp at this
  | some b =>
    have hk : key b = key a := by simpa using List.find?_some hf
    rw [eq_of_key_eq h (List.mem_of_find?_eq_some hf) ha hk]

theorem find?_reverse_eq_some (h : (l.map key).Nodup) {a : α} (ha : a ∈ l) :
    l.reverse.find? (fun b => key b == key a) = some a := by
  refine find?_eq_some ?_ (List.mem_reverse.mpr ha)
  rwa [List.map_reverse, List.nodup_reverse]

theorem filter_eq_of_find? (h : (l.map key).Nodup) {k : κ} {a : α}
    (hf : l.find? (fun b => key b == k) = some a) : l.filter (fun b => key b == k) = [a] := by
  have ha := List.mem_of_find?_eq_some hf
  have hk : key a = k := by simpa using List.find?_some hf
  refine List.perm_singleton.mp ((List.perm_ext_iff_of_nodup (h.of_map.filter _)
    (List.nodup_singleton a)).mpr fun b => ?_)
  rw [List.mem_filter, List.mem_singleton, beq_iff_eq]
  constructor
  · rintro ⟨hb, hbk⟩
    exact eq_of_key_eq h hb ha (hbk.trans hk.symm)
  · rintro rfl
    exact ⟨ha, hk⟩

theorem toList_find?_reverse (h : (l.map key).Nodup) (k : κ) :
    (l.reverse.find? fun b => key b == k).toList = l.filter fun b => key b == k := by
  by_cases hk : ∃ a ∈ l, key a = k
  · obtain ⟨a, ha, rfl⟩ := hk
    rw [find?_reverse_eq_some h ha, filter_eq_of_find? h (find?_eq_some h ha)]
    rfl
  · have hnone : ∀ a ∈ l, ¬ (key a == k) = true := fun a ha hak => hk ⟨a, ha, beq_iff_eq.mp hak⟩
    rw [List.find?_eq_none.mpr fun a ha => hnone a (List.mem_reverse.mp ha),
      List.filter_eq_nil_iff.mpr hnone]
    rfl

theorem perm_filter_append_filter_ne (k : κ) (l : List α) :
    (l.filter (fun a => key a == k) ++ l.filter fun a => key a ≠ k).Perm l := by
  have hperm := List.filter_append_perm (fun a => key a == k) l
  have hne : (fun a => !(key a == k)) = fun a => decide (key a ≠ k) := by
    funext a
    rw [decide_not, ← beq_eq_decide]
  rwa [hne] at hperm

theorem filter_notMem_take (h : (l.map key).Nodup) (k : ℕ) :
    l.filter (fun a => key a ∉ (l.take k).map key) = l.drop k := by
  have hsplit : (((l.take k).map key) ++ ((l.drop k).map key)).Nodup := by
    rwa [← List.map_append, List.take_append_drop]
  have hdisj := (List.nodup_append.mp hsplit).2.2
  conv_lhs => enter [2]; rw [← List.take_append_drop k l]
  rw [List.filter_append]
  have htake : (l.take k).filter (fun a => key a ∉ (l.take k).map key) = [] := by
    rw [List.filter_eq_nil_iff]
    intro a ha hmem
    exact of_decide_eq_true hmem (List.mem_map_of_mem ha)
  have hdrop : (l.drop k).filter (fun a => key a ∉ (l.take k).map key) = l.drop k := by
    rw [List.filter_eq_self]
    intro a ha
    exact decide_eq_true fun hm => hdisj _ hm _ (List.mem_map_of_mem ha) rfl
  rw [htake, hdrop, List.nil_append]

/-! ### Writing one element -/

/-- The list with `a` in the place of every element that has its key. -/
def replace (key : α → κ) (a : α) (l : List α) : List α :=
  l.map fun b => if key b = key a then a else b

@[simp] theorem map_key_replace (a : α) : (replace key a l).map key = l.map key := by
  rw [replace, List.map_map]
  refine List.map_congr_left fun b _ => ?_
  show key (if key b = key a then a else b) = key b
  split
  · next h => exact h.symm
  · rfl

theorem mem_replace {a b : α} :
    b ∈ replace key a l ↔ b = a ∧ key a ∈ l.map key ∨ b ∈ l ∧ key b ≠ key a := by
  simp only [replace, List.mem_map]
  constructor
  · rintro ⟨c, hc, rfl⟩
    split
    · next h => exact .inl ⟨rfl, c, hc, h⟩
    · next h => exact .inr ⟨hc, h⟩
  · rintro (⟨rfl, c, hc, h⟩ | ⟨hb, h⟩)
    · exact ⟨c, hc, if_pos h⟩
    · exact ⟨b, hb, if_neg h⟩

theorem replace_self (h : (l.map key).Nodup) {a : α} (ha : a ∈ l) : replace key a l = l := by
  conv_rhs => rw [← List.map_id l]
  refine List.map_congr_left fun b hb => ?_
  split
  · next hk => exact (eq_of_key_eq h hb ha hk).symm
  · rfl

theorem find?_replace (a : α) (k : κ) :
    (replace key a l).find? (fun b => key b == k) =
      if key a = k then (l.find? (fun b => key b == k)).map fun _ => a
      else l.find? (fun b => key b == k) := by
  induction l with
  | nil => simp [replace]
  | cons b l ih =>
    have hcons : replace key a (b :: l) =
        (if key b = key a then a else b) :: replace key a l := rfl
    rw [hcons, List.find?_cons, List.find?_cons, ih]
    by_cases hb : key b = key a <;> by_cases hk : key a = k
    · simp [hb, hk]
    · have hak : (key a == k) = false := beq_eq_false_iff_ne.mpr hk
      simp [hb, hak]
    · have hbk : (key b == k) = false := beq_eq_false_iff_ne.mpr fun h => hb (h.trans hk.symm)
      rw [if_neg hb, hbk, if_pos hk]
    · simp [hb, hk]

/-- Every element with `P` is still there under its key, and looks the same to `view`. -/
def Kept {β : Type*} (key : α → κ) (P : α → Prop) (view : α → β) (l l' : List α) : Prop :=
  ∀ a ∈ l, P a → ∃ b ∈ l', key b = key a ∧ view b = view a

omit [DecidableEq κ] in
theorem Kept.of_subset {β : Type*} {P : α → Prop} {view : α → β} {l' : List α} (h : l ⊆ l') :
    Kept key P view l l' := fun a ha _ => ⟨a, h ha, rfl, rfl⟩

theorem kept_replace_iff {β : Type*} {P : α → Prop} {view : α → β} (hd : (l.map key).Nodup)
    {a c : α} (hc : c ∈ l) (hk : key a = key c) :
    Kept key P view l (replace key a l) ↔ (P c → view a = view c) := by
  constructor
  · intro h hP
    obtain ⟨b, hb, hkey, hview⟩ := h c hc hP
    rcases mem_replace.mp hb with ⟨rfl, -⟩ | ⟨-, hne⟩
    · exact hview
    · exact absurd (hkey.trans hk.symm) hne
  · intro h b hb hP
    by_cases hbk : key b = key a
    · obtain rfl := eq_of_key_eq hd hb hc (hbk.trans hk)
      exact ⟨a, mem_replace.mpr (.inl ⟨rfl, List.mem_map.mpr ⟨b, hb, hbk⟩⟩), hk, h hP⟩
    · exact ⟨b, mem_replace.mpr (.inr ⟨hb, hbk⟩), rfl, rfl⟩

/-! ### Collecting by key -/

section Collect

variable (key : α → κ) (merge : α → α → α)

/-- Take an element in: into the one with its key, or as a new one. -/
def takeIn (slots : List α) (a : α) : List α :=
  if key a ∈ slots.map key then slots.map fun s => if key s = key a then merge s a else s
  else slots ++ [a]

/-- The elements of a list, collected by key. -/
def collect (l : List α) : List α := l.foldl (takeIn key merge) []

variable {key merge} {slots l : List α} {a : α} (hmerge : ∀ s a, key (merge s a) = key s)

include hmerge

theorem foldl_takeIn_last {s : α} {rest : List α}
    (hs : key s ∉ slots.map key) (hrest : ∀ a ∈ rest, key a = key s) :
    rest.foldl (takeIn key merge) (slots ++ [s]) = slots ++ [rest.foldl merge s] := by
  induction rest generalizing s with
  | nil => rfl
  | cons a rest ih =>
    have ha : key a = key s := hrest a (by simp)
    have hstep : takeIn key merge (slots ++ [s]) a = slots ++ [merge s a] := by
      unfold takeIn
      rw [if_pos (by simp [ha]), List.map_append]
      congr 1
      · refine (List.map_congr_left fun t ht => ?_).trans (List.map_id _)
        have hne : key t ≠ key a := fun h => hs (List.mem_map.mpr ⟨t, ht, h.trans ha⟩)
        rw [if_neg hne]
        rfl
      · simp [ha]
    rw [List.foldl_cons, hstep, List.foldl_cons]
    refine ih (by rwa [hmerge]) fun b hb => ?_
    rw [hmerge]
    exact hrest b (by simp [hb])

/-- **Groups with distinct keys come out one by one.** -/
theorem collect_groups (groups : List (α × List α))
    (hgroup : ∀ g ∈ groups, ∀ a ∈ g.2, key a = key g.1)
    (hdistinct : (groups.map fun g => key g.1).Nodup) :
    collect key merge (groups.flatMap fun g => g.1 :: g.2) =
      groups.map fun g => g.2.foldl merge g.1 := by
  suffices h : ∀ slots : List α, (∀ g ∈ groups, key g.1 ∉ slots.map key) →
      (groups.flatMap fun g => g.1 :: g.2).foldl (takeIn key merge) slots =
        slots ++ groups.map fun g => g.2.foldl merge g.1 by
    exact h [] fun _ _ => List.not_mem_nil
  induction groups with
  | nil => simp
  | cons g groups ih =>
    intro slots hslots
    rw [List.map_cons, List.nodup_cons] at hdistinct
    have hnew : takeIn key merge slots g.1 = slots ++ [g.1] := if_neg (hslots g (by simp))
    rw [List.flatMap_cons, List.foldl_append, List.foldl_cons, hnew,
      foldl_takeIn_last hmerge (hslots g (by simp)) (hgroup g (by simp)),
      ih (fun g' hg' => hgroup g' (by simp [hg'])) hdistinct.2]
    · simp
    · intro g' hg' hmem
      have hkey : ∀ (rest : List α) (s : α), key (rest.foldl merge s) = key s := by
        intro rest
        induction rest with
        | nil => exact fun _ => rfl
        | cons a rest ihr => exact fun s => (ihr _).trans (hmerge s a)
      rw [List.map_append, List.mem_append] at hmem
      rcases hmem with hmem | hmem
      · exact hslots g' (by simp [hg']) hmem
      · rw [List.map_singleton, List.mem_singleton, hkey] at hmem
        exact hdistinct.1 (List.mem_map.mpr ⟨g', hg', hmem⟩)

end Collect

end NexaRoute.Keyed
