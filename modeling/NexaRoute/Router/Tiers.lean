import NexaRoute.Router.Strategies
import Mathlib.Data.Prod.Lex
import Mathlib.Data.String.Basic

/-!
# Priority tiers

`ready_mesh` and `cost_aware` sort the candidates by their priority first. What they do behind the
sort, the pin to the front, the choice between two deployments and the diversification, moves an
element only past elements of its own priority. So the list of the priorities stays that of the
sorted list. The first place is decided before the diversification, which starts behind it and
leaves two neighbours to one provider only where the tier has no other (`Spread`).

## Main results

* `priority_tiers_kept` — tiers are not crossed
* `failover_diversified` — the next provider is another
-/

namespace NexaRoute.Router

open OrderDual List Option

/-! ### Moves inside a block of equal elements -/

section

variable {α β κ : Type*} {l : List α} {i j : ℕ}

theorem map_passed (f : α → β) {pre block rest : List α} {a : α} (h : ∀ b ∈ block, f b = f a) :
    (pre ++ a :: block ++ rest).map f = (pre ++ block ++ a :: rest).map f := by
  have hblock : block.map f = replicate block.length (f a) :=
    map_eq_replicate_iff.mpr h
  simp only [map_append, map_cons, hblock]
  rw [← replicate_succ, replicate_succ']
  simp

theorem map_swapAt (f : α → β) (l : List α) (i j : ℕ) :
    (swapAt l i j).map f = swapAt (l.map f) i j := by
  unfold swapAt
  rw [getElem?_map, getElem?_map]
  cases l[i]? <;> cases l[j]? <;> simp

theorem swapAt_eq_self (h : l[i]? = l[j]?) : swapAt l i j = l := by
  unfold swapAt
  split
  · rename_i a b ha hb
    rw [ha, hb] at h
    cases h
    obtain ⟨hi, rfl⟩ := List.getElem?_eq_some_iff.mp ha
    obtain ⟨hj, hij⟩ := List.getElem?_eq_some_iff.mp hb
    rw [set_getElem_self, ← hij, set_getElem_self]
  · rfl

theorem head?_swapAt {a : α} (h : l[j]? = some a) : (swapAt l 0 j).head? = some a := by
  cases l with
  | nil => cases h
  | cons b rest =>
    cases j with
    | zero => simpa [swapAt] using h
    | succ j => simp [swapAt, getElem?_cons_succ ▸ h]

theorem getElem?_eq_of_sorted [PartialOrder κ] {l : List κ} (hs : l.Pairwise (· ≤ ·)) {a : κ}
    (h₀ : l[0]? = some a) (hj : l[j]? = some a) {k : ℕ} (hk : k ≤ j) : l[k]? = l[j]? := by
  obtain ⟨hlt, rfl⟩ := List.getElem?_eq_some_iff.mp hj
  obtain ⟨hpos, h₀⟩ := List.getElem?_eq_some_iff.mp h₀
  have hlow : l[0] ≤ l[k] := hs.sortedLE.getElem_le_getElem_of_le (Nat.zero_le k)
  have hhigh : l[k] ≤ l[j] := hs.sortedLE.getElem_le_getElem_of_le hk
  rw [getElem?_eq_getElem (by omega), hj, le_antisymm hhigh (h₀ ▸ hlow)]

theorem le_of_head? [Preorder κ] {key : α → κ} (hs : l.Pairwise fun a b => key a ≤ key b) {a b : α}
    (h : l.head? = some a) (hb : b ∈ l) : key a ≤ key b := by
  cases l with
  | nil => cases hb
  | cons c rest =>
    cases h
    rcases mem_cons.mp hb with rfl | hb
    · exact le_rfl
    · exact rel_of_pairwise_cons hs hb

theorem takeWhile_eq_filter_of_sorted [LinearOrder κ] {key : α → κ} {c : κ}
    (hs : l.Pairwise fun a b => key a ≤ key b) (hc : ∀ b ∈ l, c ≤ key b) :
    l.takeWhile (key · == c) = l.filter (key · == c) := by
  induction l with
  | nil => rfl
  | cons b rest ih =>
    rw [takeWhile_cons, filter_cons]
    split
    · rw [ih (pairwise_cons.mp hs).2 fun d hd => hc d (mem_cons_of_mem b hd)]
    · next hb =>
      rw [beq_iff_eq] at hb
      have hlt := lt_of_le_of_ne (hc b mem_cons_self) (Ne.symm hb)
      refine (filter_eq_nil_iff.mpr fun d hd => ?_).symm
      rw [beq_iff_eq]
      exact (hlt.trans_le (rel_of_pairwise_cons hs hd)).ne'

theorem exists_of_lt_takeWhile {p : α → Bool} {n : ℕ} (h : n < (l.takeWhile p).length) :
    ∃ a, l[n]? = some a ∧ p a = true := by
  have hmem := mem_takeWhile_imp (getElem_mem h)
  exact ⟨_, prefix_iff_getElem?.mp ( takeWhile_prefix p) n h, hmem⟩

theorem pairwise_sortStable [LinearOrder κ] {less : α → α → Bool} {key : α → κ}
    (h : ∀ a b, less a b = true ↔ key a < key b) (l : List α) :
    (sortStable less l).Pairwise fun a b => key a ≤ key b := by
  have hle : ∀ a b, less b a = false ↔ key a ≤ key b := by
    intro a b
    rw [← not_lt, ← h, Bool.not_eq_true]
  have htotal : Std.Total fun a b => less b a = false :=
    ⟨fun a b => by rw [hle, hle]; exact le_total _ _⟩
  have htrans : IsTrans α fun a b => less b a = false :=
    ⟨fun a b c hab hbc => by rw [hle] at *; exact hab.trans hbc⟩
  exact (pairwise_insertionSort _ l).imp fun {a b} hab => (hle a b).mp hab

end

/-! ### The keys of the two orders -/

/-- `better`, as an order of keys: score down, pressure up, then the id. -/
def betterKey (s : Scored) : ℚᵒᵈ ×ₗ ℚ ×ₗ String :=
  toLex (toDual s.score, toLex (s.capacityPressure, s.deployment.id))

/-- Within a tier `cost_aware` sorts by: price unknown, cost where it is known, `better`. -/
def costKey (s : Scored) : Bool ×ₗ ℚ ×ₗ ℚᵒᵈ ×ₗ ℚ ×ₗ String :=
  toLex (!s.priceKnown, toLex (if s.priceKnown then s.estimatedCostUSD else 0, betterKey s))

theorem better_iff (a b : Scored) : better a b = true ↔ betterKey a < betterKey b := by
  simp only [better, betterKey, Prod.Lex.toLex_lt_toLex, toDual_lt_toDual, toDual_inj]
  split_ifs with hscore hpressure
  · simp [hscore]
  · simp [not_not.mp hscore, hpressure]
  · simp [not_not.mp hscore, not_not.mp hpressure]

theorem readier_iff (a b : Scored) : readier a b = true ↔
    toLex (a.rank.priority, betterKey a) < toLex (b.rank.priority, betterKey b) := by
  rw [readier, Prod.Lex.toLex_lt_toLex]
  split_ifs with htier
  · simp [htier]
  · simp [not_not.mp htier, better_iff]

theorem cheaper_iff (a b : Scored) : cheaper a b = true ↔
    toLex (a.rank.priority, costKey a) < toLex (b.rank.priority, costKey b) := by
  rw [cheaper, Prod.Lex.toLex_lt_toLex]
  split_ifs with htier hknown hcost
  · simp [htier]
  · cases ha : a.priceKnown <;> cases hb : b.priceKnown <;>
      simp_all [costKey, Prod.Lex.toLex_lt_toLex]
  · rw [not_ne_iff] at htier hknown
    simp [costKey, Prod.Lex.toLex_lt_toLex, htier, ← hknown, hcost]
  · cases ha : a.priceKnown <;> simp_all [costKey, Prod.Lex.toLex_lt_toLex, better_iff]

theorem better_self (a : Scored) : better a a = false := by
  rw [← Bool.not_eq_true, better_iff]
  exact lt_irrefl (betterKey a)

/-! ### The moves behind the sort -/

def tiers (l : List Scored) : List ℤ := l.map (·.rank.priority)

theorem getElem?_tiers (l : List Scored) (k : ℕ) :
    (tiers l)[k]? = l[k]?.map (·.rank.priority) :=
  getElem?_map

section

variable {out l l' : List Scored} {i k k' pick : ℕ} {provider : String} {priority : ℤ}

theorem nextProvider_spec (h : nextProvider out i provider priority = some pick) :
    ∃ n, pick = i + 1 + n ∧ ∀ k ≤ n, ∃ s, out[i + 1 + k]? = some s ∧ s.rank.priority = priority ∧
      (s.deployment.providerID ≠ provider ↔ k = n) := by
  obtain ⟨n, hn, rfl⟩ := map_eq_some_iff.mp h
  obtain ⟨hlt, hn, hbefore⟩ := findIdx?_eq_some_iff_getElem.mp hn
  refine ⟨n, rfl, fun k hk => ?_⟩
  have hmem := mem_takeWhile_imp (getElem_mem (hk.trans_lt hlt))
  refine ⟨_, ?_, beq_iff_eq.mp hmem, ?_⟩
  · rw [← getElem?_drop]
    exact prefix_iff_getElem?.mp ( takeWhile_prefix _) k (hk.trans_lt hlt)
  · rcases hk.eq_or_lt with rfl | hkn
    · simpa using hn
    · simpa [hkn.ne] using hbefore k hkn

/-- Where place `i` has the provider of the place before it, so has the rest of its tier. -/
def Spread (l : List Scored) (i : ℕ) : Prop :=
  ∀ prev ∈ l[i - 1]?, ∀ cur ∈ l[i]?, cur.deployment.providerID = prev.deployment.providerID →
    ∀ s ∈ l.drop (i + 1), s.rank.priority = cur.rank.priority →
      s.deployment.providerID = cur.deployment.providerID

/-- A place is left alone, or gets a deployment of another provider that passes those of the
provider before it, all in one tier. -/
theorem diversifyAt_cases (out : List Scored) (i : ℕ) :
    diversifyAt out i = out ∧ ((tiers out).Pairwise (· ≤ ·) → Spread out i) ∨
      ∃ prev pre block a rest, out[i - 1]? = some prev ∧ pre.length = i ∧
        out = pre ++ block ++ a :: rest ∧ diversifyAt out i = pre ++ a :: block ++ rest ∧
        a.deployment.providerID ≠ prev.deployment.providerID ∧ ∀ b ∈ block,
          b.deployment.providerID = prev.deployment.providerID ∧
            b.rank.priority = a.rank.priority := by
  unfold diversifyAt
  split
  · rename_i prev cur hprev hcur
    split
    · next hne =>
      refine .inl ⟨rfl, fun _ prev' hprev' cur' hcur' hsame => ?_⟩
      cases hprev.symm.trans hprev'
      cases hcur.symm.trans hcur'
      exact absurd hsame hne
    next hsame =>
    split
    · rename_i pick hpick
      obtain ⟨n, rfl, hrun⟩ := nextProvider_spec hpick
      obtain ⟨a, ha, htier, hother⟩ := hrun n le_rfl
      obtain ⟨hlt, hget⟩ := List.getElem?_eq_some_iff.mp ha
      refine .inr ⟨prev, out.take i, (out.take (i + 1 + n)).drop i, a, out.drop (i + 1 + n + 1),
        hprev, ?_, ?_, ?_, hother.mpr rfl, fun b hb => ?_⟩
      · rw [length_take]
        omega
      · rw [← hget, append_assoc, take_append_block (by omega) hlt]
      · rw [moveTo, ha]
      · obtain ⟨j, hj⟩ := mem_iff_getElem?.mp hb
        rw [getElem?_drop, getElem?_take] at hj
        split at hj
        · next hjn =>
          cases j with
          | zero =>
            cases hcur.symm.trans hj
            exact ⟨not_not.mp hsame, htier.symm⟩
          | succ j =>
            obtain ⟨s, hs, htier', hother'⟩ := hrun j (by omega)
            rw [show i + (j + 1) = i + 1 + j by omega] at hj
            cases hs.symm.trans hj
            exact ⟨not_not.mp fun hne => by have := hother'.mp hne; omega, htier'.trans htier.symm⟩
        · cases hj
    · next hnone =>
      refine .inl ⟨rfl, fun hs prev' hprev' cur' hcur' hsame' s hmem htier => ?_⟩
      cases hprev.symm.trans hprev'
      cases hcur.symm.trans hcur'
      rw [nextProvider, map_eq_none_iff, findIdx?_eq_none_iff] at hnone
      obtain ⟨hi, rfl⟩ := List.getElem?_eq_some_iff.mp hcur
      have hsorted := (pairwise_map.mp hs).sublist (drop_sublist i out)
      rw [drop_eq_getElem_cons hi, pairwise_cons] at hsorted
      have hnone' := hnone s <| by
        rw [takeWhile_eq_filter_of_sorted hsorted.2 hsorted.1]
        exact mem_filter.mpr ⟨hmem, beq_iff_eq.mpr htier⟩
      rw [hsame']
      simpa using hnone'
  · next hnone =>
    exact .inl ⟨rfl, fun _ prev hprev cur hcur => absurd hcur (hnone prev cur hprev)⟩

/-- From place `k` on a list was rearranged inside its tiers, and the deployments of a provider
passed those of other providers only. -/
structure Rearranged (k : ℕ) (out l : List Scored) : Prop where
  perm : l.Perm out
  take_eq : l.take k = out.take k
  tiers_eq : tiers l = tiers out
  filter_eq : ∀ provider, l.filter (·.deployment.providerID = provider) =
    out.filter (·.deployment.providerID = provider)

theorem Rearranged.refl (k : ℕ) (out : List Scored) : Rearranged k out out :=
  ⟨.refl out, rfl, rfl, fun _ => rfl⟩

theorem Rearranged.take_of_le (h : Rearranged k' out l) (hk : k ≤ k') :
    l.take k = out.take k := by
  have htake := congrArg (take k) h.take_eq
  rwa [take_take, take_take, min_eq_left hk] at htake

theorem Rearranged.trans (h : Rearranged k out l) (h' : Rearranged k' l l') (hk : k ≤ k') :
    Rearranged k out l' where
  perm := h'.perm.trans h.perm
  take_eq := (h'.take_of_le hk).trans h.take_eq
  tiers_eq := h'.tiers_eq.trans h.tiers_eq
  filter_eq p := (h'.filter_eq p).trans (h.filter_eq p)

theorem Spread.rearranged (h : Spread out i) (hl : Rearranged k out l) (hik : i < k) :
    Spread l i := by
  have hget : ∀ j < k, l[j]? = out[j]? := by
    intro j hj
    rw [← getElem?_take_of_lt hj, hl.take_eq, getElem?_take_of_lt hj]
  have hrest : (l.drop (i + 1)).Perm (out.drop (i + 1)) := by
    refine (perm_append_left_iff (out.take (i + 1))).mp ?_
    rw [take_append_drop, ← hl.take_of_le hik, take_append_drop]
    exact hl.perm
  intro prev hprev cur hcur hsame s hs
  rw [hget _ (by omega)] at hprev hcur
  exact h prev hprev cur hcur hsame s (hrest.mem_iff.mp hs)

theorem diversifyAt_rearranged (out : List Scored) (i : ℕ) :
    Rearranged i out (diversifyAt out i) := by
  rcases diversifyAt_cases out i with ⟨hsame, -⟩ | ⟨prev, pre, block, a, rest, -, rfl, rfl, hmoved,
    hother, hblock⟩
  · rw [hsame]
    exact .refl i out
  · rw [hmoved]
    refine ⟨hmoved ▸ diversifyAt_perm _ _, by simp, ?_, fun provider => ?_⟩
    · exact map_passed _ fun b hb => (hblock b hb).2
    · by_cases ha : a.deployment.providerID = provider
      · have hnone : block.filter (·.deployment.providerID = provider) = [] := by
          refine filter_eq_nil_iff.mpr fun b hb hq => hother ?_
          rw [ha, ← decide_eq_true_iff.mp hq, (hblock b hb).1]
        simp [ha, hnone]
      · simp [ha]

theorem diversifyAt_spread (hs : (tiers out).Pairwise (· ≤ ·)) (hi : 0 < i) :
    Spread (diversifyAt out i) i := by
  rcases diversifyAt_cases out i with ⟨hsame, hspread⟩ | ⟨prev, pre, block, a, rest, hprev, rfl, rfl,
    hmoved, hother, -⟩
  · rw [hsame]
    exact hspread hs
  · intro prev' hprev' cur hcur hsame
    rw [← getElem?_take_of_lt (Nat.sub_lt hi one_pos), (diversifyAt_rearranged _ _).take_eq,
      getElem?_take_of_lt (Nat.sub_lt hi one_pos)] at hprev'
    cases hprev.symm.trans hprev'
    rw [hmoved] at hcur
    simp at hcur
    exact absurd (hcur ▸ hsame) hother

theorem foldl_diversifyAt_spec {start : ℕ} (hstart : 0 < start) (out : List Scored) (n : ℕ) :
    Rearranged start out ((range' start n).foldl diversifyAt out) ∧
      ((tiers out).Pairwise (· ≤ ·) → ∀ i, start ≤ i → i < start + n →
        Spread ((range' start n).foldl diversifyAt out) i) := by
  induction n with
  | zero => exact ⟨.refl start out, fun _ i hi hi' => by omega⟩
  | succ n ih =>
    obtain ⟨hre, hspread⟩ := ih
    rw [range'_concat, foldl_append, one_mul]
    have hstep := diversifyAt_rearranged ((range' start n).foldl diversifyAt out) (start + n)
    refine ⟨hre.trans hstep (by omega), fun hs i hi hi' => ?_⟩
    rcases Nat.lt_succ_iff_lt_or_eq.mp hi' with hlt | rfl
    · exact (hspread hs i hi hlt).rearranged hstep hlt
    · exact diversifyAt_spread (hre.tiers_eq ▸ hs) (by omega)

theorem diversifyProviderFailover_spec (out : List Scored) (start : ℕ) (attemptLimit : ℤ) :
    Rearranged (max start 1) out (diversifyProviderFailover out start attemptLimit) ∧
      ((tiers out).Pairwise (· ≤ ·) → ∀ i, max start 1 ≤ i → i < out.length →
        (0 < attemptLimit → i < attemptLimit) →
        Spread (diversifyProviderFailover out start attemptLimit) i) := by
  obtain ⟨hre, hspread⟩ := foldl_diversifyAt_spec (lt_max_of_lt_right one_pos) out
    ((if 0 < attemptLimit ∧ attemptLimit < out.length then attemptLimit.toNat else out.length) -
      max start 1)
  refine ⟨hre, fun hs i hi hlen hlimit => hspread hs i hi ?_⟩
  split <;> omega

/-- **Failover goes to another provider where the tier has one.** The deployments before the start
stay, every tier keeps its places, the deployments of a provider keep their order, and a place that
can be attempted shares its provider with the place before it only if the rest of its tier does. -/
theorem failover_diversified (out : List Scored) (start attemptLimit : ℤ)
    (hsorted : out.Pairwise fun a b => a.rank.priority ≤ b.rank.priority) :
    let l := diversifyProviderFailover out start.toNat attemptLimit
    Rearranged (max start.toNat 1) out l ∧ ∀ i, max start.toNat 1 ≤ i → i < out.length →
      (0 < attemptLimit → i < attemptLimit) → Spread l i := by
  obtain ⟨hre, hspread⟩ := diversifyProviderFailover_spec out start.toNat attemptLimit
  exact ⟨hre, hspread (pairwise_map.mpr hsorted)⟩

theorem head?_diversify (out : List Scored) (attemptLimit : ℤ) :
    (diversifyProviderFailover out 1 attemptLimit).head? = out.head? := by
  have htake := (diversifyProviderFailover_spec out 1 attemptLimit).1.take_eq
  simpa [head?_take] using congrArg head? htake

end

/-! ### The pin -/

/-- The deployment a session is pinned to is a candidate of the best tier. -/
def Pinned (pin : String) (out : List Scored) : Prop :=
  pin ≠ "" ∧ ∃ s ∈ out, s.deployment.id = pin ∧ ∀ t ∈ out, s.rank.priority ≤ t.rank.priority

section

variable {out sorted l : List Scored} {pin : String} {i : ℕ}

theorem pinnedAt_spec (h : pinnedAt out pin = some i) : pin ≠ "" ∧
    ∃ s, out[i]? = some s ∧ s.deployment.id = pin ∧ (tiers out)[0]? = (tiers out)[i]? := by
  unfold pinnedAt at h
  split at h
  · cases h
  next hpin =>
  split at h
  · cases h
  · obtain ⟨hi, hp, -⟩ := findIdx?_eq_some_iff_getElem.mp h
    rw [Bool.and_eq_true, beq_iff_eq, beq_iff_eq] at hp
    refine ⟨hpin, _, getElem?_eq_getElem hi, hp.1, ?_⟩
    rw [getElem?_tiers, getElem?_tiers, getElem?_eq_getElem hi]
    exact congrArg some hp.2.symm

theorem exists_pinnedAt_iff (hs : (tiers out).Pairwise (· ≤ ·)) :
    (∃ i, pinnedAt out pin = some i) ↔ Pinned pin out := by
  constructor
  · rintro ⟨i, h⟩
    obtain ⟨hpin, s, hi, hid, htier⟩ := pinnedAt_spec h
    refine ⟨hpin, s, mem_of_getElem? hi, hid, fun t ht => ?_⟩
    rw [getElem?_tiers, getElem?_tiers, hi, ← head?_eq_getElem?] at htier
    obtain ⟨first, hfirst, heq⟩ := map_eq_some_iff.mp htier
    exact heq.symm.le.trans (le_of_head? (pairwise_map.mp hs) hfirst ht)
  · rintro ⟨hpin, s, hmem, hid, hbest⟩
    unfold pinnedAt
    rw [if_neg hpin]
    split
    · cases hmem
    · rename_i first rest
      have htier : s.rank.priority = first.rank.priority :=
        le_antisymm (hbest first mem_cons_self)
          (le_of_head? (pairwise_map.mp hs) rfl hmem)
      refine isSome_iff_exists.mp (findIdx?_isSome.trans (any_eq_true.mpr ?_))
      exact ⟨s, hmem, by simp [hid, htier]⟩

/-- What an order makes of its sorted list: the tiers stay, and a pin goes to the front. -/
structure Settles (sorted : List Scored) (pin : String) (l : List Scored) : Prop where
  tiers_eq : tiers l = tiers sorted
  head_eq : ∀ i, pinnedAt sorted pin = some i → l.head? = sorted[i]?

theorem Settles.promoted (hs : (tiers sorted).Pairwise (· ≤ ·)) (h : pinnedAt sorted pin = some i)
    (attempts : ℤ) :
    Settles sorted pin (diversifyProviderFailover (moveTo sorted 0 i) 1 attempts) := by
  obtain ⟨-, s, hi, -, htier⟩ := pinnedAt_spec h
  obtain ⟨hlt, rfl⟩ := List.getElem?_eq_some_iff.mp hi
  have hi' := (getElem?_tiers sorted i).trans (congrArg _ hi)
  have hmoved : moveTo sorted 0 i = [] ++ sorted[i] :: sorted.take i ++ sorted.drop (i + 1) := by
    rw [moveTo, hi]
    rfl
  have hre := (diversifyProviderFailover_spec (moveTo sorted 0 i) 1 attempts).1
  refine ⟨hre.tiers_eq.trans ?_, fun k hk => ?_⟩
  · have hblock := take_append_block (Nat.zero_le i) hlt
    rw [hmoved, tiers, map_passed _ fun b hb => ?_]
    · exact congrArg tiers hblock
    · obtain ⟨k, hk⟩ := mem_iff_getElem?.mp hb
      rw [getElem?_take] at hk
      split at hk
      · next hki =>
        have heq := getElem?_eq_of_sorted hs (htier.trans hi') hi' hki.le
        rw [hi', getElem?_tiers, hk] at heq
        exact some.inj heq
      · cases hk
  · cases h.symm.trans hk
    rw [head?_diversify, hi, hmoved]
    rfl

theorem Settles.unpinned (h : pinnedAt sorted pin = none) (ht : tiers l = tiers sorted)
    (attempts : ℤ) : Settles sorted pin (diversifyProviderFailover l 1 attempts) :=
  ⟨(diversifyProviderFailover_spec l 1 attempts).1.tiers_eq.trans ht,
    fun _ hi => by rw [h] at hi; cases hi⟩

theorem Settles.short (h : sorted.length < 2) : Settles sorted pin sorted := by
  refine ⟨rfl, fun i hi => ?_⟩
  obtain ⟨-, s, hs, -⟩ := pinnedAt_spec hi
  obtain ⟨hlt, -⟩ := List.getElem?_eq_some_iff.mp hs
  rw [head?_eq_getElem?, show i = 0 by omega]

theorem Settles.head_pinned (h : Settles sorted pin l) (hs : (tiers sorted).Pairwise (· ≤ ·))
    (hpin : Pinned pin sorted) : l.head?.map (·.deployment.id) = some pin := by
  obtain ⟨i, hi⟩ := (exists_pinnedAt_iff hs).mpr hpin
  obtain ⟨-, s, hget, hid, -⟩ := pinnedAt_spec hi
  rw [h.head_eq i hi, hget, map_some, hid]

theorem Pinned.perm (h : out.Perm l) : Pinned pin out ↔ Pinned pin l := by
  simp only [Pinned, h.mem_iff]

theorem pinnedAt_eq_none (hperm : sorted.Perm out) (hs : (tiers sorted).Pairwise (· ≤ ·))
    (h : ¬ Pinned pin out) : pinnedAt sorted pin = none := by
  by_contra hsome
  exact h ((Pinned.perm hperm).mp ((exists_pinnedAt_iff hs).mp (ne_none_iff_exists'.mp hsome)))

end

/-! ### The choice between two -/

theorem hashIndex_lt (key : String) (salt : Char) {n : ℕ} (hn : 0 < n) :
    hashIndex key salt n < n := by
  unfold hashIndex
  split
  · exact hn
  · exact Nat.mod_lt _ hn

theorem p2cWinner_spec (key : String) {w : ℕ} (hw : 2 ≤ w) (out : List Scored) :
    p2cWinner key w out < w ∧ ∃ j < w, j ≠ p2cWinner key w out ∧
      ∀ x ∈ out[p2cWinner key w out]?, ∀ y ∈ out[j]?, better y x = false := by
  have ha := hashIndex_lt key 'a' (show 0 < w by omega)
  have hb := hashIndex_lt key 'b' (show 0 < w - 1 by omega)
  unfold p2cWinner
  dsimp only
  generalize hashIndex key 'a' w = a at ha ⊢
  generalize hb' : (if a ≤ hashIndex key 'b' (w - 1) then hashIndex key 'b' (w - 1) + 1
    else hashIndex key 'b' (w - 1)) = b
  have hlt : b < w := by subst hb'; split <;> omega
  have hne : b ≠ a := by subst hb'; split <;> omega
  split
  · rename_i sa sb hsa hsb
    split
    · next hbetter =>
      refine ⟨hlt, a, ha, hne.symm, ?_⟩
      rw [better_iff] at hbetter
      simp only [hsb, hsa, mem_some_iff, forall_eq', ← Bool.not_eq_true, better_iff]
      exact lt_asymm hbetter
    · next hbetter =>
      refine ⟨ha, b, hlt, hne, ?_⟩
      simp only [hsb, hsa, mem_some_iff, forall_eq']
      exact Bool.eq_false_iff.mpr hbetter
  · next hnone => exact ⟨ha, b, hlt, hne, fun x hx y hy => absurd hy (hnone x y hx)⟩

/-- The candidates `ready_mesh` chooses from. -/
def choices (live : Live) (out : List Scored) : List Scored :=
  match sortStable readier out with
  | [] => []
  | first :: rest => (first :: rest).take (p2cWindow live first (first :: rest))

/-- Everything else in a list is better. -/
def Worst (l : List Scored) (x : Scored) : Prop :=
  ∃ k : ℕ, l[k]? = some x ∧ ∀ j ≠ k, ∀ y ∈ l[j]?, better y x = true

theorem tier_of_lt_p2cWindow {live : Live} {first : Scored} {rest : List Scored} {k : ℕ}
    (h : k < p2cWindow live first (first :: rest)) :
    (tiers (first :: rest))[k]? = some first.rank.priority := by
  have hw : k < 1 + (rest.takeWhile (·.rank.priority == first.rank.priority)).length := by
    refine h.trans_le (show _ ≤ window _ (first :: rest) from ?_)
    unfold p2cWindow
    dsimp only
    split <;> omega
  cases k with
  | zero => rfl
  | succ k =>
    rw [Nat.add_comm, Nat.add_lt_add_iff_left] at hw
    obtain ⟨a, ha, hp⟩ := exists_of_lt_takeWhile hw
    rw [getElem?_tiers, getElem?_cons_succ, ha]
    exact congrArg some (beq_iff_eq.mp hp)

/-! ### The two orders -/

section

variable (live : Live) (out : List Scored)

theorem sorted_readier : (tiers (sortStable readier out)).Pairwise (· ≤ ·) :=
  pairwise_map.mpr
    ((pairwise_sortStable readier_iff out).imp fun h => Prod.Lex.monotone_fst _ _ h)

theorem sorted_cheaper : (tiers (sortStable cheaper out)).Pairwise (· ≤ ·) :=
  pairwise_map.mpr
    ((pairwise_sortStable cheaper_iff out).imp fun h => Prod.Lex.monotone_fst _ _ h)

theorem orderCostAware_settles :
    Settles (sortStable cheaper out) live.pin (orderCostAware live out) := by
  unfold orderCostAware
  dsimp only
  split
  · next hlt => exact .short hlt
  split
  · next i hi => exact .promoted (sorted_cheaper out) hi _
  · next hi => exact .unpinned hi rfl _

theorem orderReadyMesh_settles :
    Settles (sortStable readier out) live.pin (orderReadyMesh live out) := by
  have hs := sorted_readier out
  unfold orderReadyMesh
  split
  · next first second rest heq =>
    rw [heq] at hs ⊢
    dsimp only
    split
    · next i hi => exact .promoted hs hi _
    next hi =>
    split
    · exact .unpinned hi rfl _
    · next hw =>
      have hwin := (p2cWinner_spec (selectionKey live) (not_lt.mp hw) (first :: second :: rest)).1
      refine .unpinned hi ((map_swapAt _ _ 0 _).trans (swapAt_eq_self ?_)) _
      exact (tier_of_lt_p2cWindow hwin).symm ▸ rfl
  · next hshort =>
    refine .short (not_le.mp fun hlen => ?_)
    match hsorted : sortStable readier out with
    | [] => simp [hsorted] at hlen
    | [a] => simp [hsorted] at hlen
    | a :: b :: rest => exact hshort a b rest hsorted

theorem head_orderCostAware {first : Scored} (hpin : ¬ Pinned live.pin out)
    (h : first ∈ (orderCostAware live out).head?) {t : Scored} (ht : t ∈ out) :
    toLex (first.rank.priority, costKey first) ≤ toLex (t.rank.priority, costKey t) := by
  have hperm := sortStable_perm cheaper out
  have hhead : (orderCostAware live out).head? = (sortStable cheaper out).head? := by
    unfold orderCostAware
    dsimp only
    split
    · rfl
    · rw [pinnedAt_eq_none hperm (sorted_cheaper out) hpin, head?_diversify]
  rw [hhead] at h
  exact le_of_head? (pairwise_sortStable cheaper_iff out) h (hperm.mem_iff.mpr ht)

theorem head_orderReadyMesh {first : Scored} (hpin : ¬ Pinned live.pin out)
    (hw : 2 ≤ (choices live out).length) (h : first ∈ (orderReadyMesh live out).head?) :
    first ∈ choices live out ∧ ¬ Worst (choices live out) first := by
  have hnone := pinnedAt_eq_none (sortStable_perm readier out) (sorted_readier out) hpin
  match hl : sortStable readier out with
  | [] => simp [choices, hl] at hw
  | [a] => simp [choices, hl] at hw
  | a :: b :: rest =>
    simp only [choices, hl, length_take] at hw ⊢
    have hw' := hw.trans (min_le_left _ _)
    obtain ⟨hlt, j, hj, hne, hbetter⟩ := p2cWinner_spec (selectionKey live) hw' (a :: b :: rest)
    have hget : ∀ k < p2cWindow live a (a :: b :: rest), ∃ x, (a :: b :: rest)[k]? = some x := by
      intro k hk
      have htier := tier_of_lt_p2cWindow hk
      rw [getElem?_tiers] at htier
      exact (map_eq_some_iff.mp htier).imp fun _ hx => hx.1
    obtain ⟨x, hx⟩ := hget _ hlt
    obtain ⟨y, hy⟩ := hget _ hj
    have hhead : (orderReadyMesh live out).head? = some x := by
      rw [hl] at hnone
      simp only [orderReadyMesh, hl, hnone, if_neg (not_lt.mpr hw'), head?_diversify,
        head?_swapAt hx]
    cases hhead.symm.trans h
    refine ⟨mem_of_getElem? ((getElem?_take_of_lt hlt).trans hx), ?_⟩
    rintro ⟨k, hk, hall⟩
    by_cases hjk : j = k
    · -- the deployment is there twice, and not better than itself
      have hself := hall _ (hjk ▸ hne.symm) first ((getElem?_take_of_lt hlt).trans hx)
      rw [better_self] at hself
      cases hself
    · have hbehind := hall j hjk y ((getElem?_take_of_lt hj).trans hy)
      rw [hbetter first hx y hy] at hbehind
      cases hbehind

/-- **Priority tiers are never crossed.** The two orders list the candidates by priority, and start
with the pinned deployment if it is in the best tier. Otherwise `cost_aware` starts with a minimum
of the best tier by price unknown, cost and `better`, and `ready_mesh`, where it has a choice, not
with the worst of its choices. -/
theorem priority_tiers_kept :
    (∀ l ∈ [orderReadyMesh live out, orderCostAware live out],
      l.Pairwise (fun a b => a.rank.priority ≤ b.rank.priority) ∧
        (Pinned live.pin out → l.head?.map (·.deployment.id) = some live.pin)) ∧
      (¬ Pinned live.pin out →
        (∀ first ∈ (orderCostAware live out).head?, ∀ t ∈ out,
          first.rank.priority ≤ t.rank.priority ∧
            (t.rank.priority = first.rank.priority → costKey first ≤ costKey t)) ∧
        (2 ≤ (choices live out).length → ∀ first ∈ (orderReadyMesh live out).head?,
          first ∈ choices live out ∧ ¬ Worst (choices live out) first)) := by
  have hkept : ∀ sorted l, sorted.Perm out → (tiers sorted).Pairwise (· ≤ ·) →
      Settles sorted live.pin l → l.Pairwise (fun a b => a.rank.priority ≤ b.rank.priority) ∧
        (Pinned live.pin out → l.head?.map (·.deployment.id) = some live.pin) := by
    intro sorted l hperm hs h
    have ht : (tiers l).Pairwise (· ≤ ·) := h.tiers_eq ▸ hs
    exact ⟨pairwise_map.mp ht, fun hpin => h.head_pinned hs ((Pinned.perm hperm).mpr hpin)⟩
  refine ⟨?_, fun hpin => ⟨fun first hfirst t ht => ?_, fun hw first hfirst => ?_⟩⟩
  · rintro l (_ | ⟨_, _ | ⟨_, ⟨⟩⟩⟩)
    · exact hkept _ _ (sortStable_perm readier out) (sorted_readier out)
        (orderReadyMesh_settles live out)
    · exact hkept _ _ (sortStable_perm cheaper out) (sorted_cheaper out)
        (orderCostAware_settles live out)
  · have hle := head_orderCostAware live out hpin hfirst ht
    refine ⟨Prod.Lex.monotone_fst _ _ hle, fun heq => ?_⟩
    rcases Prod.Lex.toLex_le_toLex.mp hle with hlt | ⟨-, hle⟩
    · exact absurd heq hlt.ne'
    · exact hle
  · exact head_orderReadyMesh live out hpin hw hfirst

end

/-- A candidate of a provider of its own, without a price. -/
def candidateOf (id : String) (priority : ℤ) (score : ℚ) : Scored where
  deployment := ⟨id, id, "openai_compatible", "gpt", [], 0, ⟨true, true, true, true⟩, "no"⟩
  rank := ⟨priority, 1, 0, 0⟩
  status := .healthy
  ewmaLatencyMS := 0
  score := score
  capacityPressure := 0
  estimatedCostUSD := 0
  priceKnown := false

/-- A request of a session without a pin. -/
def unpinnedLive : Live where
  modelRank _ := ⟨0, 1⟩
  routing := ⟨1, 1, 1, 8, 3⟩
  bookNow := 0
  ewma _ _ := (0, 0)
  selection := ⟨"session", "", fun _ => ⟨0, 0, 0, false, 0⟩, 0, 0⟩
  pin := ""
  rr := 0

/-- Of two candidates of the best tier the better one is first, however good a third one behind. -/
theorem tiers_of_three :
    let out := [candidateOf "c" 1 9, candidateOf "b" 0 2, candidateOf "a" 0 3]
    (orderReadyMesh unpinnedLive out).map (·.deployment.id) = ["a", "b", "c"] ∧
      ∀ first ∈ (orderReadyMesh unpinnedLive out).head?,
        first ∈ choices unpinnedLive out ∧ ¬ Worst (choices unpinnedLive out) first :=
  ⟨by decide +kernel,
    ((priority_tiers_kept unpinnedLive _).2 fun h => h.1 rfl).2 (by decide +kernel)⟩

/-- Two deployments of one provider, and one of another. -/
def twoProviders : List Scored :=
  [("a", "x"), ("b", "x"), ("c", "y")].map fun (id, provider) =>
    let s := candidateOf id 0 1
    { s with deployment := { s.deployment with providerID := provider } }

theorem failover_of_three :
    (diversifyProviderFailover twoProviders 1 3).map (·.deployment.id) = ["a", "c", "b"] ∧
      Rearranged 1 twoProviders (diversifyProviderFailover twoProviders 1 3) :=
  ⟨by decide +kernel, (failover_diversified twoProviders 1 3 (by decide +kernel)).1⟩

end NexaRoute.Router
