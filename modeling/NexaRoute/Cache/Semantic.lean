import Mathlib.Algebra.Order.Ring.Rat
import NexaRoute.Go.Time

/-!
# The semantic response cache

`internal/cache/semantic.go`: answers indexed by the embedding of the prompt they answered. A lookup
takes the most similar entry of its scope; entries are kept in the order of their last use, and the
least recently used one goes first.

Vectors have rational components. The cosine of two vectors is compared by its square with its sign,
which orders pairs of vectors as the cosine does; it is computed without rounding.

## Main definitions

* `SemanticCache.lookup`, `SemanticCache.store` — the calls of the cache
-/

namespace NexaRoute.Cache

open Go

abbrev Vec := List ℚ

/-- `SemanticEntry`, with the request it was stored for. What a hit reports of the deployment is
left out. -/
structure SemanticEntry (ρ : Type) where
  key : ℕ := 0
  body : List UInt8
  createdAt : Time
  vector : Vec
  scope : String
  trainsOnData : String
  noTraining : Bool
  origin : ρ

/-- The bounds of a cache. The threshold is positive. -/
structure SemanticBounds where
  ttl : Duration
  threshold : ℚ
  maxEntries : ℕ
  maxBytes : ℕ

/-- `SemanticCache`, the most recently used entry first. -/
structure SemanticCache (ρ : Type) where
  entries : List (SemanticEntry ρ) := []
  seq : ℕ := 0

def maxVectorDim : ℕ := 8192

/-- The scalar product. -/
def dot (a b : Vec) : ℚ := ((a.zip b).map fun p => p.1 * p.2).sum

/-- `CosineSimilarity`, squared, with the sign of the cosine. -/
def cosineSquare (a b : Vec) : ℚ :=
  if a = [] ∨ a.length ≠ b.length ∨ dot a a = 0 ∨ dot b b = 0 then 0
  else dot a b * |dot a b| / (dot a a * dot b b)

variable {ρ : Type}

/-- An entry that may serve. -/
def SemanticEntry.eligible (e : SemanticEntry ρ) (bounds : SemanticBounds) (now : Time)
    (scope : String) (requireNoTraining : Bool) : Bool :=
  e.scope == scope && decide (now - e.createdAt ≤ bounds.ttl) &&
    !(requireNoTraining && (!e.noTraining || e.trainsOnData != "no"))

/-- The best entry so far, with its score. -/
def better (bounds : SemanticBounds) (now : Time) (scope : String) (vector : Vec)
    (requireNoTraining : Bool) (best : Option (SemanticEntry ρ × ℚ)) (e : SemanticEntry ρ) :
    Option (SemanticEntry ρ × ℚ) :=
  let score := cosineSquare vector e.vector
  if e.eligible bounds now scope requireNoTraining ∧ bounds.threshold ^ 2 ≤ score ∧
      (best.map (·.2)).getD 0 < score then
    some (e, score)
  else best

namespace SemanticCache

/-- `Lookup`: the entry that serves, and the cache with it in front. -/
def lookup (c : SemanticCache ρ) (bounds : SemanticBounds) (now : Time) (scope : String)
    (vector : Vec) (requireNoTraining : Bool) : SemanticCache ρ × Option (SemanticEntry ρ) :=
  if vector = [] ∨ maxVectorDim < vector.length then (c, none)
  else match c.entries.foldl (better bounds now scope vector requireNoTraining) none with
    | none => (c, none)
    | some (e, _) => ({ c with entries := e :: c.entries.filter (·.key ≠ e.key) }, some e)

def bytes (entries : List (SemanticEntry ρ)) : ℕ := (entries.map (·.body.length)).sum

/-- The least recently used entries go until there is room for a body. -/
def evict (maxBytes need : ℕ) : ℕ → List (SemanticEntry ρ) → List (SemanticEntry ρ)
  | 0, entries => entries
  | k + 1, entries =>
    if maxBytes < bytes entries + need ∧ entries ≠ [] then evict maxBytes need k entries.dropLast
    else entries

def store (c : SemanticCache ρ) (bounds : SemanticBounds) (e : SemanticEntry ρ) :
    SemanticCache ρ :=
  if e.body = [] ∨ e.vector = [] ∨ maxVectorDim < e.vector.length ∨ e.scope = "" then c
  else if bounds.maxBytes < e.body.length then c
  else
    let kept := evict bounds.maxBytes e.body.length c.entries.length c.entries
    let kept := if bounds.maxEntries ≤ kept.length then kept.dropLast else kept
    { entries := { e with key := c.seq + 1 } :: kept, seq := c.seq + 1 }

def invalidate (c : SemanticCache ρ) : SemanticCache ρ := { c with entries := [] }

end SemanticCache

/-! ### What a lookup serves -/

variable {bounds : SemanticBounds} {now : Time} {scope : String} {vector : Vec}
  {requireNoTraining : Bool} {e : SemanticEntry ρ}

theorem mem_of_best {entries : List (SemanticEntry ρ)} : ∀ {best : Option (SemanticEntry ρ × ℚ)}
    {score : ℚ},
    entries.foldl (better bounds now scope vector requireNoTraining) best = some (e, score) →
      best = some (e, score) ∨
        (e ∈ entries ∧ e.eligible bounds now scope requireNoTraining = true) := by
  induction entries with
  | nil => intro best score h; exact .inl h
  | cons d entries ih =>
    intro best score h
    rcases ih h with hbest | ⟨hmem, hel⟩
    · simp only [better] at hbest
      split at hbest
      · next hd =>
        obtain ⟨rfl, -⟩ := Prod.mk.inj (Option.some.inj hbest)
        exact .inr ⟨List.mem_cons_self, hd.1⟩
      · exact .inl hbest
    · exact .inr ⟨List.mem_cons_of_mem _ hmem, hel⟩

theorem mem_of_lookup {c : SemanticCache ρ}
    (h : (c.lookup bounds now scope vector requireNoTraining).2 = some e) :
    e ∈ c.entries ∧ e.scope = scope := by
  unfold SemanticCache.lookup at h
  split at h
  · cases h
  · split at h
    · cases h
    · next score heq =>
      cases h
      rcases mem_of_best heq with hbest | ⟨hmem, hel⟩
      · cases hbest
      · refine ⟨hmem, ?_⟩
        simp only [SemanticEntry.eligible, Bool.and_eq_true, beq_iff_eq] at hel
        exact hel.1.1

theorem mem_lookup_entries {c : SemanticCache ρ} {d : SemanticEntry ρ}
    (h : d ∈ (c.lookup bounds now scope vector requireNoTraining).1.entries) : d ∈ c.entries := by
  unfold SemanticCache.lookup at h
  split at h
  · exact h
  · split at h
    · exact h
    · next best score heq =>
      rcases List.mem_cons.mp h with rfl | hd
      · rcases mem_of_best heq with hbest | ⟨hmem, -⟩
        · cases hbest
        · exact hmem
      · exact (List.mem_filter.mp hd).1

theorem mem_of_evict {maxBytes need : ℕ} : ∀ (k : ℕ) {entries : List (SemanticEntry ρ)},
    e ∈ SemanticCache.evict maxBytes need k entries → e ∈ entries
  | 0, _, h => h
  | k + 1, entries, h => by
    unfold SemanticCache.evict at h
    split at h
    · exact List.dropLast_subset _ (mem_of_evict k h)
    · exact h

theorem mem_store {c : SemanticCache ρ} {d : SemanticEntry ρ}
    (h : d ∈ (c.store bounds e).entries) :
    d ∈ c.entries ∨ (d.origin = e.origin ∧ d.scope = e.scope) := by
  unfold SemanticCache.store at h
  split at h
  · exact .inl h
  · split at h
    · exact .inl h
    · rcases List.mem_cons.mp h with rfl | hd
      · exact .inr ⟨rfl, rfl⟩
      · left
        split at hd
        · exact mem_of_evict _ (List.dropLast_subset _ hd)
        · exact mem_of_evict _ hd

end NexaRoute.Cache
