import NexaRoute.Router.Candidates
import Mathlib.Data.List.Rotate

/-!
# The order of candidates

`applyStrategy` orders the deployments that can serve a request, in place: a stable sort, and then,
by strategy, the pinned deployment of a session to the front, a choice between two deployments of
the best tier, a rotation of the best ones, or the deployments of other providers moved forward.
Scores, latencies and costs are exact rationals.

What only the order depends on is kept apart from the deployments themselves: the order fields of a
model's configuration, the routing parameters, the fields of a request, the pin and the rotation
counter. Every strategy permutes the candidates (`applyStrategy_perm`), so an order is a `Strategy`.

## Main results

* `applyStrategy_perm` — strategies permute
-/

namespace NexaRoute.Router

open Go List

/-! ### What the order reads -/

/-- The fields of a model's configuration that only the order reads. -/
structure ModelRank where
  priority : ℤ
  weight : ℚ
  deriving DecidableEq, Repr

/-- The routing parameters that only the order reads. -/
structure RoutingConfig where
  latencyWeight : ℚ
  capacityWeight : ℚ
  failureWeight : ℚ
  p2cWindow : ℤ
  maxAttempts : ℤ
  deriving DecidableEq, Repr

structure ProviderLoad where
  active : ℤ
  waiting : ℤ
  limit : ℤ
  quotaExhausted : Bool
  quotaPressure : ℚ
  deriving DecidableEq, Repr

/-- The fields of a request that only the order reads. -/
structure Selection where
  sessionKey : String
  selectionKey : String
  providerLoad : String → ProviderLoad
  estimatedInputTokens : ℤ
  maxOutputTokens : ℤ

/-- What the router reads when it orders candidates: the order fields of its configuration, the time
of its last reload, the averages of the health manager for a deployment under scopes (latency and
failure rate), the request, the deployment the session is pinned to (`""` for none) and the rotation
counter. -/
structure Live where
  modelRank : String → ModelRank
  routing : RoutingConfig
  bookNow : Time
  ewma : String → List String → ℚ × ℚ
  selection : Selection
  pin : String
  rr : UInt64

/-- The fields of a deployment that only the order reads. -/
structure Rank where
  priority : ℤ
  weight : ℚ
  inputCostPerMTok : ℚ
  outputCostPerMTok : ℚ
  deriving DecidableEq, Repr

/-- A candidate with what it is ordered by. -/
structure Scored where
  deployment : Deployment
  rank : Rank
  status : Status
  ewmaLatencyMS : ℚ
  score : ℚ
  capacityPressure : ℚ
  estimatedCostUSD : ℚ
  priceKnown : Bool
  deriving DecidableEq, Repr

/-- The order fields `Reload` gives a deployment. A weight that is not positive counts as one, and
the price book goes before the rates of the model. -/
def Live.rank (live : Live) (cfg : Config) (id : String) : Rank where
  priority := (live.modelRank id).priority
  weight := if (live.modelRank id).weight ≤ 0 then 1 else (live.modelRank id).weight
  inputCostPerMTok := ((PriceBook.fromConfig cfg).resolveFor cfg id live.bookNow).inputPerMTok
  outputCostPerMTok := ((PriceBook.fromConfig cfg).resolveFor cfg id live.bookNow).outputPerMTok

def healthRank : Status → ℕ
  | .healthy => 0
  | .unknown => 1
  | .halfOpen => 2
  | _ => 3

/-- `capacityPressure`, between zero and four. -/
def capacityPressure (l : ProviderLoad) : ℚ :=
  if l.quotaExhausted then 4
  else
    let p : ℚ := if l.limit > 0 then (l.active + 2 * l.waiting) / l.limit else 0
    let p := min (max p 0) 4
    min (max p l.quotaPressure) 4

/-- `estimatedRequestCost`, where the request bounds its output and the deployment has a price. -/
def estimatedRequestCost (rank : Rank) (sel : Selection) : Option ℚ :=
  if sel.estimatedInputTokens ≤ 0 ∨ sel.maxOutputTokens ≤ 0 then none
  else if rank.inputCostPerMTok ≤ 0 ∧ rank.outputCostPerMTok ≤ 0 then none
  else
    let cost : ℚ := (sel.estimatedInputTokens * rank.inputCostPerMTok +
      sel.maxOutputTokens * rank.outputCostPerMTok) / 1000000
    if cost < 0 then none else some cost

/-- The share of a status in the score. -/
def healthAdjustment : Status → ℚ
  | .healthy => 35
  | .unknown => 10
  | .halfOpen => -10
  | .degraded => -20
  | _ => 0

/-- `scored`: an eligible deployment with its score. -/
def scored (cfg : Config) (health : Health) (live : Live) (req : Requirement) (d : Deployment) :
    Scored :=
  let scopes := if cfg.strategy == "ready_mesh" || cfg.strategy == "cost_aware" then req.scopes
    else []
  let status := (health.getWithScopes d.id scopes).1
  let (latency, failureRate) := live.ewma d.id scopes
  let rank := live.rank cfg d.id
  let pressure := capacityPressure (live.selection.providerLoad d.providerID)
  let cost := estimatedRequestCost rank live.selection
  { deployment := d
    rank := rank
    status := status
    ewmaLatencyMS := latency
    score := 100 + healthAdjustment status + rank.weight * 10 - rank.priority * 3 -
      latency * live.routing.latencyWeight - pressure * live.routing.capacityWeight -
      failureRate * live.routing.failureWeight
    capacityPressure := pressure
    estimatedCostUSD := cost.getD 0
    priceKnown := cost.isSome }

/-! ### The moves of an order -/

section

variable {α : Type*}

/-- `sort.SliceStable`: elements of which neither is less keep their order. -/
def sortStable (less : α → α → Bool) (l : List α) : List α :=
  l.insertionSort fun a b => less b a = false

theorem sortStable_perm (less : α → α → Bool) (l : List α) : (sortStable less l).Perm l :=
  perm_insertionSort _ l

/-- The element at `j` moved to the place `i` before it; those between move up by one. -/
def moveTo (l : List α) (i j : ℕ) : List α :=
  match l[j]? with
  | some a => l.take i ++ a :: (l.take j).drop i ++ l.drop (j + 1)
  | none => l

theorem take_append_block {l : List α} {i j : ℕ} (hij : i ≤ j) (hj : j < l.length) :
    l.take i ++ ((l.take j).drop i ++ l[j] :: l.drop (j + 1)) = l := by
  have htake : l.take i ++ (l.take j).drop i = l.take j := by
    conv_rhs => rw [← take_append_drop i (l.take j), take_take, min_eq_left hij]
  rw [← append_assoc, htake, getElem_cons_drop, take_append_drop]

theorem moveTo_perm {l : List α} {i j : ℕ} (hij : i ≤ j) : (moveTo l i j).Perm l := by
  unfold moveTo
  split
  · rename_i a ha
    obtain ⟨hj, rfl⟩ := List.getElem?_eq_some_iff.mp ha
    -- behind `take i` the element at `j` only passes the block between
    conv_rhs => rw [← take_append_block hij hj]
    rw [append_assoc]
    exact List.Perm.append_left _ perm_middle.symm
  · exact .refl l

/-- The elements at two places exchanged. -/
def swapAt (l : List α) (i j : ℕ) : List α :=
  match l[i]?, l[j]? with
  | some a, some b => (l.set i b).set j a
  | _, _ => l

theorem swapAt_perm (l : List α) (i j : ℕ) : (swapAt l i j).Perm l := by
  unfold swapAt
  split
  · rename_i a b ha hb
    obtain ⟨hi, rfl⟩ := List.getElem?_eq_some_iff.mp ha
    obtain ⟨hj, rfl⟩ := List.getElem?_eq_some_iff.mp hb
    exact set_set_perm hi hj
  · exact .refl l

/-- The first `w` elements rotated by `off` places. -/
def rotateFront (l : List α) (w off : ℕ) : List α := (l.take w).rotate off ++ l.drop w

theorem rotateFront_perm (l : List α) (w off : ℕ) : (rotateFront l w off).Perm l := by
  conv_rhs => rw [← take_append_drop w l]
  exact (rotate_perm _ off).append_right _

end

def better (a b : Scored) : Bool :=
  if a.score ≠ b.score then b.score < a.score
  else if a.capacityPressure ≠ b.capacityPressure then a.capacityPressure < b.capacityPressure
  else a.deployment.id < b.deployment.id

/-- The next deployment behind `i`, in the same tier, of another provider than the one before `i`. -/
def nextProvider (out : List Scored) (i : ℕ) (provider : String) (priority : ℤ) : Option ℕ :=
  (((out.drop (i + 1)).takeWhile (·.rank.priority == priority)).findIdx?
    (·.deployment.providerID != provider)).map (i + 1 + ·)

/-- One place of `diversifyProviderFailover`. -/
def diversifyAt (out : List Scored) (i : ℕ) : List Scored :=
  match out[i - 1]?, out[i]? with
  | some prev, some cur =>
    if cur.deployment.providerID ≠ prev.deployment.providerID then out
    else match nextProvider out i prev.deployment.providerID cur.rank.priority with
      | some pick => moveTo out i pick
      | none => out
  | _, _ => out

/-- `diversifyProviderFailover`: no two places of the prefix that can be attempted share a provider,
as far as the tier has others. -/
def diversifyProviderFailover (out : List Scored) (start : ℕ) (attemptLimit : ℤ) : List Scored :=
  let start := max start 1
  let stop := if 0 < attemptLimit ∧ attemptLimit < out.length then attemptLimit.toNat
    else out.length
  (List.range' start (stop - start)).foldl diversifyAt out

theorem diversifyAt_perm (out : List Scored) (i : ℕ) : (diversifyAt out i).Perm out := by
  unfold diversifyAt
  split
  · split
    · exact .refl out
    · split
      · rename_i pick hpick
        obtain ⟨k, -, rfl⟩ := Option.map_eq_some_iff.mp hpick
        exact moveTo_perm (by omega)
      · exact .refl out
  · exact .refl out

theorem diversifyProviderFailover_perm (out : List Scored) (start : ℕ) (attemptLimit : ℤ) :
    (diversifyProviderFailover out start attemptLimit).Perm out := by
  have hfold : ∀ (places : List ℕ) (l : List Scored), (places.foldl diversifyAt l).Perm l := by
    intro places
    induction places with
    | nil => exact fun l => .refl l
    | cons i places ih => exact fun l => (ih _).trans (diversifyAt_perm l i)
  exact hfold _ out

/-! ### Strategies -/

/-- The place of the pinned deployment, if it is in the best tier. -/
def pinnedAt (out : List Scored) (pin : String) : Option ℕ :=
  if pin = "" then none
  else match out with
    | [] => none
    | first :: _ =>
      out.findIdx? fun s => s.deployment.id == pin && s.rank.priority == first.rank.priority

/-- The order of `orderCostAware`. -/
def cheaper (a b : Scored) : Bool :=
  if a.rank.priority ≠ b.rank.priority then a.rank.priority < b.rank.priority
  else if a.priceKnown ≠ b.priceKnown then a.priceKnown
  else if a.priceKnown ∧ a.estimatedCostUSD ≠ b.estimatedCostUSD then
    a.estimatedCostUSD < b.estimatedCostUSD
  else better a b

def orderCostAware (live : Live) (out : List Scored) : List Scored :=
  let out := sortStable cheaper out
  if out.length < 2 then out
  else
    let out := match pinnedAt out live.pin with
      | some i => moveTo out 0 i
      | none => out
    diversifyProviderFailover out 1 live.routing.maxAttempts

def fnv64a (bs : List UInt8) : UInt64 :=
  bs.foldl (fun h b => (h ^^^ b.toUInt64) * 1099511628211) 14695981039346656037

def hashIndex (key : String) (salt : Char) (n : ℕ) : ℕ :=
  if n ≤ 1 then 0 else (fnv64a (bytes key ++ [salt.toNat.toUInt8])).toNat % n

/-- The order of `orderReadyMesh`. -/
def readier (a b : Scored) : Bool :=
  if a.rank.priority ≠ b.rank.priority then a.rank.priority < b.rank.priority else better a b

/-- The number of leading elements that share `p` with the first, which counts in any case. -/
def window (p : Scored → Bool) (out : List Scored) : ℕ := 1 + (out.tail.takeWhile p).length

/-- The best tier of `orderReadyMesh`, as far as the window goes. -/
def p2cWindow (live : Live) (first : Scored) (out : List Scored) : ℕ :=
  let w := window (·.rank.priority == first.rank.priority) out
  if 0 < live.routing.p2cWindow ∧ live.routing.p2cWindow < w then live.routing.p2cWindow.toNat
  else w

/-- The place of the better of two deployments that a hash chooses from the first `w`. -/
def p2cWinner (key : String) (w : ℕ) (out : List Scored) : ℕ :=
  let a := hashIndex key 'a' w
  let b := hashIndex key 'b' (w - 1)
  let b := if a ≤ b then b + 1 else b
  match out[a]?, out[b]? with
  | some sa, some sb => if better sb sa then b else a
  | _, _ => a

/-- The key a choice is made by: the request's, or the next value of the rotation counter. -/
def selectionKey (live : Live) : String :=
  if live.selection.selectionKey ≠ "" then live.selection.selectionKey
  else if live.selection.sessionKey ≠ "" then live.selection.sessionKey
  else toString (live.rr + 1).toNat

/-- `orderReadyMesh`. A pin of the best tier is final; other requests choose between two. -/
def orderReadyMesh (live : Live) (out : List Scored) : List Scored :=
  match sortStable readier out with
  | first :: second :: rest =>
    let out := first :: second :: rest
    match pinnedAt out live.pin with
    | some i => diversifyProviderFailover (moveTo out 0 i) 1 live.routing.maxAttempts
    | none =>
      let w := p2cWindow live first out
      if w < 2 then diversifyProviderFailover out 1 live.routing.maxAttempts
      else
        diversifyProviderFailover (swapAt out 0 (p2cWinner (selectionKey live) w out)) 1
          live.routing.maxAttempts
  | out => out

/-- The order of `ready_queue`. -/
def queueLess (a b : Scored) : Bool :=
  if a.rank.priority ≠ b.rank.priority then a.rank.priority < b.rank.priority
  else if a.rank.weight ≠ b.rank.weight then b.rank.weight < a.rank.weight
  else a.deployment.id < b.deployment.id

/-- The order of `priority`. -/
def priorityLess (a b : Scored) : Bool :=
  if healthRank a.status ≠ healthRank b.status then healthRank a.status < healthRank b.status
  else if a.rank.priority ≠ b.rank.priority then a.rank.priority < b.rank.priority
  else b.score < a.score

/-- The order of `least_latency`. A deployment without a latency comes last. -/
def latencyLess (a b : Scored) : Bool :=
  if healthRank a.status ≠ healthRank b.status then healthRank a.status < healthRank b.status
  else if a.ewmaLatencyMS = 0 ∧ b.ewmaLatencyMS ≠ 0 then false
  else if a.ewmaLatencyMS ≠ 0 ∧ b.ewmaLatencyMS = 0 then true
  else if a.ewmaLatencyMS ≠ b.ewmaLatencyMS then a.ewmaLatencyMS < b.ewmaLatencyMS
  else b.score < a.score

/-- The order of `round_robin`, before the rotation. -/
def robinLess (a b : Scored) : Bool :=
  if healthRank a.status ≠ healthRank b.status then healthRank a.status < healthRank b.status
  else a.deployment.id < b.deployment.id

/-- The order of `adaptive_round_robin`, before the rotation, and of any other strategy. -/
def scoreLess (a b : Scored) : Bool :=
  if healthRank a.status ≠ healthRank b.status then healthRank a.status < healthRank b.status
  else b.score < a.score

/-- The rotation of a window by the counter. -/
def rotated (live : Live) (w : ℕ) (out : List Scored) : List Scored :=
  if 1 < w then rotateFront out w ((live.rr + 1 - 1).toNat % w) else out

/-- The deployments `round_robin` rotates: those of the best health rank. -/
def robinWindow : List Scored → ℕ
  | [] => 0
  | first :: rest => window (fun s => healthRank s.status == healthRank first.status) (first :: rest)

/-- The deployments `adaptive_round_robin` rotates: at most 32 within 15 points of the best. -/
def adaptiveWindow : List Scored → ℕ
  | [] => 0
  | first :: rest =>
    min 32 (window (fun s => first.score - 15 ≤ s.score && s.status != .degraded) (first :: rest))

def applyStrategy (strategy : String) (live : Live) (out : List Scored) : List Scored :=
  if strategy = "ready_mesh" then orderReadyMesh live out
  else if strategy = "cost_aware" then orderCostAware live out
  else if strategy = "ready_queue" then sortStable queueLess out
  else if strategy = "priority" then sortStable priorityLess out
  else if strategy = "least_latency" then sortStable latencyLess out
  else if strategy = "round_robin" then
    let out := sortStable robinLess out
    rotated live (robinWindow out) out
  else if strategy = "adaptive_round_robin" then
    let out := sortStable scoreLess out
    rotated live (adaptiveWindow out) out
  else sortStable scoreLess out

theorem rotated_perm (live : Live) (w : ℕ) (out : List Scored) : (rotated live w out).Perm out := by
  unfold rotated
  split
  · exact rotateFront_perm out w _
  · exact .refl out

theorem orderCostAware_perm (live : Live) (out : List Scored) :
    (orderCostAware live out).Perm out := by
  have hsort := sortStable_perm cheaper out
  unfold orderCostAware
  dsimp only
  split
  · exact hsort
  · refine (diversifyProviderFailover_perm _ 1 _).trans ?_
    split
    · exact (moveTo_perm (Nat.zero_le _)).trans hsort
    · exact hsort

theorem orderReadyMesh_perm (live : Live) (out : List Scored) :
    (orderReadyMesh live out).Perm out := by
  have hsort := sortStable_perm readier out
  unfold orderReadyMesh
  split
  · rename_i first second rest heq
    rw [heq] at hsort
    dsimp only
    split
    · exact (diversifyProviderFailover_perm _ 1 _).trans
        ((moveTo_perm (Nat.zero_le _)).trans hsort)
    · split
      · exact (diversifyProviderFailover_perm _ 1 _).trans hsort
      · exact (diversifyProviderFailover_perm _ 1 _).trans ((swapAt_perm _ 0 _).trans hsort)
  · exact hsort

/-- **Every strategy permutes the candidates.** -/
theorem applyStrategy_perm (strategy : String) (live : Live) (out : List Scored) :
    (applyStrategy strategy live out).Perm out := by
  unfold applyStrategy
  split_ifs
  · exact orderReadyMesh_perm live out
  · exact orderCostAware_perm live out
  · exact sortStable_perm queueLess out
  · exact sortStable_perm priorityLess out
  · exact sortStable_perm latencyLess out
  · exact (rotated_perm live _ _).trans (sortStable_perm robinLess out)
  · exact (rotated_perm live _ _).trans (sortStable_perm scoreLess out)
  · exact sortStable_perm scoreLess out

/-- The order a router gives its candidates. -/
def liveStrategy (cfg : Config) (health : Health) (live : Live) : Strategy where
  order req l :=
    (applyStrategy cfg.strategy live (l.map (scored cfg health live req))).map (·.deployment)
  perm req l := by
    have hmap := (applyStrategy_perm cfg.strategy live (l.map (scored cfg health live req))).map
      (·.deployment)
    rw [List.map_map] at hmap
    have hid : (fun s : Scored => s.deployment) ∘ scored cfg health live req = id := rfl
    rwa [hid, List.map_id] at hmap

end NexaRoute.Router
