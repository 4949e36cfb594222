import NexaRoute.Machine
import NexaRoute.Router.Eligible
import NexaRoute.Router.Tiers

/-!
# Fairness of the rotation

Under `round_robin` the candidates of the best health rank take turns: every call of `Candidates`
rotates their list, sorted by id, by the next value of a counter, and the counter moves only when
there is something to rotate.

## Main results

* `round_robin_fair` — each takes its turn
-/

namespace NexaRoute.Router

open Machine List

/-- The rotation counter behind an order. It moves where it is read: by a rotation of more than one
deployment, and by a choice of `ready_mesh` that no key of the request decides. -/
def rotationAfter (strategy : String) (live : Live) (out : List Scored) : UInt64 :=
  let moves : Bool :=
    if strategy = "ready_mesh" then
      match sortStable readier out with
      | first :: second :: rest =>
        let out := first :: second :: rest
        (pinnedAt out live.pin).isNone && 2 ≤ p2cWindow live first out &&
          live.selection.selectionKey = "" && live.selection.sessionKey = ""
      | _ => false
    else if strategy = "round_robin" then 1 < robinWindow (sortStable robinLess out)
    else strategy = "adaptive_round_robin" && 1 < adaptiveWindow (sortStable scoreLess out)
  if moves then live.rr + 1 else live.rr

/-- `Candidates`, with the counter it finds and the one it leaves. -/
def candidatesFrom (cfg : Config) (health : Health) (rr : UInt64) (call : Live × Requirement) :
    UInt64 × List Deployment :=
  let live := { call.1 with rr := rr }
  let out := candidates cfg health .asFound call.2
  (if out.length ≤ 1 then rr
    else rotationAfter cfg.strategy live (out.map (scored cfg health live call.2)),
    candidates cfg health (liveStrategy cfg health live) call.2)

/-- The rank `round_robin` sorts a deployment by first. -/
def rankOf (health : Health) (d : Deployment) : ℕ := healthRank (health.getWithScopes d.id []).1

def bestRanked (health : Health) (out : List Deployment) : List Deployment :=
  out.filter fun d => out.all fun e => rankOf health d ≤ rankOf health e

/-- The sort of `round_robin`. -/
def robinOrder (health : Health) (out : List Deployment) : List Deployment :=
  sortStable (fun d e => if rankOf health d ≠ rankOf health e then rankOf health d < rankOf health e
    else d.id < e.id) out

theorem sortStable_map {α β : Type*} (less : β → β → Bool) (f : α → β) (l : List α) :
    sortStable less (l.map f) = (sortStable (fun a b => less (f a) (f b)) l).map f :=
  (map_insertionSort _ _ f l fun _ _ _ _ => Iff.rfl).symm

variable {cfg : Config} {health : Health} {out : List Deployment} {live : Live} {req : Requirement}

theorem rank_scored (hstrategy : cfg.strategy = "round_robin") (d : Deployment) :
    healthRank (scored cfg health live req d).status = rankOf health d := by
  simp [scored, hstrategy, rankOf]

theorem sortStable_scored (hstrategy : cfg.strategy = "round_robin") :
    sortStable robinLess (out.map (scored cfg health live req)) =
      (robinOrder health out).map (scored cfg health live req) := by
  rw [sortStable_map, robinOrder]
  simp only [robinLess, rank_scored hstrategy]
  rfl

/-- The deployments of the best rank, by id: the front of the sorted list. -/
structure Turns (health : Health) (out s : List Deployment) : Prop where
  perm : s.Perm (bestRanked health out)
  byID : s.Pairwise (·.id ≤ ·.id)
  front : s <+: robinOrder health out
  eq_takeWhile : ∀ d rest, robinOrder health out = d :: rest →
    s = d :: rest.takeWhile (rankOf health · == rankOf health d)

theorem exists_turns (health : Health) (out : List Deployment) : ∃ s, Turns health out s := by
  have hperm : (robinOrder health out).Perm out := sortStable_perm _ out
  have hsorted : (robinOrder health out).Pairwise fun d e =>
      toLex (rankOf health d, d.id) ≤ toLex (rankOf health e, e.id) := by
    refine pairwise_sortStable (fun d e => ?_) out
    rw [Prod.Lex.toLex_lt_toLex]
    split_ifs with hrank
    · simp [hrank]
    · simp [not_not.mp hrank]
  have hranks := hsorted.imp fun h => (Prod.Lex.toLex_le_toLex'.mp h).1
  rcases horder : robinOrder health out with _ | ⟨d, rest⟩
  · obtain rfl : out = [] := (horder ▸ hperm).nil_eq.symm
    exact ⟨[], .nil, .nil, nil_prefix, by simp [horder]⟩
  have hmin : ∀ e ∈ out, rankOf health d ≤ rankOf health e := fun e he =>
    le_of_head? hranks (by rw [horder]; rfl) (hperm.mem_iff.mpr he)
  have hfront := takeWhile_eq_filter_of_sorted hranks fun e he => hmin e (hperm.mem_iff.mp he)
  have hbest : bestRanked health out = out.filter (rankOf health · == rankOf health d) := by
    refine filter_congr fun e he => Bool.eq_iff_iff.mpr ?_
    rw [all_eq_true, beq_iff_eq]
    constructor
    · intro h
      have hd : d ∈ out := hperm.mem_iff.mp (horder ▸ mem_cons_self)
      exact le_antisymm (of_decide_eq_true (h d hd)) (hmin e he)
    · intro h f hf
      exact decide_eq_true (h ▸ hmin f hf)
  refine ⟨_, hbest ▸ hperm.filter _, ?_, ?_, ?_⟩
  · refine (hsorted.sublist filter_sublist).imp_of_mem fun {a b} ha hb h => ?_
    rw [mem_filter, beq_iff_eq] at ha hb
    exact (Prod.Lex.toLex_le_toLex'.mp h).2 (ha.2.trans hb.2.symm)
  · rw [← hfront, horder]
    exact takeWhile_prefix _
  · intro d' rest' horder'
    obtain ⟨rfl, rfl⟩ := cons.inj (horder.symm.trans horder')
    rw [← hfront, horder, takeWhile_cons, if_pos (beq_self_eq_true _)]

/-- Every strategy leaves a list of at most one candidate, so `Candidates` may apply it always. -/
theorem candidates_liveStrategy (cfg : Config) (health : Health) (live : Live) (req : Requirement) :
    candidates cfg health (liveStrategy cfg health live) req =
      (liveStrategy cfg health live).order req (candidates cfg health .asFound req) := by
  have hfound : candidates cfg health (liveStrategy cfg health live) req =
      if (candidates cfg health .asFound req).length ≤ 1 then candidates cfg health .asFound req
      else (liveStrategy cfg health live).order req (candidates cfg health .asFound req) := by
    simp only [candidates, Strategy.asFound, ite_self]
  rw [hfound]
  split
  · next hlen =>
    have hperm := (liveStrategy cfg health live).perm req (candidates cfg health .asFound req)
    generalize candidates cfg health .asFound req = out at hlen hperm ⊢
    rcases out with _ | ⟨d, _ | _⟩
    · exact hperm.eq_nil.symm
    · exact (perm_singleton.mp hperm).symm
    · simp at hlen
  · rfl

theorem Turns.robinWindow_eq {s : List Deployment} (h : Turns health out s)
    (hstrategy : cfg.strategy = "round_robin") (live : Live) (req : Requirement) :
    robinWindow ((robinOrder health out).map (scored cfg health live req)) = s.length := by
  cases horder : robinOrder health out with
  | nil =>
    obtain rfl : s = [] := prefix_nil.mp (horder ▸ h.front)
    rfl
  | cons d rest =>
    rw [h.eq_takeWhile d rest horder, map_cons, robinWindow, window, tail_cons,
      takeWhile_map, length_map, length_cons, Nat.add_comm]
    simp only [Function.comp_def, rank_scored hstrategy]

theorem rotate_eq_self {α : Type*} {s : List α} (h : ¬1 < s.length) (n : ℕ) : s.rotate n = s := by
  rcases s with _ | ⟨a, _ | _⟩
  · exact rotate_nil n
  · exact rotate_singleton a n
  · simp at h

/-- One call rotates the front of the sorted list by the counter. -/
theorem Turns.candidatesFrom {s : List Deployment} {call : Live × Requirement}
    (h : Turns health (candidates cfg health .asFound call.2) s)
    (hstrategy : cfg.strategy = "round_robin") (rr : UInt64) :
    (candidatesFrom cfg health rr call).1 = (if 1 < s.length then rr + 1 else rr) ∧
      (candidatesFrom cfg health rr call).2.take s.length = s.rotate rr.toNat := by
  have hwindow := fun live : Live => h.robinWindow_eq hstrategy live call.2
  unfold Router.candidatesFrom
  dsimp only
  rw [candidates_liveStrategy]
  constructor
  · simp only [rotationAfter, hstrategy, sortStable_scored hstrategy, hwindow]
    split
    · next hlen =>
      rw [if_neg]
      have hshort := h.front.length_le.trans_eq (sortStable_perm _ _).length_eq
      exact not_lt.mpr (hshort.trans hlen)
    · simp
  · obtain ⟨rest, hrest⟩ := h.front
    have hdeployment : ∀ live : Live,
        (fun s : Scored => s.deployment) ∘ scored cfg health live call.2 = id := fun _ => rfl
    simp only [liveStrategy, applyStrategy, hstrategy, sortStable_scored hstrategy, hwindow,
      rotated, String.reduceEq, if_false, if_true]
    rw [← hrest]
    split
    · simp [rotateFront, map_rotate, hdeployment, rotate_mod]
    · next hw =>
      rw [map_map, hdeployment, map_id, take_left, rotate_eq_self hw]

/-- The calls of a run rotate by one place more each time. -/
theorem Turns.outputs {s : List Deployment} (h : Turns health out s)
    (hstrategy : cfg.strategy = "round_robin") {c : UInt64} {calls : List (Live × Requirement)}
    (hcalls : ∀ call ∈ calls, candidates cfg health .asFound call.2 = out)
    (hc : c.toNat + calls.length < 2 ^ 64) :
    (outputs (Router.candidatesFrom cfg health) c calls).map (take s.length) =
      (range calls.length).map fun k => s.rotate (c.toNat + k) := by
  induction calls generalizing c with
  | nil => rfl
  | cons call calls ih =>
    rw [length_cons] at hc
    have hcall := hcalls call mem_cons_self
    obtain ⟨hnext, hfront⟩ := Turns.candidatesFrom (hcall ▸ h) hstrategy c
    rw [Machine.outputs, map_cons, hfront, length_cons, range_succ_eq_map,
      map_cons, map_map]
    refine congrArg _ ?_
    rw [hnext]
    split
    · have hsucc : (c + 1).toNat = c.toNat + 1 := by
        rw [UInt64.toNat_add, Nat.mod_eq_of_lt] <;> simp; omega
      rw [ih (fun call hcall => hcalls call (mem_cons_of_mem _ hcall)) (by omega), hsucc]
      refine map_congr_left fun k _ => ?_
      rw [Function.comp_apply, Nat.succ_eq_add_one, Nat.add_right_comm, Nat.add_assoc]
    · next hw =>
      rw [ih (fun call hcall => hcalls call (mem_cons_of_mem _ hcall)) (by omega)]
      simp only [rotate_eq_self hw, Function.comp_def]

/-- **Fairness.** As many calls as there are candidates of the best rank, on one state and for
requests with the same candidates, answer with the rotations of these candidates in the order of
their ids, each first once. -/
theorem round_robin_fair (cfg : Config) (health : Health) (out : List Deployment)
    (hstrategy : cfg.strategy = "round_robin") (c : UInt64) (calls : List (Live × Requirement))
    (hcalls : ∀ call ∈ calls, candidates cfg health .asFound call.2 = out)
    (hlen : calls.length = (bestRanked health out).length)
    (hc : c.toNat + calls.length < 2 ^ 64) :
    let answers := outputs (candidatesFrom cfg health) c calls
    ∃ s : List Deployment, s.Perm (bestRanked health out) ∧ s.Pairwise (·.id ≤ ·.id) ∧
      (answers.map (take s.length) =
        (range calls.length).map fun k => s.rotate (c.toNat + k)) ∧
      (answers.map head?).Perm (s.map some) := by
  intro answers
  obtain ⟨s, h⟩ := exists_turns health out
  have hrun := h.outputs hstrategy hcalls hc
  have hlen' : calls.length = s.length := hlen.trans h.perm.length_eq.symm
  refine ⟨s, h.perm, h.byID, hrun, ?_⟩
  have hheads : answers.map head? = (s.rotate c.toNat).map some := by
    have htake : answers.map head? = (answers.map (take s.length)).map head? := by
      rw [map_map]
      refine map_congr_left fun l hl => ?_
      have hne : s.length ≠ 0 := by
        intro hs
        obtain rfl : calls = [] := length_eq_zero_iff.mp (hlen'.trans hs)
        exact not_mem_nil hl
      rw [Function.comp_apply, head?_take, if_neg hne]
    rw [htake, hrun, map_map]
    refine ext_getElem (by simp [hlen']) fun k hk hk' => ?_
    rw [length_map] at hk'
    rw [getElem_map, getElem_range, getElem_map, Function.comp_apply,
      ← rotate_rotate, head?_rotate hk', getElem?_eq_getElem hk']
  rw [hheads]
  exact (rotate_perm s _).map some

def robinConfig : Config := { meshConfig with strategy := "round_robin" }

theorem round_robin_of_two :
    let answers := outputs (candidatesFrom robinConfig .good) 7
      (replicate 2 (pinnedLive, .plain "gpt"))
    answers.map (·.map (·.id)) = [["q/m", "p/m"], ["p/m", "q/m"]] ∧
      ∃ s : List Deployment, s.Perm (bestRanked .good (all robinConfig)) ∧
        (answers.map head?).Perm (s.map some) := by
  obtain ⟨s, hperm, -, -, hheads⟩ := round_robin_fair robinConfig .good (all robinConfig) rfl 7
    (replicate 2 (pinnedLive, .plain "gpt")) (by decide +kernel) (by decide +kernel)
    (by decide +kernel)
  exact ⟨by decide +kernel, s, hperm, hheads⟩

end NexaRoute.Router
