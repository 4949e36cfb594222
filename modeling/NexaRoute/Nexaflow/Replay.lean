import NexaRoute.Nexaflow.Webhook
import Mathlib.Data.List.Perm.Basic

/-!
# Replay protection

A delivery is claimed under a digest of its signature as the caller spelt it, while the signature
is verified after trimming and decoding. Calls that carry one spelling share a ledger key, and
then no interleaving of calls, failures and restarts starts the delivery twice. Two spellings that
both verify have two keys, and each of them starts a run.

## Main results

* `started_at_most_once_iff` — when a delivery is started once
-/

namespace NexaRoute.Nexaflow

open Go Machine List Service Call

variable {H : Digest} {d : Delivery} {k : String} {s : Service} {f : InFlight} {i : ℕ}

/-! ### One call -/

theorem run_handle (H : Digest) (ledger : List String) (started : List Delivery) (call : Call)
    (now : Time) (outcome : ClaimOutcome) :
    run (step H) ⟨ledger, [], started⟩ [.arrive call now, .claim 0 outcome, .start 0] =
      ⟨(handle H ledger call now outcome).2, [],
        if (handle H ledger call now outcome).1.isOk then call.delivery :: started
        else started⟩ := by
  unfold handle
  cases haccept : call.accept H now with
  | error err => simp [step, haccept, Except.toBool]
  | ok =>
    cases outcome with
    | failedBefore | failedAfter =>
      simp [step, haccept, Service.claim, Service.drop, Except.toBool]
    | answered =>
      by_cases hk : call.deliveryKey H ∈ ledger <;>
        simp [step, haccept, Service.claim, Service.drop, hk, Except.toBool]

/-! ### The invariant -/

/-- Whether a call has claimed the delivery and not started it yet. -/
def InFlight.opens (f : InFlight) (d : Delivery) : Bool :=
  decide (f.stage = .claimed ∧ f.call.delivery = d)

/-- The runs of a delivery that are started, or will be by a call in flight. -/
def Service.opened (s : Service) (d : Delivery) : ℕ :=
  s.started.count d + s.inFlight.countP (·.opens d)

/-- At most one run of `d` is opened, its key `k` is then recorded, and every call of `d` in flight
has that key. -/
structure Once (H : Digest) (d : Delivery) (k : String) (s : Service) : Prop where
  key : ∀ f ∈ s.inFlight, f.call.delivery = d → f.call.deliveryKey H = k
  opened : s.opened d ≤ 1
  recorded : 0 < s.opened d → k ∈ s.ledger

theorem once_fresh (H : Digest) (d : Delivery) (k : String) (ledger : List String) :
    Once H d k (.fresh ledger) := by
  constructor <;> simp [fresh, opened]

theorem Once.mono {s' : Service} (h : Once H d k s) (hin : s'.inFlight ⊆ s.inFlight)
    (hopened : s'.opened d ≤ s.opened d) (hledger : s.ledger ⊆ s'.ledger) : Once H d k s' where
  key f hf := h.key f (hin hf)
  opened := hopened.trans h.opened
  recorded hpos := hledger (h.recorded (hpos.trans_le hopened))

theorem Service.opened_drop_le (s : Service) (d : Delivery) (i : ℕ) :
    (s.drop i).opened d ≤ s.opened d :=
  Nat.add_le_add_left ((eraseIdx_sublist s.inFlight i).countP_le) _

section

variable (h : Once H d k s)

include h

theorem Once.drop (i : ℕ) : Once H d k (s.drop i) :=
  h.mono (eraseIdx_sublist s.inFlight i).subset (s.opened_drop_le d i) (List.Subset.refl _)

theorem Once.arrive {call : Call} {now : Time}
    (hcall : call.delivery = d → call.accept H now = .ok () → call.deliveryKey H = k) :
    Once H d k (step H s (.arrive call now)) := by
  cases haccept : call.accept H now with
  | error err => simpa [Nexaflow.step, haccept] using h
  | ok =>
    -- the new call has claimed nothing, so nothing more is opened
    have hopened : (step H s (.arrive call now)).opened d = s.opened d := by
      simp [Nexaflow.step, haccept, Service.opened, InFlight.opens]
    have hledger : (step H s (.arrive call now)).ledger = s.ledger := by
      simp [Nexaflow.step, haccept]
    refine ⟨?_, hopened ▸ h.opened, by rw [hopened, hledger]; exact h.recorded⟩
    intro f hf hd
    have hf' : f ∈ s.inFlight ∨ f = ⟨call, .verified⟩ := by
      simpa [Nexaflow.step, haccept] using hf
    rcases hf' with hf' | rfl
    · exact h.key f hf' hd
    · exact hcall hd haccept

theorem Once.claim {call : Call} (hi : s.inFlight[i]? = some ⟨call, .verified⟩)
    (outcome : ClaimOutcome) : Once H d k (s.claim H i call outcome) := by
  obtain ⟨hlt, hget⟩ := List.getElem?_eq_some_iff.mp hi
  cases outcome with
  | failedBefore => exact h.drop i
  | failedAfter =>
    exact (h.drop i).mono (List.Subset.refl _) le_rfl (subset_cons_self _ _)
  | answered =>
    by_cases hseen : call.deliveryKey H ∈ s.ledger
    · simpa [Service.claim, hseen] using h.drop i
    · have hopened : (s.claim H i call .answered).opened d =
          s.opened d + if call.delivery = d then 1 else 0 := by
        simp [Service.claim, hseen, Service.opened, InFlight.opens, countP_set hlt, hget,
          Nat.add_assoc]
      have hkey : call.delivery = d → call.deliveryKey H = k :=
        h.key ⟨call, .verified⟩ (mem_of_getElem? hi)
      have hledger : (s.claim H i call .answered).ledger = call.deliveryKey H :: s.ledger := by
        simp [Service.claim, hseen]
      refine ⟨?_, ?_, ?_⟩
      · intro f hf hd
        have hf' : f ∈ s.inFlight.set i ⟨call, .claimed⟩ := by
          simpa [Service.claim, hseen] using hf
        rcases mem_or_eq_of_mem_set hf' with hf' | rfl
        · exact h.key f hf' hd
        · exact hkey hd
      · rw [hopened]
        split
        · rename_i hd
          have hnone : ¬0 < s.opened d := fun hpos => hseen (hkey hd ▸ h.recorded hpos)
          omega
        · exact h.opened
      · rw [hopened, hledger]
        intro hpos
        by_cases hd : call.delivery = d
        · exact hkey hd ▸ mem_cons_self
        · rw [if_neg hd] at hpos
          exact mem_cons_of_mem _ (h.recorded hpos)

theorem Once.start {call : Call} (hi : s.inFlight[i]? = some ⟨call, .claimed⟩) :
    Once H d k { s.drop i with started := call.delivery :: s.started } := by
  obtain ⟨hlt, hget⟩ := List.getElem?_eq_some_iff.mp hi
  refine h.mono (eraseIdx_sublist s.inFlight i).subset ?_ (List.Subset.refl _)
  -- the call leaves the calls in flight and its delivery joins the started ones
  have hperm := (getElem_cons_eraseIdx_perm hlt).countP_eq (·.opens d)
  rw [hget, countP_cons] at hperm
  simp only [Service.opened, Service.drop, count_cons, InFlight.opens] at hperm ⊢
  by_cases hd : call.delivery = d <;> simp at hperm ⊢ <;> omega

theorem Once.step (st : Step)
    (hcall : ∀ call now, st = .arrive call now → call.delivery = d → call.accept H now = .ok () →
      call.deliveryKey H = k) : Once H d k (Nexaflow.step H s st) := by
  cases st with
  | arrive call now => exact h.arrive (hcall call now rfl)
  | claim i outcome =>
    simp only [Nexaflow.step]
    split
    · exact h.claim ‹_› outcome
    · exact h
  | start i =>
    simp only [Nexaflow.step]
    split
    · exact h.start ‹_›
    · exact h
  | lose i => exact h.drop i
  | restart =>
    refine h.mono (nil_subset _) ?_ (List.Subset.refl _)
    simp [Nexaflow.step, Service.opened]

theorem Once.run (steps : List Step)
    (hcall : ∀ call now, .arrive call now ∈ steps → call.delivery = d →
      call.accept H now = .ok () → call.deliveryKey H = k) :
    Once H d k (run (Nexaflow.step H) s steps) := by
  induction steps generalizing s with
  | nil => exact h
  | cons st steps ih =>
    have hst := h.step st fun call now hst => hcall call now (hst ▸ mem_cons_self)
    exact ih hst fun call now hmem => hcall call now (mem_cons_of_mem st hmem)

theorem Once.started_le : s.started.count d ≤ 1 :=
  (Nat.le_add_right _ _).trans h.opened

end

/-! ### Spellings -/

/-- The signature `sig` is accepted for `d` at some time. -/
def Delivery.Accepts (H : Digest) (d : Delivery) (sig : String) : Prop :=
  ∃ now, (Call.mk d sig).accept H now = .ok ()

/-- Two different messages with one digest. -/
def Collision (H : Digest) (x y : List UInt8) : Prop := x ≠ y ∧ H.sum x = H.sum y

theorem deliveryKey_eq_iff {sig sig' : String} :
    (mk d sig).deliveryKey H = (mk d sig').deliveryKey H ↔
      sig = sig' ∨ Collision H (mk d sig).keyText (mk d sig').keyText := by
  constructor
  · intro h
    have hsum := hexEncode_injective ((String.append_right_inj "webhook:").mp h)
    by_cases htext : (mk d sig).keyText = (mk d sig').keyText
    · exact .inl (bytes_injective (append_cancel_left htext))
    · exact .inr ⟨htext, hsum⟩
  · rintro (rfl | ⟨_, hsum⟩)
    · rfl
    · rw [deliveryKey, hsum, deliveryKey]

theorem run_handle_first {call : Call} {now : Time} {ledger : List String}
    (haccept : call.accept H now = .ok ()) (hk : call.deliveryKey H ∉ ledger)
    (started : List Delivery) :
    run (step H) ⟨ledger, [], started⟩ [.arrive call now, .claim 0 .answered, .start 0] =
      ⟨call.deliveryKey H :: ledger, [], call.delivery :: started⟩ := by
  rw [run_handle]
  simp [handle, haccept, hk, Except.toBool]

/-- A delivery whose signature is spelt as `S` allows is started at most once in every run exactly
when the spellings in `S` that verify are all one, or their keys collide. -/
theorem started_at_most_once_iff (H : Digest) (d : Delivery) (S : Set String) :
    (∀ (ledger : List String) (steps : List Step),
      (∀ call now, .arrive call now ∈ steps → call.delivery = d → call.signature ∈ S) →
      (run (step H) (.fresh ledger) steps).started.count d ≤ 1) ↔
    ∀ sig ∈ S, ∀ sig' ∈ S, d.Accepts H sig → d.Accepts H sig' →
      sig = sig' ∨ Collision H (Call.mk d sig).keyText (Call.mk d sig').keyText := by
  constructor
  · rintro honce sig hsig sig' hsig' ⟨now, haccept⟩ ⟨now', haccept'⟩
    by_contra hne
    have hk : (mk d sig').deliveryKey H ∉ [(mk d sig).deliveryKey H] := by
      intro hmem
      exact hne (deliveryKey_eq_iff.mp (mem_singleton.mp hmem).symm)
    -- one call after the other, each with its own spelling
    have htwice := honce [] ([.arrive ⟨d, sig⟩ now, .claim 0 .answered, .start 0] ++
      [.arrive ⟨d, sig'⟩ now', .claim 0 .answered, .start 0]) (by
        intro call now hmem _
        have hcall : call = ⟨d, sig⟩ ∨ call = ⟨d, sig'⟩ := by
          simp at hmem
          tauto
        rcases hcall with rfl | rfl
        · exact hsig
        · exact hsig')
    rw [run_append, fresh, run_handle_first haccept not_mem_nil,
      run_handle_first haccept' hk] at htwice
    simp at htwice
  · intro hS ledger steps hsteps
    -- any accepted spelling gives the key; without one no call of `d` is ever admitted
    by_cases hsome : ∃ sig ∈ S, d.Accepts H sig
    · obtain ⟨sig, hsig, hacc⟩ := hsome
      refine ((once_fresh H d ((mk d sig).deliveryKey H) ledger).run steps ?_).started_le
      rintro ⟨d', sig'⟩ now hmem rfl haccept
      exact deliveryKey_eq_iff.mpr (hS sig' (hsteps _ now hmem rfl) sig hsig ⟨now, haccept⟩ hacc)
    · refine ((once_fresh H d "" ledger).run steps ?_).started_le
      rintro ⟨d', sig'⟩ now hmem rfl haccept
      exact absurd ⟨sig', hsteps _ now hmem rfl, now, haccept⟩ hsome

/-- A delivery signed with the secret `key`. -/
def helloDelivery : Delivery where
  definitionID := bytes "flow"
  triggerNodeID := bytes "hook"
  timestamp := "1700000000"
  body := bytes "hello"
  secret := bytes "key"

/-- Its signature in small letters, then in capitals: both verify, and the delivery is started
twice. -/
theorem helloDelivery_started_twice :
    (run (step sha256) (.fresh [])
      [.arrive ⟨helloDelivery, "4d583a269f4f276a3fa80ff31b5a01879a848096983222a17893d198418939aa"⟩
        (1700000000 * second), .claim 0 .answered, .start 0,
      .arrive ⟨helloDelivery, "4D583A269F4F276A3FA80FF31B5A01879A848096983222A17893D198418939AA"⟩
        (1700000001 * second), .claim 0 .answered, .start 0]).started =
      [helloDelivery, helloDelivery] := by
  decide +kernel

end NexaRoute.Nexaflow
