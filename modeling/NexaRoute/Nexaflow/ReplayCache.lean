import NexaRoute.Go.Map
import NexaRoute.Nexaflow.Webhook
import Mathlib.Tactic.Linarith

/-!
# The in-memory replay cache

`WebhookVerifier.Verify` remembers the signatures it has accepted, and forgets one when the window has
passed since it was first seen. A delivery is refused when the window has passed since its timestamp.
The two windows do not start together. A delivery stamped ahead of the clock is forgotten before it
expires, and is then accepted again. The clock is also read twice in one call: a delivery that expires
in between is not refused by the first reading, and is forgotten by the second.

## Main results

* `accepted_once` — a verifier accepts a delivery once
-/

namespace NexaRoute.Nexaflow

open Go Machine

/-- What a delivery is to the verifier. -/
structure Signed where
  timestamp : String
  body : List UInt8
  secret : List UInt8
  deriving DecidableEq, Repr

/-- A call of `Verify`: when `VerifySignature` reads the clock, and when `Verify` does. -/
structure Verification where
  delivery : Signed
  signature : String
  checkedAt : Time
  seenAt : Time

/-- Why a delivery is refused. -/
inductive ReplayError
  | auth (err : VerifyError)
  | seen
  | full
  deriving DecidableEq, Repr

def webhookCacheLimit : ℕ := 10000

/-- `WebhookVerifier`: when each signature was seen. -/
structure WebhookVerifier where
  seen : Map String Time

variable (H : Digest)

/-- The key of a delivery in the cache. -/
def Signed.key (d : Signed) : String := hexEncode (expectedMAC H d.timestamp d.body d.secret)

/-- The entries that a call at `now` keeps. -/
def WebhookVerifier.prune (v : WebhookVerifier) (now : Time) : WebhookVerifier :=
  ⟨v.seen.keep fun _ first => !decide (webhookWindow < now - first)⟩

def verify (v : WebhookVerifier) (c : Verification) : Except ReplayError Unit × WebhookVerifier :=
  let d := c.delivery
  match verifySignature H c.checkedAt d.timestamp c.signature d.body d.secret with
  | .error err => (.error (.auth err), v)
  | .ok () =>
    let v := v.prune c.seenAt
    if (v.seen.lookup (d.key H)).isSome then (.error .seen, v)
    else if webhookCacheLimit ≤ v.seen.len then (.error .full, v)
    else (.ok (), ⟨v.seen.insert (d.key H) c.seenAt⟩)

/-! ### Runs -/

/-- The verifier, its last reading of the clock, and the deliveries it accepted. -/
structure CacheState where
  verifier : WebhookVerifier
  clock : Time
  accepted : List Signed

def CacheState.step (s : CacheState) (c : Verification) : CacheState where
  verifier := (verify H s.verifier c).2
  clock := c.seenAt
  accepted :=
    if (verify H s.verifier c).1.isOk then c.delivery :: s.accepted else s.accepted

/-- An empty verifier. -/
def CacheState.start (clock : Time) : CacheState := ⟨⟨∅⟩, clock, []⟩

/-- The clock does not go back. -/
def NonDecreasing (s : CacheState) (c : Verification) : Prop :=
  s.clock ≤ c.checkedAt ∧ c.checkedAt ≤ c.seenAt

/-- The timestamp is not ahead of the clock, and does not expire between the two readings. -/
def Stamped (_ : CacheState) (c : Verification) : Prop :=
  ∀ ts, parseWebhookTimestamp c.delivery.timestamp = some ts →
    ts ≤ c.seenAt ∧ (c.checkedAt ≤ ts + webhookWindow → c.seenAt ≤ ts + webhookWindow)

variable {H}

theorem window_of_verifySignature {now : Time} {timestamp signature : String}
    {body secret : List UInt8} (h : verifySignature H now timestamp signature body secret = .ok ()) :
    ∃ ts, parseWebhookTimestamp timestamp = some ts ∧ now ≤ ts + webhookWindow := by
  simp only [verifySignature] at h
  split_ifs at h
  cases hts : parseWebhookTimestamp timestamp with
  | none =>
    rw [hts] at h
    cases h
  | some ts =>
    rw [hts] at h
    simp only at h
    split_ifs at h with hwindow
    refine ⟨ts, rfl, ?_⟩
    have hbefore := (not_or.mp hwindow).1
    linarith

theorem verify_cases (v : WebhookVerifier) (c : Verification) :
    ((verify H v c).1.isOk = false ∧
      ((verify H v c).2 = v ∨ (verify H v c).2 = v.prune c.seenAt)) ∨
    ((verify H v c).1.isOk = true ∧
      (∃ ts, parseWebhookTimestamp c.delivery.timestamp = some ts ∧
        c.checkedAt ≤ ts + webhookWindow) ∧
      (v.prune c.seenAt).seen.lookup (c.delivery.key H) = none ∧
      (verify H v c).2 = ⟨(v.prune c.seenAt).seen.insert (c.delivery.key H) c.seenAt⟩) := by
  simp only [verify]
  cases hsig : verifySignature H c.checkedAt c.delivery.timestamp c.signature c.delivery.body
    c.delivery.secret with
  | error err => exact .inl ⟨rfl, .inl rfl⟩
  | ok u =>
    split_ifs with hseen hfull
    · exact .inl ⟨rfl, .inr rfl⟩
    · exact .inl ⟨rfl, .inr rfl⟩
    · exact .inr ⟨rfl, window_of_verifySignature hsig, by simpa using hseen, rfl⟩

/-! ### What is remembered -/

/-- What was accepted and has not expired is remembered, and was not stamped ahead. -/
structure Remembers (H : Digest) (s : CacheState) : Prop where
  seen : ∀ d ∈ s.accepted, ∀ ts, parseWebhookTimestamp d.timestamp = some ts →
    s.clock ≤ ts + webhookWindow → ∃ first, s.verifier.seen.lookup (d.key H) = some first ∧ ts ≤ first
  once : s.accepted.Nodup

theorem Remembers.step {s : CacheState} {c : Verification} (h : Remembers H s)
    (htime : NonDecreasing s c) (hstamped : Stamped s c) : Remembers H (s.step H c) := by
  have hclock : s.clock ≤ c.seenAt := htime.1.trans htime.2
  -- whatever the call does, what it found and has not expired survives its pruning
  have hkept : ∀ d ∈ s.accepted, ∀ ts, parseWebhookTimestamp d.timestamp = some ts →
      c.seenAt ≤ ts + webhookWindow →
        ∃ first, (s.verifier.prune c.seenAt).seen.lookup (d.key H) = some first ∧ ts ≤ first := by
    intro d hd ts hts hlive
    obtain ⟨first, hat, hle⟩ := h.seen d hd ts hts (hclock.trans hlive)
    have hkept : ¬ webhookWindow < c.seenAt - first := by linarith
    refine ⟨first, ?_, hle⟩
    rw [WebhookVerifier.prune, Map.lookup_keep, hat]
    simp [hkept]
  rcases verify_cases (H := H) s.verifier c with
    ⟨hrefused, hv⟩ | ⟨hok, ⟨ts, hts, hchecked⟩, hnew, hv⟩
  · refine ⟨?_, by simpa [CacheState.step, hrefused] using h.once⟩
    intro d hd ts hts hlive
    have hd' : d ∈ s.accepted := by simpa [CacheState.step, hrefused] using hd
    rcases hv with hv | hv
    · simp only [CacheState.step, hv]
      exact h.seen d hd' ts hts (hclock.trans hlive)
    · simp only [CacheState.step, hv]
      exact hkept d hd' ts hts hlive
  · have hlive : c.seenAt ≤ ts + webhookWindow := (hstamped ts hts).2 hchecked
    have hfresh : c.delivery ∉ s.accepted := by
      intro hmem
      obtain ⟨first, hfirst, -⟩ := hkept _ hmem ts hts hlive
      rw [hnew] at hfirst
      cases hfirst
    have haccepted : (s.step H c).accepted = c.delivery :: s.accepted := by
      simp [CacheState.step, hok]
    have hseen : (s.step H c).verifier.seen =
        (s.verifier.prune c.seenAt).seen.insert (c.delivery.key H) c.seenAt := by
      simp only [CacheState.step, hv]
    refine ⟨?_, haccepted ▸ List.nodup_cons.mpr ⟨hfresh, h.once⟩⟩
    intro d hd ts' hts' hlive'
    rw [hseen, Map.lookup_insert]
    rcases List.mem_cons.mp (haccepted ▸ hd) with rfl | hd
    · rw [if_pos rfl]
      exact ⟨c.seenAt, rfl, (hstamped ts' hts').1⟩
    · obtain ⟨first, hfirst, hle⟩ := hkept d hd ts' hts' hlive'
      have hne : d.key H ≠ c.delivery.key H := by
        intro heq
        rw [heq, hnew] at hfirst
        cases hfirst
      rw [if_neg hne]
      exact ⟨first, hfirst, hle⟩

/-- In every run of one verifier whose clock does not go back, and in which no delivery is stamped
ahead of the clock or expires between the two readings of a call, no delivery is accepted twice. -/
theorem accepted_once (H : Digest) (clock : Time) (calls : List Verification)
    (htime : Guarded (CacheState.step H) NonDecreasing (CacheState.start clock) calls)
    (hstamped : Guarded (CacheState.step H) Stamped (CacheState.start clock) calls) :
    (run (CacheState.step H) (CacheState.start clock) calls).accepted.Nodup := by
  have hstart : Remembers H (CacheState.start clock) :=
    ⟨fun _ hd => absurd hd List.not_mem_nil, List.nodup_nil⟩
  exact (run_induction (fun _ _ h hg => h.step hg.1 hg.2) hstart (htime.and hstamped)).once

theorem verifySignature_key {d : Signed} {now ts : Time} (hbody : d.body.length ≤ webhookMaxBody)
    (hts : parseWebhookTimestamp d.timestamp = some ts)
    (hwindow : now - webhookWindow ≤ ts ∧ ts ≤ now + webhookWindow) :
    verifySignature H now d.timestamp (d.key H) d.body d.secret = .ok () := by
  have hin : ¬ (ts < now - webhookWindow ∨ ts > now + webhookWindow) :=
    not_or.mpr ⟨not_lt.mpr hwindow.1, not_lt.mpr hwindow.2⟩
  simp only [verifySignature, hts, not_lt.mpr hbody, hin, if_false, Signed.key,
    trimSpace_hexEncode, hexDecode_hexEncode, ne_eq, not_true_eq_false]

theorem step_accepts {s : CacheState} {c : Verification}
    (hsig : verifySignature H c.checkedAt c.delivery.timestamp c.signature c.delivery.body
      c.delivery.secret = .ok ())
    (hnew : (s.verifier.prune c.seenAt).seen = ∅) :
    s.step H c = ⟨⟨(∅ : Map String Time).insert (c.delivery.key H) c.seenAt⟩, c.seenAt,
      c.delivery :: s.accepted⟩ := by
  have hverify : verify H s.verifier c =
      (.ok (), ⟨(∅ : Map String Time).insert (c.delivery.key H) c.seenAt⟩) := by
    simp only [verify, hsig, hnew]
    rfl
  simp only [CacheState.step, hverify]
  rfl

/-- A delivery signed with the secret `key`. -/
def signedHello : Signed := ⟨"1700000000", bytes "hello", bytes "key"⟩

/-- A call with its signature, some seconds after the timestamp. -/
def verifyHello (seconds : ℤ) : Verification where
  delivery := signedHello
  signature := signedHello.key sha256
  checkedAt := (1700000000 + seconds) * second
  seenAt := (1700000000 + seconds) * second

theorem parse_signedHello :
    parseWebhookTimestamp signedHello.timestamp = some (1700000000 * second) := by
  decide +kernel

theorem stamped_verifyHello (s : CacheState) {seconds : ℤ} (hmin : 0 ≤ seconds)
    (hmax : seconds ≤ 300) : Stamped s (verifyHello seconds) := by
  intro ts hts
  obtain rfl := Option.some.inj (parse_signedHello.symm.trans hts)
  simp only [verifyHello, webhookWindow, second]
  constructor
  · linarith
  · intro _
    linarith

theorem signedHello_once :
    (run (CacheState.step sha256) (CacheState.start 0)
      [verifyHello 0, verifyHello 300]).accepted.Nodup := by
  refine accepted_once sha256 0 _ ⟨⟨?_, le_refl _⟩, ⟨?_, le_refl _⟩, trivial⟩
    ⟨stamped_verifyHello _ (by decide) (by decide), stamped_verifyHello _ (by decide) (by decide),
      trivial⟩
  · show (0 : ℤ) ≤ (1700000000 + 0) * second
    decide
  · show ((1700000000 + 0) * second : ℤ) ≤ (1700000000 + 300) * second
    decide

/-- Stamped five minutes ahead of the clock, and accepted again as soon as it is forgotten. -/
theorem stamped_ahead_accepted_twice :
    Guarded (CacheState.step sha256) NonDecreasing (CacheState.start 0)
        [verifyHello (-300), verifyHello 1] ∧
      ¬ (run (CacheState.step sha256) (CacheState.start 0)
        [verifyHello (-300), verifyHello 1]).accepted.Nodup := by
  have hsig : ∀ seconds : ℤ, -300 ≤ seconds → seconds ≤ 300 →
      verifySignature sha256 ((1700000000 + seconds) * second) signedHello.timestamp
        (signedHello.key sha256) signedHello.body signedHello.secret = .ok () := by
    intro seconds hmin hmax
    refine verifySignature_key (by decide +kernel) parse_signedHello ?_
    simp only [webhookWindow, second]
    constructor <;> linarith
  constructor
  · refine ⟨⟨?_, le_refl _⟩, ⟨?_, le_refl _⟩, trivial⟩
    · show (0 : ℤ) ≤ (1700000000 + -300) * second
      decide
    · show ((1700000000 + -300) * second : ℤ) ≤ (1700000000 + 1) * second
      decide
  · have hfirst := step_accepts (s := CacheState.start 0) (c := verifyHello (-300))
      (hsig (-300) (by decide) (by decide)) rfl
    have hforgotten : ((CacheState.step sha256 (CacheState.start 0)
        (verifyHello (-300))).verifier.prune (verifyHello 1).seenAt).seen = ∅ := by
      have hold : webhookWindow < (verifyHello 1).seenAt - (verifyHello (-300)).seenAt := by
        show (300 * second : ℤ) < (1700000000 + 1) * second - (1700000000 + -300) * second
        decide
      rw [hfirst]
      apply AList.ext
      simp [WebhookVerifier.prune, Map.keep, hold]
    have hsecond := step_accepts (c := verifyHello 1) (hsig 1 (by decide) (by decide)) hforgotten
    rw [run_cons, run_cons, run_nil, hsecond, hfirst]
    simp [verifyHello]

end NexaRoute.Nexaflow
