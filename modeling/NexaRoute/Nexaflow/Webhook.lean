import NexaRoute.Go.Parse
import NexaRoute.Go.Sha256
import NexaRoute.Machine

/-!
# Signed webhooks

`WebhookService.Handle`: a delivery whose timestamp is fresh and whose signature verifies is claimed
in a durable ledger, and only a first claim starts a run. Calls overlap, so a call is three steps
here, arriving, claiming and starting, and the steps of different calls come in any order. A
process that stops loses its calls in flight and keeps the ledger. A claim can fail with an error
before or after the ledger recorded it.

The identifiers, the body and the secret are byte strings. A timestamp or a signature that is no
text is refused by the parser or the hexadecimal decoder, so these two are texts.

## Main definitions

* `handle`, `step` — a call, and its three steps
-/

namespace NexaRoute.Nexaflow

open Go

/-- Why a signature is not accepted. -/
inductive VerifyError
  | bodyTooLarge
  | timestampUnparseable
  | expired
  | notHex
  | mismatch
  deriving DecidableEq, Repr

/-- Five minutes. -/
def webhookWindow : Duration := 300 * second

def webhookMaxBody : ℕ := 2 ^ 20

/-- `parseWebhookTimestamp`: Unix seconds, or RFC 3339. -/
def parseWebhookTimestamp (ts : String) : Option Time :=
  match parseInt64 (trimSpace ts) with
  | some secs => some (unixTime secs)
  | none => parseRFC3339 (trimSpace ts)

variable (H : Digest)

/-- The authentication code of a delivery: over the timestamp, a point and the body. -/
def expectedMAC (timestamp : String) (body secret : List UInt8) : List UInt8 :=
  hmac H secret (bytes timestamp ++ bytes "." ++ body)

/-- `VerifySignature`. The signature is trimmed and decoded before it is compared. -/
def verifySignature (now : Time) (timestamp signature : String) (body secret : List UInt8) :
    Except VerifyError Unit :=
  if body.length > webhookMaxBody then .error .bodyTooLarge
  else match parseWebhookTimestamp timestamp with
    | none => .error .timestampUnparseable
    | some ts =>
      if ts < now - webhookWindow ∨ ts > now + webhookWindow then .error .expired
      else match hexDecode (trimSpace signature) with
        | none => .error .notHex
        | some sig =>
          if sig ≠ expectedMAC H timestamp body secret then .error .mismatch else .ok ()

structure Delivery where
  definitionID : List UInt8
  triggerNodeID : List UInt8
  timestamp : String
  body : List UInt8
  secret : List UInt8
  deriving DecidableEq, Repr

/-- A call of `Handle`: a delivery and the spelling of its signature. -/
structure Call where
  delivery : Delivery
  signature : String
  deriving DecidableEq, Repr

/-- What the ledger key is a digest of: definition, trigger and the signature as it was sent. -/
def Call.keyText (call : Call) : List UInt8 :=
  call.delivery.definitionID ++ [0] ++ call.delivery.triggerNodeID ++ [0] ++ bytes call.signature

/-- The ledger key of a call. It is never empty, so the ledger's check for that is left out. -/
def Call.deliveryKey (call : Call) : String := "webhook:" ++ hexEncode (H.sum call.keyText)

/-- Why a delivery is refused. -/
inductive HandleError
  | unaddressed
  | auth (err : VerifyError)
  | claim
  | replay
  deriving DecidableEq, Repr

/-- The checks before the ledger is asked. -/
def Call.accept (call : Call) (now : Time) : Except HandleError Unit :=
  if call.delivery.definitionID = [] ∨ call.delivery.triggerNodeID = [] then .error .unaddressed
  else match verifySignature H now call.delivery.timestamp call.signature call.delivery.body
      call.delivery.secret with
    | .error err => .error (.auth err)
    | .ok () => .ok ()

/-! ### Calls in flight -/

/-- How far a call is. -/
inductive Stage
  | verified
  | claimed
  deriving DecidableEq, Repr

/-- A call that has not been answered. -/
structure InFlight where
  call : Call
  stage : Stage
  deriving DecidableEq, Repr

/-- How the ledger answers a claim: with a verdict, or with an error, before or after the key was
recorded. -/
inductive ClaimOutcome
  | answered
  | failedBefore
  | failedAfter
  deriving DecidableEq, Repr

/-- The ledger, the calls in flight, and the runs that were started. -/
structure Service where
  ledger : List String
  inFlight : List InFlight
  started : List Delivery
  deriving DecidableEq, Repr

inductive Step
  | arrive (call : Call) (now : Time)
  | claim (i : ℕ) (outcome : ClaimOutcome)
  | start (i : ℕ)
  | lose (i : ℕ)
  | restart
  deriving DecidableEq, Repr

/-- The call answers and is no longer in flight. -/
def Service.drop (s : Service) (i : ℕ) : Service := { s with inFlight := s.inFlight.eraseIdx i }

/-- `Ledger.Claim` for the call at `i`, which has verified. -/
def Service.claim (s : Service) (i : ℕ) (call : Call) : ClaimOutcome → Service
  | .failedBefore => s.drop i
  | .failedAfter => { s.drop i with ledger := call.deliveryKey H :: s.ledger }
  | .answered =>
    if call.deliveryKey H ∈ s.ledger then s.drop i
    else { s with
      ledger := call.deliveryKey H :: s.ledger
      inFlight := s.inFlight.set i ⟨call, .claimed⟩ }

/-- What a step does. A step of a call that is not at the point for it does nothing. -/
def step (s : Service) : Step → Service
  | .arrive call now =>
    match call.accept H now with
    | .error _ => s
    | .ok () => { s with inFlight := s.inFlight ++ [⟨call, .verified⟩] }
  | .claim i outcome =>
    match s.inFlight[i]? with
    | some ⟨call, .verified⟩ => s.claim H i call outcome
    | _ => s
  | .start i =>
    match s.inFlight[i]? with
    | some ⟨call, .claimed⟩ => { s.drop i with started := call.delivery :: s.started }
    | _ => s
  | .lose i => s.drop i
  | .restart => { s with inFlight := [] }

/-- A service before its first call, over a ledger that may hold earlier claims. -/
def Service.fresh (ledger : List String) : Service := ⟨ledger, [], []⟩

/-! ### One call -/

/-- `Handle` with nothing else going on: its answer, which is that of `Start` when there is no error
here, and the ledger. -/
def handle (ledger : List String) (call : Call) (now : Time) (outcome : ClaimOutcome) :
    Except HandleError Unit × List String :=
  match call.accept H now with
  | .error err => (.error err, ledger)
  | .ok () =>
    match outcome with
    | .failedBefore => (.error .claim, ledger)
    | .failedAfter => (.error .claim, call.deliveryKey H :: ledger)
    | .answered =>
      if call.deliveryKey H ∈ ledger then (.error .replay, ledger)
      else (.ok (), call.deliveryKey H :: ledger)

end NexaRoute.Nexaflow
