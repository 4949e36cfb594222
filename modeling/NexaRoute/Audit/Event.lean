import NexaRoute.Go.Sha256
import NexaRoute.Go.Time
import Mathlib

/-!
# Audit records and their hash

The record type of the security store and the two hashes it is sealed with. The digest is a
parameter: what the store relies on is a function from bytes to bytes, and only the tamper
results need it to be free of collisions. What they need of this file is that the bytes hashed
for a record have one reading, which is `canonicalBytes_inj`.

## Main results

* `canonicalBytes_inj` — the bytes hashed for a record determine it
-/

namespace NexaRoute.Audit

open Go

/-- `AuditEvent`, with its three chain fields last. -/
@[ext]
structure AuditEvent where
  timestamp : Time
  requestID : String
  actor : String
  action : String
  target : String
  method : String
  path : String
  outcome : String
  status : ℤ
  permission : String
  authn : String
  seq : UInt64
  prevHash : String
  hash : String
  deriving DecidableEq, Repr

/-- The part of a record its hash covers: everything but the hash. -/
def AuditEvent.content (e : AuditEvent) : AuditEvent := { e with hash := "" }

/-- The fields `canonicalAuditHash` writes, in its order. -/
def AuditEvent.fields (e : AuditEvent) : List String :=
  [toString e.seq.toNat, e.prevHash, formatRFC3339Nano e.timestamp, e.requestID, e.actor, e.action,
    e.target, e.method, e.path, e.outcome, toString e.status, e.permission, e.authn]

/-- The message hashed for a record: a domain separator and the fields, each behind its
length. -/
def canonicalBytes (e : AuditEvent) : List UInt8 :=
  bytes "nexaroute-audit-chain-v1" ++ e.fields.flatMap prefixed

variable (H : Digest)

/-- The versioned chain hash of one record. -/
def canonicalAuditHash (e : AuditEvent) : String := hexEncode (H.sum (canonicalBytes e))

/-- The chain hash of a stored record: its stored hash, or for a record from before the chain the
hash of its fields at the sequence it is stored under. -/
def recordHash (e : AuditEvent) (keySeq : UInt64) : String :=
  if e.hash ≠ "" then e.hash else canonicalAuditHash H { e with seq := keySeq, prevHash := "" }

/-! ### The encoding has one reading -/

theorem flatMap_prefixed_inj : ∀ {l l' : List String}, l.length = l'.length →
    l.flatMap prefixed = l'.flatMap prefixed → l = l'
  | [], [], _, _ => rfl
  | s :: l, t :: l', hlen, h => by
    obtain ⟨hst, hrest⟩ := prefixed_append_inj h
    rw [hst, flatMap_prefixed_inj (by simpa using hlen) hrest]

theorem fields_injective {a b : AuditEvent} (h : a.fields = b.fields) : a.content = b.content := by
  simp only [AuditEvent.fields, List.cons.injEq, and_true] at h
  obtain ⟨hseq, hprev, hts, hreq, hactor, haction, htarget, hmethod, hpath, hout, hstatus, hperm,
    hauthn⟩ := h
  have hseq' : a.seq = b.seq := UInt64.toNat_inj.mp (toString_nat_injective hseq)
  have hts' := formatRFC3339Nano_injective hts
  have hstatus' := Int.repr_injective hstatus
  simp [AuditEvent.content, *]

/-- **The bytes hashed for a record determine everything its hash is meant to cover.** -/
theorem canonicalBytes_inj {a b : AuditEvent} (h : canonicalBytes a = canonicalBytes b) :
    a.content = b.content :=
  fields_injective (flatMap_prefixed_inj rfl (List.append_cancel_left h))

theorem canonicalAuditHash_injective {H : Digest} (hH : Function.Injective H.sum)
    {a b : AuditEvent} (h : canonicalAuditHash H a = canonicalAuditHash H b) :
    a.content = b.content :=
  canonicalBytes_inj (hH (hexEncode_injective h))

theorem canonicalAuditHash_ne_empty (e : AuditEvent) : canonicalAuditHash H e ≠ "" :=
  hexEncode_ne_empty (H.sum_ne_nil _)

theorem recordHash_ne_empty (e : AuditEvent) (s : UInt64) : recordHash H e s ≠ "" := by
  simp only [recordHash]
  split
  · assumption
  · exact canonicalAuditHash_ne_empty H _

@[simp] theorem recordHash_chained {e : AuditEvent} (h : e.hash ≠ "") (s : UInt64) :
    recordHash H e s = e.hash := if_pos h

/-! ### The storage boundary -/

/-- The runes `Sanitize` keeps: no controls or line separators, and no rune that would take the
text, of which `used` bytes are written, past `maxBytes`. -/
def keepRunes (maxBytes : ℕ) : ℕ → List Char → List Char
  | _, [] => []
  | used, c :: rest =>
    if isControl c || c.toNat == 0x2028 || c.toNat == 0x2029 then keepRunes maxBytes used rest
    else if used + c.utf8Size > maxBytes then []
    else c :: keepRunes maxBytes (used + c.utf8Size) rest

def sanitize (value : String) (maxBytes : ℕ) : String :=
  if maxBytes < 1 then "" else
    trimSpace (String.ofList (keepRunes maxBytes 0 (trimSpace value).toList))

/-- `sanitizeAuditEvent`; `none` is `ErrInvalidAudit`. A record without a timestamp is stamped
with `clock`, the reading of `time.Now` that only such a record uses. -/
def sanitizeAuditEvent (event : AuditEvent) (clock : Time) : Option AuditEvent :=
  let event := { event with
    timestamp := if event.timestamp = zeroTime then clock else event.timestamp
    requestID := sanitize event.requestID 128
    actor := sanitize event.actor 200
    action := sanitize event.action 128
    target := sanitize event.target 200
    method := sanitize event.method 16
    path := sanitize event.path 256
    outcome := sanitize event.outcome 64
    permission := sanitize event.permission 64
    authn := sanitize event.authn 64 }
  if event.actor = "" ∨ event.action = "" ∨ event.outcome = "" ∨ event.status < 0
      ∨ event.status > 599 then none
  else some event

/-- `json.Marshal` refuses a timestamp outside the years 0 to 9999, and no other record. -/
def marshals (event : AuditEvent) : Bool :=
  let year := (civil (event.timestamp / day)).year
  0 ≤ year && year ≤ 9999

/-- A login, as the gateway records it. -/
def loginEvent : AuditEvent :=
  { timestamp := 0, requestID := "", actor := "admin", action := "login", target := ""
    method := "POST", path := "/admin/login", outcome := "ok", status := 200, permission := ""
    authn := "", seq := 0, prevHash := "", hash := "" }

theorem sanitize_loginEvent {t : Time} (ht : t ≠ zeroTime) (clock : Time) :
    sanitizeAuditEvent { loginEvent with timestamp := t } clock =
      some { loginEvent with timestamp := t } := by
  have hempty : ∀ n, sanitize "" n = "" := fun n => by
    simp only [sanitize]
    split <;> rfl
  have hactor : sanitize "admin" 200 = "admin" := by decide
  have haction : sanitize "login" 128 = "login" := by decide
  have hmethod : sanitize "POST" 16 = "POST" := by decide
  have hpath : sanitize "/admin/login" 256 = "/admin/login" := by decide
  have hout : sanitize "ok" 64 = "ok" := by decide
  simp [sanitizeAuditEvent, loginEvent, ht, hempty, hactor, haction, hmethod, hpath, hout]

end NexaRoute.Audit
