import Mathlib.Tactic.Ring

/-!
# SHA-256 and HMAC

`crypto/sha256` and `crypto/hmac`. Results that hold of any hash function take a `Digest`;
`sha256` is the one the program uses, computed as FIPS 180-4 does, so that a concrete signature
or ledger key can be evaluated.

## Main definitions

* `sha256`, `hmac` — on lists of bytes
-/

namespace NexaRoute.Go

/-- A hash function on bytes. A digest is never empty; nothing else is assumed of it. -/
structure Digest where
  /-- The digest of a message. -/
  sum : List UInt8 → List UInt8
  sum_ne_nil : ∀ m, sum m ≠ []

namespace Sha256

def roundKeys : List UInt32 :=
  [0x428a2f98, 0x71374491, 0xb5c0fbcf, 0xe9b5dba5, 0x3956c25b, 0x59f111f1, 0x923f82a4, 0xab1c5ed5,
   0xd807aa98, 0x12835b01, 0x243185be, 0x550c7dc3, 0x72be5d74, 0x80deb1fe, 0x9bdc06a7, 0xc19bf174,
   0xe49b69c1, 0xefbe4786, 0x0fc19dc6, 0x240ca1cc, 0x2de92c6f, 0x4a7484aa, 0x5cb0a9dc, 0x76f988da,
   0x983e5152, 0xa831c66d, 0xb00327c8, 0xbf597fc7, 0xc6e00bf3, 0xd5a79147, 0x06ca6351, 0x14292967,
   0x27b70a85, 0x2e1b2138, 0x4d2c6dfc, 0x53380d13, 0x650a7354, 0x766a0abb, 0x81c2c92e, 0x92722c85,
   0xa2bfe8a1, 0xa81a664b, 0xc24b8b70, 0xc76c51a3, 0xd192e819, 0xd6990624, 0xf40e3585, 0x106aa070,
   0x19a4c116, 0x1e376c08, 0x2748774c, 0x34b0bcb5, 0x391c0cb3, 0x4ed8aa4a, 0x5b9cca4f, 0x682e6ff3,
   0x748f82ee, 0x78a5636f, 0x84c87814, 0x8cc70208, 0x90befffa, 0xa4506ceb, 0xbef9a3f7, 0xc67178f2]

/-- Rotation to the right. -/
def rotr (x n : UInt32) : UInt32 := (x >>> n) ||| (x <<< (32 - n))

/-- The eight working words. -/
structure Words where
  (a b c d e f g h : UInt32)

/-- The initial hash value. -/
def init : Words :=
  ⟨0x6a09e667, 0xbb67ae85, 0x3c6ef372, 0xa54ff53a, 0x510e527f, 0x9b05688c, 0x1f83d9ab, 0x5be0cd19⟩

/-- One round, with the round's constant and message word. -/
def round (s : Words) (kw : UInt32 × UInt32) : Words :=
  let s₁ := rotr s.e 6 ^^^ rotr s.e 11 ^^^ rotr s.e 25
  let ch := (s.e &&& s.f) ^^^ (~~~s.e &&& s.g)
  let t₁ := s.h + s₁ + ch + kw.1 + kw.2
  let s₀ := rotr s.a 2 ^^^ rotr s.a 13 ^^^ rotr s.a 22
  let maj := (s.a &&& s.b) ^^^ (s.a &&& s.c) ^^^ (s.b &&& s.c)
  ⟨t₁ + (s₀ + maj), s.a, s.b, s.c, s.d + t₁, s.e, s.f, s.g⟩

/-- The message schedule, from its last sixteen words on. -/
def schedule : ℕ → List UInt32 → List UInt32
  | n + 1, w :: rest =>
    let x := rest.getD 13 0
    let y := rest.getD 0 0
    let σ₁ := rotr x 17 ^^^ rotr x 19 ^^^ (x >>> 10)
    let σ₀ := rotr y 7 ^^^ rotr y 18 ^^^ (y >>> 3)
    w :: schedule n (rest ++ [σ₁ + rest.getD 8 0 + σ₀ + w])
  | _, window => window

/-- Take one block of sixteen words into the hash. -/
def compress (s : Words) (block : List UInt32) : Words :=
  let r := (roundKeys.zip (schedule 48 block)).foldl round s
  ⟨s.a + r.a, s.b + r.b, s.c + r.c, s.d + r.d, s.e + r.e, s.f + r.f, s.g + r.g, s.h + r.h⟩

/-- Big-endian words. -/
def words : List UInt8 → List UInt32
  | a :: b :: c :: d :: rest =>
    (a.toUInt32 <<< 24 ||| b.toUInt32 <<< 16 ||| c.toUInt32 <<< 8 ||| d.toUInt32) :: words rest
  | _ => []

/-- The message with its end mark and its length in bits, to a multiple of 64 bytes. -/
def padded (m : List UInt8) : List UInt8 :=
  m ++ [(0x80 : UInt8)] ++ List.replicate ((119 - m.length % 64) % 64) (0 : UInt8) ++
    (List.range 8).map fun i => UInt8.ofNat ((m.length * 8) >>> (8 * (7 - i)))

/-- The blocks of sixteen words. -/
def blocks : ℕ → List UInt32 → List (List UInt32)
  | 0, _ => []
  | n + 1, w => w.take 16 :: blocks n (w.drop 16)

def wordBytes (w : UInt32) : List UInt8 :=
  [(w >>> 24).toUInt8, (w >>> 16).toUInt8, (w >>> 8).toUInt8, w.toUInt8]

def sum256 (m : List UInt8) : List UInt8 :=
  let w := words (padded m)
  let s := (blocks (w.length / 16) w).foldl compress init
  [s.a, s.b, s.c, s.d, s.e, s.f, s.g, s.h].flatMap wordBytes

end Sha256

def sha256 : Digest := ⟨Sha256.sum256, fun m => by simp [Sha256.sum256, Sha256.wordBytes]⟩

/-- `hmac.New(h, key)` with the message written to it: keys longer than a block are hashed
first. -/
def hmac (H : Digest) (key message : List UInt8) : List UInt8 :=
  let k := if key.length > 64 then H.sum key else key
  let k := k ++ List.replicate (64 - k.length) 0
  H.sum (k.map (· ^^^ 0x5c) ++ H.sum (k.map (· ^^^ 0x36) ++ message))

end NexaRoute.Go
