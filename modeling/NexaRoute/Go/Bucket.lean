import NexaRoute.Keyed
import Mathlib.Data.List.Induction
import Mathlib.Tactic.Ring

/-!
# Buckets and big-endian keys

A bucket of an embedded key-value store: entries in key order, one for each key, read with a
cursor and changed with `put` and `delete`. Keys are often fixed-width integers written with the
most significant byte first, so that the order of the bytes is the order of the numbers.

## Main results

* `Bucket.get_of_mem` — an entry is what its key reads
* `Bucket.perm_put_of_notMem`, `Bucket.length_put_of_mem` — a new key is inserted, an old one
  replaced
* `uint64_putUint64`, `putUint64_uint64` — a written integer reads back, and eight bytes are one
-/

namespace NexaRoute.Go

open List

/-- The entries of a bucket in cursor order. A key is stored once. -/
structure Bucket (K V : Type*) where
  entries : List (K × V)
  nodup : (entries.map Prod.fst).Nodup
  deriving DecidableEq

namespace Bucket

variable {K V : Type*} [DecidableEq K] {b : Bucket K V} {k : K} {v w : V}

/-- The value stored under a key. -/
def get (b : Bucket K V) (k : K) : Option V := (b.entries.find? (·.1 == k)).map Prod.snd

/-- Remove a key. -/
def delete (b : Bucket K V) (k : K) : Bucket K V where
  entries := b.entries.filter (·.1 != k)
  nodup := b.nodup.sublist (List.Sublist.map Prod.fst List.filter_sublist)

theorem get_of_mem (h : (k, v) ∈ b.entries) : b.get k = some v := by
  have hf := Keyed.find?_eq_some b.nodup h
  rw [get, hf, Option.map_some]

theorem delete_of_notMem (h : k ∉ b.entries.map Prod.fst) :
    (b.delete k).entries = b.entries := by
  refine filter_eq_self.mpr fun e he => ?_
  have hne : e.1 ≠ k := fun hk => h (hk ▸ mem_map_of_mem he)
  simpa using hne

theorem length_delete_of_mem (h : (k, v) ∈ b.entries) :
    (b.delete k).entries.length + 1 = b.entries.length := by
  obtain ⟨l, l', hl⟩ := append_of_mem h
  have hnodup := b.nodup
  rw [hl, map_append, map_cons, nodup_middle, nodup_cons] at hnodup
  have hkeep : (l ++ l').filter (·.1 != k) = l ++ l' := by
    refine filter_eq_self.mpr fun e he => ?_
    have hne : e.1 ≠ k := by
      intro hk
      rw [← map_append, ← hk] at hnodup
      exact hnodup.1 (mem_map.mpr ⟨e, he, rfl⟩)
    simpa using hne
  have hfilter : (b.delete k).entries = l ++ l' := by
    change b.entries.filter (·.1 != k) = _
    rw [hl, filter_append, filter_cons, if_neg (by simp), ← filter_append, hkeep]
  rw [hfilter, hl]
  simp [Nat.add_assoc]

section Put

variable [LE K] [DecidableLE K]

/-- Store a value under a key, in the place of one that was there. -/
def put (b : Bucket K V) (k : K) (v : V) : Bucket K V where
  entries := (b.delete k).entries.orderedInsert (fun x y => x.1 ≤ y.1) (k, v)
  nodup := by
    have hperm := (List.perm_orderedInsert (fun x y : K × V => x.1 ≤ y.1) (k, v)
      (b.delete k).entries).map Prod.fst
    rw [hperm.nodup_iff, List.map_cons, List.nodup_cons]
    refine ⟨?_, (b.delete k).nodup⟩
    simp [delete]

theorem perm_put (b : Bucket K V) (k : K) (v : V) :
    (b.put k v).entries.Perm ((k, v) :: (b.delete k).entries) :=
  perm_orderedInsert _ _ _

theorem perm_put_of_notMem (h : k ∉ b.entries.map Prod.fst) :
    (b.put k v).entries.Perm ((k, v) :: b.entries) := by
  have := b.perm_put k v
  rwa [delete_of_notMem h] at this

theorem length_put_of_mem (h : (k, w) ∈ b.entries) :
    (b.put k v).entries.length = b.entries.length := by
  rw [(b.perm_put k v).length_eq, length_cons, length_delete_of_mem h]

end Put

end Bucket

/-! ### Integers as keys -/

/-- The `w` low bytes of a number, most significant first. -/
def encodeBE : ℕ → ℕ → List UInt8
  | 0, _ => []
  | w + 1, n => encodeBE w (n / 256) ++ [UInt8.ofNat n]

/-- Bytes as a number, most significant first. -/
def decodeBE (l : List UInt8) : ℕ := l.foldl (fun n b => n * 256 + b.toNat) 0

@[simp] theorem length_encodeBE : ∀ w n, (encodeBE w n).length = w
  | 0, _ => rfl
  | w + 1, n => by rw [encodeBE, length_append, length_encodeBE w, length_singleton]

theorem decodeBE_encodeBE : ∀ w n, decodeBE (encodeBE w n) = n % 256 ^ w
  | 0, n => by rw [pow_zero, Nat.mod_one]; rfl
  | w + 1, n => by
    have ih := decodeBE_encodeBE w (n / 256)
    rw [decodeBE] at ih ⊢
    have hmod : n % 256 ^ (w + 1) = n % 256 + 256 * (n / 256 % 256 ^ w) := by
      rw [show 256 ^ (w + 1) = 256 * 256 ^ w by ring, Nat.mod_mul]
    rw [encodeBE, foldl_append, ih, foldl_cons, foldl_nil, UInt8.toNat_ofNat', hmod]
    ring

variable (l : List UInt8)

theorem decodeBE_concat (b : UInt8) : decodeBE (l ++ [b]) = decodeBE l * 256 + b.toNat := by
  rw [decodeBE, foldl_append]
  rfl

theorem encodeBE_decodeBE : encodeBE l.length (decodeBE l) = l := by
  induction l using reverseRecOn with
  | nil => rfl
  | append_singleton l b ih =>
    have hb : b.toNat < 256 := b.toNat_lt
    have hlow : UInt8.ofNat (decodeBE l * 256 + b.toNat) = b := by
      refine UInt8.toNat_inj.mp ?_
      rw [UInt8.toNat_ofNat']
      omega
    rw [decodeBE_concat, length_append, length_singleton, encodeBE, hlow,
      show (decodeBE l * 256 + b.toNat) / 256 = decodeBE l by omega, ih]

theorem decodeBE_lt : decodeBE l < 256 ^ l.length := by
  induction l using reverseRecOn with
  | nil => exact Nat.one_pos
  | append_singleton l b ih =>
    have hb : b.toNat < 256 := b.toNat_lt
    rw [decodeBE_concat, length_append, length_singleton, pow_succ]
    omega

def putUint64 (n : UInt64) : List UInt8 := encodeBE 8 n.toNat

/-- `binary.BigEndian.Uint64`, which reads the first eight bytes. -/
def uint64 (l : List UInt8) : UInt64 := UInt64.ofNat (decodeBE (l.take 8))

@[simp] theorem length_putUint64 (n : UInt64) : (putUint64 n).length = 8 := length_encodeBE 8 _

theorem uint64_putUint64 (n : UInt64) : uint64 (putUint64 n) = n := by
  have hlt : n.toNat < 256 ^ 8 := n.toNat_lt
  rw [uint64, take_of_length_le (length_putUint64 n).le, putUint64, decodeBE_encodeBE,
    Nat.mod_eq_of_lt hlt, UInt64.ofNat_toNat]

theorem putUint64_uint64 {l : List UInt8} (h : l.length = 8) : putUint64 (uint64 l) = l := by
  have hlt : decodeBE l < 256 ^ 8 := h ▸ decodeBE_lt l
  have hnat : (UInt64.ofNat (decodeBE l)).toNat = decodeBE l := by
    exact Nat.mod_eq_of_lt hlt
  rw [putUint64, uint64, take_of_length_le h.le, hnat, ← h, encodeBE_decodeBE]

end NexaRoute.Go
