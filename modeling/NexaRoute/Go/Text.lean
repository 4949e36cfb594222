import Mathlib.Data.List.DropRight
import Mathlib.Data.List.TakeDrop

/-!
# Go strings

A Go string is a sequence of bytes that the code under verification reads in two ways: as bytes,
where its length or its hash matters, and as runes, where it is trimmed or filtered. Text is a
Lean `String` here, `bytes` is its UTF-8 encoding, and every operation on runes goes through
`String.toList`, so that all of it evaluates.

## Main results

* `bytes_injective`, `bytes_append`, `bytes_ofList_ascii`
* `toString_nat_injective`
* `prefixed_append_inj` — a prefixed field can be read back off the front of a message
* `trimSpace_hexEncode` — hexadecimal text has nothing to trim
* `hexDecode_hexEncode`, `hexEncode_injective`
-/

namespace NexaRoute.Go

open String List Nat

/-! ### Bytes -/

def bytes (s : String) : List UInt8 := s.toByteArray.data.toList

/-- `len(s)`: the number of bytes. -/
def len (s : String) : ℕ := (bytes s).length

theorem bytes_injective : Function.Injective bytes := fun _ _ h =>
  toByteArray_inj.mp (ByteArray.ext (Array.toList_inj.mp h))

theorem bytes_append (s t : String) : bytes (s ++ t) = bytes s ++ bytes t := by
  simp [bytes]

theorem bytes_ofList_ascii {l : List Char} (h : ∀ c ∈ l, c.val ≤ 127) :
    bytes (ofList l) = l.map fun c => c.val.toUInt8 := by
  induction l with
  | nil => rfl
  | cons c l ih =>
    have hc : bytes (ofList [c]) = [c.val.toUInt8] := by
      rw [bytes, toByteArray_ofList, utf8Encode_singleton,
        utf8EncodeChar_eq_singleton
          (Char.utf8Size_eq_one_iff.mpr (h c (mem_cons_self ..)))]
      simp
    rw [← singleton_append, ofList_append, bytes_append, hc,
      ih fun d hd => h d (mem_cons_of_mem c hd)]
    rfl

/-! ### Length-prefixed fields

`"|%d:%s"` writes a field behind its length. The digits never contain the colon, so the colon
that ends them is found again, and the length says where the field ends: a concatenation of such
fields has one reading. -/

/-- `fmt.Fprintf(h, "|%d:%s", len(s), s)`. -/
def prefixed (s : String) : List UInt8 :=
  bytes "|" ++ bytes (toString (len s)) ++ bytes ":" ++ bytes s

theorem append_cons_inj {α : Type*} {a : α} : ∀ {x y u v : List α}, a ∉ x → a ∉ y →
    x ++ a :: u = y ++ a :: v → x = y ∧ u = v
  | [], [], _, _, _, _, h => ⟨rfl, (cons.inj h).2⟩
  | [], b :: y, _, _, _, hy, h =>
    absurd (cons.inj h).1 fun hab => hy (hab ▸ mem_cons_self ..)
  | b :: x, [], _, _, hx, _, h =>
    absurd (cons.inj h).1 fun hab => hx (hab ▸ mem_cons_self ..)
  | b :: x, c :: y, u, v, hx, hy, h => by
    obtain ⟨hbc, hrest⟩ := cons.inj h
    obtain ⟨hxy, huv⟩ := append_cons_inj (fun hm => hx (mem_cons_of_mem b hm))
      (fun hm => hy (mem_cons_of_mem c hm)) hrest
    exact ⟨by rw [hbc, hxy], huv⟩

theorem colon_notMem_bytes_toString (n : ℕ) : (58 : UInt8) ∉ bytes (toString n) := by
  have hdig : ∀ c ∈ toDigits 10 n, 48 ≤ c.val ∧ c.val ≤ 57 := fun c hc => by
    have := isDigit_of_mem_toDigits (by decide) (by decide) hc
    simpa [Char.isDigit] using this
  rw [toString_eq_ofList_toDigits, bytes_ofList_ascii fun c hc =>
    UInt32.le_trans (hdig c hc).2 (by decide)]
  intro hmem
  obtain ⟨c, hc, h58⟩ := mem_map.mp hmem
  have hlt : c.val.toNat ≤ 57 := UInt32.le_iff_toNat_le.mp (hdig c hc).2
  have h := congrArg UInt8.toNat h58
  rw [UInt32.toNat_toUInt8, mod_eq_of_lt (by omega)] at h
  exact absurd h (by have : (58 : UInt8).toNat = 58 := rfl; omega)

theorem toString_nat_injective {n m : ℕ} (h : toString n = toString m) : n = m := by
  have h' : toDigits 10 n = toDigits 10 m := by
    simpa using congrArg toList h
  rw [← ofDigitChars_ten_toDigits (n := n), h', ofDigitChars_ten_toDigits]

/-- **Reading a field back.** -/
theorem prefixed_append_inj {s t : String} {u v : List UInt8}
    (h : prefixed s ++ u = prefixed t ++ v) : s = t ∧ u = v := by
  have hbar : ∀ (r : String) (w : List UInt8),
      prefixed r ++ w = 124 :: (bytes (toString (len r)) ++ 58 :: (bytes r ++ w)) := fun r w => by
    simp only [prefixed, List.append_assoc]
    rfl
  rw [hbar, hbar] at h
  obtain ⟨hlen, hrest⟩ := append_cons_inj (colon_notMem_bytes_toString _)
    (colon_notMem_bytes_toString _) (List.cons.inj h).2
  have hn : len s = len t := toString_nat_injective (bytes_injective hlen)
  obtain ⟨hs, hu⟩ := List.append_inj hrest hn
  exact ⟨bytes_injective hs, hu⟩

/-! ### Runes -/

/-- `unicode.IsSpace`: the runes with the White_Space property. -/
def isSpace (c : Char) : Bool :=
  let n := c.toNat
  (9 ≤ n && n ≤ 13) || n == 32 || n == 0x85 || n == 0xA0 || n == 0x1680 ||
    (0x2000 ≤ n && n ≤ 0x200a) || n == 0x2028 || n == 0x2029 || n == 0x202f || n == 0x205f ||
    n == 0x3000

/-- `unicode.IsControl`: the C0 and C1 controls. -/
def isControl (c : Char) : Bool :=
  let n := c.toNat
  n ≤ 31 || (127 ≤ n && n ≤ 159)

def trimSpace (s : String) : String :=
  String.ofList ((s.toList.dropWhile isSpace).reverse.dropWhile isSpace).reverse

theorem toList_trimSpace (s : String) :
    (trimSpace s).toList = (s.toList.dropWhile isSpace).rdropWhile isSpace := by
  simp [trimSpace, rdropWhile]

theorem rdropWhile_append_of_ne {α : Type*} {p : α → Bool} {l l' : List α}
    (h : l'.rdropWhile p ≠ []) : (l ++ l').rdropWhile p = l ++ l'.rdropWhile p := by
  unfold rdropWhile at h ⊢
  rw [reverse_append, dropWhile_append]
  have hne : l'.reverse.dropWhile p ≠ [] := fun h' => h (by rw [h']; rfl)
  rw [if_neg (by simpa using hne)]
  simp

/-! ### Hexadecimal -/

/-- `hex.EncodeToString`: two lower-case digits a byte. -/
def hexEncode (bs : List UInt8) : String :=
  String.ofList (bs.flatMap fun b => [Nat.digitChar (b.toNat / 16), Nat.digitChar (b.toNat % 16)])

/-- The value of one hexadecimal digit of either case. -/
def fromHexChar (c : Char) : Option ℕ :=
  let n := c.toNat
  if 48 ≤ n && n ≤ 57 then some (n - 48)
  else if 97 ≤ n && n ≤ 102 then some (n - 87)
  else if 65 ≤ n && n ≤ 70 then some (n - 55)
  else none

/-- Decoding digit pairs; `none` is the error of an odd length or of a character that is no
digit. -/
def hexDecodeChars : List Char → Option (List UInt8)
  | [] => some []
  | [_] => none
  | hi :: lo :: rest => do
    let h ← fromHexChar hi
    let l ← fromHexChar lo
    let tail ← hexDecodeChars rest
    return UInt8.ofNat (16 * h + l) :: tail

/-- `hex.DecodeString`, with the error as `none`. -/
def hexDecode (s : String) : Option (List UInt8) := hexDecodeChars s.toList

theorem fromHexChar_digitChar : ∀ n < 16, fromHexChar (digitChar n) = some n := by decide

theorem isSpace_digitChar : ∀ n < 16, isSpace (digitChar n) = false := by decide

theorem trimSpace_hexEncode (bs : List UInt8) : trimSpace (hexEncode bs) = hexEncode bs := by
  have hdigit : ∀ c ∈ (hexEncode bs).toList, ¬ isSpace c = true := by
    intro c hc
    rw [hexEncode, toList_ofList, mem_flatMap] at hc
    obtain ⟨b, -, hc⟩ := hc
    have hb := b.toNat_lt
    rw [Bool.not_eq_true]
    rcases mem_cons.mp hc with rfl | hc
    · exact isSpace_digitChar _ (by omega)
    · rw [mem_singleton.mp hc]
      exact isSpace_digitChar _ (by omega)
  apply toList_injective
  rw [toList_trimSpace, dropWhile_eq_self_iff.mpr fun h => hdigit _ (getElem_mem h),
    rdropWhile_eq_self_iff.mpr fun h => hdigit _ (getLast_mem h)]

theorem hexDecode_hexEncode (bs : List UInt8) : hexDecode (hexEncode bs) = some bs := by
  rw [hexDecode, hexEncode, toList_ofList]
  induction bs with
  | nil => rfl
  | cons b bs ih =>
    have hb : b.toNat < 256 := b.toNat_lt
    have hval : UInt8.ofNat (16 * (b.toNat / 16) + b.toNat % 16) = b := by
      rw [div_add_mod, UInt8.ofNat_toNat]
    simp only [flatMap_cons, cons_append, nil_append, hexDecodeChars,
      fromHexChar_digitChar (b.toNat / 16) (by omega),
      fromHexChar_digitChar (b.toNat % 16) (by omega), ih]
    exact congrArg (fun x => some (x :: bs)) hval

theorem hexEncode_injective : Function.Injective hexEncode := fun a b h =>
  Option.some.inj (by rw [← hexDecode_hexEncode a, h, hexDecode_hexEncode])

theorem hexEncode_ne_empty {bs : List UInt8} (h : bs ≠ []) : hexEncode bs ≠ "" := by
  intro hc
  exact h (hexEncode_injective (hc.trans (by decide : "" = hexEncode [])))

end NexaRoute.Go
