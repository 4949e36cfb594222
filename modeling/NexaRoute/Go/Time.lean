import NexaRoute.Go.Text
import Mathlib.Tactic.Ring

/-!
# Instants

A `time.Time` is the instant it names: every use in the code under verification either normalises
it to UTC first or compares instants, so the location it carries is not part of the model. An
instant is a number of nanoseconds since the Unix epoch, of any size.

## Main results

* `civil_injective` — no two days share a date
* `formatRFC3339Nano_injective` — the text determines the instant
-/

namespace NexaRoute.Go

open List

/-- An instant, in nanoseconds since the Unix epoch. -/
abbrev Time := ℤ

/-- A `time.Duration`, in nanoseconds. -/
abbrev Duration := ℤ

/-- The zero `time.Time`: midnight, January 1 of year 1. -/
def zeroTime : Time := -62135596800000000000

/-- `t.UnixNano()`: the low 64 bits of the nanosecond count, as a signed number. -/
def unixNano (t : Time) : ℤ := Int.bmod t (2 ^ 64)

theorem le_unixNano (t : Time) : -2 ^ 63 ≤ unixNano t := by
  rw [unixNano, Int.bmod]
  split <;> omega

theorem unixNano_lt (t : Time) : unixNano t < 2 ^ 63 := by
  rw [unixNano, Int.bmod]
  split <;> omega

def second : Duration := 1000000000

/-! ### The calendar

Years are counted from March, so that the leap day comes last, and days are split greedily into
cycles of 400, 100, 4 and 1 years. A last cycle that is one day longer than the others is not
allowed to start a new one, which is the `n - n / 4` below. -/

/-- A day number split into its cycles: `era`, `century`, `quad` and `year` count the cycles and
`dayOfYear` is what is left. -/
structure Cycles where
  era : ℤ
  century : ℤ
  quad : ℤ
  year : ℤ
  dayOfYear : ℤ

/-- Split a number of days since March 1 of year 0. -/
def cycles (z : ℤ) : Cycles :=
  let d₀ := z % 146097
  let c := d₀ / 36524 - d₀ / 36524 / 4
  let d₁ := d₀ - 36524 * c
  let d₂ := d₁ % 1461
  let a := d₂ / 365 - d₂ / 365 / 4
  ⟨z / 146097, c, d₁ / 1461, a, d₂ - 365 * a⟩

theorem cycles_sum (z : ℤ) :
    z = 146097 * (cycles z).era + 36524 * (cycles z).century + 1461 * (cycles z).quad
      + 365 * (cycles z).year + (cycles z).dayOfYear := by
  simp only [cycles]
  omega

theorem cycles_bounds (z : ℤ) :
    (0 ≤ (cycles z).century ∧ (cycles z).century ≤ 3) ∧
      (0 ≤ (cycles z).quad ∧ (cycles z).quad ≤ 24) ∧
      (0 ≤ (cycles z).year ∧ (cycles z).year ≤ 3) ∧
      (0 ≤ (cycles z).dayOfYear ∧ (cycles z).dayOfYear ≤ 365) := by
  simp only [cycles]
  refine ⟨by omega, by omega, by omega, by omega⟩

/-- A date: `month` runs from 1 to 12 and `day` from 1. -/
@[ext]
structure Civil where
  year : ℤ
  month : ℕ
  day : ℕ
  deriving DecidableEq, Repr

/-- The date of a day, counted from the Unix epoch. The month is found by the usual
`(5 * d + 2) / 153`, which knows the lengths of the months from March on. -/
def civil (days : ℤ) : Civil :=
  let c := cycles (days + 719468)
  let m := (5 * c.dayOfYear + 2) / 153
  let y := 400 * c.era + 100 * c.century + 4 * c.quad + c.year
  { year := if m < 10 then y else y + 1
    month := if m < 10 then (m + 3).toNat else (m - 9).toNat
    day := (c.dayOfYear - (153 * m + 2) / 5 + 1).toNat }

theorem civil_month_day (days : ℤ) : (civil days).month < 100 ∧ (civil days).day < 100 := by
  have h := (cycles_bounds (days + 719468)).2.2.2
  simp only [civil]
  constructor
  · split <;> omega
  · omega

theorem civil_year_bounds {days : ℤ} (h : -106752 ≤ days) (h' : days ≤ 106752) :
    1600 ≤ (civil days).year ∧ (civil days).year ≤ 2400 := by
  have hb := cycles_bounds (days + 719468)
  have hsum := cycles_sum (days + 719468)
  simp only [civil]
  split <;> omega

theorem civil_injective : Function.Injective civil := by
  intro s t h
  have hs := cycles_bounds (s + 719468)
  have ht := cycles_bounds (t + 719468)
  have hsum := cycles_sum (s + 719468)
  have htum := cycles_sum (t + 719468)
  simp only [civil, Civil.mk.injEq] at h
  generalize cycles (s + 719468) = a at *
  generalize cycles (t + 719468) = b at *
  obtain ⟨hy, hm, hd⟩ := h
  -- the month decides on which side of the new year the day lies, so it gives the month number
  have hmonth : (5 * a.dayOfYear + 2) / 153 = (5 * b.dayOfYear + 2) / 153 := by
    split at hm <;> split at hm <;> omega
  have hday : a.dayOfYear = b.dayOfYear := by omega
  have hyear : 400 * a.era + 100 * a.century + 4 * a.quad + a.year
      = 400 * b.era + 100 * b.century + 4 * b.quad + b.year := by
    split at hy <;> split at hy <;> omega
  omega

/-! ### Decimal fields -/

/-- `n` in decimal, padded on the left with zeros to at least `w` digits. -/
def pad (w n : ℕ) : List Char :=
  List.replicate (w - (Nat.toDigits 10 n).length) '0' ++ Nat.toDigits 10 n

theorem ofDigitChars_replicate_zero (k : ℕ) (l : List Char) :
    Nat.ofDigitChars 10 (replicate k '0' ++ l) 0 = Nat.ofDigitChars 10 l 0 := by
  induction k with
  | zero => rfl
  | succ k ih => simpa [replicate_succ, Nat.ofDigitChars_cons] using ih

theorem pad_injective (w : ℕ) : Function.Injective (pad w) := by
  intro n m h
  have hv := congrArg (Nat.ofDigitChars 10 · 0) h
  simpa [pad, ofDigitChars_replicate_zero] using hv

theorem length_pad {w n : ℕ} (hw : 0 < w) (hn : n < 10 ^ w) : (pad w n).length = w := by
  have := (Nat.length_toDigits_le_iff (by decide) hw).mpr hn
  simp only [pad, length_append, length_replicate]
  omega

theorem isDigit_of_mem_pad {w n : ℕ} {c : Char} (h : c ∈ pad w n) : c.isDigit = true := by
  rcases mem_append.mp h with h | h
  · rw [eq_of_mem_replicate h]; rfl
  · exact Nat.isDigit_of_mem_toDigits (by decide) (by decide) h

/-- A list without its trailing zeros. -/
def trimZeros (l : List Char) : List Char := (l.reverse.dropWhile (· == '0')).reverse

theorem trimZeros_append (l : List Char) :
    trimZeros l ++ replicate (l.length - (trimZeros l).length) '0' = l := by
  have hz : ∀ c ∈ l.reverse.takeWhile (· == '0'), c = '0' := fun c hc => by
    simpa using mem_takeWhile_imp hc
  have hsplit : trimZeros l ++ (l.reverse.takeWhile (· == '0')).reverse = l := by
    rw [trimZeros, ← reverse_append, takeWhile_append_dropWhile, reverse_reverse]
  have hrep : (l.reverse.takeWhile (· == '0')).reverse
      = replicate (l.length - (trimZeros l).length) '0' := by
    refine eq_replicate_iff.mpr ⟨?_, fun c hc => hz c (mem_reverse.mp hc)⟩
    have := congrArg length hsplit
    rw [length_append] at this
    omega
  rw [← hrep, hsplit]

theorem trimZeros_inj {l l' : List Char} (hlen : l.length = l'.length)
    (h : trimZeros l = trimZeros l') : l = l' := by
  rw [← trimZeros_append l, ← trimZeros_append l', h, hlen]

/-! ### RFC 3339 -/

/-- A year: at least four digits, behind a sign when it is negative. -/
def yearChars (y : ℤ) : List Char := if y < 0 then '-' :: pad 4 y.natAbs else pad 4 y.natAbs

/-- A fraction of a second, without trailing zeros and without a point when there is none. -/
def fracChars (ns : ℕ) : List Char := if ns = 0 then [] else '.' :: trimZeros (pad 9 ns)

/-- The date half of a timestamp. -/
def dateChars (c : Civil) : List Char :=
  yearChars c.year ++ ('-' :: pad 2 c.month ++ '-' :: pad 2 c.day)

/-- The clock half of a timestamp, for a number of nanoseconds into the day. -/
def clockChars (n : ℕ) : List Char :=
  let s := n / 1000000000
  pad 2 (s / 3600) ++ ':' :: (pad 2 (s / 60 % 60) ++ ':' ::
    (pad 2 (s % 60) ++ (fracChars (n % 1000000000) ++ ['Z'])))

def day : Duration := 86400 * second

/-- `t.UTC().Format(time.RFC3339Nano)`. -/
def formatRFC3339Nano (t : Time) : String :=
  String.ofList (dateChars (civil (t / day)) ++ 'T' :: clockChars (t % day).toNat)

theorem yearChars_injective : Function.Injective yearChars := by
  have hsign : ∀ w n, '-' ∉ pad w n := fun w n hm => absurd (isDigit_of_mem_pad hm) (by decide)
  intro y z h
  simp only [yearChars] at h
  split at h <;> split at h
  · have := pad_injective 4 (cons.inj h).2; omega
  · exact absurd (h ▸ mem_cons_self ..) (hsign 4 z.natAbs)
  · exact absurd (h ▸ mem_cons_self ..) (hsign 4 y.natAbs)
  · have := pad_injective 4 h; omega

theorem fracChars_inj {m n : ℕ} (hm : m < 10 ^ 9) (hn : n < 10 ^ 9)
    (h : fracChars m = fracChars n) : m = n := by
  simp only [fracChars] at h
  split at h <;> split at h
  · omega
  · simp at h
  · simp at h
  · refine pad_injective 9 (trimZeros_inj ?_ (cons.inj h).2)
    rw [length_pad (by decide) hm, length_pad (by decide) hn]

theorem T_notMem_dateChars (c : Civil) : 'T' ∉ dateChars c := by
  have hpad : ∀ w n, 'T' ∉ pad w n := fun w n hm => absurd (isDigit_of_mem_pad hm) (by decide)
  have hyear : 'T' ∉ yearChars c.year := by
    simp only [yearChars]
    split <;> simp [hpad]
  simp [dateChars, hyear, hpad]

theorem dateChars_civil_inj {s t : ℤ} (h : dateChars (civil s) = dateChars (civil t)) : s = t := by
  obtain ⟨hsm, hsd⟩ := civil_month_day s
  obtain ⟨htm, htd⟩ := civil_month_day t
  have h2 : ∀ n < 100, (pad 2 n).length = 2 := fun n hn => length_pad (by decide) (by omega)
  obtain ⟨hy, hmd⟩ := append_inj' h (by simp [h2 _ hsm, h2 _ hsd, h2 _ htm, h2 _ htd])
  obtain ⟨hm, hd⟩ := append_inj (cons.inj hmd).2 (by rw [h2 _ hsm, h2 _ htm])
  exact civil_injective (Civil.ext (yearChars_injective hy) (pad_injective 2 hm)
    (pad_injective 2 (cons.inj hd).2))

theorem clockChars_inj {m n : ℕ} (hm : m < 86400000000000) (hn : n < 86400000000000)
    (h : clockChars m = clockChars n) : m = n := by
  have h2 : ∀ a b, a < 100 → b < 100 → (pad 2 a).length = (pad 2 b).length := fun a b ha hb => by
    rw [length_pad (by decide) (by omega), length_pad (by decide) (by omega)]
  obtain ⟨hh, h⟩ := append_inj h (h2 _ _ (by omega) (by omega))
  obtain ⟨hmin, h⟩ := append_inj (cons.inj h).2 (h2 _ _ (by omega) (by omega))
  obtain ⟨hsec, h⟩ := append_inj (cons.inj h).2 (h2 _ _ (by omega) (by omega))
  have hfrac := fracChars_inj (by omega) (by omega) (append_inj' h rfl).1
  have hh := pad_injective 2 hh
  have hmin := pad_injective 2 hmin
  have hsec := pad_injective 2 hsec
  omega

/-- **The text of a timestamp determines the instant.** -/
theorem formatRFC3339Nano_injective : Function.Injective formatRFC3339Nano := by
  intro (s : ℤ) (t : ℤ) h
  have hl := congrArg String.toList h
  simp only [formatRFC3339Nano, String.toList_ofList] at hl
  obtain ⟨hdate, hclock⟩ := append_cons_inj (T_notMem_dateChars _) (T_notMem_dateChars _) hl
  rw [show day = 86400000000000 from rfl] at hdate hclock
  have hd := dateChars_civil_inj hdate
  have hc := clockChars_inj (by omega) (by omega) hclock
  change (s : ℤ) = t
  omega

example : formatRFC3339Nano 1760529600120000000 = "2025-10-15T12:00:00.12Z" := by decide +kernel

end NexaRoute.Go
