import NexaRoute.Go.Time

/-!
# Reading numbers and instants

`strconv.ParseInt` in base ten and `time.Parse` with the layout `time.RFC3339`. The parser of the
time package is more lenient than the format: an hour may have one digit, a fraction of a second
may follow the seconds behind a point or a comma, and an offset may be as large as 24:60.

## Main definitions

* `parseInt64`, `parseRFC3339` — the two readers
-/

namespace NexaRoute.Go

/-- The value of decimal digits; `none` when there is none or one of them is no digit. -/
def atoi (l : List Char) : Option ℕ :=
  if l ≠ [] ∧ l.all Char.isDigit then some (Nat.ofDigitChars 10 l 0) else none

/-- `strconv.ParseInt(s, 10, 64)`, with an error as `none`. -/
def parseInt64 (s : String) : Option ℤ :=
  match s.toList with
  | '-' :: digits => (atoi digits).bind fun n => if n ≤ 2 ^ 63 then some (-n : ℤ) else none
  | '+' :: digits => (atoi digits).bind fun n => if n < 2 ^ 63 then some (n : ℤ) else none
  | digits => (atoi digits).bind fun n => if n < 2 ^ 63 then some (n : ℤ) else none

/-- `time.Unix(sec, 0)`: seconds are kept from year 1 in 64 bits. -/
def unixTime (sec : ℤ) : Time :=
  (Int.bmod (sec + 62135596800) (2 ^ 64) - 62135596800) * second

/-! ### Dates -/

/-- Whether a year has a February 29. -/
def isLeap (year : ℕ) : Bool := year % 4 == 0 && (year % 100 != 0 || year % 400 == 0)

def daysIn (month year : ℕ) : ℕ :=
  if month == 2 then if isLeap year then 29 else 28
  else if month == 4 || month == 6 || month == 9 || month == 11 then 30
  else 31

/-- The number of a day, counted from the Unix epoch. -/
def daysFromCivil (year month day : ℕ) : ℤ :=
  let y : ℤ := if month ≤ 2 then (year : ℤ) - 1 else year
  let m : ℤ := if month ≤ 2 then (month : ℤ) + 9 else (month : ℤ) - 3
  365 * y + y / 4 - y / 100 + y / 400 + (153 * m + 2) / 5 + ((day : ℤ) - 1) - 719468

/-! ### The layout -/

/-- `getnum`: two digits, or one where `fixed` does not ask for two. -/
def getnum (fixed : Bool) : List Char → Option (ℕ × List Char)
  | a :: b :: rest =>
    if !a.isDigit then none
    else if b.isDigit then some (Nat.ofDigitChars 10 [a, b] 0, rest)
    else if fixed then none else some (Nat.ofDigitChars 10 [a] 0, b :: rest)
  | [a] => if !a.isDigit || fixed then none else some (Nat.ofDigitChars 10 [a] 0, [])
  | [] => none

/-- A literal character of the layout. -/
def skip (c : Char) : List Char → Option (List Char)
  | a :: rest => if a == c then some rest else none
  | [] => none

/-- `parseNanoseconds`: at most nine digits of a fraction count. -/
def nanoseconds (digits : List Char) : ℕ :=
  let kept := digits.take 9
  Nat.ofDigitChars 10 kept 0 * 10 ^ (9 - kept.length)

/-- A fraction after the seconds, which the layout does not mention. -/
def parseFraction : List Char → ℕ × List Char
  | p :: d :: rest =>
    if (p == '.' || p == ',') && d.isDigit then
      let digits := d :: rest.takeWhile Char.isDigit
      (nanoseconds digits, rest.dropWhile Char.isDigit)
    else (0, p :: d :: rest)
  | l => (0, l)

/-- `15:04:05`, in nanoseconds of the day. -/
def parseClock (l : List Char) : Option (ℤ × List Char) := do
  let (hour, l) ← getnum false l
  let l ← skip ':' l
  let (min, l) ← getnum true l
  let l ← skip ':' l
  let (sec, l) ← getnum true l
  if hour ≥ 24 ∨ min ≥ 60 ∨ sec ≥ 60 then none
  else
    let (nsec, l) := parseFraction l
    some (((hour * 60 + min) * 60 + sec : ℕ) * second + nsec, l)

/-- `Z07:00`, in seconds east of Greenwich. Nothing may follow. -/
def parseZone : List Char → Option ℤ
  | ['Z'] => some 0
  | [sign, h₁, h₂, ':', m₁, m₂] => do
    let (hour, _) ← getnum true [h₁, h₂]
    let (min, _) ← getnum true [m₁, m₂]
    if hour > 24 ∨ min > 60 then none
    else if sign == '+' then some ((hour * 60 + min : ℕ) * 60)
    else if sign == '-' then some (-((hour * 60 + min : ℕ) * 60))
    else none
  | _ => none

/-- `time.Parse(time.RFC3339, s)`, with an error as `none`. -/
def parseRFC3339 (s : String) : Option Time := do
  let l := s.toList
  let year ← if l.length < 4 then none else atoi (l.take 4)
  let l ← skip '-' (l.drop 4)
  let (month, l) ← getnum true l
  let l ← skip '-' l
  let (dayOfMonth, l) ← getnum true l
  let l ← skip 'T' l
  let (clock, l) ← parseClock l
  let zone ← parseZone l
  if month < 1 ∨ month > 12 ∨ dayOfMonth < 1 ∨ dayOfMonth > daysIn month year then none
  else some (daysFromCivil year month dayOfMonth * day + clock - zone * second)

example : parseRFC3339 "2024-02-29T23:59:59.5+01:30" = some 1709245799500000000 := by decide

end NexaRoute.Go
