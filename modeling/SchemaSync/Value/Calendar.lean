/-!
# Dates and times of day

Calendar dates, times of day with microseconds and an optional offset from universal time, how they are
written in ISO 8601 form, and when two of them count as the same.
-/

namespace SchemaSync

structure Date where
  year : Nat
  month : Nat
  day : Nat
  deriving DecidableEq

/-- A time of day; the offset from universal time is in microseconds. -/
structure TimeOfDay where
  hour : Nat
  minute : Nat
  second : Nat
  microsecond : Nat
  offset : Option Int
  deriving DecidableEq

namespace Calendar

/-- The digits of `n`, with zeros in front up to `width` digits. -/
def padded (width n : Nat) : List Char :=
  let ds := Nat.toDigits 10 n
  List.replicate (width - ds.length) '0' ++ ds

def perSecond : Nat := 1000000

def perDay : Nat := 86400 * perSecond

/-- How a message shows a duration other than none: whole days, which alone may be negative, seconds and
microseconds, as far as there are any. -/
def shownDuration (microseconds : Int) : String :=
  let parts := [("days", Int.fdiv microseconds perDay),
    ("seconds", Int.fdiv (Int.fmod microseconds perDay) perSecond),
    ("microseconds", Int.fmod microseconds perSecond)].filter fun p => p.2 ≠ 0
  "datetime.timedelta(" ++ ", ".intercalate (parts.map fun p => p.1 ++ "=" ++ toString p.2) ++ ")"

end Calendar

open Calendar

namespace Date

def chars (d : Date) : List Char :=
  padded 4 d.year ++ '-' :: padded 2 d.month ++ '-' :: padded 2 d.day

/-! ### Counting days -/

def isLeap (year : Nat) : Bool := year % 4 == 0 && (year % 100 != 0 || year % 400 == 0)

def monthLengths (year : Nat) : List Nat :=
  [31, if isLeap year then 29 else 28, 31, 30, 31, 30, 31, 31, 30, 31, 30, 31]

/-- The number of days before a year, counted from the first day of the year 1. -/
def daysBefore (year : Nat) : Nat :=
  let y := year - 1
  365 * y + y / 4 - y / 100 + y / 400

/-- The number of days before a date, counted from the first day of the year 1. -/
def dayNumber (d : Date) : Nat :=
  daysBefore d.year + ((monthLengths d.year).take (d.month - 1)).foldl Nat.add 0 + (d.day - 1)

/-- The month and the day that lie some days after the first day of `month`, which together with the
following months has the given lengths. -/
def monthAndDay (month : Nat) : List Nat → Nat → Nat × Nat
  | [], days => (month, days + 1)
  | n :: ns, days => if days < n then (month, days + 1) else monthAndDay (month + 1) ns (days - n)

/-- The date that lies some days after the first day of a year and still in it. -/
def ofYearDay (year days : Nat) : Date :=
  let (month, day) := monthAndDay 1 (monthLengths year) days
  ⟨year, month, day⟩

/-- The number of days before the first Monday-to-Sunday week that has most of its days in a year; the day
before the first one of all counts as `1`, so that no number is negative. -/
def weeksStart (year : Nat) : Nat :=
  let first := daysBefore year
  let weekday := first % 7
  if weekday ≤ 3 then first + 1 - weekday else first + 8 - weekday

/-- Whether a year has a week of this number. There is a 53rd one if the first of January is a Thursday, or
a Wednesday in a year with a leap day. -/
def hasWeek (year week : Nat) : Bool :=
  let weekday := daysBefore year % 7
  decide (1 ≤ week) && (decide (week ≤ 52) ||
    (week == 53 && (weekday == 3 || (weekday == 2 && isLeap year))))

/-- The date of a day in a week of a year, the first of each being `1`. Weeks at the ends of a year may
reach into the neighbouring ones. -/
def ofWeek (year week day : Nat) : Date :=
  let n := weeksStart year + 7 * (week - 1) + (day - 1)
  if n ≤ daysBefore year then ofYearDay (year - 1) (n - 1 - daysBefore (year - 1))
  else if n ≤ daysBefore (year + 1) then ofYearDay year (n - 1 - daysBefore year)
  else ofYearDay (year + 1) (n - 1 - daysBefore (year + 1))

example : hasWeek 2020 53 = true ∧ hasWeek 2021 53 = false ∧ hasWeek 2026 53 = true := by decide
example : ofWeek 2020 53 5 = ⟨2021, 1, 1⟩ := by decide
example : ofWeek 2025 1 1 = ⟨2024, 12, 30⟩ := by decide

end Date

namespace TimeOfDay

def midnight : TimeOfDay := ⟨0, 0, 0, 0, none⟩

/-- An offset: sign, hours and minutes, then seconds and microseconds as far as there are any. -/
def offsetChars (offset : Int) : List Char :=
  let n := offset.natAbs
  let seconds := n / perSecond
  (if offset < 0 then '-' else '+') :: padded 2 (seconds / 3600) ++
    ':' :: padded 2 (seconds / 60 % 60) ++
    (if n % (60 * perSecond) = 0 then [] else ':' :: padded 2 (seconds % 60)) ++
    (if n % perSecond = 0 then [] else '.' :: padded 6 (n % perSecond))

/-- The form `HH:MM:SS`, with six digits of microseconds and an offset where there are such. -/
def chars (t : TimeOfDay) : List Char :=
  padded 2 t.hour ++ ':' :: padded 2 t.minute ++ ':' :: padded 2 t.second ++
    (if t.microsecond = 0 then [] else '.' :: padded 6 t.microsecond) ++
    (t.offset.map offsetChars).getD []

def wholeSeconds (t : TimeOfDay) : Nat := (t.hour * 60 + t.minute) * 60 + t.second

def sinceMidnight (t : TimeOfDay) : Nat := t.wholeSeconds * perSecond + t.microsecond

/-- The microseconds since midnight of universal time, where an offset is known, and whether it is. -/
def universal (t : TimeOfDay) : Int × Bool :=
  (t.sinceMidnight - t.offset.getD 0, t.offset.isSome)

/-- The seconds since midnight of universal time, counting whole seconds of the offset alone, and the
microseconds of the clock. -/
def reduced (t : TimeOfDay) : Int × Nat :=
  (t.wholeSeconds - Int.fdiv (t.offset.getD 0) perSecond, t.microsecond)

/-- Whether two times count as the same; parts of a second in their offsets do not matter, and one with an
offset is never the same as one without. -/
def same (s t : TimeOfDay) : Bool :=
  s.offset.isSome == t.offset.isSome && s.reduced == t.reduced

end TimeOfDay

def Calendar.sameMoment (d : Date) (s : TimeOfDay) (e : Date) (t : TimeOfDay) : Bool :=
  s.offset.isSome == t.offset.isSome &&
    d.dayNumber * perDay + s.universal.1 == e.dayNumber * perDay + t.universal.1

end SchemaSync
