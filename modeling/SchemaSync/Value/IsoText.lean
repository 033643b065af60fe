import SchemaSync.Text.Quoted
import SchemaSync.Value.Calendar

/-!
# Reading dates and times

Dates and times of day in the forms of ISO 8601. A date names a month and a day or a week of the year, a
time goes down to as small a unit as it likes, its last unit may have a fraction of a second after it, and
both may leave out their separators. A date and a time are set apart by any one character.

All forms are ASCII, and their places are counted in the bytes of the UTF-8 form. A null character counts
as the end of a clock reading. What has one of the forms may still name a date or a time that there is none
of; such faults are found afterwards, the offset first, then the date, then the time.
-/

namespace SchemaSync.IsoText

inductive Fault where
  /-- It has none of the forms. -/
  | malformed (text : String)
  /-- The offset from universal time, in microseconds, is a day or more. -/
  | offset (microseconds : Int)
  | year (year : Nat)
  | month
  | day
  | hour
  | minute
  | second
  deriving DecidableEq

def Fault.message : Fault → String
  | malformed text => "Invalid isoformat string: " ++ Text.Quoted.quote text
  | offset n => "offset must be a timedelta strictly between -timedelta(hours=24) and " ++
      "timedelta(hours=24), not " ++ Calendar.shownDuration n ++ "."
  | year n => "year " ++ n.repr ++ " is out of range"
  | month => "month must be in 1..12"
  | day => "day is out of range for month"
  | hour => "hour must be in 0..23"
  | minute => "minute must be in 0..59"
  | second => "second must be in 0..59"

/-- The characters of a text, each as often as it has bytes. -/
def units (s : String) : List Char := s.toList.flatMap fun c => List.replicate c.utf8Size c

/-- Read a number of exactly `width` digits in front of the text. -/
def readNumber? (width : Nat) (cs : List Char) : Option (Nat × List Char) :=
  let ds := cs.take width
  if ds.length = width ∧ ds.all Char.isDigit then
    some (ds.foldl (fun n c => 10 * n + (c.toNat - '0'.toNat)) 0, cs.drop width)
  else none

def readChar? (c : Char) : List Char → Option (List Char)
  | d :: rest => if c = d then some rest else none
  | [] => none

def readSeparator? (written : Bool) (c : Char) (cs : List Char) : Option (List Char) :=
  if written then readChar? c cs else some cs

/-! ### Dates -/

/-- The date of a day in a week. Before the first year there are no months. -/
def weekDate (year week day : Nat) : Date := if year = 0 then ⟨1, 0, day⟩ else .ofWeek year week day

/-- Read a week of a year, and the day of the week; the first one if the text ends before it. -/
def readWeek? (separated : Bool) (year : Nat) (cs : List Char) : Option Date := do
  let (week, cs) ← readNumber? 2 cs
  let day ←
    if cs.isEmpty then some 1
    else (readSeparator? separated '-' cs >>= readNumber? 1).map Prod.fst
  if Date.hasWeek year week ∧ 1 ≤ day ∧ day ≤ 7 then some (weekDate year week day) else none

def date? (cs : List Char) : Option Date := do
  let (year, cs) ← readNumber? 4 cs
  let separated := cs.head? == some '-'
  match ← readSeparator? separated '-' cs with
  | 'W' :: week => readWeek? separated year week
  | cs => do
    let (month, cs) ← readNumber? 2 cs
    let (day, _) ← readNumber? 2 (← readSeparator? separated '-' cs)
    some ⟨year, month, day⟩

def dateLengths : List Nat := [7, 8, 10]

/-- How long the date in front of a time is. After a week the text does not tell a day of the week from a
time for sure: a hyphen before two digits belongs to the time, and of a run of digits an odd number of them
holds the day. -/
def dateLength (cs : List Char) : Nat :=
  let isDigitAt (i : Nat) : Bool := (cs[i]?).any Char.isDigit
  if cs.length = 7 then 7
  else if cs[4]? = some '-' then
    if cs[5]? ≠ some 'W' then 10
    else if cs[8]? ≠ some '-' ∨ isDigitAt 10 then 8
    else 10
  else if cs[4]? = some 'W' then
    let run := ((cs.drop 7).takeWhile Char.isDigit).length
    if run < 2 then 7 + run else if run % 2 = 1 then 7 else 8
  else 8

/-! ### Times of day -/

/-- Whether a clock reading ends here. -/
def atEnd (cs : List Char) : Bool := cs.headD '\x00' == '\x00'

/-- What follows the whole units of a clock reading. -/
inductive Remainder where
  /-- At most one more character. -/
  | none (exact : Bool)
  /-- A fraction of a second. -/
  | fraction (digits : List Char)

/-- Read at most `count` units of two digits and what follows them. A colon after the first one tells that
all are to be separated; `separated` knows of it from the second unit on. -/
def readUnits? (separated : Option Bool) : Nat → List Char → Option (List Nat × Remainder)
  | 0, cs => some ([], .fraction cs)
  | count + 1, cs => do
    let (unit, cs) ← readNumber? 2 cs
    match cs with
    | c :: d :: rest =>
      let separated := separated.getD (c == ':')
      if separated && c == ':' then
        (readUnits? separated count (d :: rest)).map fun p => (unit :: p.1, p.2)
      else if c == '.' || c == ',' then some ([unit], .fraction (d :: rest))
      else if separated then none
      else (readUnits? separated count cs).map fun p => (unit :: p.1, p.2)
    | _ => some ([unit], .none (atEnd cs))

/-- Read a fraction of a second, of which six digits count, and tell whether the text ends behind it. -/
def readFraction? (cs : List Char) : Option (Nat × Bool) := do
  let kept := min 6 cs.length
  let (n, rest) ← readNumber? kept cs
  some (n * Nat.pow 10 (6 - kept), atEnd (rest.dropWhile Char.isDigit))

/-- Read a clock without an offset in front of the text, and tell whether the text ends behind it. -/
def clock? (cs : List Char) : Option (TimeOfDay × Bool) := do
  let (units, remainder) ← readUnits? none 3 cs
  let (microsecond, exact) ← match remainder with
    | .none exact => some (0, exact)
    | .fraction ds => readFraction? ds
  let unit (i : Nat) : Nat := (units[i]?).getD 0
  some (⟨unit 0, unit 1, unit 2, microsecond, none⟩, exact)

def startsOffset (c : Char) : Bool := c == '+' || c == '-' || c == 'Z'

/-- Read an offset that takes up the whole text; one of less than a second is none. -/
def offset? : List Char → Option Int
  | [] => none
  | 'Z' :: rest => if atEnd rest then some 0 else none
  | sign :: rest => do
    let (t, exact) ← clock? rest
    let n := if t.wholeSeconds = 0 then 0 else t.sinceMidnight
    if exact then some (if sign = '-' then -n else n) else none

/-- Read a time of day that takes up the whole text. What stands between a clock and its offset does not
matter. -/
def time? (cs : List Char) : Option TimeOfDay := do
  let (t, exact) ← clock? (cs.takeWhile fun c => !startsOffset c)
  match cs.dropWhile fun c => !startsOffset c with
  | [] => if exact then some t else none
  | zone => do some { t with offset := some (← offset? zone) }

/-- Read a date and, after one character, a time of day; a date alone is at midnight. -/
def moment? (cs : List Char) : Option (Date × TimeOfDay) := do
  let length := dateLength cs
  let d ← date? (cs.take length)
  match cs.drop length with
  | [] => some (d, .midnight)
  | c :: rest => do some (d, ← time? (rest.drop (c.utf8Size - 1)))

/-! ### Faults -/

def dateFault? (d : Date) : Option Fault :=
  if d.year < 1 ∨ 9999 < d.year then some (.year d.year)
  else if d.month < 1 ∨ 12 < d.month then some .month
  else if d.day < 1 ∨ ((Date.monthLengths d.year)[d.month - 1]?).getD 0 < d.day then some .day
  else none

def offsetFault? (t : TimeOfDay) : Option Fault :=
  match t.offset with
  | some n => if Calendar.perDay ≤ n.natAbs then some (.offset n) else none
  | none => none

def clockFault? (t : TimeOfDay) : Option Fault :=
  if 24 ≤ t.hour then some .hour
  else if 60 ≤ t.minute then some .minute
  else if 60 ≤ t.second then some .second
  else none

def checked {α : Type} (s : String) (read? : Option α) (fault? : α → Option Fault) : Except Fault α :=
  match read? with
  | none => throw (.malformed s)
  | some a =>
    match fault? a with
    | some fault => throw fault
    | none => pure a

end SchemaSync.IsoText

namespace SchemaSync

open IsoText

def Date.ofString (s : String) : Except Fault Date :=
  let cs := units s
  checked s (if dateLengths.contains cs.length then date? cs else none) dateFault?

/-- Read a time of day that stands alone; a `T` may stand in front. -/
def TimeOfDay.ofString (s : String) : Except Fault TimeOfDay :=
  let read? := match units s with
    | 'T' :: cs => time? cs
    | cs => time? cs
  checked s read? fun t => offsetFault? t <|> clockFault? t

def Calendar.momentOfString (s : String) : Except Fault (Date × TimeOfDay) :=
  checked s (moment? (units s)) fun (d, t) => offsetFault? t <|> dateFault? d <|> clockFault? t

example : (TimeOfDay.ofString "03:04:05.5-02:30").toOption.map TimeOfDay.chars =
    some "03:04:05.500000-02:30".toList := by decide
example : (Date.ofString "2020W535").toOption.map Date.chars = some "2021-01-01".toList := by decide
example : (TimeOfDay.ofString "06,726").toOption.map TimeOfDay.chars =
    some "06:00:00.726000".toList := by decide

end SchemaSync
