import SchemaSync.Number.Decimal

/-!
# Shortest text of a floating-point number

A finite floating-point number is `m * 2 ^ q`. The reals that round to it form an interval, whose ends
belong to it exactly when `m` is even. Its text has the fewest significant digits of any decimal in
that interval, and of those the nearest to the number; a tie goes to the even last digit. The search
takes the two neighbours of the number on the grid of `1`, `2`, … `17` significant digits, in exact
arithmetic on natural numbers.

Positional notation is used when the decimal exponent is at least `-4` and below `16`, always with a
point and at least one digit after it; otherwise the exponent follows `e` with a sign and at least two
digits.
-/

namespace SchemaSync.Shortest

/-- A positive rational number by numerator and denominator. -/
structure Ratio where
  num : Nat
  den : Nat

def dyadic (n : Nat) (e : Int) : Ratio :=
  if 0 ≤ e then ⟨n * Nat.pow 2 e.toNat, 1⟩ else ⟨n, Nat.pow 2 e.natAbs⟩

/-- Compare by cross multiplication. -/
def Ratio.le (a b : Ratio) : Bool := decide (a.num * b.den ≤ b.num * a.den)

def Ratio.lt (a b : Ratio) : Bool := decide (a.num * b.den < b.num * a.den)

def onGrid (n : Nat) (e : Int) : Ratio :=
  if 0 ≤ e then ⟨n * Nat.pow 10 e.toNat, 1⟩ else ⟨n, Nat.pow 10 e.natAbs⟩

/-- How many powers of ten `r` lies below one, at most `fuel`: the least `k` with `1 ≤ r * 10 ^ k`. -/
def powersBelowOne (r : Ratio) : Nat → Nat
  | 0 => 0
  | fuel + 1 => if r.den ≤ r.num then 0 else powersBelowOne ⟨r.num * 10, r.den⟩ fuel + 1

def leadingExponent (r : Ratio) : Int :=
  if r.den ≤ r.num then ((Nat.toDigits 10 (r.num / r.den)).length : Int) - 1
  else -(powersBelowOne r 400 : Int)

/-- The numbers that round to a floating-point number: between two ends, which belong to it or not. -/
structure Interval where
  low : Ratio
  value : Ratio
  high : Ratio
  closed : Bool

def Interval.contains (i : Interval) (r : Ratio) : Bool :=
  if i.closed then i.low.le r && r.le i.high else i.low.lt r && r.lt i.high

/-- The interval of `m * 2 ^ q`. The gap below is half as wide where `m` is the least significand of its
binade, which `tight` tells. -/
def interval (m : Nat) (q : Int) (tight : Bool) : Interval where
  low := dyadic (if tight then 4 * m - 1 else 4 * m - 2) (q - 2)
  value := dyadic (4 * m) (q - 2)
  high := dyadic (4 * m + 2) (q - 2)
  closed := m % 2 == 0

/-- The floor of `r / 10 ^ e`. -/
def floorOnGrid (r : Ratio) (e : Int) : Nat :=
  if 0 ≤ e then r.num / (r.den * Nat.pow 10 e.toNat) else r.num * Nat.pow 10 e.natAbs / r.den

/-- Whether `n * 10 ^ e` is nearer to `r` than `(n + 1) * 10 ^ e`; on a tie, whether `n` is even. -/
def lowerIsNearer (r : Ratio) (n : Nat) (e : Int) : Bool :=
  let middle := onGrid (2 * n + 1) e
  let twice : Ratio := ⟨2 * r.num, r.den⟩
  twice.lt middle || (twice.le middle && n % 2 == 0)

/-- The coefficient on the grid `10 ^ e` nearest to the value and inside the interval. -/
def coefficientOnGrid? (i : Interval) (e : Int) : Option Nat :=
  let n := floorOnGrid i.value e
  match i.contains (onGrid n e), i.contains (onGrid (n + 1) e) with
  | true, true => some (if lowerIsNearer i.value n e then n else n + 1)
  | true, false => some n
  | false, true => some (n + 1)
  | false, false => none

/-- The first grid with a hit, from `count` digits on, with `leading` the exponent of the first digit. -/
def search (i : Interval) (leading : Int) : Nat → Nat → Nat × Int
  | 0, count => (floorOnGrid i.value (leading - count + 1), leading - count + 1)
  | fuel + 1, count =>
    match coefficientOnGrid? i (leading - count + 1) with
    | some n => (n, leading - count + 1)
    | none => search i leading fuel (count + 1)

/-- The shortest coefficient and exponent for `m * 2 ^ q`. -/
def decimal (m : Nat) (q : Int) (tight : Bool) : Nat × Int :=
  let i := interval m q tight
  search i (leadingExponent i.value) 17 1

def trimZeros (ds : List Char) : List Char := (ds.reverse.dropWhile (· == '0')).reverse

/-- An exponent with its sign and at least two digits. -/
def exponentChars (e : Int) : List Char :=
  (if e < 0 then '-' else '+') ::
    (if e.natAbs < 10 then ['0'] else []) ++ Nat.toDigits 10 e.natAbs

/-- The text of `n * 10 ^ e` for a positive `n`. -/
def layout (n : Nat) (e : Int) : List Char :=
  let all := Nat.toDigits 10 n
  let ds := trimZeros all
  let leading := e + all.length - 1
  if -4 ≤ leading ∧ leading < 16 then
    if ds.length ≤ leading + 1 then Decimal.point ds (leading + 1) ++ ['.', '0']
    else Decimal.point ds (leading + 1)
  else
    (match ds with
      | [] => []
      | [d] => [d]
      | d :: rest => d :: '.' :: rest) ++ 'e' :: exponentChars leading

/-- What a floating-point number is, read off its 64 bits. -/
inductive Class where
  | notANumber
  | infinite (negative : Bool)
  | zero (negative : Bool)
  /-- The number `(-1) ^ negative * m * 2 ^ q`. -/
  | nonzero (negative : Bool) (m : Nat) (q : Int) (tight : Bool)

def classify (x : Float) : Class :=
  let bits := x.toBits.toNat
  let negative := bits / Nat.pow 2 63 == 1
  let biased : Nat := bits / Nat.pow 2 52 % 2048
  let fraction : Nat := bits % Nat.pow 2 52
  if biased = 2047 then (if fraction = 0 then .infinite negative else .notANumber)
  else if biased = 0 then
    (if fraction = 0 then .zero negative else .nonzero negative fraction (-1074) false)
  else .nonzero negative (fraction + Nat.pow 2 52) (biased - 1075) (fraction == 0 && 1 < biased)

def isFinite (x : Float) : Bool :=
  match classify x with
  | .notANumber | .infinite _ => false
  | _ => true

def text (x : Float) : String :=
  match classify x with
  | .notANumber => "nan"
  | .infinite negative => if negative then "-inf" else "inf"
  | .zero negative => if negative then "-0.0" else "0.0"
  | .nonzero negative m q tight =>
    let (n, e) := decimal m q tight
    String.ofList (Decimal.sign negative ++ layout n e)

/-- The exponent of the leading digit beyond which, on either side, a number is infinite or zero. -/
def exponentBound : Int := 400

/-- The floating-point number nearest to a decimal one. -/
def ofDecimal (d : Decimal) : Float :=
  match d with
  | .finite negative n e =>
    let leading := e + (Nat.toDigits 10 n).length
    let x :=
      if n = 0 ∨ leading < -exponentBound then 0
      else if exponentBound < leading then 1.0 / 0.0
      else Float.ofScientific n (e < 0) e.natAbs
    if negative then -x else x
  | .infinite negative => if negative then -(1.0 / 0.0) else 1.0 / 0.0
  | .undefined .. => 0.0 / 0.0

/-- The characters without underscores, each of which must stand between two digits. `afterDigit` tells
whether a digit stands before them. -/
def dropSeparators? (afterDigit : Bool) : List Char → Option (List Char)
  | '_' :: c :: cs =>
    if afterDigit && c.isDigit then (dropSeparators? true cs).map (c :: ·) else none
  | ['_'] => none
  | c :: cs => (dropSeparators? c.isDigit cs).map (c :: ·)
  | [] => some []

/-- The floating-point number that a decimal text with digits of any script spells; padding around it and
single underscores between digits do not matter. What is not a number is spelled by its three letters. -/
def ofText? (s : String) : Option Float := do
  let cs ← dropSeparators? false ((Text.Blank.dropPadding s.toList).map Text.Digit.plain)
  match ← Decimal.ofChars? cs with
  | .undefined .. => if (Decimal.readSign cs).2.length = 3 then some (0.0 / 0.0) else none
  | d => some (ofDecimal d)

end SchemaSync.Shortest
