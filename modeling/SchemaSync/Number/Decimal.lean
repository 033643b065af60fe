import SchemaSync.Text.Blank
import SchemaSync.Text.Digit

/-!
# Decimal numbers

Numbers in base ten with a coefficient and an exponent, which keep their trailing zeros, and the
special values of decimal arithmetic. `Decimal.toString` is scientific notation: positional when the
exponent is at most zero and at most five zeros follow the point before the first digit, else one
digit before the point and a signed exponent after `E`. Reading refuses what spells no number and finite
numbers that are too large or too finely divided.
-/

namespace SchemaSync

inductive Decimal where
  /-- The number `(-1) ^ negative * coefficient * 10 ^ exponent`. -/
  | finite (negative : Bool) (coefficient : Nat) (exponent : Int)
  /-- Beyond every finite number, on either side. -/
  | infinite (negative : Bool)
  /-- Not a number; `signals` tells the signalling kind and `payload` the diagnostic digits. -/
  | undefined (negative signals : Bool) (payload : List Char)
  deriving DecidableEq

namespace Decimal

def sign (negative : Bool) : List Char := if negative then ['-'] else []

def digits (n : Nat) : List Char := Nat.toDigits 10 n

/-- An integer with its sign, plus included. -/
def signed (i : Int) : List Char := (if i < 0 then '-' else '+') :: digits i.natAbs

/-- Digits with a point after the first `place` of them. A point at or before the first digit is
preceded by a zero, and a point after the last one is left out. -/
def point (ds : List Char) (place : Int) : List Char :=
  if place ≤ 0 then '0' :: '.' :: List.replicate place.natAbs '0' ++ ds
  else if ds.length ≤ place.toNat then ds ++ List.replicate (place.toNat - ds.length) '0'
  else ds.take place.toNat ++ '.' :: ds.drop place.toNat

def scientific (coefficient : Nat) (exponent : Int) : List Char :=
  let ds := digits coefficient
  let left := exponent + ds.length
  if exponent ≤ 0 ∧ -6 < left then point ds left
  else point ds 1 ++ 'E' :: signed (left - 1)

def chars : Decimal → List Char
  | finite negative coefficient exponent => sign negative ++ scientific coefficient exponent
  | infinite negative => sign negative ++ "Infinity".toList
  | undefined negative signals payload =>
    sign negative ++ (if signals then ['s'] else []) ++ "NaN".toList ++ payload

def toString (d : Decimal) : String := String.ofList d.chars

instance : ToString Decimal := ⟨toString⟩

def isFinite : Decimal → Bool
  | finite .. => true
  | _ => false

/-! ### Reading -/

def ofDigits (ds : List Char) : Nat := ds.foldl (fun n c => 10 * n + (c.toNat - '0'.toNat)) 0

def readSign : List Char → Bool × List Char
  | '-' :: rest => (true, rest)
  | '+' :: rest => (false, rest)
  | rest => (false, rest)

/-- A signed exponent with at least one digit, and nothing after it. -/
def readExponent? (cs : List Char) : Option Int :=
  let (negative, ds) := readSign cs
  if ds.isEmpty || !ds.all Char.isDigit then none
  else some (if negative then -(ofDigits ds : Int) else ofDigits ds)

/-- A coefficient with an optional fraction and an optional exponent. -/
def readFinite? (negative : Bool) (cs : List Char) : Option Decimal :=
  let whole := cs.takeWhile Char.isDigit
  let afterWhole := cs.dropWhile Char.isDigit
  let (fraction, rest) := match afterWhole with
    | '.' :: r => (r.takeWhile Char.isDigit, r.dropWhile Char.isDigit)
    | r => ([], r)
  if whole.isEmpty && fraction.isEmpty then none
  else
    let exponent? := match rest with
      | [] => some 0
      | c :: r => if c = 'e' ∨ c = 'E' then readExponent? r else none
    exponent?.map fun e => finite negative (ofDigits (whole ++ fraction)) (e - fraction.length)

/-- Read a decimal number: a finite one, `inf` or `infinity`, `nan` or `snan` with an optional
payload, in any case. -/
def ofChars? (cs : List Char) : Option Decimal :=
  let (negative, body) := readSign cs
  let lower := body.map Char.toLower
  if lower = "inf".toList ∨ lower = "infinity".toList then some (infinite negative)
  else if lower.take 3 = "nan".toList ∧ (lower.drop 3).all Char.isDigit then
    some (undefined negative false ((lower.drop 3).dropWhile (· == '0')))
  else if lower.take 4 = "snan".toList ∧ (lower.drop 4).all Char.isDigit then
    some (undefined negative true ((lower.drop 4).dropWhile (· == '0')))
  else readFinite? negative body

/-- The exponent of the largest numbers: every finite one has at most this power of ten in front. -/
def maxExponent : Int := 999999999999999999

/-- The exponent of the last place that the smallest numbers have. -/
def minExponent : Int := -1999999999999999997

/-- Whether a number is one that there is: finite ones have a first place and a last place within limits. -/
def isInRange : Decimal → Bool
  | finite _ n e => decide (minExponent ≤ e) && decide (e + (digits n).length - 1 ≤ maxExponent)
  | _ => true

inductive Fault where
  /-- It spells none. -/
  | malformed
  /-- It spells one that is out of range. -/
  | outOfRange
  deriving DecidableEq

def Fault.message : Fault → String
  | malformed => "[<class 'decimal.ConversionSyntax'>]"
  | outOfRange => "[<class 'decimal.InvalidOperation'>]"

/-- Read a decimal number with digits of any script; blanks around it and all underscores do not
matter. -/
def ofString (s : String) : Except Fault Decimal :=
  match ofChars? (((Text.Blank.trimChars s.toList).map Text.Digit.plain).filter (· != '_')) with
  | none => throw .malformed
  | some d => if d.isInRange then pure d else throw .outOfRange

example : (finite false 250 (-2)).toString = "2.50" := by decide
example : (finite false 1 5).toString = "1E+5" := by decide
example : (finite true 1 (-7)).toString = "-1E-7" := by decide
example : (finite false 1 (-6)).toString = "0.000001" := by decide
example : (ofString " 00012.5_0").toOption = some (finite false 1250 (-2)) := by decide
example : (ofString "12E999999999999999998").toOption.isSome = true := by decide
example : (ofString "12E999999999999999999").toOption = none := by decide

end Decimal
end SchemaSync
