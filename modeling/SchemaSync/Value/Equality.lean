import SchemaSync.Value.Basic

/-!
# Equality of values

When two values count as one, whatever their form: numbers by their exact value, sequences item by item,
dictionaries by their entries in any order, dates with times by the moment that they name, times of day
alone up to parts of a second in their offsets, which only matter for keys. A value with parts that may
change is no key of a dictionary and no member of a set, however equal it is to another.
A decimal number that signals can be compared with no number.
-/

namespace SchemaSync.Value

/-! ### Numbers by their exact value -/

/-- A number by its exact value: a coefficient that is no multiple of ten, and a power of ten. -/
inductive Magnitude where
  | finite (negative : Bool) (coefficient : Nat) (exponent : Int)
  | infinite (negative : Bool)
  deriving DecidableEq

/-- A coefficient without its trailing zeros, which the exponent makes up for. -/
def stripZeros (n : Nat) (e : Int) : Nat × Int :=
  if n ≠ 0 ∧ n % 10 = 0 then stripZeros (n / 10) (e + 1) else (n, e)
termination_by n
decreasing_by omega

/-- The number `n * 10 ^ e` with a sign. -/
def Magnitude.ofScientific (negative : Bool) (n : Nat) (e : Int) : Magnitude :=
  if n = 0 then .finite false 0 0
  else
    let (n, e) := stripZeros n e
    .finite negative n e

def Magnitude.ofInt (i : Int) : Magnitude := .ofScientific (i < 0) i.natAbs 0

/-- The exact value of a number. Truth values count as `0` and `1`; what is not a number has none. -/
def magnitude? : Value → Option Magnitude
  | bool b => some (.ofInt (if b then 1 else 0))
  | int i => some (.ofInt i)
  | real x =>
    match Shortest.classify x with
    | .notANumber => none
    | .infinite negative => some (.infinite negative)
    | .zero _ => some (.ofInt 0)
    | .nonzero negative m q _ =>
      -- A power of two below one is a power of five over a power of ten.
      some (if 0 ≤ q then .ofScientific negative (m * Nat.pow 2 q.toNat) 0
        else .ofScientific negative (m * Nat.pow 5 q.natAbs) q)
  | decimal (.finite negative n e) => some (.ofScientific negative n e)
  | decimal (.infinite negative) => some (.infinite negative)
  | _ => none

example : magnitude? (.int 20) = magnitude? (.decimal (.finite false 200 (-1))) := by decide +kernel

/-! ### Moments -/

mutual

/-- The moments of the times of day that a key consists of. -/
def moments : Value → List (Int × Bool)
  | time t => [t.universal]
  | tuple items => momentsIn items
  | expression _ params => momentsIn params
  | _ => []

def momentsIn : List Value → List (Int × Bool)
  | [] => []
  | v :: vs => moments v ++ momentsIn vs

end

/-! ### Equality -/

/-- Whether a value is a number, if only one that is undefined. -/
def isNumber : Value → Bool
  | bool _ | int _ | real _ | decimal _ => true
  | _ => false

def signals : Value → Bool
  | decimal (.undefined _ true _) => true
  | _ => false

/-- Whether two values are numbers of the same exact value; `none` if a decimal number that signals stands
beside a number. -/
def sameNumber? (a b : Value) : Option Bool :=
  if a.isNumber && b.isNumber && (a.signals || b.signals) then none
  else
    match magnitude? a, magnitude? b with
    | some m, some n => some (m == n)
    | _, _ => some false

mutual

/-- Whether two values count as one; `none` if a decimal number that signals has to be compared with a
number to tell. Parts are compared in order, up to the first that differ. A member of an enumeration is
like no other value. -/
def same? : Value → Value → Option Bool
  | null, null => some true
  | text s, text t => some (s == t)
  | bytes s, bytes t => some (s == t)
  | list xs, list ys => if xs.length = ys.length then sameList? xs ys else some false
  | tuple xs, tuple ys => sameList? xs ys
  | dict xs, dict ys => if xs.length = ys.length then includes? ys xs else some false
  | date d, date e => some (d == e)
  | time s, time t => some (s.same t)
  | moment d s, moment e t => some (Calendar.sameMoment d s e t)
  | uuid ds, uuid es => some (ds == es)
  | expression sql xs, expression sql' ys => if sql = sql' then sameList? xs ys else some false
  | a, b => sameNumber? a b

def sameList? : List Value → List Value → Option Bool
  | [], [] => some true
  | x :: xs, y :: ys => do if ← same? x y then sameList? xs ys else some false
  | _, _ => some false

def includes? (all : List (Value × Value)) : List (Value × Value) → Option Bool
  | [] => some true
  | (k, v) :: es =>
    match all.find? fun e => same? k e.1 == some true && k.moments == e.1.moments with
    | some e => do if ← same? v e.2 then includes? all es else some false
    | none => some false

end

/-- Whether two keys count as one: they are known to be the same, and their times of day are the same
moments to the last part of a second. -/
def sameKey (a b : Value) : Bool := same? a b == some true && a.moments == b.moments

/-! ### Keys -/

inductive KeyFault where
  /-- It is a list, or holds one. -/
  | list
  /-- It is a dictionary, or holds one. -/
  | dict
  /-- It is a decimal number that signals, or holds one. -/
  | signal
  deriving DecidableEq

def KeyFault.message : KeyFault → String
  | list => "unhashable type: 'list'"
  | dict => "unhashable type: 'dict'"
  | signal => "Cannot hash a signaling NaN value"

mutual

/-- What keeps a value from being a key; of several faults the first. -/
def keyFault? : Value → Option KeyFault
  | list _ => some .list
  | dict _ => some .dict
  | decimal (.undefined _ true _) => some .signal
  | tuple items => keyFaultIn? items
  | expression _ params => keyFaultIn? params
  | _ => none

def keyFaultIn? : List Value → Option KeyFault
  | [] => none
  | v :: vs => keyFault? v <|> keyFaultIn? vs

end

inductive ComparisonFault where
  /-- They have to be keys for that, and one of them is none. -/
  | key (fault : KeyFault)
  /-- A decimal number that signals has to be compared with a number. -/
  | signal
  deriving DecidableEq

def ComparisonFault.message : ComparisonFault → String
  | key fault => fault.message
  | signal => "[<class 'decimal.InvalidOperation'>]"

/-! ### Dictionaries -/

/-- Write an entry: a key that is there keeps its place and its form and takes the new value. -/
def insertEntry (k v : Value) : List (Value × Value) → List (Value × Value)
  | [] => [(k, v)]
  | e :: es => if e.1.sameKey k then (e.1, v) :: es else e :: insertEntry k v es

/-- Write an entry whose key has to be one. -/
def addEntry (es : List (Value × Value)) (k v : Value) : Except KeyFault (List (Value × Value)) :=
  match k.keyFault? with
  | some fault => throw fault
  | none => pure (insertEntry k v es)

end SchemaSync.Value
