import SchemaSync.Model.FieldType

/-!
# Equality of field types

When two field types are the same, however they are written. Literal values and the members of a union are
told apart as keys, so types cannot be compared where one of those is no key. Types are compared part by
part, up to the first parts that differ.
-/

namespace SchemaSync.FieldType

open Value (ComparisonFault)

/-! ### Keys -/

mutual

/-- What keeps a type from being told apart from others as a key. -/
def keyFault? : FieldType → Option Value.KeyFault
  | named _ => none
  | generic _ arguments => keyFaultIn? arguments
  | literal values => Value.keyFaultIn? values
  | union _ members => keyFaultIn? members
  | annotated base markers => keyFault? base <|> markers.findSome? Marker.keyFault?

def keyFaultIn? : List FieldType → Option Value.KeyFault
  | [] => none
  | t :: ts => keyFault? t <|> keyFaultIn? ts

end

/-- Fail with the first of two faults, if there is one. -/
def requireKeys (first second : Option Value.KeyFault) : Except ComparisonFault Unit :=
  (first <|> second).elim (pure ()) fun fault => throw (.key fault)

/-! ### Equality -/

/-- Whether two literal values are the same and of the same class. -/
def sameLiteral (a b : Value) : Bool := a.sameKey b && a.className == b.className

def holdsLiterals (all values : List Value) : Bool := values.all fun v => all.any (sameLiteral v)

mutual

/-- Whether two types are the same; the order of literal values and of the members of a union does not
count, nor how the union is written. -/
def same : FieldType → FieldType → Except ComparisonFault Bool
  | named a, named b => pure (a == b)
  | generic a xs, generic b ys => if a = b then sameList xs ys else pure false
  | literal xs, literal ys => do
    requireKeys (Value.keyFaultIn? xs) (Value.keyFaultIn? ys)
    pure (holdsLiterals xs ys && holdsLiterals ys xs)
  | union _ xs, union _ ys => do
    requireKeys (keyFaultIn? xs) (keyFaultIn? ys)
    if ← within ys xs then ys.allM (holds xs) else pure false
  | annotated a ms, annotated b ns => do
    if ← same a b then (Marker.sameList? ms ns).elim (throw .signal) pure else pure false
  | _, _ => pure false

def sameList : List FieldType → List FieldType → Except ComparisonFault Bool
  | [], [] => pure true
  | x :: xs, y :: ys => do if ← same x y then sameList xs ys else pure false
  | _, _ => pure false

def within (all : List FieldType) : List FieldType → Except ComparisonFault Bool
  | [] => pure true
  | x :: xs => do if ← all.anyM (same x) then within all xs else pure false

def holds : List FieldType → FieldType → Except ComparisonFault Bool
  | [], _ => pure false
  | x :: xs, y => do if ← same x y then pure true else holds xs y

end

end SchemaSync.FieldType
