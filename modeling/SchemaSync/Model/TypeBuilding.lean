import SchemaSync.Model.TypeEquality

/-!
# Building field types

How field types are put together. A union is flat and names no member twice; it is written with bars, or
spelled out when a member is not a plain type. The members of a spelled union are told apart as keys, so
none of them may hold a value that is no key; those of the other are compared with each other.
-/

namespace SchemaSync.FieldType

/-- Why there is no such type, or no storage class for it. -/
inductive Fault where
  /-- Types have to be told apart and cannot be. -/
  | comparison (fault : Value.ComparisonFault)
  | noMembers
  | noMarkers
  | unmapped (type : String)

def Fault.message : Fault → String
  | comparison fault => fault.message
  | noMembers => "Cannot take a Union of no types."
  | noMarkers =>
    "Annotated[...] should be used with at least two arguments (a type and an annotation)."
  | unmapped type => "Cannot map Python type " ++ type ++ " to a SQLite column type"

def distinct {α : Type} (same : α → α → Bool) (items : List α) : List α :=
  items.foldl (fun seen t => if seen.any (fun u => same u t) then seen else seen ++ [t]) []

def members : FieldType → List FieldType
  | union _ ms => ms
  | t => [t]

/-- The types of a list without repetitions, each at its first place: every type is compared with those
found before it. -/
def distinctTypes (types : List FieldType) : Except Value.ComparisonFault (List FieldType) :=
  types.foldlM (fun found t => do
    pure (if ← found.anyM (fun u => same u t) then found else found ++ [t])) []

/-- The union of some types: flat, without repetitions, and the type itself if there is only one. -/
def joined (style : UnionStyle) (types : List FieldType) : Except Fault FieldType :=
  match distinctTypes (types.flatMap members) with
  | .ok [t] => pure t
  | .ok ms => pure (union style ms)
  | .error fault => throw (.comparison fault)

def spelled (types : List FieldType) : Except Fault FieldType :=
  match types, keyFaultIn? types with
  | [], _ => throw .noMembers
  | _, some fault => throw (.comparison (.key fault))
  | _, none => joined .spelled types

/-- Whether a bar beside the type makes a spelled union. -/
def spells : FieldType → Bool
  | union .spelled _ | literal _ | annotated .. => true
  | _ => false

def bar (a b : FieldType) : Except Fault FieldType :=
  if a.spells || b.spells then spelled [a, b] else joined .bars [a, b]

def optional (t : FieldType) : Except Fault FieldType := spelled [t, named NamedType.none]

/-- A list of literal values, each at its first place. Values that are no keys are not told apart. -/
def literals (values : List Value) : FieldType :=
  literal <| if (Value.keyFaultIn? values).isSome then values else distinct sameLiteral values

/-- A type with markers; markers of a type that has some already come after those. -/
def annotate (t : FieldType) (markers : List Marker) : FieldType :=
  match t with
  | annotated base first => annotated base (first ++ markers)
  | t => annotated t markers

def withMarkers (t : FieldType) (markers : List Marker) : Except Fault FieldType :=
  if markers.isEmpty then throw .noMarkers else pure (t.annotate markers)

/-! ### Storage classes -/

def storage (t : FieldType) : Except Fault ColumnType :=
  match t.storage?, t.keyFault? with
  | some c, _ => pure c
  | none, some fault => throw (.comparison (.key fault))
  | none, none => throw (.unmapped t.shown)

end SchemaSync.FieldType
