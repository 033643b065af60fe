import SchemaSync.Model.Marker
import SchemaSync.Model.NamedType

/-!
# Field types

The types of declared fields: named types, generic ones with arguments, lists of literal values, unions
and types with markers, and how they are written. Which storage class a type stands for is decided by the
named type that is left when its arguments are dropped.
-/

namespace SchemaSync

inductive UnionStyle where
  | bars
  | spelled
  deriving DecidableEq

inductive FieldType where
  | named (type : NamedType)
  | generic (origin : NamedType) (arguments : List FieldType)
  | literal (values : List Value)
  | union (style : UnionStyle) (members : List FieldType)
  | annotated (base : FieldType) (markers : List Marker)

namespace FieldType

instance : Inhabited FieldType := ⟨named NamedType.none⟩

def isNone : FieldType → Bool
  | named t => t == NamedType.none
  | _ => false

/-! ### Writing -/

/-- Square brackets around texts; round ones stand for none. -/
def bracketed (texts : List String) : String :=
  "[" ++ (if texts.isEmpty then "()" else ", ".intercalate texts) ++ "]"

def unionText (style : UnionStyle) (members : List FieldType) (texts : List String) : String :=
  let some? := (members.zip texts).filter fun e => !e.1.isNone
  match style, some?, members.length with
  | .bars, _, _ =>
    " | ".intercalate ((members.zip texts).map fun e => if e.1.isNone then "None" else e.2)
  | .spelled, [e], 2 => "typing.Optional[" ++ e.2 ++ "]"
  | .spelled, _, _ => "typing.Union[" ++ ", ".intercalate texts ++ "]"

mutual

def inner : FieldType → String
  | named t => t.qualified
  | generic origin arguments => origin.qualified ++ bracketed (innerList arguments)
  | literal values => "typing.Literal" ++ bracketed (Value.shownList values)
  | union style members => unionText style members (innerList members)
  | annotated base markers =>
    "typing.Annotated[" ++ ", ".intercalate (inner base :: markers.map Marker.shown) ++ "]"

def innerList : List FieldType → List String
  | [] => []
  | t :: ts => inner t :: innerList ts

end

mutual

/-- The short text of a type: every name stands without its home, every marker for its kind alone, and
every union is spelled. -/
def brief : FieldType → String
  | named t => t.name
  | generic origin arguments => origin.name ++ "[" ++ ", ".intercalate (briefList arguments) ++ "]"
  | literal values => "Literal" ++ bracketed (Value.shownList values)
  | union _ members => "Union[" ++ ", ".intercalate (briefList members) ++ "]"
  | annotated base markers =>
    "Annotated[" ++ ", ".intercalate (brief base :: markers.map Marker.kind) ++ "]"

def briefList : List FieldType → List String
  | [] => []
  | t :: ts => brief t :: briefList ts

end

def shown : FieldType → String
  | named t => t.shown
  | t => t.inner

def shownOrigin : FieldType → String
  | generic origin _ => origin.shown
  | literal _ => "typing.Literal"
  | annotated .. => "<class 'typing.Annotated'>"
  | t => t.shown

/-! ### Parts -/

/-- The outermost markers of a type, and the type without them. -/
def withoutMarkers : FieldType → FieldType × List Marker
  | annotated base markers => (base, markers)
  | t => (t, [])

/-! ### Storage classes -/

def storage? : FieldType → Option ColumnType
  | named t => t.storage?
  | _ => none

def originStorage? : FieldType → Option ColumnType
  | generic origin _ => origin.storage?
  | t => t.storage?

end FieldType
end SchemaSync
