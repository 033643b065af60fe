import SchemaSync.Schema.ColumnType

/-!
# Named types

The types that a declaration calls by a name, how a message shows them, and which storage class each stands
for. Some types share their storage class with every type derived from them, others keep it to themselves.
-/

namespace SchemaSync

inductive TypeSort where
  | plain
  | enumeration
  | special
  deriving DecidableEq

structure NamedType where
  home : String
  name : String
  sort : TypeSort
  /-- The storage class of this type and of every type derived from it. -/
  family : Option ColumnType
  /-- The storage class of this very type. -/
  own : Option ColumnType
  deriving DecidableEq

namespace NamedType

/-- The home of the types that need no home in front of their names. -/
def commonHome : String := "builtins"

def qualified (t : NamedType) : String :=
  if t.home == commonHome then t.name else t.home ++ "." ++ t.name

def shown (t : NamedType) : String :=
  match t.sort with
  | .plain => "<class '" ++ t.qualified ++ "'>"
  | .enumeration => "<enum '" ++ t.name ++ "'>"
  | .special => t.qualified

def storage? (t : NamedType) : Option ColumnType := t.family <|> t.own

/-- A common type of which derived types share the storage class. -/
def common (name : String) (family : Option ColumnType) : NamedType :=
  ⟨commonHome, name, .plain, family, none⟩

/-- A type whose derived types do not share its storage class. -/
def single (home name : String) (own : Option ColumnType) : NamedType :=
  ⟨home, name, .plain, none, own⟩

def derived (base : NamedType) (home name : String) (sort : TypeSort) : NamedType :=
  ⟨home, name, sort, base.family, none⟩

def none : NamedType := common "NoneType" .none

def known : List (String × NamedType) := [
  ("str", common "str" (some .text)),
  ("int", common "int" (some .integer)),
  ("float", common "float" (some .real)),
  ("bool", common "bool" (some .integer)),
  ("bytes", common "bytes" (some .blob)),
  ("bytearray", common "bytearray" (some .blob)),
  ("dict", single commonHome "dict" (some .text)),
  ("list", single commonHome "list" (some .text)),
  ("set", common "set" .none),
  ("frozenset", common "frozenset" .none),
  ("tuple", common "tuple" .none),
  ("object", common "object" .none),
  ("complex", common "complex" .none),
  ("datetime", single "datetime" "datetime" (some .text)),
  ("date", single "datetime" "date" (some .text)),
  ("time", single "datetime" "time" (some .text)),
  ("timedelta", single "datetime" "timedelta" .none),
  ("UUID", single "uuid" "UUID" (some .text)),
  ("Decimal", ⟨"decimal", "Decimal", .plain, some .real, .none⟩),
  ("OrderedDict", single "collections" "OrderedDict" .none),
  ("Sequence", single "collections.abc" "Sequence" .none),
  ("None", none),
  ("Any", ⟨"typing", "Any", .special, .none, .none⟩)]

def known? (name : String) : Option NamedType := known.lookup name

end NamedType

end SchemaSync
