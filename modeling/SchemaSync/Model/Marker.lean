import SchemaSync.Model.Attribute
import SchemaSync.Value.Equality

/-!
# Markers

What a declaration says about a field beside its type. Of several markers of one kind the first counts.
-/

namespace SchemaSync

/-- What the foreign key of a marker refers to. -/
inductive ReferenceTarget where
  | table (name : String)
  /-- A declared table, by the place of its declaration among all. -/
  | declared (place : Nat) (declaration table : String)
  deriving DecidableEq

namespace ReferenceTarget

def tableName : ReferenceTarget → String
  | table name => name
  | declared _ _ name => name

def shown : ReferenceTarget → String
  | table name => Text.Quoted.quote name
  | declared _ declaration _ => Attribute.shownDeclaration declaration

end ReferenceTarget

inductive Marker where
  /-- The column is part of the primary key. -/
  | primaryKey
  /-- The column alone is unique. -/
  | unique
  | autoIncrement
  /-- The keyword of the column's storage class, instead of the one its type stands for. -/
  | storage (keyword : String)
  /-- The SQL of the default, with its parameters. -/
  | defaultSql (sql : String) (params : List Value)
  /-- A foreign key of the column alone; the actions are given by their keywords. -/
  | references (target : ReferenceTarget) (column : String) (onDelete onUpdate : Option String)
  /-- A marker that says nothing about the column. -/
  | other (shown : String)

namespace Marker

/-- The keyword of an action, where none is given. -/
def defaultAction : String := "NO ACTION"

def shownAction (action : Option String) : String :=
  match action with
  | some a => Text.Quoted.quote a
  | none => "<ForeignKeyAction.NO_ACTION: 'NO ACTION'>"

/-- The unambiguous form in which a message shows a marker. -/
def shown : Marker → String
  | primaryKey => "PrimaryKey()"
  | unique => "Unique()"
  | autoIncrement => "AutoIncrement()"
  | storage keyword => "SQLType(type=" ++ Text.Quoted.quote keyword ++ ")"
  | defaultSql sql params => "DefaultSQL(sql=" ++ Text.Quoted.quote sql ++ ", params=" ++
      Value.shownTuple (Value.shownList params) ++ ")"
  | references target column onDelete onUpdate => "References(table=" ++ target.shown ++
      ", column=" ++ Text.Quoted.quote column ++ ", on_delete=" ++ shownAction onDelete ++
      ", on_update=" ++ shownAction onUpdate ++ ")"
  | other shown => shown

def kind : Marker → String
  | primaryKey => "PrimaryKey"
  | unique => "Unique"
  | autoIncrement => "AutoIncrement"
  | storage _ => "SQLType"
  | defaultSql .. => "DefaultSQL"
  | references .. => "References"
  | other _ => "str"

/-! ### Equality -/

/-- Whether two actions are the same; one that is not given is the default one. -/
def sameAction (a b : Option String) : Bool := a.getD defaultAction == b.getD defaultAction

/-- Whether two markers say the same; `none` if their parameters cannot be compared. -/
def same? : Marker → Marker → Option Bool
  | primaryKey, primaryKey => some true
  | unique, unique => some true
  | autoIncrement, autoIncrement => some true
  | storage a, storage b => some (a == b)
  | defaultSql a ps, defaultSql b qs => if a = b then Value.sameList? ps qs else some false
  | references t a d u, references t' a' d' u' =>
    some (t == t' && a == a' && sameAction d d' && sameAction u u')
  | other a, other b => some (a == b)
  | _, _ => some false

def sameList? : List Marker → List Marker → Option Bool
  | [], [] => some true
  | m :: ms, n :: ns => do if ← m.same? n then sameList? ms ns else some false
  | _, _ => some false

/-- What keeps a marker from being told apart from others as a key. -/
def keyFault? : Marker → Option Value.KeyFault
  | defaultSql _ params => Value.keyFaultIn? params
  | _ => none

/-! ### What a list of markers says -/

def isPrimaryKey (ms : List Marker) : Bool := ms.any fun | primaryKey => true | _ => false

def isUnique (ms : List Marker) : Bool := ms.any fun | unique => true | _ => false

def isAutoIncrement (ms : List Marker) : Bool := ms.any fun | autoIncrement => true | _ => false

def storage? (ms : List Marker) : Option String :=
  ms.findSome? fun | storage keyword => some keyword | _ => none

def defaultSql? (ms : List Marker) : Option Value :=
  ms.findSome? fun | defaultSql sql params => some (.expression sql params) | _ => none

end Marker
end SchemaSync
