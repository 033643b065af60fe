import SchemaSync.OrderedMap
import SchemaSync.Schema.Action
import SchemaSync.Schema.ColumnType
import SchemaSync.Schema.Handle

/-!
# Schema snapshots

A snapshot of a schema as a plain value: tables with their columns, primary key slots, unique
constraints, indexes and foreign keys. Every part carries its identity and that of its owner, so that
the rules of `Schema.Verify` can tell a part that stands in the wrong place, and the names it needs to
be written, so that describing, comparing and rendering a snapshot need nothing else.

Each map is keyed by the name under which its owner holds a part; that this is the part's own name is a
rule to be verified, not a given.
-/

namespace SchemaSync

structure Column where
  id : ColumnId
  /-- The table that the column was made on. -/
  owner : TableId
  name : String
  type : ColumnType
  notNull : Bool
  /-- The literal of the default, if there is one. -/
  default : Option String
  autoIncrement : Bool
  deriving DecidableEq

structure Index where
  id : IndexId
  owner : TableId
  ownerName : String
  name : String
  columns : List Column
  unique : Bool
  deriving DecidableEq

structure Unique where
  id : UniqueId
  owner : TableId
  ownerName : String
  columns : List Column
  deriving DecidableEq

/-- A foreign key from local columns to columns of a target table, pair by pair. -/
structure ForeignKey where
  id : ForeignKeyId
  owner : TableId
  ownerName : String
  target : TableId
  targetName : String
  localColumns : List Column
  foreignColumns : List Column
  onUpdate : Action
  onDelete : Action
  deriving DecidableEq

structure Table where
  id : TableId
  /-- The snapshot that the table was made in. -/
  schema : SnapshotId
  name : String
  columns : OrderedMap String Column
  /-- The columns of the primary key by slot, in the order in which the slots were filled. -/
  slots : OrderedMap Int Column
  uniques : List Unique
  foreignKeys : List ForeignKey
  indexes : OrderedMap String Index
  deriving DecidableEq

structure Snapshot where
  id : SnapshotId
  tables : OrderedMap String Table
  deriving DecidableEq

def columnNames (columns : List Column) : List String := columns.map Column.name

namespace Column

/-- Whether two columns have the same name, type, nullability and default. -/
def sameDefinition (a b : Column) : Bool :=
  a.name == b.name && a.type == b.type && a.notNull == b.notNull && a.default == b.default

end Column

namespace Index

/-- Whether two indexes have the same name, uniqueness and columns in order. -/
def sameShape (a b : Index) : Bool :=
  a.unique == b.unique && a.name == b.name && columnNames a.columns == columnNames b.columns

end Index

namespace ForeignKey

def singleColumn? (f : ForeignKey) : Option Column :=
  match f.localColumns with
  | [c] => some c
  | _ => none

def isSingleColumn (f : ForeignKey) : Bool := f.singleColumn?.isSome

end ForeignKey

namespace Table

/-- The columns of the primary key in the order of their slots. -/
def primaryKey (t : Table) : List Column :=
  (t.slots.entries.mergeSort fun a b => decide (a.1 ≤ b.1)).map Prod.snd

def coversAlone (t : Table) (c : ColumnId) : Bool :=
  t.uniques.any fun u => u.columns.map Column.id == [c]

def slotOf (t : Table) (c : ColumnId) : Int :=
  ((t.slots.entries.find? fun e => e.2.id == c).map Prod.fst).getD 0

end Table

namespace Snapshot

def isEmpty (s : Snapshot) : Bool := s.tables.isEmpty

/-- The first index found under a name, table by table. -/
def findIndex? (s : Snapshot) (name : String) : Option Index :=
  s.tables.values.findSome? fun t => t.indexes.get? name

def allIndexes (s : Snapshot) : List Index := s.tables.values.flatMap fun t => t.indexes.values

def allForeignKeys (s : Snapshot) : List ForeignKey := s.tables.values.flatMap Table.foreignKeys

def singleColumnForeignKeys (s : Snapshot) : List ForeignKey :=
  s.allForeignKeys.filter ForeignKey.isSingleColumn

/-- The local columns of the foreign keys to a table name, own keys of that table left out. -/
def referencesTo (s : Snapshot) (name : String) : List Column :=
  (s.tables.values.filter fun t => t.name ≠ name).flatMap fun t =>
    (t.foreignKeys.filter fun f => f.targetName == name).flatMap ForeignKey.localColumns

/-- Each referenced table name with the names of the tables that refer to it, every name once. -/
def referencingTables (s : Snapshot) : OrderedMap String (List String) :=
  (s.tables.values.flatMap fun t => t.foreignKeys.map fun f => (f.targetName, t.name)).foldl
    (fun graph e =>
      let known := (graph.get? e.1).getD []
      graph.insert e.1 (if known.contains e.2 then known else known ++ [e.2]))
    .empty

end Snapshot
end SchemaSync
