import SchemaSync.Catalog.Store
import SchemaSync.Schema.Basic

/-!
# Catalogs

A catalog holds every part of every snapshot that is being edited, each behind its handle, with the
parts it is made of given by their handles. A handle stays good: the part behind it is always the part
as it is now, under its present name, also after its table has left the snapshot.

`Catalog.snapshot`, `Catalog.table` and their like resolve handles to plain values.
-/

namespace SchemaSync

structure ColumnEntry where
  owner : TableId
  name : String
  type : ColumnType
  notNull : Bool
  default : Option String
  autoIncrement : Bool
  deriving Inhabited

structure IndexEntry where
  owner : TableId
  name : String
  columns : List ColumnId
  unique : Bool
  deriving Inhabited

structure UniqueEntry where
  owner : TableId
  columns : List ColumnId
  deriving Inhabited

structure ForeignKeyEntry where
  owner : TableId
  target : TableId
  localColumns : List ColumnId
  foreignColumns : List ColumnId
  onUpdate : Action
  onDelete : Action
  deriving Inhabited

structure TableEntry where
  schema : SnapshotId
  name : String
  columns : OrderedMap String ColumnId
  slots : OrderedMap Int ColumnId
  uniques : List UniqueId
  foreignKeys : List ForeignKeyId
  indexes : OrderedMap String IndexId
  deriving Inhabited

structure SnapshotEntry where
  tables : OrderedMap String TableId
  deriving Inhabited

/-- All parts of all snapshots that are being edited. -/
structure Catalog where
  snapshots : Store .snapshot SnapshotEntry
  tables : Store .table TableEntry
  columns : Store .column ColumnEntry
  indexes : Store .index IndexEntry
  uniques : Store .unique UniqueEntry
  foreignKeys : Store .foreignKey ForeignKeyEntry

namespace Catalog

def empty : Catalog := ⟨.empty, .empty, .empty, .empty, .empty, .empty⟩

instance : Inhabited Catalog := ⟨empty⟩

/-! ### Resolving handles -/

def tableName (c : Catalog) (t : TableId) : String := (c.tables.get t).name

def column (c : Catalog) (id : ColumnId) : Column :=
  let e := c.columns.get id
  ⟨id, e.owner, e.name, e.type, e.notNull, e.default, e.autoIncrement⟩

def resolveIndex (c : Catalog) (id : IndexId) (e : IndexEntry) : Index :=
  ⟨id, e.owner, c.tableName e.owner, e.name, e.columns.map c.column, e.unique⟩

def resolveUnique (c : Catalog) (id : UniqueId) (e : UniqueEntry) : Unique :=
  ⟨id, e.owner, c.tableName e.owner, e.columns.map c.column⟩

def resolveForeignKey (c : Catalog) (id : ForeignKeyId) (e : ForeignKeyEntry) : ForeignKey :=
  ⟨id, e.owner, c.tableName e.owner, e.target, c.tableName e.target, e.localColumns.map c.column,
    e.foreignColumns.map c.column, e.onUpdate, e.onDelete⟩

def index (c : Catalog) (id : IndexId) : Index := c.resolveIndex id (c.indexes.get id)

def unique (c : Catalog) (id : UniqueId) : Unique := c.resolveUnique id (c.uniques.get id)

def foreignKey (c : Catalog) (id : ForeignKeyId) : ForeignKey :=
  c.resolveForeignKey id (c.foreignKeys.get id)

def table (c : Catalog) (id : TableId) : Table :=
  let e := c.tables.get id
  { id
    schema := e.schema
    name := e.name
    columns := e.columns.map c.column
    slots := e.slots.map c.column
    uniques := e.uniques.map c.unique
    foreignKeys := e.foreignKeys.map c.foreignKey
    indexes := e.indexes.map c.index }

def snapshot (c : Catalog) (id : SnapshotId) : Snapshot :=
  ⟨id, (c.snapshots.get id).tables.map c.table⟩

def qualifiedName (c : Catalog) (id : ColumnId) : String :=
  let e := c.columns.get id
  c.tableName e.owner ++ "." ++ e.name

def isUnique (c : Catalog) (id : ColumnId) : Bool :=
  (c.table (c.columns.get id).owner).coversAlone id

/-- The primary key slot of a column on its own table, or `0`. -/
def primaryKeySlot (c : Catalog) (id : ColumnId) : Int :=
  (c.table (c.columns.get id).owner).slotOf id

def findTable? (c : Catalog) (s : SnapshotId) (name : String) : Option TableId :=
  (c.snapshots.get s).tables.get? name

def findColumn? (c : Catalog) (t : TableId) (name : String) : Option ColumnId :=
  (c.tables.get t).columns.get? name

/-- The first index that a snapshot holds under a name, table by table. -/
def findIndex? (c : Catalog) (s : SnapshotId) (name : String) : Option IndexId :=
  (c.snapshots.get s).tables.values.findSome? fun t => (c.tables.get t).indexes.get? name

/-! ### Changing entries -/

def addSnapshot (c : Catalog) : Catalog :=
  { c with snapshots := c.snapshots.add ⟨.empty⟩ }

def updateSnapshot (c : Catalog) (s : SnapshotId) (f : SnapshotEntry → SnapshotEntry) : Catalog :=
  { c with snapshots := c.snapshots.update s f }

def updateTable (c : Catalog) (t : TableId) (f : TableEntry → TableEntry) : Catalog :=
  { c with tables := c.tables.update t f }

def updateColumn (c : Catalog) (id : ColumnId) (f : ColumnEntry → ColumnEntry) : Catalog :=
  { c with columns := c.columns.update id f }

def updateIndex (c : Catalog) (i : IndexId) (f : IndexEntry → IndexEntry) : Catalog :=
  { c with indexes := c.indexes.update i f }

def updateUnique (c : Catalog) (u : UniqueId) (f : UniqueEntry → UniqueEntry) : Catalog :=
  { c with uniques := c.uniques.update u f }

def updateForeignKey (c : Catalog) (k : ForeignKeyId) (f : ForeignKeyEntry → ForeignKeyEntry) :
    Catalog :=
  { c with foreignKeys := c.foreignKeys.update k f }

/-- The resolved tables of a snapshot stand under the keys of its entry. -/
@[simp] theorem keys_snapshot (c : Catalog) (s : SnapshotId) :
    (c.snapshot s).tables.keys = (c.snapshots.get s).tables.keys := by
  simp [snapshot]

end Catalog
end SchemaSync
