import SchemaSync.Catalog.Basic
import SchemaSync.Schema.Verify

/-!
# Editing a catalog

The edits of a snapshot: making, renaming and removing tables, making and renaming columns, and setting
keys, indexes and constraints. Each edit checks its rules before it changes anything, so an edit that
fails leaves the catalog as it was; setting a whole primary key is a run of edits and keeps those before
the failing one.
-/

namespace SchemaSync

inductive EditError where
  | violation (cause : Violation)
  | noTable (name : String)
  | noColumn (name table : String)
  /-- The snapshot holds no table under the name that a table goes by. -/
  | noKey (name : String)
  | notAColumnType (text : String)
  | notAnAction (text : String)
  deriving DecidableEq

namespace EditError

def message : EditError → String
  | violation cause => cause.message
  | noTable name => "Table not found: " ++ name
  | noColumn name table => "Column not found: " ++ name ++ " on table " ++ table
  | noKey name => Text.Quoted.quote name
  | notAColumnType text => Text.Quoted.quote text ++ " is not a valid ColumnType"
  | notAnAction text => Text.Quoted.quote text ++ " is not a valid ForeignKeyAction"

end EditError

/-- A change of a catalog that may fail. -/
abbrev Edit := ExceptT EditError (StateM Catalog)

/-- A column by its name on the table at hand, or by its handle. -/
inductive ColumnRef where
  | named (name : String)
  | handle (id : ColumnId)

/-- A table by its name in the snapshot at hand, or by its handle. -/
inductive TableRef where
  | named (name : String)
  | handle (id : TableId)

structure ColumnSpec where
  name : String
  /-- The keyword of its type. -/
  type : String
  notNull : Bool
  default : Option String
  autoIncrement : Bool
  /-- Whether a unique constraint over the column alone is made with it. -/
  unique : Bool

/-- What a new foreign key is made of; the actions are given by their keywords. -/
structure ForeignKeySpec where
  target : TableRef
  localColumns : List ColumnRef
  foreignColumns : List ColumnRef
  onUpdate : String
  onDelete : String

namespace Edit

def violate {α : Type} (v : Violation) : Edit α := throw (.violation v)

def check (result : Except Violation Unit) : Edit Unit :=
  match result with
  | .ok _ => pure ()
  | .error v => violate v

def columnType (text : String) : Edit ColumnType :=
  match ColumnType.ofKeyword? text with
  | some t => pure t
  | none => throw (.notAColumnType text)

def action (text : String) : Edit Action :=
  match Action.ofKeyword? text with
  | some a => pure a
  | none => throw (.notAnAction text)

/-! ### Tables -/

def createSnapshot : Edit SnapshotId := do
  let c ← get
  set c.addSnapshot
  pure c.snapshots.next

def getTable (s : SnapshotId) (name : String) : Edit TableId := do
  match (← get).findTable? s name with
  | some t => pure t
  | none => throw (.noTable name)

def createTable (s : SnapshotId) (name : String) : Edit TableId := do
  let c ← get
  if (c.findTable? s name).isSome then violate (.tableExists name)
  let t := c.tables.next
  let entry : TableEntry := ⟨s, name, .empty, .empty, [], [], .empty⟩
  set ({ c with tables := c.tables.add entry }.updateSnapshot s fun e =>
    { e with tables := e.tables.insert name t })
  pure t

/-- Rename a table; it keeps its place. -/
def renameTable (s : SnapshotId) (old new : String) : Edit Unit := do
  let t ← getTable s old
  if new = old then return ()
  let c ← get
  if (c.findTable? s new).isSome then violate (.tableExists new)
  set ((c.updateTable t fun e => { e with name := new }).updateSnapshot s fun e =>
    { e with tables := e.tables.rename old new })

/-- Take a table out of a snapshot, unless a foreign key refers to it. -/
def removeTable (s : SnapshotId) (name : String) : Edit Unit := do
  let t ← getTable s name
  let c ← get
  let referencing := ((c.snapshot s).referencingTables.get? name).getD []
  if !referencing.isEmpty then violate (.stillReferenced name referencing)
  -- The entry that goes is the one under the table's own name, whatever name found the table.
  let key := c.tableName t
  if (c.findTable? s key).isNone then throw (.noKey key)
  set (c.updateSnapshot s fun e => { e with tables := e.tables.erase key })

/-! ### Columns -/

def getColumn (t : TableId) (name : String) : Edit ColumnId := do
  let c ← get
  match c.findColumn? t name with
  | some id => pure id
  | none => throw (.noColumn name (c.tableName t))

def resolveColumn (t : TableId) : ColumnRef → Edit ColumnId
  | .named name => getColumn t name
  | .handle id => pure id

def resolveColumns (t : TableId) : List ColumnRef → Edit (List ColumnId)
  | [] => pure []
  | r :: rs => do
    let id ← resolveColumn t r
    pure (id :: (← resolveColumns t rs))

def createUnique (t : TableId) (columns : List ColumnRef) : Edit UniqueId := do
  let ids ← resolveColumns t columns
  let c ← get
  let u := c.uniques.next
  let entry : UniqueEntry := ⟨t, ids⟩
  check (c.resolveUnique u entry).verify
  if (c.tables.get t).uniques.any fun v => (c.uniques.get v).columns == ids then
    violate (.repeatedUnique (columnNames (ids.map c.column)) (c.tableName t))
  set ({ c with uniques := c.uniques.add entry }.updateTable t fun e =>
    { e with uniques := e.uniques ++ [u] })
  pure u

/-- Make a column at the end of a table. The default `NULL` counts as none. -/
def createColumn (t : TableId) (spec : ColumnSpec) : Edit ColumnId := do
  let c ← get
  if (c.findColumn? t spec.name).isSome then violate (.columnExists spec.name (c.tableName t))
  let type ← columnType spec.type
  let id := c.columns.next
  let default := if spec.default = some "NULL" then none else spec.default
  let entry : ColumnEntry := ⟨t, spec.name, type, spec.notNull, default, spec.autoIncrement⟩
  set ({ c with columns := c.columns.add entry }.updateTable t fun e =>
    { e with columns := e.columns.insert spec.name id })
  -- No constraint can name a column that has just been made, so this one is new.
  if spec.unique then
    let _ ← createUnique t [.named spec.name]
  pure id

def renameColumn (t : TableId) (old new : String) : Edit Unit := do
  let id ← getColumn t old
  if new = old then return ()
  let c ← get
  if (c.findColumn? t new).isSome then violate (.columnExists new (c.tableName t))
  set ((c.updateColumn id fun e => { e with name := new }).updateTable t fun e =>
    { e with columns := e.columns.rename old new })

/-- Rename a column, given by its handle, on its own table. -/
def rename (id : ColumnId) (new : String) : Edit Unit := do
  let e := (← get).columns.get id
  renameColumn e.owner e.name new

/-! ### Keys, indexes and constraints -/

def setPrimaryKeyColumn (t : TableId) (column : ColumnRef) (slot : Int) : Edit Unit := do
  let id ← resolveColumn t column
  let c ← get
  let entry := c.tables.get t
  let col := c.columns.get id
  if slot < 1 then violate .slotBelowOne
  if entry.slots.contains slot then violate (.slotTaken slot entry.name)
  if col.owner ≠ t then violate (.keyColumnElsewhere col.name entry.name)
  if entry.slots.values.contains id then violate (.alreadyInKey col.name entry.name)
  set (c.updateTable t fun e => { e with slots := e.slots.insert slot id })

/-- Put columns into the primary key slots from `slot` on. -/
def setPrimaryKeyFrom (t : TableId) (slot : Int) : List ColumnRef → Edit Unit
  | [] => pure ()
  | r :: rs => do
    setPrimaryKeyColumn t r slot
    setPrimaryKeyFrom t (slot + 1) rs

/-- Put columns into the primary key slots `1`, `2`, … -/
def setPrimaryKey (t : TableId) (columns : List ColumnRef) : Edit Unit :=
  setPrimaryKeyFrom t 1 columns

/-- Make an index on a table; its name must be free in the whole snapshot. -/
def createIndex (t : TableId) (name : String) (columns : List ColumnRef) (unique : Bool) :
    Edit IndexId := do
  let c ← get
  match c.findIndex? (c.tables.get t).schema name with
  | some other => violate (.indexExists name (c.tableName (c.indexes.get other).owner))
  | none =>
    let ids ← resolveColumns t columns
    let i := c.indexes.next
    let entry : IndexEntry := ⟨t, name, ids, unique⟩
    check (c.resolveIndex i entry).verify
    set ({ c with indexes := c.indexes.add entry }.updateTable t fun e =>
      { e with indexes := e.indexes.insert name i })
    pure i

def resolveTable (t : TableId) : TableRef → Edit TableId
  | .named name => do getTable ((← get).tables.get t).schema name
  | .handle id => pure id

/-- Make a foreign key from a table to another one of the same snapshot. -/
def createForeignKey (t : TableId) (spec : ForeignKeySpec) : Edit ForeignKeyId := do
  let target ← resolveTable t spec.target
  let c ← get
  if (c.tables.get target).schema ≠ (c.tables.get t).schema then
    violate (.targetOfOtherSchema (c.tableName target) (c.tableName t))
  let localColumns ← resolveColumns t spec.localColumns
  let foreignColumns ← resolveColumns target spec.foreignColumns
  -- Columns are looked up before actions are read, so a missing column is reported first.
  let onUpdate ← action spec.onUpdate
  let onDelete ← action spec.onDelete
  let f := c.foreignKeys.next
  let entry : ForeignKeyEntry := ⟨t, target, localColumns, foreignColumns, onUpdate, onDelete⟩
  check (c.resolveForeignKey f entry).verify
  set ({ c with foreignKeys := c.foreignKeys.add entry }.updateTable t fun e =>
    { e with foreignKeys := e.foreignKeys ++ [f] })
  pure f

end Edit
end SchemaSync
