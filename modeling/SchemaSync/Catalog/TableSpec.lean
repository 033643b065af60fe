import SchemaSync.Catalog.Edit

/-!
# Tables from specifications

A snapshot can be made in one go from a list of specifications, one for each table. The foreign keys are
made after all tables, so a table may refer to a later one.
-/

namespace SchemaSync

structure IndexSpec where
  name : String
  columns : List ColumnRef
  unique : Bool

structure TableSpec where
  name : String
  columns : List ColumnSpec
  primaryKey : List ColumnRef
  uniques : List (List ColumnRef)
  indexes : List IndexSpec
  foreignKeys : List ForeignKeySpec

namespace Edit

/-- Make a table with everything but its foreign keys. -/
def createFromSpec (s : SnapshotId) (spec : TableSpec) : Edit TableId := do
  let t ← createTable s spec.name
  spec.columns.forM fun c => do
    let _ ← createColumn t c
  setPrimaryKey t spec.primaryKey
  spec.uniques.forM fun columns => do
    let _ ← createUnique t columns
  spec.indexes.forM fun i => do
    let _ ← createIndex t i.name i.columns i.unique
  pure t

def addForeignKeys (t : TableId) (spec : TableSpec) : Edit Unit :=
  spec.foreignKeys.forM fun f => do
    let _ ← createForeignKey t f

def createFromSpecs (specs : List TableSpec) : Edit SnapshotId := do
  let s ← createSnapshot
  let tables ← specs.mapM (createFromSpec s)
  (tables.zip specs).forM fun e => addForeignKeys e.1 e.2
  pure s

end Edit

def Catalog.ofSpecs (specs : List TableSpec) : Except EditError (Catalog × SnapshotId) :=
  let (result, c) := (Edit.createFromSpecs specs).run .empty
  result.map fun s => (c, s)

end SchemaSync
