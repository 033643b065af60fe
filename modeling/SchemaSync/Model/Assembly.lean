import SchemaSync.Catalog.Edit
import SchemaSync.Model.Declaration
import SchemaSync.Selection
import SchemaSync.Sql.Literal

/-!
# Assembling a snapshot from declarations

The snapshot that declared tables describe. In a first pass every table is made with its columns, primary
key, unique constraints and indexes; the foreign keys follow in a second pass, when every target is there.
A unique index is made as a unique constraint.
-/

namespace SchemaSync.Model

inductive Error where
  | edit (cause : EditError)
  | literal (cause : Sql.LiteralError)
  /-- The type of a field stands for no storage class. -/
  | unsupportedType (field type : String)
  /-- The type of a field is a union of several types beside null. -/
  | ambiguousUnion (field type : String)

def Error.message : Error → String
  | edit cause => cause.message
  | literal cause => cause.message
  | unsupportedType field type => "Unsupported type for field " ++ field ++ ": " ++ type
  | ambiguousUnion field type => "Field " ++ field ++ " has an ambiguous union type " ++ type

abbrev Assembly := ExceptT Error (StateM Catalog)

def edit {α : Type} (e : Edit α) : Assembly α := fun c =>
  let (result, c) := e.run c
  (result.mapError .edit, c)

/-! ### Fields -/

/-- The type that a field's type comes down to when null is left out, and whether null was in it. -/
def plainType (f : Field) : Except Error (FieldType × Bool) :=
  match f.type with
  | .union _ members =>
    match members.filter fun t => !t.isNone with
    | [t] => pure (t, members.any FieldType.isNone)
    | _ => throw (.ambiguousUnion f.name f.type.shown)
  | t => pure (t, false)

/-- The storage class of a field, and whether it may be null. -/
def fieldStorage (f : Field) : Except Error (ColumnType × Bool) := do
  let (type, nullable) ← plainType f
  match Marker.storage? f.markers with
  | some keyword =>
    match ColumnType.ofKeyword? keyword with
    | some t => pure (t, nullable)
    | none => throw (.edit (.notAColumnType keyword))
  | none =>
    match type.originStorage? with
    | some t => pure (t, nullable)
    | none => throw (.unsupportedType f.name type.shownOrigin)

def fieldDefault (f : Field) : Except Error (Option String) :=
  match Marker.defaultSql? f.markers, f.default with
  | some e, _ => ((Sql.literal e).map some).mapError .literal
  | none, .value .null => pure none
  | none, .value v => ((Sql.literal v).map some).mapError .literal
  | none, _ => pure none

def fieldColumn (f : Field) : Except Error ColumnSpec := do
  let (type, nullable) ← fieldStorage f
  let default ← fieldDefault f
  pure { name := f.columnName, type := type.keyword, notNull := !nullable, default,
         autoIncrement := Marker.isAutoIncrement f.markers, unique := Marker.isUnique f.markers }

/-! ### First pass -/

def addField (t : TableId) (f : Field) : Assembly Unit := do
  let column ← fieldColumn f
  let _ ← edit (Edit.createColumn t column)

/-- The columns of the primary key: those of marked fields, or else those that are set. -/
def primaryKeyColumns (m : Model) : List String :=
  let marked := m.fields.values.filter fun f => Marker.isPrimaryKey f.markers
  if marked.isEmpty then (m.settings.primaryKey.getD []).map m.columnName
  else marked.map Field.columnName

def columnRefs (m : Model) (names : List String) : List ColumnRef :=
  names.map fun n => .named (m.columnName n)

def addIndex (m : Model) (t : TableId) (i : IndexDeclaration) : Assembly Unit := do
  if i.unique then
    let _ ← edit (Edit.createUnique t (m.columnRefs i.columns))
  else
    let _ ← edit (Edit.createIndex t i.name (m.columnRefs i.columns) false)

def addTable (s : SnapshotId) (m : Model) : Assembly Unit := do
  let t ← edit (Edit.createTable s m.tableName)
  m.fields.values.forM (addField t)
  edit (Edit.setPrimaryKey t (m.primaryKeyColumns.map .named))
  (m.settings.uniqueTogether.getD []).forM fun columns => do
    let _ ← edit (Edit.createUnique t (m.columnRefs columns))
  (m.settings.indexes.getD []).forM (m.addIndex t)

/-! ### Second pass -/

/-- Make the foreign key of a field, if a marker asks for one. -/
def addReference (t : TableId) (f : Field) : Assembly Unit := do
  match f.markers.findSome? fun
    | .references target column onDelete onUpdate => some (target, column, onDelete, onUpdate)
    | _ => none with
  | none => pure ()
  | some (target, column, onDelete, onUpdate) =>
    let _ ← edit (Edit.createForeignKey t
      { target := .named target.tableName
        localColumns := [.named f.columnName]
        foreignColumns := [.named column]
        onUpdate := onUpdate.getD Marker.defaultAction
        onDelete := onDelete.getD Marker.defaultAction })

def addForeignKey (s : SnapshotId) (m : Model) (t : TableId) (d : ForeignKeyDeclaration) :
    Assembly Unit := do
  -- The target's primary key is complete: every table was made in the first pass.
  let target ← edit (Edit.getTable s d.table)
  let c ← get
  let foreignColumns :=
    if d.foreignColumns.isEmpty then columnNames (c.table target).primaryKey
    else d.foreignColumns
  let _ ← edit (Edit.createForeignKey t
    { target := .handle target
      localColumns := m.columnRefs d.columns
      foreignColumns := foreignColumns.map .named
      onUpdate := d.onUpdate
      onDelete := d.onDelete })

def addForeignKeys (s : SnapshotId) (m : Model) : Assembly Unit := do
  let t ← edit (Edit.getTable s m.tableName)
  m.fields.values.forM (addReference t)
  (m.settings.foreignKeys.getD []).forM (m.addForeignKey s t)

def assemble (start : Option String) (models : List Model) : Assembly SnapshotId := do
  let chosen := models.filter fun m => Selection.isChosen start m.tableName
  let s ← edit Edit.createSnapshot
  chosen.forM (addTable s)
  chosen.forM (addForeignKeys s)
  pure s

end SchemaSync.Model
