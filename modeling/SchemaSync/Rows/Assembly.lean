import SchemaSync.Catalog.Edit
import SchemaSync.Rows.Row
import SchemaSync.Selection

/-!
# Assembling a snapshot from catalog rows

The snapshot that catalog rows describe: tables with their columns and primary keys from the column rows,
then foreign keys and indexes from their rows, put together by key or index and in the order of their
positions. What the schema model has no form for is left out with a warning: unknown types, foreign keys
to tables or columns that are not there or that break a rule, and indexes over expressions.
-/

namespace SchemaSync.Rows

/-- Something in the catalog that the snapshot leaves out. -/
inductive Warning where
  | unknownType (text : String)
  | targetMissing (target : String) (key : Int) (table : String)
  | targetColumnsMissing (key : Int) (table target : String)
  | unsupportedKey (key : Int) (table : String) (cause : Violation)
  | expressionIndex (index table : String)
  deriving DecidableEq

def Warning.message : Warning → String
  | unknownType text => "Unknown column type " ++ Text.Quoted.quote text
  | targetMissing target key table =>
    "Foreign table " ++ Text.Quoted.quote target ++ " not found for foreign key " ++ toString key ++
      " at table " ++ Text.Quoted.quote table ++ ", skipping."
  | targetColumnsMissing key table target =>
    "Foreign key " ++ toString key ++ " at table " ++ Text.Quoted.quote table ++
      " references missing columns of " ++ Text.Quoted.quote target ++ ", skipping."
  | unsupportedKey key table cause =>
    "Unsupported foreign key " ++ toString key ++ " at table " ++ Text.Quoted.quote table ++
      ", skipping: " ++ cause.message
  | expressionIndex index table =>
    "Expression index " ++ Text.Quoted.quote index ++ " on table " ++ Text.Quoted.quote table ++
      " is not supported, skipping."

/-- A catalog in the making, with the warnings so far. -/
structure Draft where
  catalog : Catalog
  warnings : List Warning

/-- A step of the assembly; warnings stay when it fails. -/
abbrev Assembly := ExceptT EditError (StateM Draft)

def warn (w : Warning) : Assembly Unit :=
  modify fun d => { d with warnings := d.warnings ++ [w] }

def edit {α : Type} (e : Edit α) : Assembly α := fun d =>
  let (result, catalog) := e.run d.catalog
  (result, { d with catalog })

/-- Carry out an edit and hand back its result, failed or not. -/
def attempt {α : Type} (e : Edit α) : Assembly (Except EditError α) := fun d =>
  let (result, catalog) := e.run d.catalog
  (.ok result, { d with catalog })

def now : Assembly Catalog := do pure (← get).catalog

/-- Whether the rows of a table are kept: those of chosen tables that the database does not keep for
itself. -/
def isKept (start : Option String) (table : String) : Bool :=
  !Selection.isInternal table && Selection.isChosen start table

/-! ### Columns -/

/-- The storage class of a declared type, with a warning where there is none. -/
def columnType (text : String) : Assembly ColumnType := do
  match ColumnType.read text with
  | .known t => pure t
  | .unrecognised word =>
    warn (.unknownType word)
    pure .unknown

/-- The table of a name, made where it is not there yet. -/
def tableFor (s : SnapshotId) (name : String) : Assembly TableId := do
  match (← now).findTable? s name with
  | some t => pure t
  | none => edit (Edit.createTable s name)

def addColumn (s : SnapshotId) (row : ColumnRow) : Assembly Unit := do
  let t ← tableFor s row.table
  let type ← columnType row.type
  let _ ← edit (Edit.createColumn t
    { name := row.column, type := type.keyword, notNull := row.notNull == 1, default := row.default,
      autoIncrement := false, unique := false })
  if 0 < row.slot then
    edit (Edit.setPrimaryKeyColumn t (.named row.column) row.slot)

/-! ### Groups of rows -/

/-- Put rows of one key together, the keys in the order of their first rows. -/
def groupBy {κ α : Type} [DecidableEq κ] (key : α → κ) (rows : List α) : List (κ × List α) :=
  (rows.foldl (fun m r => m.insert (key r) ((m.get? (key r)).getD [] ++ [r]))
    (OrderedMap.empty : OrderedMap κ (List α))).entries

/-- The rows of a group in the order of their positions. -/
def byPosition {α : Type} (position : α → Int) (rows : List α) : List α :=
  rows.mergeSort fun a b => decide (position a ≤ position b)

/-! ### Foreign keys -/

/-- The name of a target column: the named one, or the primary key column at the same place. -/
def targetColumn? (target : Table) (place : Nat) (row : ForeignKeyRow) : Option String :=
  match row.foreignColumn with
  | some name => some name
  | none => target.primaryKey[place]?.map Column.name

/-- The names of the target columns, if all of them are columns of the target; `place` is the place of
the first row. -/
def targetColumns? (target : Table) (place : Nat) : List ForeignKeyRow → Option (List String)
  | [] => some []
  | row :: rows =>
    match targetColumn? target place row with
    | none => none
    | some name =>
      if target.columns.contains name then
        (targetColumns? target (place + 1) rows).map (name :: ·)
      else none

/-- Enter a foreign key from its rows in order, or leave it out with a warning. -/
def addForeignKey (s : SnapshotId) (table : String) (key : Int) (rows : List ForeignKeyRow) :
    Assembly Unit := do
  let t ← edit (Edit.getTable s table)
  match rows with
  | [] => pure ()
  | first :: _ =>
    match (← now).findTable? s first.target with
    | none => warn (.targetMissing first.target key table)
    | some target =>
      let view := (← now).table target
      match targetColumns? view 0 rows with
      | none => warn (.targetColumnsMissing key table view.name)
      | some names =>
        let made ← attempt (Edit.createForeignKey t
          { target := .handle target
            localColumns := rows.map fun r => .named r.localColumn
            foreignColumns := names.map .named
            onUpdate := first.onUpdate
            onDelete := first.onDelete })
        match made with
        | .ok _ => pure ()
        -- A key that breaks a rule is left out; an unknown column or action ends the assembly.
        | .error (.violation cause) => warn (.unsupportedKey key table cause)
        | .error e => throw e

/-! ### Indexes -/

/-- Whether a table has a unique constraint over these columns in this order. -/
def hasUnique (t : Table) (columns : List String) : Bool :=
  t.uniques.any fun u => columnNames u.columns == columns

/-- The names of the columns of an index, if none of them is an expression. -/
def indexedColumns? : List IndexRow → Option (List String)
  | [] => some []
  | row :: rows =>
    match row.column with
    | none => none
    | some name => (indexedColumns? rows).map (name :: ·)

/-- Enter an index from its rows in order: as a unique constraint where it is unique, and as an index
where a statement made it. The index of a primary key is left out. -/
def addIndex (s : SnapshotId) (table index : String) (rows : List IndexRow) : Assembly Unit := do
  match rows with
  | [] => pure ()
  | first :: _ =>
    -- The column rows have told the primary key already.
    if first.origin == "pk" then return ()
    match indexedColumns? rows with
    | none => warn (.expressionIndex index table)
    | some names =>
      let t ← edit (Edit.getTable s table)
      let columns := names.map ColumnRef.named
      if first.unique ≠ 0 && !hasUnique ((← now).table t) names then
        let _ ← edit (Edit.createUnique t columns)
      if first.origin == "c" && !Selection.startsWith index "sqlite_autoindex" then
        let _ ← edit (Edit.createIndex t index columns (first.unique == 1))

/-! ### The whole snapshot -/

structure Answers where
  columns : List ColumnRow
  foreignKeys : List ForeignKeyRow
  indexes : List IndexRow

def Answers.keep (start : Option String) (a : Answers) : Answers where
  columns := a.columns.filter fun r => isKept start r.table
  foreignKeys := a.foreignKeys.filter fun r => isKept start r.table
  indexes := a.indexes.filter fun r => isKept start r.table

def addColumns (s : SnapshotId) (rows : List ColumnRow) : Assembly Unit :=
  rows.forM (addColumn s)

def addForeignKeys (s : SnapshotId) (rows : List ForeignKeyRow) : Assembly Unit :=
  (groupBy (fun r => (r.table, r.key)) rows).forM fun g =>
    addForeignKey s g.1.1 g.1.2 (byPosition ForeignKeyRow.position g.2)

def addIndexes (s : SnapshotId) (rows : List IndexRow) : Assembly Unit :=
  (groupBy (fun r => (r.table, r.index)) rows).forM fun g =>
    addIndex s g.1.1 g.1.2 (byPosition IndexRow.position g.2)

/-- The snapshot that the rows of kept tables describe. -/
def assemble (start : Option String) (answers : Answers) : Assembly SnapshotId := do
  let kept := answers.keep start
  let s ← edit Edit.createSnapshot
  addColumns s kept.columns
  addForeignKeys s kept.foreignKeys
  addIndexes s kept.indexes
  pure s

end SchemaSync.Rows
