import SchemaSync.Schema.Basic
import SchemaSync.Sql.Shadow
import SchemaSync.Sql.Statement

/-!
# Statements made of schema parts

Column definitions, `CREATE TABLE`, the statements that add a column, attach or detach the reference of
a column, and the rebuild of a table through a shadow table.
-/

namespace SchemaSync.Sql

open Identifier (quote quoteList)

inductive RenderError where
  /-- The reference of a foreign key without foreign columns. -/
  | referenceWithoutColumn
  deriving DecidableEq

def RenderError.message : RenderError → String
  | referenceWithoutColumn => "list index out of range"

/-! ### Columns -/

/-- A column definition with the given default, or with a placeholder of its type when there is none
and one is forced. -/
def defineColumn (c : Column) (default : Option String) (forceDefault : Bool) : String :=
  let value :=
    match default with
    | some v => some v
    | none => if forceDefault then some c.type.placeholder else none
  " ".intercalate ([quote c.name] ++
    (if c.type = .unknown then [] else [c.type.keyword]) ++
    (if c.notNull then ["NOT NULL"] else []) ++
    (if c.autoIncrement then ["AUTO_INCREMENT"] else []) ++
    (value.map ("DEFAULT " ++ ·)).toList)

def definition (c : Column) : String := defineColumn c c.default false

def actions (f : ForeignKey) : String :=
  " ON DELETE " ++ f.onDelete.keyword ++ " ON UPDATE " ++ f.onUpdate.keyword

/-- The reference of a foreign key over a single column, to stand in the column's definition. -/
def references (f : ForeignKey) : Except RenderError String :=
  match f.foreignColumns with
  | [] => throw .referenceWithoutColumn
  | c :: _ =>
    pure ("REFERENCES " ++ quote f.targetName ++ "(" ++ quote c.name ++ ")" ++ actions f)

def alterTable (table : String) : String := "ALTER TABLE " ++ quote table

def alterColumn (table column definition : String) : String :=
  alterTable table ++ " ALTER COLUMN " ++ quote column ++ " TO " ++ definition

/-- Add a column with the given default. A column that must not be null and has no default is added
with a placeholder, so that existing rows get a legal value, and then redefined. -/
def addColumnWith (table : String) (c : Column) (default : Option String) : List String :=
  if c.notNull && default.isNone then
    [alterTable table ++ " ADD COLUMN " ++ defineColumn c none true,
      alterColumn table c.name (defineColumn c none false)]
  else [alterTable table ++ " ADD COLUMN " ++ defineColumn c default false]

def addColumn (table : String) (c : Column) : List String := addColumnWith table c c.default

/-- Detach the reference of a column: its definition is replaced by one without it. -/
def dropForeignKey (table : String) (c : Column) : String := alterColumn table c.name (definition c)

/-- Attach the reference of a column: its definition is replaced by one with it. -/
def addForeignKey (table : String) (c : Column) (f : ForeignKey) : Except RenderError String := do
  pure (alterColumn table c.name (definition c ++ " " ++ (← references f)))

/-! ### Tables -/

def columnList (columns : List Column) : String := quoteList (columnNames columns)

/-- The foreign key over a single column that a column's definition refers by; the last one counts. -/
def referenceOf? (t : Table) (c : Column) : Option ForeignKey :=
  t.foreignKeys.reverse.find? fun f => f.singleColumn?.map Column.name == some c.name

def foreignKeyRow (f : ForeignKey) : String :=
  "FOREIGN KEY (" ++ columnList f.localColumns ++ ") REFERENCES " ++ quote f.targetName ++ "(" ++
    columnList f.foreignColumns ++ ")" ++ actions f

/-- The rows of a table after its columns: primary key, foreign keys over several columns, unique
constraints. -/
def constraintRows (t : Table) : List String :=
  (if t.primaryKey.isEmpty then [] else ["PRIMARY KEY (" ++ columnList t.primaryKey ++ ")"]) ++
    (t.foreignKeys.filter fun f => !f.isSingleColumn).map foreignKeyRow ++
    t.uniques.map fun u => "UNIQUE (" ++ columnList u.columns ++ ")"

def createTableOf (name : String) (rows : List String) : String :=
  "CREATE TABLE " ++ quote name ++ " (\n" ++ ",\n".intercalate (rows.map ("    " ++ ·)) ++ "\n)"

/-- Create a table under a name, without the references of its columns. -/
def createTableAs (name : String) (t : Table) : String :=
  createTableOf name (t.columns.values.map definition ++ constraintRows t)

/-- The row of a column with its reference, if it has one. -/
def referringRow (t : Table) (c : Column) : Except RenderError String :=
  match referenceOf? t c with
  | none => pure (definition c)
  | some f => do pure (definition c ++ " " ++ (← references f))

/-- Create a table under a name, with the references of its columns. -/
def createReferringTableAs (name : String) (t : Table) : Except RenderError String := do
  pure (createTableOf name ((← t.columns.values.mapM (referringRow t)) ++ constraintRows t))

/-- Create a table, with or without the references of its columns, under a name of its own or under
another one; an empty other name counts as none. -/
def createTable (t : Table) (withReferences : Bool) (name : Option String) :
    Except RenderError String :=
  let name := match name with
    | none => t.name
    | some n => if n == "" then t.name else n
  if withReferences then createReferringTableAs name t else pure (createTableAs name t)

/-! ### Rebuilding -/

/-- What a new column that must be unique is filled with, row by row. -/
def uniqueFill : String := "(abs(random()) % 10000000)"

/-- Whether a column is in the primary key or alone in a unique constraint, by its name. -/
def mustBeUnique (t : Table) (name : String) : Bool :=
  (columnNames t.primaryKey).contains name ||
    t.uniques.any fun u => columnNames u.columns == [name]

def addMissingColumn (table : String) (desired : Table) (c : Column) : List String :=
  -- A default would give all rows one value, so a column that must be unique is filled apart.
  let unique := mustBeUnique desired c.name
  let default := if unique then c.type.placeholder else c.default.getD c.type.placeholder
  addColumnWith table c (some default) ++
    if unique then ["UPDATE " ++ quote table ++ " SET " ++ quote c.name ++ " = " ++ uniqueFill]
    else []

/-- Rebuild `current` into the form of `desired` and keep its rows: add the new columns, create the
shadow table, copy the rows, drop the old table and give its name to the shadow. -/
def recreateTable (current desired : Table) (suffix : String) : List String :=
  let shadow := Shadow.tableName desired.name suffix
  let added := desired.columns.values.filter fun c => !current.columns.contains c.name
  added.flatMap (addMissingColumn current.name desired) ++
    [createTableAs shadow desired,
      copyRows current.name shadow desired.columns.keys,
      dropTable current.name,
      renameTable shadow current.name]

end SchemaSync.Sql
