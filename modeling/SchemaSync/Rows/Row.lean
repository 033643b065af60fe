import SchemaSync.Rows.Cell

/-!
# Catalog rows

The three queries that read the schema of a database, and the rows that answer them: one row per column,
one per column of a foreign key, and one per column of an index.
-/

namespace SchemaSync.Rows

inductive Query where
  | columns
  | foreignKeys
  | indexes
  deriving DecidableEq

namespace Query

def name : Query → String
  | columns => "columns"
  | foreignKeys => "foreign_keys"
  | indexes => "indexes"

def sql : Query → String
  | columns => "
SELECT
    m.name AS table_name,
    c.name AS column_name,
    c.type AS column_type,
    c.pk AS column_pk,
    c.\"notnull\" AS column_notnull,
    c.dflt_value AS column_default
FROM sqlite_master AS m
JOIN pragma_table_info(m.name) AS c
WHERE m.type = 'table'
ORDER BY m.rowid, c.cid
"
  | foreignKeys => "
SELECT
    m.name AS table_name,
    f.id AS foreign_key_id,
    f.seq AS foreign_key_seq,
    f.\"table\" AS foreign_key_table,
    f.\"from\" AS foreign_key_from,
    f.\"to\" AS foreign_key_to,
    f.on_update AS foreign_key_on_update,
    f.on_delete AS foreign_key_on_delete
FROM sqlite_master AS m
JOIN pragma_foreign_key_list(m.name) AS f
WHERE m.type = 'table'
ORDER BY m.rowid, f.id, f.seq
"
  | indexes => "
SELECT
    m.name AS table_name,
    l.name AS index_name,
    l.\"unique\" AS index_unique,
    l.origin AS index_origin,
    i.name AS index_column_name,
    i.seqno AS index_column_seqno
FROM sqlite_master AS m
JOIN pragma_index_list(m.name) AS l
JOIN pragma_index_info(l.name) AS i
WHERE m.type = 'table'
ORDER BY m.rowid, l.name, i.seqno
"

def all : List Query := [columns, foreignKeys, indexes]

def ofSql? (sql : String) : Option Query := all.find? fun q => q.sql == sql

def columnNames : Query → List String
  | columns => ["table_name", "column_name", "column_type", "column_pk", "column_notnull",
      "column_default"]
  | foreignKeys => ["table_name", "foreign_key_id", "foreign_key_seq", "foreign_key_table",
      "foreign_key_from", "foreign_key_to", "foreign_key_on_update", "foreign_key_on_delete"]
  | indexes => ["table_name", "index_name", "index_unique", "index_origin", "index_column_name",
      "index_column_seqno"]

end Query

structure ColumnRow where
  table : String
  column : String
  type : String
  /-- The primary key slot, or a number that is not positive. -/
  slot : Int
  /-- The column must not be null where this is `1`. -/
  notNull : Int
  default : Option String
  deriving DecidableEq

structure ForeignKeyRow where
  table : String
  /-- The number of the foreign key on its table. -/
  key : Int
  /-- The place of the column in the foreign key. -/
  position : Int
  target : String
  localColumn : String
  /-- The target column; null stands for the target's primary key. -/
  foreignColumn : Option String
  onUpdate : String
  onDelete : String
  deriving DecidableEq

structure IndexRow where
  table : String
  index : String
  unique : Int
  /-- How the index came about: `c` by a statement, `u` by a unique constraint, `pk` by the key. -/
  origin : String
  /-- The column; null stands for an expression. -/
  column : Option String
  /-- The place of the column in the index. -/
  position : Int
  deriving DecidableEq

def ColumnRow.read (r : NamedRow) : Checked ColumnRow :=
  ColumnRow.mk <$> field readText none r "table_name" <*> field readText none r "column_name" <*>
    field readText (some "") r "column_type" <*> field readInt (some 0) r "column_pk" <*>
    field readInt (some 0) r "column_notnull" <*>
    field readTextOrNull (some none) r "column_default"

def ForeignKeyRow.read (r : NamedRow) : Checked ForeignKeyRow :=
  ForeignKeyRow.mk <$> field readText none r "table_name" <*>
    field readInt none r "foreign_key_id" <*> field readInt none r "foreign_key_seq" <*>
    field readText none r "foreign_key_table" <*> field readText none r "foreign_key_from" <*>
    field readTextOrNull (some none) r "foreign_key_to" <*>
    field readText (some "NO ACTION") r "foreign_key_on_update" <*>
    field readText (some "NO ACTION") r "foreign_key_on_delete"

def IndexRow.read (r : NamedRow) : Checked IndexRow :=
  IndexRow.mk <$> field readText none r "table_name" <*> field readText none r "index_name" <*>
    field readInt (some 0) r "index_unique" <*> field readText (some "c") r "index_origin" <*>
    field readTextOrNull (some none) r "index_column_name" <*>
    field readInt (some 0) r "index_column_seqno"

/-- Read rows until the first one that cannot be read. -/
def readRows {α : Type} (read : NamedRow → Checked α) (names : List String) :
    List (List Cell) → Except (List FieldProblem) (List α)
  | [] => pure []
  | cells :: rest => do
    let first ← (read (nameCells names cells)).toExcept
    pure (first :: (← readRows read names rest))

end SchemaSync.Rows
