import SchemaSync.Diff.Planning
import SchemaSync.Proofs.OrderedMap

/-!
# What operations do to a database

A database as far as operations change it: tables as their definitions make them, and indexes by name.
The references of single columns are left out, since attaching and detaching them changes no table,
column or index.

Every operation acts on each name by itself: what a run leaves under a name is a fold over what it
found there (`Database.get?_tables_run`, `Database.get?_indexes_run`). The proofs about plans follow
one name at a time through the operations that touch it.
-/

namespace SchemaSync

/-! ## Definitions -/

structure ColumnForm where
  type : ColumnType
  notNull : Bool
  default : Option String
  autoIncrement : Bool
  deriving DecidableEq

structure KeyForm where
  localColumns : List String
  foreignColumns : List String
  target : String
  onUpdate : Action
  onDelete : Action
  deriving DecidableEq

/-- A table as it is defined: its columns in order, its key, its unique constraints and its foreign
keys over several columns. -/
structure TableForm where
  columns : OrderedMap String ColumnForm
  primaryKey : List String
  uniques : List (List String)
  foreignKeys : List KeyForm
  deriving DecidableEq

structure IndexForm where
  table : String
  columns : List String
  unique : Bool
  deriving DecidableEq

structure Database where
  tables : OrderedMap String TableForm
  indexes : OrderedMap String IndexForm

def Column.form (c : Column) : ColumnForm where
  type := c.type
  notNull := c.notNull
  default := c.default
  autoIncrement := c.autoIncrement

def ForeignKey.form (f : ForeignKey) : KeyForm where
  localColumns := columnNames f.localColumns
  foreignColumns := columnNames f.foreignColumns
  target := f.targetName
  onUpdate := f.onUpdate
  onDelete := f.onDelete

def Table.form (t : Table) : TableForm where
  columns := t.columns.map Column.form
  primaryKey := columnNames t.primaryKey
  uniques := t.uniques.map fun u => columnNames u.columns
  foreignKeys := (t.foreignKeys.filter fun f => !f.isSingleColumn).map ForeignKey.form

def Index.form (i : Index) : IndexForm where
  table := i.ownerName
  columns := columnNames i.columns
  unique := i.unique

/-- The database that a snapshot describes. -/
def Snapshot.database (s : Snapshot) : Database where
  tables := s.tables.map Table.form
  indexes := s.indexesByName.map Index.form

/-! ## Operations -/

def TableForm.withoutColumn (t : TableForm) (name : String) : TableForm :=
  { t with columns := t.columns.erase name }

namespace Database

def editTable (db : Database) (name : String) (f : TableForm → TableForm) : Database :=
  match db.tables.get? name with
  | some t => { db with tables := db.tables.insert name (f t) }
  | none => db

def withoutTable (db : Database) (name : String) : Database where
  tables := db.tables.erase name
  indexes := db.indexes.filter fun _ i => i.table != name

end Database

namespace Operation

/-- The effect of an operation. An index is created only if its name is free. -/
def apply (db : Database) : Operation → Database
  | dropIndex _ name => { db with indexes := db.indexes.erase name }
  | createTable table _ => { db with tables := db.tables.insert table.name table.form }
  | dropTable name => db.withoutTable name
  | addColumn table column =>
    db.editTable table fun t => { t with columns := t.columns.insert column.name column.form }
  | dropColumn table name => db.editTable table fun t => t.withoutColumn name
  | recreateTable current desired _ _ =>
    { db.withoutTable current.name with
      tables := (db.withoutTable current.name).tables.insert desired.name desired.form }
  | createIndex table name columns =>
    { db with indexes := db.indexes.insertNew name ⟨table, columns, false⟩ }
  | dropForeignKey _ _ | addForeignKey _ _ _ => db

def onTable (n : String) (x : Option TableForm) : Operation → Option TableForm
  | createTable table _ => if table.name = n then some table.form else x
  | dropTable name => if name = n then none else x
  | addColumn table column =>
    if table = n then x.map fun t => { t with columns := t.columns.insert column.name column.form }
    else x
  | dropColumn table name => if table = n then x.map fun t => t.withoutColumn name else x
  | recreateTable current desired _ _ =>
    if desired.name = n then some desired.form else if current.name = n then none else x
  | dropIndex _ _ | dropForeignKey _ _ | addForeignKey _ _ _ | createIndex _ _ _ => x

def onIndex (n : String) (x : Option IndexForm) : Operation → Option IndexForm
  | dropIndex _ name => if name = n then none else x
  | dropTable name => x.filter fun i => i.table != name
  | recreateTable current _ _ _ => x.filter fun i => i.table != current.name
  | createIndex table name columns => x.or (if name = n then some ⟨table, columns, false⟩ else none)
  | createTable _ _ | addColumn _ _ | dropColumn _ _ | dropForeignKey _ _ | addForeignKey _ _ _ => x

end Operation

/-! ## Runs -/

namespace Database

variable {db : Database}

def run (db : Database) (ops : List Operation) : Database := ops.foldl Operation.apply db

theorem run_append (ops more : List Operation) : db.run (ops ++ more) = (db.run ops).run more :=
  List.foldl_append

theorem get?_tables_editTable (name n : String) (f : TableForm → TableForm) :
    (db.editTable name f).tables.get? n =
      if name = n then (db.tables.get? n).map f else db.tables.get? n := by
  unfold editTable
  cases ht : db.tables.get? name with
  | none =>
      by_cases hn : name = n
      · rw [if_pos hn, ← hn, ht, Option.map_none]
      · rw [if_neg hn]
  | some t =>
      show (db.tables.insert name (f t)).get? n = _
      rw [OrderedMap.get?_insert]
      by_cases hn : name = n
      · rw [if_pos hn, if_pos hn, ← hn, ht, Option.map_some]
      · rw [if_neg hn, if_neg hn]

theorem get?_tables_apply (op : Operation) (n : String) :
    (op.apply db).tables.get? n = op.onTable n (db.tables.get? n) := by
  have herase : ∀ name, (db.withoutTable name).tables.get? n =
      if name = n then none else db.tables.get? n := by
    intro name
    show (db.tables.erase name).get? n = _
    rw [OrderedMap.get?_erase]
    exact if_congr eq_comm rfl rfl
  cases op with
  | createTable table references => exact OrderedMap.get?_insert _ _ _ _
  | dropTable name => exact herase name
  | addColumn table column => exact get?_tables_editTable _ _ _
  | dropColumn table name => exact get?_tables_editTable _ _ _
  | recreateTable current desired reasons suffix =>
      show ((db.withoutTable current.name).tables.insert desired.name desired.form).get? n = _
      rw [OrderedMap.get?_insert, herase]
      rfl
  | dropIndex table name => rfl
  | dropForeignKey table column => rfl
  | addForeignKey table column f => rfl
  | createIndex table name columns => rfl

theorem indexes_editTable (name : String) (f : TableForm → TableForm) :
    (db.editTable name f).indexes = db.indexes := by
  unfold editTable
  split <;> rfl

theorem get?_indexes_apply (op : Operation) (n : String) :
    (op.apply db).indexes.get? n = op.onIndex n (db.indexes.get? n) := by
  cases op with
  | dropIndex table name =>
      show (db.indexes.erase name).get? n = _
      rw [OrderedMap.get?_erase]
      exact if_congr eq_comm rfl rfl
  | dropTable name => exact OrderedMap.get?_filter _ _ _
  | recreateTable current desired reasons suffix => exact OrderedMap.get?_filter _ _ _
  | createIndex table name columns => exact OrderedMap.get?_insertNew _ _ _ _
  | addColumn table column =>
      show (db.editTable _ _).indexes.get? n = _
      rw [indexes_editTable]
      rfl
  | dropColumn table name =>
      show (db.editTable _ _).indexes.get? n = _
      rw [indexes_editTable]
      rfl
  | createTable table references => rfl
  | dropForeignKey table column => rfl
  | addForeignKey table column f => rfl

/-- A run leaves under a table name what its operations make of what was there. -/
theorem get?_tables_run (ops : List Operation) (n : String) :
    (db.run ops).tables.get? n = ops.foldl (fun x op => op.onTable n x) (db.tables.get? n) := by
  induction ops generalizing db with
  | nil => rfl
  | cons op ops ih =>
      show ((op.apply db).run ops).tables.get? n = _
      rw [ih, get?_tables_apply]
      rfl

/-- A run leaves under an index name what its operations make of what was there. -/
theorem get?_indexes_run (ops : List Operation) (n : String) :
    (db.run ops).indexes.get? n = ops.foldl (fun x op => op.onIndex n x) (db.indexes.get? n) := by
  induction ops generalizing db with
  | nil => rfl
  | cons op ops ih =>
      show ((op.apply db).run ops).indexes.get? n = _
      rw [ih, get?_indexes_apply]
      rfl

end Database
end SchemaSync
